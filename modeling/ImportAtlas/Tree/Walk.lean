import ImportAtlas.Tree.Basic

/-! Walking a module. The walk lists the nodes of a module in source order, each
before what it contains. A name or a literal that only repeats another node, as
the value of a shorthand property and the binding of a specifier that renames
nothing do, is not listed a second time. -/

namespace ImportAtlas

/-- A node met on a walk. Statements, expressions and keys are met twice: first as
what stands at that place, and then as the particular node they are. -/
inductive Node where
  | file (module : Module)
  | program (module : Module)
  | statement (statement : Statement)
  | declaration (statement : Statement)
  | specifier (specifier : ImportSpecifier)
  | declarator (declarator : VariableDeclarator)
  | expression (expr : Expr)
  | identifier (name : Identifier)
  | string (literal : StringLiteral)
  | number (literal : NumberLiteral)
  /-- An expression with a structure of its own. -/
  | compound (expr : Expr)
  | property (property : Property)
  | key (key : PropertyKey)

/-- The name of a statement's kind. -/
def Statement.kindName : Statement → String
  | importDeclaration _ => "ImportDeclaration"
  | defaultExport _ => "ExportDefaultDeclaration"
  | variableDeclaration _ => "VariableDeclaration"

/-- The name of an expression's kind. -/
def Expr.kindName : Expr → String
  | identifier _ => "Identifier"
  | string _ => "StringLiteral"
  | number _ => "NumericLiteral"
  | object _ => "ObjectExpression"
  | array .. => "ArrayExpression"
  | call .. => "CallExpression"
  | arrow .. => "ArrowFunctionExpression"
  | dynamicImport _ => "ImportExpression"
  | member .. => "MemberExpression"

/-- The nodes of a key. -/
def PropertyKey.walk : PropertyKey → List Node
  | identifier name => [.key (identifier name), .identifier name]
  | string literal => [.key (string literal), .string literal]

mutual

/-- The nodes of an expression. -/
def Expr.walk : Expr → List Node
  | .identifier name => [.expression (.identifier name), .identifier name]
  | .string literal => [.expression (.string literal), .string literal]
  | .number literal => [.expression (.number literal), .number literal]
  | .object literal =>
    .expression (.object literal) :: .compound (.object literal) :: literal.walk
  | .array span elements =>
    .expression (.array span elements) :: .compound (.array span elements) ::
      Expr.walkAll elements
  | .call span callee arguments =>
    .expression (.call span callee arguments) :: .compound (.call span callee arguments) ::
      (callee.walk ++ Expr.walkAll arguments)
  | .arrow span params body isAsync =>
    .expression (.arrow span params body isAsync) :: .compound (.arrow span params body isAsync) ::
      (params.map .identifier ++ Expr.walkOption body)
  | .dynamicImport span => [.expression (.dynamicImport span), .compound (.dynamicImport span)]
  | .member span object property computed =>
    .expression (.member span object property computed) ::
      .compound (.member span object property computed) ::
      (object.walk ++ [.identifier property])

/-- The nodes of some expressions in turn. -/
def Expr.walkAll : List Expr → List Node
  | [] => []
  | expr :: rest => expr.walk ++ Expr.walkAll rest

/-- The nodes of an expression that may be missing. -/
def Expr.walkOption : Option Expr → List Node
  | none => []
  | some expr => expr.walk

/-- The nodes inside an object literal. -/
def ObjectLiteral.walk : ObjectLiteral → List Node
  | ⟨_, _, properties⟩ => Property.walkAll properties

/-- The nodes of a property. -/
def Property.walk : Property → List Node
  | ⟨span, key, value, shorthand, computed, method⟩ =>
    .property ⟨span, key, value, shorthand, computed, method⟩ ::
      (key.walk ++ if shorthand then [] else Expr.walkOption value)

/-- The nodes of some properties in turn. -/
def Property.walkAll : List Property → List Node
  | [] => []
  | property :: rest => property.walk ++ Property.walkAll rest

end

/-- The nodes of an import specifier. -/
def ImportSpecifier.walk (specifier : ImportSpecifier) : List Node :=
  .specifier specifier :: .identifier specifier.imported ::
    if specifier.bound = specifier.imported then [] else [.identifier specifier.bound]

/-- The nodes of one declared variable. -/
def VariableDeclarator.walk (declarator : VariableDeclarator) : List Node :=
  .declarator declarator :: .identifier declarator.name :: Expr.walkOption declarator.init

/-- The nodes inside a statement. -/
def Statement.inner : Statement → List Node
  | importDeclaration declaration =>
    declaration.specifiers.flatMap ImportSpecifier.walk ++
      declaration.source.toList.map .string
  | defaultExport declaration => Expr.walkOption declaration.value
  | variableDeclaration declaration => declaration.declarators.flatMap VariableDeclarator.walk

/-- The nodes of a statement. -/
def Statement.walk (statement : Statement) : List Node :=
  .statement statement :: .declaration statement :: statement.inner

/-- The nodes of a module. -/
def Module.walk (module : Module) : List Node :=
  .file module :: .program module :: module.body.flatMap Statement.walk

end ImportAtlas
