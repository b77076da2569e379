import ImportAtlas.Span
import ImportAtlas.Text.Quoted

/-! The tree of a module. It holds what matters to its imports, its default
export and its object literals: import declarations, variable declarations and
the expressions that are built from names, literals, objects, arrays, calls,
member accesses and arrow functions. -/

namespace ImportAtlas

/-- A name with its place. -/
structure Identifier where
  span : Span
  name : String
  deriving DecidableEq, Repr, Inhabited

/-- A string or template literal. The value keeps its quotes. -/
structure StringLiteral where
  span : Span
  value : String
  deriving DecidableEq, Repr, Inhabited

/-- The content of a literal, without its quotes. -/
def StringLiteral.unquoted (literal : StringLiteral) : String :=
  Text.unquoted literal.value

/-- A number literal in its source spelling. -/
structure NumberLiteral where
  span : Span
  raw : String
  deriving DecidableEq, Repr, Inhabited

/-- What a property is called: a name, or a literal. -/
inductive PropertyKey where
  | identifier (name : Identifier)
  | string (literal : StringLiteral)
  deriving DecidableEq, Repr, Inhabited

/-- The place of a key. -/
def PropertyKey.span : PropertyKey → Span
  | identifier name => name.span
  | string literal => literal.span

/-- The name a key stands for, without quotes. -/
def PropertyKey.name : PropertyKey → String
  | identifier name => name.name
  | string literal => literal.unquoted

mutual

/-- An expression of a modelled shape. -/
inductive Expr where
  | identifier (name : Identifier)
  | string (literal : StringLiteral)
  | number (literal : NumberLiteral)
  | object (literal : ObjectLiteral)
  | array (span : Span) (elements : List Expr)
  | call (span : Span) (callee : Expr) (arguments : List Expr)
  | arrow (span : Span) (params : List Identifier) (body : Option Expr) (isAsync : Bool)
  /-- The callee `import` of a dynamic import. -/
  | dynamicImport (span : Span)
  | member (span : Span) (object : Expr) (property : Identifier) (computed : Bool)

/-- An object literal. Its number is unique in its file. -/
structure ObjectLiteral where
  span : Span
  id : Nat
  properties : List Property

/-- A property of an object literal. A method has no value, and the value of a
shorthand property repeats its key. -/
structure Property where
  span : Span
  key : PropertyKey
  value : Option Expr
  shorthand : Bool
  computed : Bool
  method : Bool

end

instance : Inhabited Expr := ⟨.identifier default⟩
instance : Inhabited ObjectLiteral := ⟨⟨default, 0, []⟩⟩
instance : Inhabited Property := ⟨⟨default, default, none, false, false, false⟩⟩

/-- The name of a property. The name of a computed one is not known. -/
def Property.name? (property : Property) : Option String :=
  if property.computed then none else some property.key.name

/-- Where the first property with the given name stands. -/
def ObjectLiteral.propertyIndex? (object : ObjectLiteral) (name : String) : Option Nat :=
  object.properties.findIdx? (·.name? == some name)

/-- The first property with the given name. -/
def ObjectLiteral.property? (object : ObjectLiteral) (name : String) : Option Property :=
  object.properties.find? (·.name? == some name)

namespace Expr

/-- The place of an expression. -/
def span : Expr → Span
  | identifier name => name.span
  | string literal => literal.span
  | number literal => literal.span
  | object literal => literal.span
  | array span _ => span
  | call span _ _ => span
  | arrow span _ _ _ => span
  | dynamicImport span => span
  | member span _ _ _ => span

/-- Whether an expression is the callee of a dynamic import. -/
def isDynamicImport : Expr → Bool
  | dynamicImport _ => true
  | _ => false

/-- The dotted name of a chain of member accesses on a name. -/
def dottedName? : Expr → Option String
  | member _ (identifier name) property _ => some (name.name ++ "." ++ property.name)
  | member _ (member span target inner computed) property _ =>
    (dottedName? (member span target inner computed)).map (· ++ "." ++ property.name)
  | _ => none

end Expr

/-- How an import specifier binds its name. -/
inductive SpecifierKind where
  /-- The default export under a name of the importer's choice. -/
  | default
  /-- One named export, possibly renamed. -/
  | named
  /-- All exports together under one name. -/
  | star
  deriving DecidableEq, Repr, Inhabited

/-- One binding of an import declaration: what is imported, and the name it is
bound to. -/
structure ImportSpecifier where
  span : Span
  kind : SpecifierKind
  imported : Identifier
  bound : Identifier
  deriving DecidableEq, Repr, Inhabited

/-- An import declaration. A malformed one may lack its source. -/
structure ImportDeclaration where
  span : Span
  specifiers : List ImportSpecifier
  source : Option StringLiteral
  deriving DecidableEq, Repr, Inhabited

/-- The default export of a module, with its expression if that is modelled. -/
structure DefaultExport where
  span : Span
  value : Option Expr
  deriving Inhabited

/-- The keyword of a variable declaration. -/
inductive VariableKind where
  | const
  | let_
  | var
  deriving DecidableEq, Repr, Inhabited

/-- The spelling of a declaration keyword. -/
def VariableKind.keyword : VariableKind → String
  | const => "const"
  | let_ => "let"
  | var => "var"

/-- The declaration keyword with the given spelling. -/
def VariableKind.ofKeyword? (word : String) : Option VariableKind :=
  [const, let_, var].find? (·.keyword == word)

/-- One name of a variable declaration, with its initial value if that is
modelled. -/
structure VariableDeclarator where
  span : Span
  name : Identifier
  init : Option Expr
  deriving Inhabited

/-- A variable declaration. -/
structure VariableDeclaration where
  span : Span
  kind : VariableKind
  declarators : List VariableDeclarator
  deriving Inhabited

/-- A statement of a modelled shape. -/
inductive Statement where
  | importDeclaration (declaration : ImportDeclaration)
  | defaultExport (declaration : DefaultExport)
  | variableDeclaration (declaration : VariableDeclaration)
  deriving Inhabited

/-- The place of a statement. -/
def Statement.span : Statement → Span
  | importDeclaration declaration => declaration.span
  | defaultExport declaration => declaration.span
  | variableDeclaration declaration => declaration.span

/-- The tree of one module. -/
structure Module where
  span : Span
  body : List Statement
  deriving Inhabited

end ImportAtlas
