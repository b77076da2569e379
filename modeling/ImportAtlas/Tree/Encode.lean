import ImportAtlas.Json.Basic
import ImportAtlas.Tree.Walk

/-! Modules as JSON values. Statements, expressions and keys say in a field `type`
what they are; every node has a field `span`. -/

namespace ImportAtlas

/-- A position with its line, column and offset. -/
def Position.toJson (p : Position) : Json :=
  .object [("line", .number p.line), ("column", .number p.column), ("offset", .number p.offset)]

/-- A span with its two ends. -/
def Span.toJson (s : Span) : Json :=
  .object [("start", s.start.toJson), ("end", s.stop.toJson)]

/-- The fields of a name. -/
def Identifier.fields (name : Identifier) : List (String × Json) :=
  [("span", name.span.toJson), ("name", .string name.name)]

/-- A name as an object. -/
def Identifier.toJson (name : Identifier) : Json :=
  .object name.fields

/-- The fields of a string literal. -/
def StringLiteral.fields (literal : StringLiteral) : List (String × Json) :=
  [("span", literal.span.toJson), ("value", .string literal.value)]

/-- The field that says what a node is, before the node's own fields. -/
def Json.tagged (tag : String) (fields : List (String × Json)) : Json :=
  .object (("type", .string tag) :: fields)

/-- A key as an object. -/
def PropertyKey.toJson : PropertyKey → Json
  | identifier name => Json.tagged "Identifier" name.fields
  | string literal => Json.tagged "StringLiteral" literal.fields

mutual

/-- An expression as an object. -/
def Expr.toJson : Expr → Json
  | .identifier name => Json.tagged "Identifier" name.fields
  | .string literal => Json.tagged "StringLiteral" literal.fields
  | .number literal =>
    Json.tagged "NumericLiteral"
      [("span", literal.span.toJson), ("raw", .string literal.raw)]
  | .object literal => literal.toJson
  | .array span elements =>
    Json.tagged "ArrayExpression"
      [("span", span.toJson), ("elements", .array (Expr.toJsonAll elements))]
  | .call span callee arguments =>
    Json.tagged "CallExpression"
      [("span", span.toJson), ("callee", callee.toJson),
       ("arguments", .array (Expr.toJsonAll arguments))]
  | .arrow span params body isAsync =>
    Json.tagged "ArrowFunctionExpression"
      [("span", span.toJson), ("params", .array (params.map Identifier.toJson)),
       ("body", Expr.toJsonOption body), ("is_async", .bool isAsync)]
  | .dynamicImport span => Json.tagged "ImportExpression" [("span", span.toJson)]
  | .member span object property computed =>
    Json.tagged "MemberExpression"
      [("span", span.toJson), ("object", object.toJson), ("property", property.toJson),
       ("computed", .bool computed)]

/-- Some expressions as objects. -/
def Expr.toJsonAll : List Expr → List Json
  | [] => []
  | expr :: rest => expr.toJson :: Expr.toJsonAll rest

/-- An expression as an object, or null for a missing one. -/
def Expr.toJsonOption : Option Expr → Json
  | none => .null
  | some expr => expr.toJson

/-- An object literal as an object. -/
def ObjectLiteral.toJson : ObjectLiteral → Json
  | ⟨span, id, properties⟩ =>
    Json.tagged "ObjectExpression"
      [("span", span.toJson), ("id", .number id),
       ("properties", .array (Property.toJsonAll properties))]

/-- A property as an object. -/
def Property.toJson : Property → Json
  | ⟨span, key, value, shorthand, computed, method⟩ =>
    .object
      [("span", span.toJson), ("key", key.toJson), ("value", Expr.toJsonOption value),
       ("shorthand", .bool shorthand), ("computed", .bool computed), ("method", .bool method)]

/-- Some properties as objects. -/
def Property.toJsonAll : List Property → List Json
  | [] => []
  | property :: rest => property.toJson :: Property.toJsonAll rest

end

/-- The name of a specifier's kind. -/
def SpecifierKind.name : SpecifierKind → String
  | default => "default"
  | named => "named"
  | star => "namespace"

/-- A specifier as an object. -/
def ImportSpecifier.toJson (specifier : ImportSpecifier) : Json :=
  .object
    [("span", specifier.span.toJson), ("specifier_kind", .string specifier.kind.name),
     ("imported", specifier.imported.toJson), ("local", specifier.bound.toJson)]

/-- A declared variable as an object. -/
def VariableDeclarator.toJson (declarator : VariableDeclarator) : Json :=
  .object
    [("span", declarator.span.toJson), ("id", declarator.name.toJson),
     ("init", Expr.toJsonOption declarator.init)]

/-- A statement as an object. -/
def Statement.toJson (statement : Statement) : Json :=
  Json.tagged statement.kindName
    (("span", statement.span.toJson) ::
      match statement with
      | importDeclaration declaration =>
        [("specifiers", .array (declaration.specifiers.map ImportSpecifier.toJson)),
         ("source", Json.ofOption (fun source => .object source.fields) declaration.source)]
      | defaultExport declaration => [("declaration", Expr.toJsonOption declaration.value)]
      | variableDeclaration declaration =>
        [("kind", .string declaration.kind.keyword),
         ("declarations", .array (declaration.declarators.map VariableDeclarator.toJson))])

/-- A module as an object. -/
def Module.toJson (module : Module) : Json :=
  .object
    [("span", module.span.toJson),
     ("program", .object
       [("span", module.span.toJson), ("source_type", .string "module"),
        ("body", .array (module.body.map Statement.toJson))])]

end ImportAtlas
