import ImportAtlas.Text.Blank
import ImportAtlas.Tree.Basic

/-! The object literals of a module and the names they stand under. A collector
goes from module to module; it remembers the numbers of the literals it has met
and takes each number once. -/

namespace ImportAtlas

/-- An object literal with the dotted path of the names around it. -/
structure ObjectRecord where
  path : Option String
  object : ObjectLiteral
  deriving Inhabited

namespace ObjectRecord

/-- The names of an object's properties, computed ones left out. -/
def keys (r : ObjectRecord) : List String :=
  r.object.properties.filterMap Property.name?

/-- A record as its path and its kind. -/
def display (r : ObjectRecord) : String :=
  r.path.getD "<anonymous>" ++ " -> ObjectExpression"

end ObjectRecord

/-- A walk through object literals: the names around the current place, the
innermost first, the numbers met, and the records in the order of the walk. -/
structure ObjectCollector where
  names : List String := []
  seen : List Nat := []
  records : List ObjectRecord := []
  deriving Inhabited

namespace ObjectCollector

/-- The part of a name that counts in a path. White space around it does not, and
a blank name counts for nothing. -/
def label? (name : Option String) : Option String :=
  (name.map Text.trimmed).filter (· ≠ "")

/-- Goes inside a name. -/
def enter (c : ObjectCollector) (name : Option String) : ObjectCollector :=
  { c with names := (label? name).toList ++ c.names }

/-- Goes outside a name again. -/
def leave (c : ObjectCollector) (name : Option String) : ObjectCollector :=
  { c with names := c.names.drop (label? name).toList.length }

/-- The dotted path of the current place, the outermost name first. -/
def path? (c : ObjectCollector) : Option String :=
  if c.names.isEmpty then none else some (".".intercalate c.names.reverse)

/-- Records an object literal at the current place. -/
def record (c : ObjectCollector) (object : ObjectLiteral) : ObjectCollector :=
  { c with seen := object.id :: c.seen, records := c.records ++ [⟨c.path?, object⟩] }

end ObjectCollector

mutual

/-- Collects the object literals of an expression. -/
def Expr.collect : Expr → ObjectCollector → ObjectCollector
  | .identifier _, c => c
  | .string _, c => c
  | .number _, c => c
  | .object literal, c => literal.collect c
  | .array _ elements, c => Expr.collectAll elements c
  | .call _ callee arguments, c => Expr.collectAll arguments (callee.collect c)
  | .arrow _ _ body _, c => Expr.collectOption body c
  | .dynamicImport _, c => c
  | .member _ object _ _, c => object.collect c

/-- Collects the object literals of some expressions in turn. -/
def Expr.collectAll : List Expr → ObjectCollector → ObjectCollector
  | [], c => c
  | expr :: rest, c => Expr.collectAll rest (expr.collect c)

/-- Collects the object literals of an expression that may be missing. -/
def Expr.collectOption : Option Expr → ObjectCollector → ObjectCollector
  | none, c => c
  | some expr, c => expr.collect c

/-- Collects an object literal and those inside it, unless its number has been
met. -/
def ObjectLiteral.collect : ObjectLiteral → ObjectCollector → ObjectCollector
  | ⟨span, id, properties⟩, c =>
    if c.seen.contains id then c
    else Property.collectAll properties (c.record ⟨span, id, properties⟩)

/-- Collects the object literals in the value of a property, under the property's
name. The value of a shorthand property is no value of its own. -/
def Property.collect : Property → ObjectCollector → ObjectCollector
  | ⟨_, key, value, shorthand, computed, _⟩, c =>
    let name := if computed then none else some key.name
    if shorthand then c else (Expr.collectOption value (c.enter name)).leave name

/-- Collects the object literals of some properties in turn. -/
def Property.collectAll : List Property → ObjectCollector → ObjectCollector
  | [], c => c
  | property :: rest, c => Property.collectAll rest (property.collect c)

end

/-- The name of a default export in a path. -/
def DefaultExport.label : String :=
  "default"

/-- Collects the object literals in the initial value of a variable, under the
variable's name. -/
def VariableDeclarator.collect (c : ObjectCollector) (declarator : VariableDeclarator) :
    ObjectCollector :=
  let name := some declarator.name.name
  (Expr.collectOption declarator.init (c.enter name)).leave name

/-- Collects the object literals of a statement. -/
def Statement.collect (c : ObjectCollector) : Statement → ObjectCollector
  | importDeclaration _ => c
  | defaultExport declaration =>
    let name := some DefaultExport.label
    (Expr.collectOption declaration.value (c.enter name)).leave name
  | variableDeclaration declaration => declaration.declarators.foldl VariableDeclarator.collect c

/-- Collects the object literals of a module. -/
def Module.collect (c : ObjectCollector) (module : Module) : ObjectCollector :=
  module.body.foldl Statement.collect c

/-- The object literals of a module. -/
def Module.objects (module : Module) : List ObjectRecord :=
  (Module.collect {} module).records

end ImportAtlas
