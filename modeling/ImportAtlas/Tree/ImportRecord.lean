import ImportAtlas.Tree.Basic

/-! What a module imports: one record for each import declaration with a source. -/

namespace ImportAtlas

/-- A source and the names that are imported from it. -/
structure ImportRecord where
  source : String
  names : List String
  deriving DecidableEq, Repr, Inhabited

namespace ImportRecord

/-- Whether a record imports a name. -/
def imports (r : ImportRecord) (name : String) : Bool :=
  r.names.contains name

/-- The record of a statement, if it is an import with a source. -/
def ofStatement? : Statement → Option ImportRecord
  | .importDeclaration declaration =>
    declaration.source.map fun source =>
      ⟨source.unquoted, declaration.specifiers.map (·.imported.name)⟩
  | _ => none

end ImportRecord

/-- The import records of a module in source order. -/
def Module.imports (module : Module) : List ImportRecord :=
  module.body.filterMap ImportRecord.ofStatement?

end ImportAtlas
