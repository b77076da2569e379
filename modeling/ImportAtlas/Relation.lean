import ImportAtlas.Graph.Cycle
import ImportAtlas.Table
import ImportAtlas.Tree.ImportRecord

/-! Relations between the files of a project: which files a file imports, which
names it takes from which source, and what that says about whole projects. -/

namespace ImportAtlas

/-- A file, the project files that it imports, and the names that it imports from
each source. -/
structure FileRelation where
  target : Path
  files : List Path
  imports : Table (List String)
  deriving DecidableEq, Repr, Inhabited

/-- The imports of one file. -/
structure FileImports where
  file : Path
  records : List ImportRecord
  deriving DecidableEq, Repr, Inhabited

/-- The graph of some relations. All targets are mentioned before any import. -/
def FileGraph.ofRelations (relations : List FileRelation) : FileGraph :=
  let targets := relations.foldl (fun g r => (g.addFile r.target).1) ({} : FileGraph)
  relations.foldl (fun g r => r.files.foldl (fun g file => g.addImport r.target file) g) targets

namespace FileRelation

/-- Adds a file to a list of files, unless it is there. -/
def addFile (files : List Path) (file : Path) : List Path :=
  if files.any (·.same file) then files else files ++ [file]

/-- The names of each source, over all records. -/
def importTable (records : List ImportRecord) : Table (List String) :=
  records.foldl (fun t r => t.alter r.source fun names => names.getD [] ++ r.names) {}

/-- The last relation of a file. -/
def find? (relations : List FileRelation) (target : Path) : Option FileRelation :=
  relations.reverse.find? (·.target.same target)

/-- The relations of the files that no file imports, each with all files that it
imports directly or through others. -/
def deep (relations : List FileRelation) : List FileRelation :=
  let graph := FileGraph.ofRelations relations
  graph.roots.filterMap fun root =>
    (find? relations root).map fun relation =>
      ⟨root, graph.reachableFrom root, relation.imports⟩

end FileRelation

/-- A question for files: some sources, each with the names that are wanted from
it, or with none when any import will do. -/
structure ImportQuery where
  sources : Table (Option (List String)) := {}
  deriving DecidableEq, Repr, Inhabited

namespace ImportQuery

/-- The query that also asks for a source. A later request for the same source
replaces an earlier one. -/
def ask (q : ImportQuery) (source : String) (names : Option (List String)) : ImportQuery :=
  ⟨q.sources.insert source names⟩

/-- Whether what a file imports from one source answers the query. -/
def accepts (q : ImportQuery) (source : String) (imported : List String) : Bool :=
  match q.sources.get? source with
  | none => false
  | some none => true
  | some (some wanted) => imported.any wanted.contains

/-- Whether a file answers the query. -/
def holds (q : ImportQuery) (relation : FileRelation) : Bool :=
  relation.imports.entries.any fun (source, imported) => q.accepts source imported

end ImportQuery
end ImportAtlas
