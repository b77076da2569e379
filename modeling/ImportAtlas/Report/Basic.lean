import ImportAtlas.Project.Route
import ImportAtlas.Relation
import ImportAtlas.Tree.Objects

/-! Reports: what one command has found out, ready to be printed. A report holds
the sections that its command fills, and the others are empty. -/

namespace ImportAtlas

/-- An object literal as a report shows it. -/
structure ObjectSummary where
  path : Option String
  /-- The names of the properties, computed ones left out. -/
  keys : List String
  line : Nat
  column : Nat
  deriving DecidableEq, Repr, Inhabited

/-- The summary of an object literal. -/
def ObjectRecord.summary (record : ObjectRecord) : ObjectSummary :=
  ⟨record.path, record.keys, record.object.span.start.line, record.object.span.start.column⟩

/-- The sections of a report. -/
structure Report where
  /-- The name of what the report is about. -/
  project : String
  /-- The directory that paths are shown relative to. -/
  root : Option Path := none
  imports : List FileImports := []
  relations : List FileRelation := []
  /-- Whether the relations include imports of imports. -/
  deep : Bool := false
  cycles : List Cycle := []
  /-- The files that answer a query. -/
  found : List Path := []
  routes : List Route := []
  objects : List ObjectSummary := []
  deriving Inhabited

namespace Report

/-- How a report shows a path that is a text. -/
def shown (report : Report) (path : Path) : String :=
  match report.root with
  | some root => root.relativeTo path
  | none => Path.withSlashes path.text

/-- How a report shows a cycle. -/
def showCycle (report : Report) (cycle : Cycle) : String :=
  Cycle.arrows (cycle.files.map report.shown)

/-- How many import declarations the files have. -/
def importCount (report : Report) : Nat :=
  report.imports.foldl (fun count file => count + file.records.length) 0

/-- How many project files the relations list. -/
def relationCount (report : Report) : Nat :=
  report.relations.foldl (fun count relation => count + relation.files.length) 0

/-- How many routes have a component without a file. -/
def missingCount (report : Report) : Nat :=
  report.routes.countP fun route => route.component.isSome && !route.componentExists

end Report

/-- How a report is printed. -/
inductive ReportFormat where
  | json
  | markdown
  deriving DecidableEq, Repr, Inhabited

namespace ReportFormat

/-- The name of a format. -/
def name : ReportFormat → String
  | json => "json"
  | markdown => "markdown"

/-- The format with a long or short name, in any case. -/
def ofName? (name : String) : Option ReportFormat :=
  let word := Text.lowered name
  if word = "json" then some json
  else if word = "markdown" ∨ word = "md" then some markdown
  else none

/-- What is said of a name that no format has. -/
def unknownMessage (name : String) : String :=
  "Unknown export format: '" ++ name ++ "'. Valid formats: json, markdown"

end ReportFormat
end ImportAtlas
