import ImportAtlas.Json.Basic
import ImportAtlas.Report.Basic

/-! Reports as JSON. The summary is always there; a section is left out when it is
empty. -/

namespace ImportAtlas

namespace Json

/-- A list of texts. -/
def strings (texts : List String) : Json :=
  array (texts.map string)

/-- A list of values under a name, left out when it is empty. -/
def filled (name : String) (items : List Json) : List (String × Json) :=
  if items.isEmpty then [] else [(name, array items)]

end Json

namespace Report

/-- The counts at the head of a report. -/
def summaryJson (report : Report) : Json :=
  .object
    [("files", .number (max report.imports.length report.relations.length)),
      ("imports", .number report.importCount),
      ("relations", .number report.relationCount),
      ("cycles", .number report.cycles.length),
      ("matches", .number report.found.length),
      ("routes", .number report.routes.length),
      ("missing_components", .number report.missingCount),
      ("objects", .number report.objects.length)]

/-- One import declaration. -/
def recordJson (record : ImportRecord) : Json :=
  .object [("source", .string record.source), ("names", .strings record.names)]

/-- The imports of a file. -/
def fileImportsJson (report : Report) (file : FileImports) : Json :=
  .object
    [("file", .string (report.shown file.file)),
      ("imports", .array (file.records.map recordJson))]

/-- A relation, with the names that are imported from each source. -/
def relationJson (report : Report) (relation : FileRelation) : Json :=
  .object
    [("file", .string (report.shown relation.target)),
      ("imports", .strings (relation.files.map report.shown)),
      ("import_map",
        .object (relation.imports.entries.map fun (source, names) => (source, .strings names)))]

/-- A cycle, by its files and in one line. -/
def cycleJson (report : Report) (cycle : Cycle) : Json :=
  .object
    [("files", .strings (cycle.files.map report.shown)),
      ("path", .string (report.showCycle cycle))]

/-- A route. Without a component there is no such field. -/
def routeJson (route : Route) : Json :=
  .object
    ([("path", .string route.path), ("title", .string route.title)] ++
      (route.display.map fun file => ("component", .string file)).toList ++
      [("component_exists", .bool route.componentExists)])

/-- An object literal. -/
def objectJson (object : ObjectSummary) : Json :=
  .object
    [("path", .ofOption .string object.path), ("keys", .strings object.keys),
      ("line", .number object.line), ("column", .number object.column)]

/-- A report as a value. -/
def toJson (report : Report) : Json :=
  .object
    ([("project", .string report.project), ("summary", report.summaryJson)] ++
      Json.filled "imports" (report.imports.map report.fileImportsJson) ++
      Json.filled "relations" (report.relations.map report.relationJson) ++
      (if report.deep then [("deep", .bool true)] else []) ++
      Json.filled "cycles" (report.cycles.map report.cycleJson) ++
      Json.filled "matches" (report.found.map fun path => .string (report.shown path)) ++
      Json.filled "routes" (report.routes.map routeJson) ++
      Json.filled "objects" (report.objects.map objectJson))

end Report
end ImportAtlas
