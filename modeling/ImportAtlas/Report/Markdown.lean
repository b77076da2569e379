import ImportAtlas.Report.Basic

/-! Reports as Markdown: a table of counts, and then a section for everything that
is not empty. A report is built as a list of lines; a value that holds a line
break takes more than one line of the printed text. -/

namespace ImportAtlas.Report

/-- A text as it stands in a cell of a table, where a bar would end the cell. -/
def cell (text : String) : String :=
  String.join (text.toList.map fun c => if c = '|' then "\\|" else String.singleton c)

/-- A row of a table. -/
def row (cells : List String) : String :=
  "| " ++ " | ".intercalate cells ++ " |"

/-- A text set as code. -/
def code (text : String) : String :=
  "`" ++ text ++ "`"

/-- A heading or a text with an empty line after it. -/
def paragraph (text : String) : List String :=
  [text, ""]

/-- A row of the table of counts. -/
def countRow (label : String) (count : Nat) : String :=
  row [label, toString count]

/-- The rows of counts that belong to some items, if there are any. -/
def countsOf (items : List α) (rows : List String) : List String :=
  if items.isEmpty then [] else rows

/-- The table of counts. -/
def summaryLines (report : Report) : List String :=
  paragraph "## Summary" ++ ["| Metric | Count |", "|--------|-------|"] ++
    countsOf report.imports
      [countRow "Files" report.imports.length,
        countRow "Import Declarations" report.importCount] ++
    countsOf report.relations
      [countRow (if report.deep then "Root Files" else "Files") report.relations.length,
        countRow "Project Imports" report.relationCount,
        countRow "Import Cycles" report.cycles.length] ++
    countsOf report.found [countRow "Matching Files" report.found.length] ++
    countsOf report.routes
      [countRow "Routes" report.routes.length,
        countRow "Missing Components" report.missingCount] ++
    countsOf report.objects [countRow "Object Literals" report.objects.length] ++ [""]

/-- The row of an import declaration. -/
def importRow (record : ImportRecord) : String :=
  row [cell record.source, cell (", ".intercalate record.names)]

/-- The imports of a file. -/
def fileLines (report : Report) (file : FileImports) : List String :=
  paragraph ("### " ++ code (report.shown file.file)) ++
    if file.records.isEmpty then paragraph "_No imports._"
    else ["| Source | Names |", "|--------|-------|"] ++ file.records.map importRow ++ [""]

/-- A relation as an item with the imported files below it. -/
def relationLines (report : Report) (relation : FileRelation) : List String :=
  ("- " ++ code (report.shown relation.target) ++ " (" ++ toString relation.files.length ++ ")") ::
    relation.files.map fun file => "  - " ++ code (report.shown file)

/-- A numbered cycle. -/
def cycleLine (report : Report) (cycle : Cycle) (index : Nat) : String :=
  toString (index + 1) ++ ". " ++ code (report.showCycle cycle)

/-- The row of a route. -/
def routeRow (route : Route) : String :=
  row [cell route.path, cell route.title, (route.display.map cell).getD "-",
    if route.componentExists then "yes" else "no"]

/-- The row of an object literal. -/
def objectRow (object : ObjectSummary) : String :=
  row [cell (object.path.getD "<anonymous>"), cell (", ".intercalate object.keys),
    toString object.line ++ ":" ++ toString object.column]

/-- The section of some items: nothing when there are none. -/
def sectionOf (items : List α) (head : List String) (lines : List String) : List String :=
  if items.isEmpty then [] else head ++ lines

/-- The lines of a report. -/
def markdownLines (report : Report) : List String :=
  paragraph "# Import Analysis Report" ++
    paragraph ("**Project:** " ++ report.project) ++
    report.summaryLines ++
    sectionOf report.imports (paragraph "## Imports") (report.imports.flatMap report.fileLines) ++
    sectionOf report.relations
      (paragraph (if report.deep then "## Transitive Relations" else "## File Relations"))
      (report.relations.flatMap report.relationLines ++ [""]) ++
    sectionOf report.cycles
      (paragraph "## Issues" ++ paragraph "### Import Cycles" ++
        paragraph "The following import cycles were detected:")
      (report.cycles.zipIdx.map (fun (cycle, index) => report.cycleLine cycle index) ++ [""]) ++
    sectionOf report.found (paragraph "## Matching Files")
      (report.found.map (fun path => "- " ++ code (report.shown path)) ++ [""]) ++
    sectionOf report.routes
      (paragraph "## Routes" ++
        ["| Path | Title | Component | Exists |", "|------|-------|-----------|--------|"])
      (report.routes.map routeRow ++ [""]) ++
    sectionOf report.objects
      (paragraph "## Object Literals" ++ ["| Path | Keys | Line |", "|------|------|------|"])
      (report.objects.map objectRow ++ [""]) ++
    ["---", "*Generated by jsxscope*"]

/-- A report as Markdown. -/
def markdown (report : Report) : String :=
  String.join (report.markdownLines.map (· ++ "\n"))

end ImportAtlas.Report
