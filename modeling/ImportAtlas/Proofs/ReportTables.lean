import Mathlib.Data.List.Basic
import ImportAtlas.Report.Markdown

/-! The tables of a printed report. A row has the cells of its table's header, whatever texts
stand in them: a bar in a text is escaped, and no other character divides a row. A line feed is
not escaped. A row takes one line of the report, and one more for every line feed in its texts. -/
namespace ImportAtlas

/-- A table of a report: the texts of its header and those of its rows. -/
structure Grid where
  header : List String
  rows : List (List String)

namespace Grid

/-- The line between the header and the rows: a cell of dashes for each cell of the header. -/
def ruler (header : List String) : String :=
  let dashes (text : String) := String.ofList (List.replicate (text.length + 2) '-')
  "|" ++ "|".intercalate (header.map dashes) ++ "|"

/-- A row with the given texts. -/
def rowOf (texts : List String) : String :=
  Report.row (texts.map Report.cell)

/-- What is printed of a table, one entry for the header, one for the line below it and one for
each row. -/
def entries (grid : Grid) : List String :=
  rowOf grid.header :: ruler grid.header :: grid.rows.map rowOf

end Grid

namespace Report

/-- The table of a file's imports. -/
def importGrid (file : FileImports) : Grid where
  header := ["Source", "Names"]
  rows := file.records.map fun record => [record.source, ", ".intercalate record.names]

def routeGrid (routes : List Route) : Grid where
  header := ["Path", "Title", "Component", "Exists"]
  rows := routes.map fun route =>
    [route.path, route.title, route.display.getD "-", if route.componentExists then "yes" else "no"]

def objectGrid (objects : List ObjectSummary) : Grid where
  header := ["Path", "Keys", "Line"]
  rows := objects.map fun object =>
    [object.path.getD "<anonymous>", ", ".intercalate object.keys,
      toString object.line ++ ":" ++ toString object.column]

/-- The tables of a report: one for each file with imports, one for the routes and one for the
object literals, if there are any. -/
def grids (report : Report) : List Grid :=
  (report.imports.filter (!·.records.isEmpty)).map importGrid ++
    (if report.routes.isEmpty then [] else [routeGrid report.routes]) ++
    (if report.objects.isEmpty then [] else [objectGrid report.objects])

end Report

namespace ReportTables
open Grid Report

/-- The lines of a text. -/
def linesOf (text : String) : List (List Char) :=
  text.toList.splitOn '\n'

/-- The parts of a line between its bars. A bar right behind a backslash belongs to a part, and
the characters may start behind a backslash. -/
def parts (escaped : Bool) : List Char → List (List Char)
  | [] => [[]]
  | c :: rest =>
    if c = '|' ∧ escaped = false then [] :: parts false rest
    else (parts (c == '\\') rest).modifyHead (c :: ·)

/-- The cells of a line: the parts between its first bar and its last one. -/
def cellsOf (line : List Char) : List (List Char) :=
  (parts false line).tail.dropLast

/-- Among some lines there are the lines of some tables, one table after another, each with an
empty line behind it. -/
inductive Holds : List (List Char) → List Grid → Prop where
  | none : Holds lines []
  | next (before : List (List Char)) (later : Holds after others) :
      Holds (before ++ (grid.entries.flatMap linesOf ++ [] :: after)) (grid :: others)

/-- The characters of a text as they stand in a cell. -/
def padded (text : String) : List Char :=
  ' ' :: ((cell text).toList ++ [' '])

/-- The rows of a table have the cells of its header, and one line each unless a text has a line
feed. -/
structure Intact (grid : Grid) : Prop where
  header : linesOf (rowOf grid.header) = [(rowOf grid.header).toList] ∧
    cellsOf (rowOf grid.header).toList = grid.header.map padded
  cells : ∀ texts ∈ grid.rows, texts.length = grid.header.length ∧
    cellsOf (rowOf texts).toList = texts.map padded
  lines : ∀ texts ∈ grid.rows,
    (linesOf (rowOf texts)).length = (texts.flatMap String.toList).count '\n' + 1
  oneLine : ∀ texts ∈ grid.rows, linesOf (rowOf texts) = [(rowOf texts).toList] ↔
    ∀ text ∈ texts, '\n' ∉ text.toList

section Cells
variable {texts : List String}

/-- A text with its bars escaped. -/
def escaped (text : List Char) : List Char :=
  text.flatMap fun c => if c = '|' then ['\\', '|'] else [c]

theorem toList_cell (text : String) : (cell text).toList = escaped text.toList := by
  rw [cell, String.toList_join, List.flatMap_map, escaped]
  congr 1
  funext c
  split
  · rfl
  · exact String.toList_singleton c

theorem escaped_cons (c : Char) (text : List Char) :
    escaped (c :: text) = (if c = '|' then ['\\', '|'] else [c]) ++ escaped text :=
  rfl

/-- The characters of a text in a cell divide nothing, whatever is in front of them; the bar behind
the cell does. -/
theorem parts_escaped (behind : Bool) (text rest : List Char) :
    parts behind (escaped text ++ ' ' :: '|' :: rest) =
      (escaped text ++ [' ']) :: parts false rest := by
  induction text generalizing behind with
  | nil => simp [escaped, parts]
  | cons c text ih =>
    rw [escaped_cons]
    by_cases bar : c = '|'
    · simp [bar, parts, ih]
    · simp [bar, parts, ih]

/-- The bars between the cells of a row, and the spaces beside them, belong to the cells one by
one. -/
theorem flatMap_padded (filled : texts ≠ []) :
    (texts.flatMap fun text => padded text ++ ['|']) =
      ' ' :: ([' ', '|', ' '].intercalate (texts.map fun text => (cell text).toList) ++
        [' ', '|']) := by
  induction texts with
  | nil => exact absurd rfl filled
  | cons text texts ih =>
    cases texts with
    | nil => simp [padded]
    | cons next texts =>
      have rest := ih (List.cons_ne_nil next texts)
      rw [List.map_cons] at rest
      rw [List.flatMap_cons, rest, List.map_cons, List.map_cons, List.intercalate_cons_cons]
      simp [padded]

/-- The characters of a row: a bar, and then every cell with the bar behind it. -/
theorem toList_row (filled : texts ≠ []) :
    (rowOf texts).toList = '|' :: texts.flatMap fun text => padded text ++ ['|'] := by
  rw [flatMap_padded filled, rowOf, row, String.toList_append, String.toList_append,
    String.toList_intercalate, List.map_map]
  rfl

/-- The parts of a row are its cells, between what is in front of the first bar and what is behind
the last one. -/
theorem parts_row (texts : List String) :
    parts false (texts.flatMap fun text => padded text ++ ['|']) = texts.map padded ++ [[]] := by
  induction texts with
  | nil => rfl
  | cons text texts ih =>
    have first (rest : List Char) : padded text ++ ['|'] ++ rest =
        ' ' :: (escaped text.toList ++ ' ' :: '|' :: rest) := by
      simp [padded, toList_cell]
    rw [List.flatMap_cons, first, parts, if_neg (by simp), parts_escaped, ih, List.modifyHead_cons,
      List.map_cons, List.cons_append, padded, toList_cell]

theorem cellsOf_rowOf (filled : texts ≠ []) :
    cellsOf (rowOf texts).toList = texts.map padded := by
  rw [cellsOf, toList_row filled, parts, if_pos ⟨rfl, rfl⟩, List.tail_cons, parts_row,
    List.dropLast_concat]

example : (cellsOf (rowOf ["/a|b", "", "-", "no"]).toList).map String.ofList =
    [" /a\\|b ", "  ", " - ", " no "] := by
  decide

theorem count_escaped (text : List Char) : (escaped text).count '\n' = text.count '\n' := by
  induction text with
  | nil => rfl
  | cons c text ih =>
    rw [escaped_cons, List.count_append, ih, List.count_cons]
    by_cases bar : c = '|'
    · simp [bar]
    · simp [bar, List.count_cons, Nat.add_comm]

/-- A row has the line feeds of its texts. -/
theorem count_rowOf (filled : texts ≠ []) :
    (rowOf texts).toList.count '\n' = (texts.flatMap String.toList).count '\n' := by
  rw [toList_row filled, List.count_cons_of_ne (by decide)]
  clear filled
  induction texts with
  | nil => rfl
  | cons text texts ih =>
    rw [List.flatMap_cons, List.flatMap_cons, List.count_append, List.count_append, ih, padded,
      toList_cell]
    simp [count_escaped]

end Cells

section Lines
variable {text : String} {texts : List String}

/-- A text has a line more than it has line feeds. -/
theorem length_linesOf (text : String) : (linesOf text).length = text.toList.count '\n' + 1 := by
  rw [linesOf]
  induction text.toList with
  | nil => rfl
  | cons c rest ih =>
    rw [List.splitOn, List.splitOnP_cons_eq_if_modifyHead, ← List.splitOn, List.count_cons]
    by_cases feed : c = '\n'
    · simp [feed, ih]
    · simp [feed, ih]

theorem linesOf_eq_singleton : linesOf text = [text.toList] ↔ '\n' ∉ text.toList := by
  constructor
  · intro single
    have width := length_linesOf text
    rw [single, List.length_singleton] at width
    exact List.count_eq_zero.mp (by omega)
  · intro plain
    have alone : ∀ other ∈ [text.toList], '\n' ∉ other := by simpa using plain
    simpa [linesOf] using List.splitOn_intercalate '\n' alone (List.cons_ne_nil text.toList [])

/-- The lines of a report are those of its entries, with nothing behind the last line feed. -/
theorem linesOf_join (entries : List String) :
    linesOf (String.join (entries.map (· ++ "\n"))) = entries.flatMap linesOf ++ [[]] := by
  rw [linesOf, String.toList_join]
  induction entries with
  | nil => rfl
  | cons entry entries ih =>
    have chars : (entry ++ "\n").toList = entry.toList ++ ['\n'] := String.toList_append
    rw [List.map_cons, List.flatMap_cons, chars, List.append_assoc, List.singleton_append,
      List.splitOn_append_cons_self, ih, List.flatMap_cons, List.append_assoc]
    rfl

/-- What is printed of a table is intact. -/
theorem intact_of_width (filled : grid.header ≠ [])
    (plain : ∀ text ∈ grid.header, '\n' ∉ text.toList)
    (width : ∀ texts ∈ grid.rows, texts.length = grid.header.length) : Intact grid := by
  have solid : ∀ texts ∈ grid.rows, texts ≠ [] := by
    rintro _ listed rfl
    exact filled (List.length_eq_zero_iff.mp (width [] listed).symm)
  have feeds {texts : List String} (some : texts ≠ []) :
      '\n' ∉ (rowOf texts).toList ↔ ∀ text ∈ texts, '\n' ∉ text.toList := by
    rw [← List.count_eq_zero, count_rowOf some, List.count_eq_zero, List.mem_flatMap]
    simp
  constructor
  · exact ⟨linesOf_eq_singleton.mpr ((feeds filled).mpr plain), cellsOf_rowOf filled⟩
  · exact fun texts listed => ⟨width texts listed, cellsOf_rowOf (solid texts listed)⟩
  · intro texts listed
    rw [length_linesOf, count_rowOf (solid texts listed)]
  · intro texts listed
    rw [linesOf_eq_singleton, feeds (solid texts listed)]

end Lines

section Rows

theorem cell_eq_self {text : String} (plain : '|' ∉ text.toList) : cell text = text := by
  rw [← String.toList_inj, toList_cell, escaped]
  generalize text.toList = chars at plain
  induction chars with
  | nil => rfl
  | cons c chars ih =>
    obtain ⟨other, later⟩ := not_or.mp (mt List.mem_cons.mpr plain)
    rw [List.flatMap_cons, ih later, if_neg (Ne.symm other)]
    rfl

/-- A place in a file is shown without a bar. -/
theorem bar_not_mem_place (line column : Nat) :
    '|' ∉ (toString line ++ ":" ++ toString column).toList := by
  have number (n : Nat) : '|' ∉ (toString n).toList := by
    intro bar
    have digit := Nat.isDigit_of_mem_toDigits (by decide) (by decide) (Nat.toList_repr ▸ bar)
    exact absurd digit (by decide)
  rw [String.toList_append, String.toList_append]
  simp only [List.mem_append, not_or]
  exact ⟨⟨number line, by decide⟩, number column⟩

theorem rowOf_import (record : ImportRecord) :
    importRow record = rowOf [record.source, ", ".intercalate record.names] :=
  rfl

theorem rowOf_route (route : Route) :
    routeRow route = rowOf [route.path, route.title, route.display.getD "-",
      if route.componentExists then "yes" else "no"] := by
  have shown : (route.display.map cell).getD "-" = cell (route.display.getD "-") := by
    cases route.display with
    | none => exact (cell_eq_self (by decide)).symm
    | some display => rfl
  have answer : (if route.componentExists then "yes" else "no") =
      cell (if route.componentExists then "yes" else "no") := by
    split
    · exact (cell_eq_self (by decide)).symm
    · exact (cell_eq_self (by decide)).symm
  rw [routeRow, shown, rowOf, List.map_cons, List.map_cons, List.map_cons, List.map_singleton,
    ← answer]

theorem rowOf_object (object : ObjectSummary) :
    objectRow object = rowOf [object.path.getD "<anonymous>", ", ".intercalate object.keys,
      toString object.line ++ ":" ++ toString object.column] := by
  rw [objectRow, rowOf, List.map_cons, List.map_cons, List.map_singleton,
    cell_eq_self (bar_not_mem_place object.line object.column)]

end Rows

section Printing
variable {lines : List (List Char)} {grids others : List Grid}

theorem Holds.behind (before : List (List Char)) (holds : Holds lines grids) :
    Holds (before ++ lines) grids := by
  cases holds with
  | none => exact .none
  | next front later =>
    rw [← List.append_assoc]
    exact .next _ later

theorem Holds.append (first : Holds lines grids) (second : Holds more others) :
    Holds (lines ++ more) (grids ++ others) := by
  induction first with
  | none => exact second.behind _
  | next before _ ih =>
    rw [List.append_assoc, List.append_assoc]
    exact .next before ih

/-- Some entries of a report hold some tables. -/
def Prints (entries : List String) (grids : List Grid) : Prop :=
  Holds (entries.flatMap linesOf) grids

theorem Prints.append {first second : List String} (prints : Prints first grids)
    (more : Prints second others) : Prints (first ++ second) (grids ++ others) := by
  rw [Prints, List.flatMap_append]
  exact Holds.append prints more

theorem prints_nothing (entries : List String) : Prints entries [] :=
  .none

theorem Prints.behind {after : List String} (before : List String) (prints : Prints after grids) :
    Prints (before ++ after) grids :=
  (prints_nothing before).append prints

theorem Prints.before {entries : List String} (prints : Prints entries grids)
    (after : List String) : Prints (entries ++ after) grids := by
  have whole := prints.append (prints_nothing after)
  rwa [List.append_nil] at whole

theorem prints_grid (grid : Grid) : Prints (grid.entries ++ [""]) [grid] := by
  rw [Prints, List.flatMap_append]
  exact .next [] .none

/-- The lines of a table as a report lists them: the two that every table of its kind has, and the
rows. -/
theorem entries_eq {toRow : α → String} {toTexts : α → List String} (texts : List String)
    (header : rowOf texts = head) (below : ruler texts = line)
    (rows : ∀ x, toRow x = rowOf (toTexts x)) (items : List α) :
    [head, line] ++ items.map toRow = Grid.entries ⟨texts, items.map toTexts⟩ := by
  rw [Grid.entries, header, below, List.map_map, List.map_congr_left fun x _ => rows x]
  rfl

theorem prints_file (report : Report) (file : FileImports) :
    Prints (report.fileLines file) (if file.records.isEmpty then [] else [importGrid file]) := by
  unfold fileLines
  split
  · exact prints_nothing _
  · rw [entries_eq ["Source", "Names"] (by decide) (by decide) rowOf_import]
    exact (prints_grid _).behind _

theorem prints_files (report : Report) (files : List FileImports) :
    Prints (files.flatMap report.fileLines)
      ((files.filter (!·.records.isEmpty)).map importGrid) := by
  induction files with
  | nil => exact prints_nothing []
  | cons file files ih =>
    have both := (prints_file report file).append ih
    rw [List.flatMap_cons, List.filter_cons]
    cases empty : file.records.isEmpty with
    | true => simpa [empty] using both
    | false => simpa [empty] using both

/-- A section with one table, which is left out when it has no rows. -/
theorem prints_section {items : List α} {head : List String} {toRow : α → String} {grid : Grid}
    (before : List String) (same : head ++ items.map toRow = before ++ grid.entries) :
    Prints (sectionOf items head (items.map toRow ++ [""]))
      (if items.isEmpty then [] else [grid]) := by
  unfold sectionOf
  split
  · exact prints_nothing []
  · rw [← List.append_assoc, same, List.append_assoc]
    exact (prints_grid grid).behind before

theorem prints_routes (routes : List Route) :
    Prints (sectionOf routes
      (paragraph "## Routes" ++
        ["| Path | Title | Component | Exists |", "|------|-------|-----------|--------|"])
      (routes.map routeRow ++ [""])) (if routes.isEmpty then [] else [routeGrid routes]) := by
  refine prints_section (paragraph "## Routes") ?_
  rw [List.append_assoc,
    entries_eq ["Path", "Title", "Component", "Exists"] (by decide) (by decide) rowOf_route]
  rfl

theorem prints_objects (objects : List ObjectSummary) :
    Prints (sectionOf objects
      (paragraph "## Object Literals" ++ ["| Path | Keys | Line |", "|------|------|------|"])
      (objects.map objectRow ++ [""])) (if objects.isEmpty then [] else [objectGrid objects]) := by
  refine prints_section (paragraph "## Object Literals") ?_
  rw [List.append_assoc, entries_eq ["Path", "Keys", "Line"] (by decide) (by decide) rowOf_object]
  rfl

/-- The section of the imports holds their tables. -/
theorem prints_imports (report : Report) :
    Prints (sectionOf report.imports (paragraph "## Imports")
      (report.imports.flatMap report.fileLines))
      ((report.imports.filter (!·.records.isEmpty)).map importGrid) := by
  unfold sectionOf
  split
  · rename_i empty
    rw [List.isEmpty_iff.mp empty]
    exact prints_nothing []
  · exact (prints_files report report.imports).behind _

theorem prints_report (report : Report) : Prints report.markdownLines report.grids := by
  unfold markdownLines Report.grids
  refine Prints.before ?_ _
  refine Prints.append (Prints.append ?_ (prints_routes report.routes))
    (prints_objects report.objects)
  -- The relations, the cycles and the matching files are listed without a table.
  iterate 3 refine Prints.before ?_ _
  exact (prints_imports report).behind _

end Printing

theorem intact_of_mem {report : Report} (listed : grid ∈ report.grids) : Intact grid := by
  rw [Report.grids, List.mem_append, List.mem_append] at listed
  obtain (imports | routes) | objects := listed
  · obtain ⟨file, -, rfl⟩ := List.mem_map.mp imports
    exact intact_of_width (by simp [importGrid]) (by simp [importGrid]) (by simp [importGrid])
  · split at routes
    · cases routes
    · obtain rfl := List.mem_singleton.mp routes
      exact intact_of_width (by simp [routeGrid]) (by simp [routeGrid]) (by simp [routeGrid])
  · split at objects
    · cases objects
    · obtain rfl := List.mem_singleton.mp objects
      exact intact_of_width (by simp [objectGrid]) (by simp [objectGrid]) (by simp [objectGrid])

/-- The tables of a report stand in its text one after another. Every import declaration, route
and object literal has one row in its table, and every row has as many cells as the header, with
its texts in them. A row is one line if and only if no text of it has a line feed, and it is one
line more for each. -/
theorem tables_printed (report : Report) :
    Holds (linesOf report.markdown) report.grids ∧ ∀ grid ∈ report.grids, Intact grid := by
  refine ⟨?_, fun grid => intact_of_mem⟩
  rw [markdown, linesOf_join]
  have prints := Holds.append (prints_report report) (Holds.none : Holds [[]] [])
  rwa [List.append_nil] at prints

/-- A route with a line feed in its path takes two lines, though its bar is escaped. -/
theorem tables_printed_line_feed :
    let texts := ["/a\nb|c", "", "-", "no"]
    let report : Report := { project := "p", routes := [⟨"/a\nb|c", "", none, none, false⟩] }
    (routeGrid report.routes ∈ report.grids ∧ texts ∈ (routeGrid report.routes).rows) ∧
      linesOf (rowOf texts) ≠ [(rowOf texts).toList] ∧ (linesOf (rowOf texts)).length = 2 ∧
      cellsOf (rowOf texts).toList = texts.map padded := by
  intro texts report
  have listed : routeGrid report.routes ∈ report.grids := List.mem_singleton.mpr rfl
  have among : texts ∈ (routeGrid report.routes).rows := List.mem_singleton.mpr rfl
  have intact := (tables_printed report).2 _ listed
  refine ⟨⟨listed, among⟩, fun single => ?_, intact.lines _ among, (intact.cells _ among).2⟩
  exact (intact.oneLine _ among).mp single "/a\nb|c" (by decide) (by decide)

end ReportTables
end ImportAtlas
