import Mathlib.Data.List.Basic
import ImportAtlas.Path.Normalize

/-! Paths and their components. Joining two paths puts their components one after another,
writing components as a path and reading them again changes nothing, and a path in normal
form is its own normal form. -/
namespace ImportAtlas.PathForms
open ImportAtlas.Path

/-! Pieces between slashes. -/

section Pieces
variable {text piece : List Char} {texts : List (List Char)}

theorem pieces_eq_splitOn (text : List Char) : pieces text = text.splitOn '/' := by
  induction text with
  | nil => rfl
  | cons c rest ih =>
    rw [List.splitOn, List.splitOnP_cons_eq_if_modifyHead, ← List.splitOn, ← ih, pieces]
    by_cases slash : c = '/'
    · simp [slash]
    · cases shape : pieces rest with
      | nil =>
        rw [ih] at shape
        exact (List.splitOn_ne_nil '/' rest shape).elim
      | cons piece others => simp [slash]

theorem pieces_ne_nil (text : List Char) : pieces text ≠ [] := by
  rw [pieces_eq_splitOn]
  exact List.splitOn_ne_nil '/' text

theorem pieces_append (first second : List Char) :
    pieces (first ++ '/' :: second) = pieces first ++ pieces second := by
  simp only [pieces_eq_splitOn, List.splitOn_append_cons_self]

/-- The pieces of texts without slashes that slashes hold together are these texts. -/
theorem pieces_intercalate (plain : ∀ text ∈ texts, '/' ∉ text) (filled : texts ≠ []) :
    pieces (['/'].intercalate texts) = texts := by
  rw [pieces_eq_splitOn]
  exact List.splitOn_intercalate '/' plain filled

/-- Slashes hold the pieces of a text together. -/
theorem intercalate_pieces (text : List Char) : ['/'].intercalate (pieces text) = text := by
  rw [pieces_eq_splitOn]
  exact List.intercalate_splitOn '/'

/-- A text is its first piece, or goes on after it with a slash. -/
theorem first_piece (first : (pieces text).head? = some piece) :
    text = piece ∨ ∃ rest, text = piece ++ '/' :: rest := by
  have whole := intercalate_pieces text
  obtain ⟨others, shape⟩ := List.head?_eq_some_iff.mp first
  rw [shape] at whole
  cases others with
  | nil => exact .inl (by simpa using whole.symm)
  | cons other others =>
    rw [List.intercalate_cons_cons, List.append_assoc] at whole
    exact .inr ⟨_, whole.symm⟩

theorem pieces_plain (plain : '/' ∉ text) : pieces text = [text] := by
  have alone : ∀ other ∈ [text], '/' ∉ other := by simpa using plain
  simpa using pieces_intercalate alone (List.cons_ne_nil text [])

theorem slash_not_mem_piece (member : piece ∈ pieces text) : '/' ∉ piece := by
  induction text generalizing piece with
  | nil =>
    obtain rfl := List.mem_singleton.mp member
    exact List.not_mem_nil
  | cons c rest ih =>
    rw [pieces] at member
    split at member
    · rcases List.mem_cons.mp member with rfl | later
      · exact List.not_mem_nil
      · exact ih later
    · rename_i other
      cases shape : pieces rest with
      | nil => exact (pieces_ne_nil rest shape).elim
      | cons first others =>
        rw [shape] at member ih
        rcases List.mem_cons.mp member with rfl | later
        · simpa [Ne.symm other] using ih List.mem_cons_self
        · exact ih (List.mem_cons_of_mem _ later)

end Pieces

/-! Components of texts. -/

/-- The components that a text adds to a path that it continues. -/
def steps (text : List Char) : List Component :=
  (pieces text).filterMap component?

/-- A component that a piece of a text stands for. -/
def IsStep (c : Component) : Prop :=
  component? c.text.toList = some c ∧ '/' ∉ c.text.toList

instance (c : Component) : Decidable (IsStep c) :=
  inferInstanceAs (Decidable (_ ∧ _))

section Steps
variable {text piece : List Char} {c : Component} {p q : Path}

theorem steps_append (first second : List Char) :
    steps (first ++ '/' :: second) = steps first ++ steps second := by
  rw [steps, pieces_append, List.filterMap_append]
  rfl

@[simp] theorem steps_nil : steps [] = [] := rfl

theorem components_eq (p : Path) : p.components = start p.text.toList ++ steps p.text.toList :=
  rfl

theorem text_of_component? (found : component? piece = some c) : c.text.toList = piece := by
  unfold component? at found
  split at found
  · cases found
  · split at found
    · rename_i points
      cases found
      exact points.symm
    · cases found
      exact String.toList_ofList

theorem isStep_of_mem_steps (member : c ∈ steps text) : IsStep c := by
  obtain ⟨piece, inText, found⟩ := List.mem_filterMap.mp member
  rw [IsStep, text_of_component? found]
  exact ⟨found, slash_not_mem_piece inText⟩

theorem isStep_parent : IsStep .parent :=
  ⟨by decide, by decide⟩

theorem IsStep.ne_root (isStep : IsStep c) : c ≠ .root := by
  rintro rfl
  exact isStep.2 (by decide)

/-- Before a slash that starts a text there is an empty piece. -/
private theorem head?_pieces_slash (slash : text.head? = some '/') :
    (pieces text).head? = some [] := by
  obtain ⟨rest, rfl⟩ := List.head?_eq_some_iff.mp slash
  rfl

/-- What starts a path is its first piece, unless that is the root. -/
theorem first_component (first : p.components.head? = some c) (inner : c ≠ .root) :
    (pieces p.text.toList).head? = some c.text.toList := by
  rw [components_eq] at first
  unfold start at first
  split at first
  · exact absurd (Option.some.inj first).symm inner
  rename_i notRoot
  split at first
  · rename_i current
    cases Option.some.inj first
    exact current
  rename_i notCurrent
  cases shape : pieces p.text.toList with
  | nil => exact (pieces_ne_nil _ shape).elim
  | cons piece others =>
    rw [shape] at notCurrent
    have notPoint : piece ≠ ['.'] := fun same => notCurrent (congrArg some same)
    have found : piece ≠ [] → component? piece = some c := fun filled => by
      cases read : component? piece with
      | some d =>
        rw [List.nil_append, steps, shape, List.filterMap_cons_some read] at first
        exact first
      | none =>
        rw [component?, if_neg (not_or.mpr ⟨filled, notPoint⟩)] at read
        split at read
        all_goals cases read
    have filled : piece ≠ [] := by
      rintro rfl
      rcases first_piece (congrArg List.head? shape) with nothing | ⟨rest, slash⟩
      · rw [nothing] at first
        cases first
      · exact notRoot (congrArg List.head? slash)
    exact congrArg some (text_of_component? (found filled)).symm

/-- A text without slashes and of more than two characters stands for an entry. -/
theorem isStep_name {text : String} (plain : '/' ∉ text.toList) (long : 2 < text.length) :
    IsStep (.name text) := by
  have width : 2 < text.toList.length := by rwa [String.length_toList]
  refine ⟨?_, plain⟩
  rw [Component.text, component?, if_neg, if_neg, String.ofList_toList]
  · intro same
    rw [same] at width
    exact absurd width (by decide)
  · rintro (same | same)
    all_goals
      rw [same] at width
      exact absurd width (by decide)

/-- A text that stands for an entry has no other component. -/
theorem steps_name {text : String} (isStep : IsStep (.name text)) :
    steps text.toList = [.name text] := by
  have plain : '/' ∉ text.toList := isStep.2
  rw [steps, pieces_plain plain]
  exact List.filterMap_cons_some isStep.1

/-- What a path starts with is seen before its first slash. -/
theorem start_append (first second third : List Char) :
    start (first ++ '/' :: second) = start (first ++ '/' :: third) := by
  have head (more : List Char) :
      (pieces (first ++ '/' :: more)).head? = (pieces first).head? := by
    rw [pieces_append, List.head?_append_of_ne_nil _ (pieces_ne_nil first)]
  unfold start
  rw [head, head]
  cases first with
  | nil => rfl
  | cons c rest => rfl

theorem start_append_of_ne_nil {first : List Char} (filled : first ≠ []) (second : List Char) :
    start (first ++ '/' :: second) = start first := by
  unfold start
  rw [pieces_append, List.head?_append_of_ne_nil _ (pieces_ne_nil first),
    List.head?_append_of_ne_nil _ filled]

theorem start_of_relative (relative : p.isAbsolute = false) :
    start p.text.toList = [] ∨ start p.text.toList = [.current] := by
  have notRoot : p.text.toList.head? ≠ some '/' := by simpa [isAbsolute] using relative
  unfold start
  rw [if_neg notRoot]
  split
  · exact .inr rfl
  · exact .inl rfl

theorem components_of_absolute (absolute : p.isAbsolute = true) :
    p.components = .root :: steps p.text.toList := by
  have head : p.text.toList.head? = some '/' := by simpa [isAbsolute] using absolute
  rw [components_eq, start, if_pos head]
  rfl

theorem root_mem_components : .root ∈ p.components ↔ p.isAbsolute = true := by
  constructor
  · intro member
    by_contra other
    have relative : p.isAbsolute = false := by simpa using other
    rw [components_eq, List.mem_append] at member
    rcases member with atStart | later
    · rcases start_of_relative relative with none | current
      · rw [none] at atStart
        cases atStart
      · rw [current] at atStart
        cases List.mem_singleton.mp atStart
    · exact (isStep_of_mem_steps later).ne_root rfl
  · intro absolute
    rw [components_of_absolute absolute]
    exact List.mem_cons_self

theorem join_of_absolute (absolute : q.isAbsolute = true) : p.join q = q := by
  rw [join, if_pos absolute]

/-- A relative path that is joined to another one adds its components. -/
theorem components_join (relative : q.isAbsolute = false) (filled : p.text ≠ "") :
    (p.join q).components = p.components ++ steps q.text.toList := by
  rw [join, if_neg (by simp [relative])]
  by_cases slash : p.text.toList.getLast? = some '/'
  · obtain ⟨front, shape⟩ := List.getLast?_eq_some_iff.mp slash
    rw [if_pos (.inr slash), components_eq, components_eq, String.toList_append, shape,
      List.append_assoc, List.singleton_append, steps_append, steps_append,
      start_append front _ []]
    simp
  · have some : p.text.toList ≠ [] := fun none => filled (String.toList_eq_nil_iff.mp none)
    rw [if_neg (not_or.mpr ⟨filled, slash⟩), components_eq, components_eq, String.toList_append,
      String.toList_append, List.append_assoc]
    rw [show "/".toList ++ q.text.toList = '/' :: q.text.toList from rfl, steps_append,
      start_append_of_ne_nil some, List.append_assoc]

theorem join_of_empty (relative : q.isAbsolute = false) (empty : p.text = "") :
    p.join q = q := by
  rw [join, if_neg (by simp [relative]), if_pos (.inl empty), empty]
  simp

/-- A text that starts with a step is a relative path. -/
theorem start_of_step (first : (pieces text).head? = some piece)
    (isStep : component? piece = some c) : text.head? ≠ some '/' ∧ start text = [] := by
  have notSlash : text.head? ≠ some '/' := fun slash => by
    rw [head?_pieces_slash slash] at first
    cases Option.some.inj first
    exact absurd isStep (by simp [component?])
  have notCurrent : (pieces text).head? ≠ some ['.'] := fun current => by
    rw [current] at first
    cases Option.some.inj first
    exact absurd isStep (by simp [component?])
  exact ⟨notSlash, by rw [start, if_neg notSlash, if_neg notCurrent]⟩

theorem start_of_current (first : (pieces text).head? = some ['.']) : start text = [.current] := by
  have notSlash : text.head? ≠ some '/' := fun slash => by
    rw [head?_pieces_slash slash] at first
    cases first
  rw [start, if_neg notSlash, if_pos first]

/-- A path that is an entry has that as its only component. -/
theorem components_name {text : String} (isStep : IsStep (.name text)) :
    (Path.mk text).isAbsolute = false ∧ (Path.mk text).components = [.name text] := by
  have plain : '/' ∉ text.toList := isStep.2
  have first : (pieces text.toList).head? = some text.toList := by rw [pieces_plain plain]; rfl
  obtain ⟨notRoot, start⟩ := start_of_step first isStep.1
  refine ⟨by simpa [isAbsolute] using notRoot, ?_⟩
  rw [components_eq, start, steps_name isStep]
  rfl

/-- An entry that is joined to a path becomes its last component. -/
theorem components_join_name {text : String} (p : Path) (isStep : IsStep (.name text)) :
    (p.join ⟨text⟩).components = p.components ++ [Component.name text] := by
  obtain ⟨relative, alone⟩ := components_name isStep
  by_cases empty : p.text = ""
  · have nothing : p.components = [] := by
      rw [components_eq, empty]
      rfl
    rw [join_of_empty relative empty, alone, nothing]
    rfl
  · rw [components_join relative empty, steps_name isStep]

end Steps

/-! Paths that are written from components. -/

/-- Components that a path can have: only at its start there may be the root or the current
directory. -/
structure Spelled (components : List Component) : Prop where
  parts : ∃ lead rest, components = lead ++ rest ∧
    (lead = [] ∨ lead = [.root] ∨ lead = [.current]) ∧ ∀ c ∈ rest, IsStep c

theorem spelled_components (p : Path) : Spelled p.components := by
  refine ⟨start p.text.toList, steps p.text.toList, rfl, ?_, fun c => isStep_of_mem_steps⟩
  unfold start
  split
  · exact .inr (.inl rfl)
  split
  · exact .inr (.inr rfl)
  · exact .inl rfl

/-- The last of some components is a step and may be replaced by any other one. -/
theorem Spelled.replaceLast {cs : List Component} {c : Component} (spelled : Spelled (cs ++ [c]))
    (inner : c ≠ .root) (moves : c ≠ .current) :
    IsStep c ∧ ∀ d, IsStep d → Spelled (cs ++ [d]) := by
  obtain ⟨lead, rest, same, atStart, isSteps⟩ := spelled.parts
  rcases List.eq_nil_or_concat' rest with rfl | ⟨front, last, rfl⟩
  · have last := congrArg List.getLast? same
    rw [List.append_nil, List.getLast?_concat] at last
    rcases atStart with rfl | rfl | rfl
    · cases last
    · exact absurd (Option.some.inj last) inner
    · exact absurd (Option.some.inj last) moves
  · rw [← List.append_assoc] at same
    obtain ⟨before, here⟩ := List.append_inj' same rfl
    obtain rfl := List.singleton_injective here
    obtain ⟨isFront, isLast⟩ := List.forall_mem_append.mp isSteps
    refine ⟨isLast c List.mem_cons_self, fun d isStep => ⟨lead, front ++ [d], ?_, atStart, ?_⟩⟩
    · rw [before, List.append_assoc]
    · exact List.forall_mem_append.mpr ⟨isFront, List.forall_mem_singleton.mpr isStep⟩

section Written
variable {cs : List Component} {c : Component} {p q : Path}

theorem toList_intercalate (cs : List Component) :
    ("/".intercalate (cs.map Component.text)).toList =
      ['/'].intercalate (cs.map fun c => c.text.toList) := by
  rw [String.toList_intercalate, List.map_map]
  rfl

private theorem pieces_written (plain : ∀ c ∈ cs, '/' ∉ c.text.toList) (filled : cs ≠ []) :
    pieces (['/'].intercalate (cs.map fun c => c.text.toList)) = cs.map fun c => c.text.toList := by
  refine pieces_intercalate ?_ (by simpa using filled)
  intro text member
  obtain ⟨c, inside, rfl⟩ := List.mem_map.mp member
  exact plain c inside

/-- Steps that are written with slashes between them are read back. -/
private theorem steps_written (isSteps : ∀ c ∈ cs, IsStep c) :
    (cs.map fun c => c.text.toList).filterMap component? = cs := by
  rw [List.filterMap_map]
  calc cs.filterMap (component? ∘ fun c => c.text.toList)
      = cs.filterMap some := List.filterMap_congr fun c member => (isSteps c member).1
    _ = cs := List.filterMap_some

theorem ofComponents_of_relative (relative : cs.head? ≠ some .root) :
    ofComponents cs = ⟨"/".intercalate (cs.map Component.text)⟩ := by
  unfold ofComponents
  split
  · exact absurd rfl relative
  · rfl

private theorem toList_ofComponents_root (rest : List Component) :
    (ofComponents ([Component.root] ++ rest)).text.toList =
      [] ++ '/' :: ['/'].intercalate (rest.map fun c => c.text.toList) := by
  rw [List.singleton_append, ofComponents, String.toList_append, toList_intercalate]
  rfl

/-- Components that are written as a path are read back. -/
theorem components_ofComponents (spelled : Spelled cs) : (ofComponents cs).components = cs := by
  obtain ⟨lead, rest, rfl, rfl | rfl | rfl, isSteps⟩ := spelled.parts
  · cases rest with
    | nil => rfl
    | cons c rest =>
      have isStep := isSteps c List.mem_cons_self
      have relative : (c :: rest).head? ≠ some .root := fun head =>
        isStep.ne_root (Option.some.inj head)
      have read := pieces_written (fun c member => (isSteps c member).2) (by simp)
      have first := congrArg List.head? read
      rw [List.nil_append, ofComponents_of_relative relative, components_eq, toList_intercalate,
        (start_of_step first isStep.1).2, steps, read, steps_written isSteps]
      rfl
  · have read : steps (['/'].intercalate (rest.map fun c => c.text.toList)) = rest := by
      by_cases empty : rest = []
      · subst empty
        rfl
      · rw [steps, pieces_written (fun c member => (isSteps c member).2) empty,
          steps_written isSteps]
    rw [components_eq, toList_ofComponents_root, steps_append, read]
    rfl
  · have plain : ∀ c ∈ Component.current :: rest, '/' ∉ c.text.toList :=
      List.forall_mem_cons.mpr ⟨by decide, fun c member => (isSteps c member).2⟩
    have read := pieces_written plain (by simp)
    have first := congrArg List.head? read
    rw [List.singleton_append, ofComponents_of_relative (by simp), components_eq,
      toList_intercalate, start_of_current first, steps, read, List.map_cons,
      List.filterMap_cons_none (by decide), steps_written isSteps]
    rfl

/-- The components that are written in a path are the entries on the way along it, and empty pieces
in front of them do not count. -/
private theorem segments_of_pieces (front : List (List Char))
    (read : pieces p.text.toList = front ++ cs.map fun c => c.text.toList)
    (blank : ∀ text ∈ front, text = []) (filled : cs ≠ [])
    (solid : ∀ c ∈ cs, c.text.toList ≠ []) : p.segments = cs.map Component.text := by
  have texts : ∀ text ∈ cs.map fun c => c.text.toList, text ≠ [] := by
    simpa using solid
  have kept : (pieces p.text.toList).filter (· ≠ []) = cs.map fun c => c.text.toList := by
    rw [read, List.filter_append, List.filter_eq_nil_iff.mpr (by simpa using blank),
      List.filter_eq_self.mpr (by simpa using texts), List.nil_append]
  have noSlash : (pieces p.text.toList).getLast? ≠ some [] := by
    rw [read, List.getLast?_append_of_ne_nil _ (by simpa using filled)]
    exact fun last => texts [] (List.mem_of_getLast? last) rfl
  rw [segments, kept, if_neg fun ends => noSlash ends.1, List.map_map]
  simp

theorem IsStep.text_ne_nil (isStep : IsStep c) : c.text.toList ≠ [] := by
  intro empty
  have nothing := isStep.1
  rw [empty] at nothing
  cases nothing

/-- The entries on the way along a path that is written from components are these components,
without the root. -/
theorem segments_ofComponents (spelled : Spelled cs) :
    (ofComponents cs).segments = (cs.filter (· ≠ .root)).map Component.text := by
  obtain ⟨lead, rest, rfl, atStart, isSteps⟩ := spelled.parts
  have inner : rest.filter (· ≠ .root) = rest :=
    List.filter_eq_self.mpr fun c member => by simpa using (isSteps c member).ne_root
  have solid : ∀ c ∈ rest, c.text.toList ≠ [] := fun c member => (isSteps c member).text_ne_nil
  have plain : ∀ c ∈ rest, '/' ∉ c.text.toList := fun c member => (isSteps c member).2
  rw [List.filter_append, inner]
  rcases atStart with rfl | rfl | rfl
  · by_cases empty : rest = []
    · subst empty
      rfl
    · have relative : rest.head? ≠ some .root := fun head =>
        (isSteps _ (List.mem_of_head? head)).ne_root rfl
      refine segments_of_pieces [] ?_ (by simp) empty solid
      rw [List.nil_append, ofComponents_of_relative relative, toList_intercalate,
        pieces_written plain empty]
      rfl
  · by_cases empty : rest = []
    · subst empty
      rfl
    · refine segments_of_pieces [[]] ?_ (by simp) empty solid
      rw [toList_ofComponents_root, pieces_append, pieces_written plain empty]
      rfl
  · have plain : ∀ c ∈ Component.current :: rest, '/' ∉ c.text.toList :=
      List.forall_mem_cons.mpr ⟨by decide, plain⟩
    refine segments_of_pieces [] ?_ (by simp) (by simp)
      (List.forall_mem_cons.mpr ⟨by decide, solid⟩)
    rw [List.singleton_append, ofComponents_of_relative (by simp), toList_intercalate,
      pieces_written plain (by simp)]
    rfl

private theorem intercalate_concat (texts : List String) (last suffix : String) :
    "/".intercalate (texts ++ [last]) ++ suffix = "/".intercalate (texts ++ [last ++ suffix]) := by
  by_cases empty : texts = []
  · subst empty
    simp
  · simp only [String.intercalate_append_of_ne_nil empty (List.cons_ne_nil _ []),
      String.intercalate_singleton, String.append_assoc]

/-- A suffix changes the last component of a path and no other. -/
theorem addSuffix_concat (inner : c ≠ .root) (suffix : String) :
    (ofComponents (cs ++ [c])).addSuffix suffix =
      ofComponents (cs ++ [Component.name (c.text ++ suffix)]) := by
  rw [addSuffix]
  by_cases absolute : cs.head? = some .root
  · obtain ⟨rest, rfl⟩ := List.head?_eq_some_iff.mp absolute
    simp only [List.cons_append, ofComponents, List.map_append, List.map_cons, List.map_nil,
      String.append_assoc, intercalate_concat, Component.text]
  · have relative : ∀ d ≠ Component.root, (cs ++ [d]).head? ≠ some .root := by
      intro d notRoot
      cases cs with
      | nil => simpa using notRoot
      | cons first rest => simpa using absolute
    rw [ofComponents_of_relative (relative c inner),
      ofComponents_of_relative (relative _ (by simp))]
    simp only [List.map_append, List.map_cons, List.map_nil, intercalate_concat, Component.text]

/-- A component is written behind the others with a slash between them. -/
private theorem text_concat (filled : cs ≠ []) (below : cs ≠ [.root]) (c : Component) :
    (ofComponents (cs ++ [c])).text = (ofComponents cs).text ++ "/" ++ c.text := by
  by_cases absolute : cs.head? = some .root
  · obtain ⟨rest, rfl⟩ := List.head?_eq_some_iff.mp absolute
    have more : rest.map Component.text ≠ [] := by simpa using below
    rw [List.cons_append, ofComponents, ofComponents, List.map_append,
      String.intercalate_append_of_ne_nil more (by simp)]
    simp [String.append_assoc]
  · have relative : (cs ++ [c]).head? ≠ some .root := by
      rwa [List.head?_append_of_ne_nil _ filled]
    rw [ofComponents_of_relative relative, ofComponents_of_relative absolute, List.map_append,
      String.intercalate_append_of_ne_nil (by simpa using filled) (by simp)]
    simp

/-- A path of more than the root ends with the text of its last component, which has no slash. -/
private theorem text_open (spelled : Spelled cs) (filled : cs ≠ []) (below : cs ≠ [.root]) :
    (ofComponents cs).text ≠ "" ∧ (ofComponents cs).text.toList.getLast? ≠ some '/' := by
  obtain ⟨front, last, rfl⟩ := (List.eq_nil_or_concat' cs).resolve_left filled
  have solid : last ≠ .root ∧ last.text.toList ≠ [] ∧ '/' ∉ last.text.toList := by
    obtain ⟨lead, rest, same, atStart, isSteps⟩ := spelled.parts
    have ends := congrArg List.getLast? same
    rw [List.getLast?_concat] at ends
    by_cases alone : rest = []
    · rw [alone, List.append_nil] at same ends
      rcases atStart with rfl | rfl | rfl
      · cases ends
      · exact absurd same below
      · cases ends
        decide
    · rw [List.getLast?_append_of_ne_nil _ alone] at ends
      have isStep := isSteps last (List.mem_of_getLast? ends.symm)
      exact ⟨isStep.ne_root, isStep.text_ne_nil, isStep.2⟩
  obtain ⟨notRoot, visible, plain⟩ := solid
  have text : (ofComponents (front ++ [last])).text =
      (ofComponents (front ++ [Component.name ""])).text ++ last.text := by
    have whole : (ofComponents (front ++ [last])).addSuffix "" = _ := addSuffix_concat notRoot ""
    have parts : (ofComponents (front ++ [Component.name ""])).addSuffix last.text = _ :=
      addSuffix_concat (by simp) last.text
    rw [String.append_empty] at whole
    rw [show (Component.name "").text = "" from rfl, String.empty_append, ← whole] at parts
    simpa only [addSuffix, String.append_empty] using congrArg Path.text parts.symm
  rw [text]
  refine ⟨fun empty => visible ?_, fun slash => ?_⟩
  · rw [(String.append_eq_empty_iff.mp empty).2]
    rfl
  · rw [String.toList_append, List.getLast?_append_of_ne_nil _ visible] at slash
    exact plain (List.mem_of_getLast? slash)

/-- An entry that is joined to a path is written behind it. -/
theorem ofComponents_join_name {text : String} (spelled : Spelled cs)
    (isStep : IsStep (.name text)) :
    (ofComponents cs).join ⟨text⟩ = ofComponents (cs ++ [Component.name text]) := by
  have relative := (components_name isStep).1
  by_cases empty : cs = []
  · subst empty
    simp [join, relative, ofComponents, Component.text]
  by_cases root : cs = [.root]
  · subst root
    simp [join, relative, ofComponents, Component.text]
  rw [join, if_neg (by simp [relative]), if_neg (not_or.mpr (text_open spelled empty root))]
  exact congrArg Path.mk (text_concat empty root (.name text)).symm

theorem spelled_concat {text : String} (p : Path) (isStep : IsStep (.name text)) :
    Spelled (p.components ++ [Component.name text]) := by
  obtain ⟨lead, rest, same, atStart, isSteps⟩ := (spelled_components p).parts
  refine ⟨lead, rest ++ [.name text], by rw [same, List.append_assoc], atStart, ?_⟩
  exact List.forall_mem_append.mpr ⟨isSteps, List.forall_mem_singleton.mpr isStep⟩

end Written

/-! Normal forms. -/

/-- Components in normal form, the last one first: below names there may be names, steps up
or the root, below a step up only such steps, and below the root nothing. -/
def Folded : List Component → Prop
  | [] => True
  | .name _ :: below => Folded below
  | .parent :: below => ∀ c ∈ below, c = .parent
  | .root :: below => below = []
  | .current :: _ => False

section Normal
variable {cs above : List Component} {c d : Component} {p p' q : Path}

theorem folded_of_parents : ∀ {above : List Component}, (∀ c ∈ above, c = .parent) → Folded above
  | [], _ => trivial
  | _ :: _, parents => by
    obtain ⟨rfl, later⟩ := List.forall_mem_cons.mp parents
    exact later

theorem Folded.tail (folded : Folded (c :: above)) : Folded above := by
  cases c with
  | root =>
    obtain rfl : above = [] := folded
    trivial
  | current => exact folded.elim
  | parent => exact folded_of_parents folded
  | name text => exact folded

theorem Folded.extend (folded : Folded above) (inner : c ≠ .root) : Folded (extend above c) := by
  cases c with
  | root => exact absurd rfl inner
  | current => exact folded
  | name text => exact folded
  | parent =>
    cases above with
    | nil => exact fun _ none => absurd none List.not_mem_nil
    | cons top below =>
      cases top with
      | root => exact folded
      | current => exact folded.elim
      | parent => exact List.forall_mem_cons.mpr ⟨rfl, folded⟩
      | name text => exact folded.tail

theorem Folded.foldl (folded : Folded above) (inner : ∀ c ∈ cs, c ≠ .root) :
    Folded (cs.foldl Path.extend above) := by
  induction cs generalizing above with
  | nil => exact folded
  | cons c rest ih =>
    obtain ⟨notRoot, later⟩ := List.forall_mem_cons.mp inner
    exact ih (folded.extend notRoot) later

/-- What is in normal form is built up component by component as it is. -/
theorem Folded.foldl_reverse (folded : Folded above) :
    above.reverse.foldl Path.extend [] = above := by
  induction above with
  | nil => rfl
  | cons c below ih =>
    rw [List.reverse_cons, List.foldl_append, ih folded.tail]
    cases c with
    | root => rfl
    | current => exact folded.elim
    | name text => rfl
    | parent =>
      cases below with
      | nil => rfl
      | cons top lower =>
        obtain rfl := folded top List.mem_cons_self
        rfl

/-- A normal form is made of names and steps up, with the root below them or nothing. -/
theorem Folded.parts (folded : Folded above) : ∃ inner,
    (∀ c ∈ inner, c = .parent ∨ ∃ text, c = .name text) ∧
      (above = inner ∨ above = inner ++ [Component.root]) := by
  induction above with
  | nil => exact ⟨[], by simp, .inl rfl⟩
  | cons c below ih =>
    obtain ⟨inner, plain, same⟩ := ih folded.tail
    cases c with
    | root =>
      obtain rfl : below = [] := folded
      exact ⟨[], by simp, .inr rfl⟩
    | current => exact folded.elim
    | parent =>
      refine ⟨.parent :: inner, List.forall_mem_cons.mpr ⟨.inl rfl, plain⟩, ?_⟩
      exact same.imp (congrArg _) (congrArg _)
    | name text =>
      refine ⟨.name text :: inner, List.forall_mem_cons.mpr ⟨.inr ⟨text, rfl⟩, plain⟩, ?_⟩
      exact same.imp (congrArg _) (congrArg _)

/-- A normal form goes down by names, from the root or from some steps up. -/
theorem Folded.shape (folded : Folded above) : ∃ names : List String,
    above = names.map Component.name ++ [Component.root] ∨
      ∃ ups, above = names.map Component.name ++ List.replicate ups Component.parent := by
  induction above with
  | nil => exact ⟨[], .inr ⟨0, rfl⟩⟩
  | cons c below ih =>
    cases c with
    | root =>
      obtain rfl : below = [] := folded
      exact ⟨[], .inl rfl⟩
    | current => exact folded.elim
    | parent =>
      have parents : below = List.replicate below.length .parent :=
        List.eq_replicate_of_mem folded
      exact ⟨[], .inr ⟨below.length + 1, by rw [List.replicate_succ, ← parents]; rfl⟩⟩
    | name text =>
      obtain ⟨names, same⟩ := ih folded
      refine ⟨text :: names, same.imp (congrArg _) fun ⟨ups, parents⟩ => ⟨ups, ?_⟩⟩
      exact congrArg _ parents

/-- The components of a path fold into a normal form. -/
theorem folded_components (p : Path) : Folded (p.components.foldl Path.extend []) := by
  obtain ⟨lead, rest, same, atStart, isSteps⟩ := (spelled_components p).parts
  have inner : ∀ c ∈ rest, c ≠ .root := fun c member => (isSteps c member).ne_root
  rw [same, List.foldl_append]
  have nothing : Folded [] := trivial
  have root : Folded [.root] := rfl
  rcases atStart with rfl | rfl | rfl
  · exact nothing.foldl inner
  · exact root.foldl inner
  · exact nothing.foldl inner

private theorem mem_extend (member : d ∈ extend above c) : d ∈ above ∨ d = c ∨ d = .parent := by
  cases c with
  | root => exact (List.mem_cons.mp member).symm.imp_right .inl
  | current => exact .inl member
  | name text => exact (List.mem_cons.mp member).symm.imp_right .inl
  | parent =>
    cases above with
    | nil => exact .inr (.inl (List.mem_singleton.mp member))
    | cons top below =>
      cases top with
      | root => exact .inl member
      | name text => exact .inl (List.mem_cons_of_mem _ member)
      | _ => exact (List.mem_cons.mp member).symm.imp_right .inl

/-- What stands in a normal form comes from the path, or is a step up. -/
theorem mem_foldl_extend (member : d ∈ cs.foldl Path.extend above) :
    d ∈ above ∨ d ∈ cs ∨ d = .parent := by
  induction cs generalizing above with
  | nil => exact .inl member
  | cons c rest ih =>
    rcases ih member with before | later | up
    · rcases mem_extend before with old | rfl | up
      · exact .inl old
      · exact .inr (.inl List.mem_cons_self)
      · exact .inr (.inr up)
    · exact .inr (.inl (List.mem_cons_of_mem _ later))
    · exact .inr (.inr up)

theorem isStep_of_mem_components {text : String} (member : .name text ∈ p.components) :
    IsStep (.name text) := by
  obtain ⟨lead, rest, same, atStart, isSteps⟩ := (spelled_components p).parts
  rw [same] at member
  rcases List.mem_append.mp member with before | later
  · rcases atStart with rfl | rfl | rfl
    all_goals simp at before
  · exact isSteps _ later

theorem spelled_normalized (p : Path) : Spelled (normalized p.components) := by
  obtain ⟨inner, plain, same⟩ := (folded_components p).parts
  have isSteps : ∀ c ∈ inner.reverse, IsStep c := by
    intro c member
    have inside := List.mem_reverse.mp member
    rcases plain c inside with rfl | ⟨text, rfl⟩
    · exact isStep_parent
    · have kept : .name text ∈ p.components.foldl Path.extend [] := by
        rcases same with same | same
        all_goals simp [same, inside]
      rcases mem_foldl_extend kept with none | listed | other
      · cases none
      · exact isStep_of_mem_components listed
      · cases other
  rcases same with same | same
  · exact ⟨[], inner.reverse, by rw [normalized, same]; rfl, .inl rfl, isSteps⟩
  · exact ⟨[.root], inner.reverse, by rw [normalized, same, List.reverse_append]; rfl,
      .inr (.inl rfl), isSteps⟩

/-- The normal form of a path has the components of the normal form. -/
theorem components_normalize (p : Path) : p.normalize.components = normalized p.components :=
  components_ofComponents (spelled_normalized p)

theorem normalized_of_folded (folded : Folded cs.reverse) : normalized cs = cs := by
  have same := folded.foldl_reverse
  rw [List.reverse_reverse] at same
  rw [normalized, same, List.reverse_reverse]

theorem folded_normalized (p : Path) : Folded (normalized p.components).reverse := by
  rw [normalized, List.reverse_reverse]
  exact folded_components p

/-- A normal form is its own normal form. -/
theorem normalized_normalized (p : Path) :
    normalized (normalized p.components) = normalized p.components :=
  normalized_of_folded (folded_normalized p)

theorem normalized_normalize (p : Path) :
    normalized p.normalize.components = normalized p.components := by
  rw [components_normalize, normalized_normalized]

/-- A path that is its own normal form is written from its components, which are in normal
form. -/
theorem written_of_normal (normal : p.normalize = p) :
    ofComponents p.components = p ∧ Folded p.components.reverse := by
  have same : p.components = normalized p.components := by
    rw [← components_normalize, normal]
  exact ⟨(congrArg ofComponents same).trans normal, same ▸ folded_normalized p⟩

/-- The normal form of joined paths takes the components of the one after those of the
other. -/
theorem foldl_components_join (p : Path) (relative : q.isAbsolute = false) :
    (p.join q).components.foldl Path.extend [] =
      q.components.foldl Path.extend (p.components.foldl Path.extend []) := by
  by_cases empty : p.text = ""
  · have nothing : p.components = [] := by
      rw [components_eq, empty]
      rfl
    rw [join_of_empty relative empty, nothing]
    rfl
  · have start : (start q.text.toList).foldl Path.extend (p.components.foldl Path.extend []) =
        p.components.foldl Path.extend [] := by
      rcases start_of_relative relative with none | current
      · rw [none]
        rfl
      · rw [current]
        rfl
    rw [components_join relative empty, components_eq q, List.foldl_append, List.foldl_append,
      start]

theorem normalized_concat_name (cs : List Component) (text : String) :
    normalized (cs ++ [Component.name text]) = normalized cs ++ [Component.name text] := by
  rw [normalized, List.foldl_append]
  exact List.reverse_cons

/-- An entry that is written behind a normal form is in normal form as well. -/
theorem normalized_written {text : String} (folded : Folded cs.reverse)
    (spelled : Spelled (cs ++ [Component.name text])) :
    normalized (ofComponents (cs ++ [Component.name text])).components =
      cs ++ [Component.name text] := by
  rw [components_ofComponents spelled, normalized_concat_name, normalized_of_folded folded]

theorem normal_concat {text : String} (folded : Folded cs.reverse)
    (spelled : Spelled (cs ++ [Component.name text])) :
    (ofComponents (cs ++ [Component.name text])).normalize =
      ofComponents (cs ++ [Component.name text]) :=
  congrArg ofComponents (normalized_written folded spelled)

/-- An entry that is joined to a path in normal form is written behind its components. -/
theorem join_name_written {text : String} (normal : p.normalize = p) (isStep : IsStep (.name text)) :
    p.join ⟨text⟩ = ofComponents (p.components ++ [Component.name text]) := by
  have written := ofComponents_join_name (spelled_components p) isStep
  rwa [(written_of_normal normal).1] at written

theorem normal_join_name {text : String} (normal : p.normalize = p) (isStep : IsStep (.name text)) :
    (p.join ⟨text⟩).normalize = p.join ⟨text⟩ := by
  rw [join_name_written normal isStep]
  exact normal_concat (written_of_normal normal).2 (spelled_concat p isStep)

theorem join_name_filled {text : String} (p : Path) (isStep : IsStep (.name text)) :
    (p.join ⟨text⟩).text ≠ "" := by
  intro empty
  have nothing : (p.join ⟨text⟩).components = [] := by
    rw [components_eq, empty]
    rfl
  rw [components_join_name p isStep] at nothing
  simp at nothing

/-- What is no name stays in a normal form once it is there. -/
theorem foldl_extend_keeps (member : c ∈ above) (noName : ∀ text, c ≠ .name text) :
    c ∈ cs.foldl Path.extend above := by
  induction cs generalizing above with
  | nil => exact member
  | cons d rest ih =>
    refine ih ?_
    cases d with
    | root => exact List.mem_cons_of_mem _ member
    | current => exact member
    | name text => exact List.mem_cons_of_mem _ member
    | parent =>
      cases above with
      | nil => cases member
      | cons top below =>
        cases top with
        | root => exact member
        | name text => exact (List.mem_cons.mp member).resolve_left (noName text)
        | _ => exact List.mem_cons_of_mem _ member

/-- Components that never lead above where they start do the same on top of any others. -/
theorem foldl_extend_append (lower : List Component)
    (named : ∀ c ∈ cs.foldl Path.extend above, ∃ text, c = .name text) :
    cs.foldl Path.extend (above ++ lower) = cs.foldl Path.extend above ++ lower := by
  induction cs generalizing above with
  | nil => rfl
  | cons d rest ih =>
    have unnamed {c : Component} {higher : List Component} (member : c ∈ higher)
        (noName : ∀ text, c ≠ .name text)
        (same : Path.extend above d = higher) : False := by
      obtain ⟨text, rfl⟩ := named c (by
        rw [List.foldl_cons, same]
        exact foldl_extend_keeps member noName)
      exact noName text rfl
    rw [List.foldl_cons, List.foldl_cons, ← ih named]
    congr 1
    cases d with
    | root => rfl
    | current => rfl
    | name text => rfl
    | parent =>
      cases above with
      | nil => exact (unnamed List.mem_cons_self (by simp) rfl).elim
      | cons top below =>
        cases top with
        | name text => rfl
        | _ => exact (unnamed List.mem_cons_self (by simp) rfl).elim

/-- Only the components of a path matter to what is joined to it. -/
theorem normalize_join_congr (same : p.components = p'.components) :
    (p.join q).normalize = (p'.join q).normalize := by
  by_cases absolute : q.isAbsolute = true
  · rw [join_of_absolute absolute, join_of_absolute absolute]
  · have relative : q.isAbsolute = false := by simpa using absolute
    rw [Path.normalize, Path.normalize, normalized, normalized, foldl_components_join p relative,
      foldl_components_join p' relative, same]

end Normal
end ImportAtlas.PathForms
