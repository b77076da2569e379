import Mathlib.Data.List.Basic
import ImportAtlas.FileTree
import ImportAtlas.Table
import ImportAtlas.Proofs.PathForms

/-! Where paths lead in a file system. A path in normal form leads to the place that its
components spell out from the root or from the working directory, if something stands there. A
file that is added stands at its place, and apart from it the same files are there as before. -/
namespace ImportAtlas.Locating
open ImportAtlas.Path PathForms FileTree

/-- Where a component leads from a place. A place is given by the names from the root. -/
def advance (here : List String) : Component → List String
  | .root => []
  | .current => here
  | .parent => here.dropLast
  | .name text => here ++ [text]

/-- The place that a path leads to, as far as its components say. -/
def placeOf (here : List String) (p : Path) : List String :=
  p.components.foldl advance here

/-- A directory stands at a place. -/
def HoldsDirectory (tree : FileTree) (place : List String) : Prop :=
  ∃ entries, tree.get? place = some (.directory entries)

/-- A file stands at a place. -/
def HoldsFile (tree : FileTree) (place : List String) : Prop :=
  ∃ content, tree.get? place = some (.file content)

/-- The working directory of a file system exists. -/
def Anchored (files : Files) : Prop :=
  HoldsDirectory files.root files.here

/-- Nothing stands at a place, and no file on the way to it. -/
structure Vacant (tree : FileTree) (place : List String) : Prop where
  free : tree.get? place = none
  passable : ∀ upper, upper <+: place → ¬HoldsFile tree upper

/-- A file system with a file at a place, and with the directories that lead there. -/
def withFile (files : Files) (place : List String) (content : ByteArray) : Files :=
  { files with root := files.root.put place (.file content) }

variable {tree root : FileTree} {here place names other : List String} {files : Files} {p : Path}

/-! Trees. -/

@[simp] theorem get?_nil (tree : FileTree) : tree.get? [] = some tree := by
  cases tree <;> rfl

@[simp] theorem get?_file (content : ByteArray) (name : String) (names : List String) :
    (file content).get? (name :: names) = none := rfl

theorem get?_directory (entries : List (String × FileTree)) (name : String) (names : List String) :
    (directory entries).get? (name :: names) =
      (entries.lookup name).bind fun tree => tree.get? names := by
  rw [FileTree.get?]
  cases entries.lookup name with
  | none => rfl
  | some tree => rfl

theorem get?_append (tree : FileTree) (names more : List String) :
    tree.get? (names ++ more) = (tree.get? names).bind fun below => below.get? more := by
  induction names generalizing tree with
  | nil => rw [get?_nil]; rfl
  | cons name names ih =>
    cases tree with
    | file content => rfl
    | directory entries =>
      rw [List.cons_append, get?_directory, get?_directory, Option.bind_assoc]
      exact Option.bind_congr fun below _ => ih below

/-- Above whatever stands in a tree there are directories. -/
theorem holdsDirectory_of_append (stands : tree.get? (place ++ name :: names) = some below) :
    HoldsDirectory tree place := by
  rw [get?_append] at stands
  obtain ⟨upper, found, inside⟩ := Option.bind_eq_some_iff.mp stands
  cases upper with
  | file content => cases inside
  | directory entries => exact ⟨entries, found⟩

theorem HoldsDirectory.dropLast (holds : HoldsDirectory tree place) :
    HoldsDirectory tree place.dropLast := by
  rcases List.eq_nil_or_concat' place with rfl | ⟨upper, name, rfl⟩
  · exact holds
  · rw [List.dropLast_concat]
    obtain ⟨entries, found⟩ := holds
    exact holdsDirectory_of_append found

/-! Following paths. -/

theorem follow_append (root : FileTree) (here segments more : List String) :
    root.follow here (segments ++ more) =
      root.follow here segments >>= fun place => root.follow place more := by
  induction segments generalizing here with
  | nil => rfl
  | cons segment segments ih =>
    rw [List.cons_append, follow, follow]
    cases found : root.get? here with
    | none => rfl
    | some tree =>
      cases tree with
      | file content => rfl
      | directory entries =>
        dsimp only
        split_ifs
        · exact ih _
        · exact ih _
        · exact ih _
        · rfl

/-- Steps up from a directory lead to directories. -/
theorem follow_parents (holds : HoldsDirectory root here) (ups : Nat) (more : List String) :
    root.follow here (List.replicate ups ".." ++ more) =
      root.follow ((List.replicate ups Component.parent).foldl advance here) more := by
  induction ups generalizing here with
  | zero => rfl
  | succ ups ih =>
    obtain ⟨entries, found⟩ := id holds
    rw [List.replicate_succ, List.cons_append, follow, found]
    exact ih holds.dropLast

theorem foldl_advance_names (here names : List String) :
    (names.map Component.name).foldl advance here = here ++ names := by
  induction names generalizing here with
  | nil => rw [List.append_nil]; rfl
  | cons name names ih => rw [List.map_cons, List.foldl_cons, ih, advance, List.append_cons here name names]

/-- The text of an entry is neither of the two that stand for directories. -/
theorem proper_of_isStep {name : String} (isStep : IsStep (.name name)) :
    name ≠ "." ∧ name ≠ ".." := by
  constructor
  · rintro rfl
    exact absurd isStep.1 (by decide)
  · rintro rfl
    exact absurd isStep.1 (by decide)

section Names
variable (proper : ∀ name ∈ names, name ≠ "." ∧ name ≠ "..")
include proper

/-- Names lead down to what stands there. -/
theorem follow_of_get? (stands : root.get? (here ++ names) = some tree) :
    root.follow here names = .ok (here ++ names) := by
  induction names generalizing here with
  | nil => rw [List.append_nil]; rfl
  | cons name names ih =>
    obtain ⟨⟨notHere, notUp⟩, later⟩ := List.forall_mem_cons.mp proper
    obtain ⟨entries, found⟩ := holdsDirectory_of_append stands
    rw [get?_append, found, Option.bind_some, get?_directory] at stands
    obtain ⟨below, listed, inside⟩ := Option.bind_eq_some_iff.mp stands
    have next : root.get? (here ++ [name] ++ names) = some tree := by
      rw [get?_append, get?_append, found, Option.bind_some, get?_directory, listed,
        Option.bind_some, get?_nil, Option.bind_some]
      exact inside
    rw [follow, found]
    dsimp only
    rw [if_neg notHere, if_neg notUp, listed, Option.isSome_some, if_pos rfl, ih later next,
      List.append_cons here name names]

/-- Names lead nowhere else. -/
theorem eq_of_follow (reached : root.follow here names = .ok place) : place = here ++ names := by
  induction names generalizing here with
  | nil =>
    cases reached
    exact (List.append_nil _).symm
  | cons name names ih =>
    obtain ⟨⟨notHere, notUp⟩, later⟩ := List.forall_mem_cons.mp proper
    rw [follow] at reached
    split at reached
    · cases reached
    · cases reached
    · rw [if_neg notHere, if_neg notUp] at reached
      split at reached
      · rw [List.append_cons]
        exact ih later reached
      · cases reached

end Names

/-! Paths in normal form. -/

/-- A path in normal form leads down by names from the root, or from where some steps up lead. -/
theorem normal_parts (normal : p.normalize = p) : ∃ names : List String,
    (∀ name ∈ names, IsStep (.name name)) ∧
    (p.components = .root :: names.map Component.name ∨
      ∃ ups, p.components = List.replicate ups .parent ++ names.map Component.name) := by
  obtain ⟨names, shape⟩ := (written_of_normal normal).2.shape
  have parts : p.components = .root :: names.reverse.map Component.name ∨
      ∃ ups, p.components = List.replicate ups .parent ++ names.reverse.map Component.name := by
    refine shape.imp (fun same => ?_) fun ⟨ups, same⟩ => ⟨ups, ?_⟩
    all_goals
      rw [← List.reverse_inj, same]
      simp
  refine ⟨names.reverse, fun name member => isStep_of_mem_components (p := p) ?_, parts⟩
  have among : Component.name name ∈ names.reverse.map Component.name := List.mem_map_of_mem member
  rcases parts with same | ⟨ups, same⟩
  · exact same ▸ List.mem_cons_of_mem _ among
  · exact same ▸ List.mem_append_right _ among

theorem segments_of_normal (normal : p.normalize = p) :
    p.segments = (p.components.filter (· ≠ .root)).map Component.text := by
  have written := segments_ofComponents (spelled_components p)
  rwa [(written_of_normal normal).1] at written

/-- A path in normal form is followed by its names, from a place that goes before them. -/
theorem locate_eq (anchored : Anchored files) (normal : p.normalize = p) (filled : p.text ≠ "") :
    ∃ start names, (∀ name ∈ names, name ≠ "." ∧ name ≠ "..") ∧
      placeOf files.here p = start ++ names ∧ files.locate p = files.root.follow start names := by
  obtain ⟨names, isSteps, parts⟩ := normal_parts normal
  have proper : ∀ name ∈ names, name ≠ "." ∧ name ≠ ".." := fun name member =>
    proper_of_isStep (isSteps name member)
  have texts : (names.map Component.name).map Component.text = names := by
    rw [List.map_map]
    exact List.map_id names
  have inner : (names.map Component.name).filter (· ≠ .root) = names.map Component.name := by
    simp
  have segments := segments_of_normal normal
  rcases parts with same | ⟨ups, same⟩
  · have absolute : p.isAbsolute = true :=
      root_mem_components.mp (same ▸ List.mem_cons_self)
    rw [same, List.filter_cons_of_neg (by simp), inner, texts] at segments
    refine ⟨[], names, proper, ?_, ?_⟩
    · rw [placeOf, same, List.foldl_cons, foldl_advance_names]
      rfl
    · rw [Files.locate, if_neg filled, if_pos absolute, segments]
  · have relative : p.isAbsolute = false := by
      rw [Bool.eq_false_iff]
      intro absolute
      have root := root_mem_components.mpr absolute
      rw [same] at root
      simp [List.mem_replicate] at root
    have up : (List.replicate ups Component.parent).filter (· ≠ .root) =
        List.replicate ups .parent := by
      simp
    rw [same, List.filter_append, inner, up, List.map_append, texts, List.map_replicate] at segments
    refine ⟨(List.replicate ups Component.parent).foldl advance files.here, names, proper, ?_, ?_⟩
    · rw [placeOf, same, List.foldl_append, foldl_advance_names]
    · rw [Files.locate, if_neg filled, if_neg (by simp [relative]), segments]
      exact follow_parents anchored ups names

/-- What stands at the place of a path in normal form is found there, and nothing else is. -/
theorem entry_iff (anchored : Anchored files) (normal : p.normalize = p) (filled : p.text ≠ "") :
    files.entry p = .ok tree ↔ files.root.get? (placeOf files.here p) = some tree := by
  obtain ⟨start, names, proper, place, located⟩ := locate_eq anchored normal filled
  rw [place, Files.entry, located]
  constructor
  · intro found
    cases reached : files.root.follow start names with
    | error cause =>
      rw [reached] at found
      cases found
    | ok reachedPlace =>
      obtain rfl := eq_of_follow proper reached
      rw [reached] at found
      dsimp only [bind, Except.bind] at found
      split at found
      · rename_i stands
        cases found
        exact stands
      · cases found
  · intro stands
    rw [follow_of_get? proper stands]
    dsimp only [bind, Except.bind]
    rw [stands]
    rfl

theorem locate_of_holds (anchored : Anchored files) (normal : p.normalize = p)
    (filled : p.text ≠ "") (stands : files.root.get? (placeOf files.here p) = some tree) :
    files.locate p = .ok (placeOf files.here p) := by
  obtain ⟨start, names, proper, place, located⟩ := locate_eq anchored normal filled
  rw [place] at stands ⊢
  exact located.trans (follow_of_get? proper stands)

theorem isFile_iff (anchored : Anchored files) (normal : p.normalize = p) (filled : p.text ≠ "") :
    files.isFile p = true ↔ HoldsFile files.root (placeOf files.here p) := by
  have found (content : ByteArray) : files.entry p = .ok (.file content) ↔ _ :=
    entry_iff anchored normal filled
  rw [HoldsFile, ← exists_congr found, Files.isFile]
  cases files.entry p with
  | error cause => simp
  | ok tree =>
    cases tree with
    | file content => simp
    | directory entries => simp

/-! Added files. -/

theorem holdsFile_make (names other : List String) (content : ByteArray) :
    HoldsFile (make names (file content)) other ↔ other = names := by
  induction names generalizing other with
  | nil =>
    cases other with
    | nil => simp [HoldsFile, make]
    | cons name others => simp [HoldsFile, make]
  | cons name names ih =>
    cases other with
    | nil => simp [HoldsFile, make]
    | cons first others =>
      rw [make, HoldsFile, get?_directory, Table.lookup_cons]
      by_cases same : first = name
      · rw [if_pos same, Option.bind_some, List.cons.injEq]
        exact (ih others).trans (by simp [same])
      · simp [same]

theorem lookup_putEntry (entries : List (String × FileTree)) (name first : String)
    (names : List String) (content : FileTree) :
    (putEntry entries name names content).lookup first =
      if first = name then
        some (match entries.lookup name with
          | some tree => tree.put names content
          | none => make names content)
      else entries.lookup first := by
  induction entries with
  | nil => rw [putEntry, Table.lookup_cons]; rfl
  | cons entry entries ih =>
    obtain ⟨key, tree⟩ := entry
    rw [putEntry]
    by_cases here : name = key
    · rw [if_pos here, Table.lookup_cons, Table.lookup_cons, Table.lookup_cons, ← here,
        if_pos rfl]
      split <;> rfl
    · rw [if_neg here, Table.lookup_cons, Table.lookup_cons, Table.lookup_cons, if_neg here, ih]
      by_cases same : first = key
      · rw [if_pos same, if_neg (fun other => here (other.symm.trans same)), if_pos same]
      · rw [if_neg same, if_neg same]

theorem Vacant.cons {entries : List (String × FileTree)} {name : String}
    (vacant : Vacant (directory entries) (name :: names)) (listed : entries.lookup name = some tree) :
    Vacant tree names := by
  have down (more : List String) : (directory entries).get? (name :: more) = tree.get? more := by
    rw [get?_directory, listed, Option.bind_some]
  refine ⟨by rw [← down]; exact vacant.free, fun upper before holds => ?_⟩
  refine vacant.passable (name :: upper) (List.prefix_cons_inj name |>.mpr before) ?_
  rwa [HoldsFile, down]

/-- With a file more, that file is there and otherwise the same files as before. -/
theorem holdsFile_put (vacant : Vacant tree place) (content : ByteArray) :
    HoldsFile (tree.put place (.file content)) other ↔ other = place ∨ HoldsFile tree other := by
  induction place generalizing tree other with
  | nil => simpa using vacant.free
  | cons name names ih =>
    cases tree with
    | file old => exact absurd ⟨old, rfl⟩ (vacant.passable [] (List.nil_prefix ..))
    | directory entries =>
      rw [put]
      cases other with
      | nil => simp [HoldsFile]
      | cons first others =>
        rw [HoldsFile, HoldsFile, get?_directory, get?_directory, lookup_putEntry]
        by_cases same : first = name
        · subst same
          rw [if_pos rfl, Option.bind_some, List.cons.injEq, and_iff_right rfl]
          cases listed : entries.lookup first with
          | none => simpa [HoldsFile] using holdsFile_make names others content
          | some tree => exact ih (vacant.cons listed)
        · simp [same]

/-- With a file more, directories stay where they are. -/
theorem holdsDirectory_put (vacant : Vacant tree place) (content : ByteArray)
    (holds : HoldsDirectory tree other) : HoldsDirectory (tree.put place (.file content)) other := by
  induction place generalizing tree other with
  | nil => simpa using vacant.free
  | cons name names ih =>
    cases tree with
    | file old => exact absurd ⟨old, rfl⟩ (vacant.passable [] (List.nil_prefix ..))
    | directory entries =>
      rw [put]
      cases other with
      | nil => simp [HoldsDirectory]
      | cons first others =>
        rw [HoldsDirectory, get?_directory] at holds ⊢
        rw [lookup_putEntry]
        by_cases same : first = name
        · subst same
          cases listed : entries.lookup first with
          | none => simp [listed] at holds
          | some tree =>
            rw [if_pos rfl, Option.bind_some]
            rw [listed, Option.bind_some] at holds
            exact ih (vacant.cons listed) holds
        · rwa [if_neg same]

theorem anchored_withFile (anchored : Anchored files) (vacant : Vacant files.root place)
    (content : ByteArray) : Anchored (withFile files place content) :=
  holdsDirectory_put vacant content anchored

/-- With a file more, a path in normal form leads to a file if it did before or if it leads to the
place of that file. -/
theorem isFile_withFile (anchored : Anchored files) (vacant : Vacant files.root place)
    (content : ByteArray) (normal : p.normalize = p) (filled : p.text ≠ "") :
    (withFile files place content).isFile p = true ↔
      files.isFile p = true ∨ placeOf files.here p = place := by
  rw [isFile_iff (anchored_withFile anchored vacant content) normal filled,
    isFile_iff anchored normal filled, or_comm]
  exact holdsFile_put vacant content

end ImportAtlas.Locating
