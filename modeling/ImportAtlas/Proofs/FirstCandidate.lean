import ImportAtlas.Proofs.Aliases
import ImportAtlas.Proofs.LexicalPaths
import ImportAtlas.Proofs.Locating

/-! Resolution as one ordered search. The base path, the base path with each extension and the
index files in it are one list, and an import stands for the first of these that is a file. Only
the empty base path is an exception: it stands for the working directory, whose index files are
never found. A file that is added can take the place of what was found, and nothing else can. -/
namespace ImportAtlas.FirstCandidate
open ImportAtlas.Path PathForms LexicalPaths Locating Resolution Resolver
open Aliases (isStep_append plain_of_extension addSuffix_written)

/-- What a base path may stand for, in order: the path itself, the path with each extension, and
each index file in it. -/
def choices (extensions : List String) (base : Path) : List Path :=
  base :: (extensions.map base.addSuffix ++ extensions.map (index base))

/-- The index files of the working directory are passed over: the base path is empty, it is no
file with any extension, and yet there is an index file. -/
def Overlooked (files : Files) (extensions : List String) (base : Path) : Prop :=
  base.text = "" ∧ (∀ extension ∈ extensions, files.isFile (base.addSuffix extension) = false) ∧
    ∃ extension ∈ extensions, files.isFile (index base extension) = true

variable {root base p : Path} {config : Config} {files : Files} {importer : Path}
  {source extension : String}

/-! The form of the candidates. -/

theorem normal_basePath? (based : (ofProject root config).basePath? importer source = some base) :
    base.normalize = base := by
  unfold basePath? at based
  split at based
  · cases based
  · split at based
    all_goals
      cases based
      exact normalize_normalize _

section Member
variable (member : extension ∈ config.resolutionExtensions)
include member

theorem isStep_index : IsStep (.name ("index" ++ extension)) :=
  isStep_append (by decide) member

theorem normal_addSuffix (normal : base.normalize = base) :
    (base.addSuffix extension).normalize = base.addSuffix extension := by
  obtain ⟨front, text, written, folded, spelled, -⟩ := addSuffix_written normal member
  rw [written]
  exact normal_concat folded spelled

end Member

/-! The order of the search. -/

/-- Where an index file is found, its directory is found as well. -/
theorem isDirectory_of_index (normal : base.normalize = base) (filled : base.text ≠ "")
    (member : extension ∈ config.resolutionExtensions)
    (found : files.isFile (index base extension) = true) : files.isDirectory base = true := by
  have isStep := isStep_index member
  have written : index base extension = _ := join_name_written normal isStep
  have spelled := spelled_concat base isStep
  have segments : (index base extension).segments = base.segments ++ ["index" ++ extension] := by
    rw [written, segments_ofComponents spelled, segments_of_normal normal, List.filter_append,
      List.map_append]
    rfl
  have absolute : (index base extension).isAbsolute = base.isAbsolute := by
    rw [Bool.eq_iff_iff, ← root_mem_components, ← root_mem_components, written,
      components_ofComponents spelled]
    simp
  have some : (index base extension).text ≠ "" := join_name_filled base isStep
  unfold Files.isFile Files.entry at found
  rw [Files.locate, if_neg some, segments, absolute, follow_append] at found
  rw [Files.isDirectory, Files.entry, Files.locate, if_neg filled]
  cases reached : files.root.follow (if base.isAbsolute = true then [] else files.here)
      base.segments with
  | error cause =>
    rw [reached] at found
    cases found
  | ok place =>
    rw [reached] at found
    dsimp only [bind, Except.bind] at found ⊢
    rw [FileTree.follow] at found
    cases stands : files.root.get? place with
    | none => simp [stands] at found
    | some tree =>
      cases tree with
      | file content => simp [stands] at found
      | directory entries => rfl

/-- Behind the files of a directory that is not found there is nothing to be found. -/
theorem find?_choices (normal : base.normalize = base) (filled : base.text ≠ "") :
    (ofProject root config).probe? files base =
      (choices config.resolutionExtensions base).find? files.isFile := by
  rw [probe?_eq, candidates, choices, List.find?_cons, List.find?_cons, List.find?_append,
    List.find?_append]
  cases known : files.isDirectory base with
  | true => rfl
  | false =>
    have none : (config.resolutionExtensions.map (index base)).find? files.isFile = none := by
      refine List.find?_eq_none.mpr fun file member isFile => ?_
      obtain ⟨extension, among, rfl⟩ := List.mem_map.mp member
      have found := isDirectory_of_index normal filled among isFile
      rw [known] at found
      cases found
    rw [none]
    rfl

/-- The empty base path is neither a file nor a directory. -/
theorem find?_of_empty :
    (ofProject root config).probe? files ⟨""⟩ =
      (config.resolutionExtensions.map (Path.addSuffix ⟨""⟩)).find? files.isFile := by
  rw [probe?_eq, candidates, List.find?_cons]
  exact congrArg _ (List.append_nil _)

/-- A search that finds more finds something wherever it did before, and then the same or
something that is new. -/
theorem find?_of_grows {α : Type} {before after : α → Bool} {new : α → Prop} {xs : List α}
    (grows : ∀ x ∈ xs, after x = true ↔ before x = true ∨ new x) :
    ((xs.find? before).isSome = true → (xs.find? after).isSome = true) ∧
      (xs.find? after = xs.find? before ∨ ∃ x ∈ xs, xs.find? after = some x ∧ new x) := by
  induction xs with
  | nil => exact ⟨id, .inl rfl⟩
  | cons x xs ih =>
    obtain ⟨first, later⟩ := List.forall_mem_cons.mp grows
    rw [List.find?_cons, List.find?_cons]
    cases now : after x with
    | false =>
      have earlier : before x = false := Bool.eq_false_iff.mpr fun held => by
        have holds := first.mpr (.inl held)
        rw [now] at holds
        cases holds
      rw [earlier]
      refine (ih later).imp id (Or.imp id ?_)
      rintro ⟨y, member, found⟩
      exact ⟨y, List.mem_cons_of_mem _ member, found⟩
    | true =>
      refine ⟨fun _ => rfl, ?_⟩
      cases earlier : before x with
      | true => exact .inl rfl
      | false =>
        rw [now, earlier] at first
        exact .inr ⟨x, List.mem_cons_self, rfl, by simpa using first⟩

/-- A source stands for the first file of a list that does not depend on the file system, and all
of whose paths are in normal form. -/
theorem resolve?_eq_find? (based : (ofProject root config).basePath? importer source = some base) :
    ∃ paths : List Path, (∀ p ∈ paths, p.normalize = p ∧ p.text ≠ "") ∧
      ∀ files, (ofProject root config).resolve? files importer source = paths.find? files.isFile := by
  have normal := normal_basePath? based
  have suffixed : ∀ p ∈ config.resolutionExtensions.map base.addSuffix,
      p.normalize = p ∧ p.text ≠ "" := by
    refine List.forall_mem_map.mpr fun extension member => ⟨normal_addSuffix member normal, ?_⟩
    intro empty
    have nothing : extension = "" := (String.append_eq_empty_iff.mp empty).2
    exact absurd (plain_of_extension member).2 (by simp [nothing])
  simp only [resolve?, based, Option.bind_some]
  by_cases empty : base.text = ""
  · obtain rfl : base = ⟨""⟩ := congrArg Path.mk empty
    exact ⟨_, suffixed, fun files => find?_of_empty⟩
  · refine ⟨choices config.resolutionExtensions base, ?_, fun files => find?_choices normal empty⟩
    refine List.forall_mem_cons.mpr ⟨⟨normal, empty⟩, List.forall_mem_append.mpr ⟨suffixed, ?_⟩⟩
    exact List.forall_mem_map.mpr fun extension member =>
      ⟨normal_join_name normal (isStep_index member), join_name_filled base (isStep_index member)⟩

/-- The search over all candidates is answered unless index files are overlooked. -/
theorem probe?_iff (normal : base.normalize = base) :
    (ofProject root config).probe? files base =
        (choices config.resolutionExtensions base).find? files.isFile ↔
      ¬Overlooked files config.resolutionExtensions base := by
  by_cases empty : base.text = ""
  · obtain rfl : base = ⟨""⟩ := congrArg Path.mk empty
    have first : files.isFile ⟨""⟩ = false := rfl
    rw [find?_of_empty, choices, List.find?_cons, first, List.find?_append]
    cases suffixed : (config.resolutionExtensions.map (Path.addSuffix ⟨""⟩)).find? files.isFile with
    | some found =>
      refine iff_of_true rfl fun overlooked => ?_
      obtain ⟨extension, member, rfl⟩ := List.mem_map.mp (List.mem_of_find?_eq_some suffixed)
      have missed := overlooked.2.1 extension member
      rw [List.find?_some suffixed] at missed
      cases missed
    | none =>
      have missed : ∀ extension ∈ config.resolutionExtensions,
          files.isFile (Path.addSuffix ⟨""⟩ extension) = false := by
        simpa using List.find?_eq_none.mp suffixed
      rw [Option.none_or, eq_comm, List.find?_eq_none]
      constructor
      · rintro none ⟨-, -, extension, member, found⟩
        exact none _ (List.mem_map_of_mem member) found
      · intro seen
        exact List.forall_mem_map.mpr fun extension member found =>
          seen ⟨rfl, missed, extension, member, found⟩
  · exact iff_of_true (find?_choices normal empty) fun overlooked => empty overlooked.1

/-- A source with a base path stands for the first file among the base path, the base path with
each extension and the index files in it, unless index files of the empty base path are
overlooked: then it stands for nothing. A component stands for the same file. Where a file is
added, a source that stood for a file still stands for the same one or for the added one, and a
source that stood for none can only come to stand for the added one. -/
theorem first_candidate_resolved (root : Path) (config : Config) (files : Files) (importer : Path)
    (source : String) (base : Path)
    (based : (ofProject root config).basePath? importer source = some base) :
    let r := ofProject root config
    let extensions := config.resolutionExtensions
    (r.resolve? files importer source = (choices extensions base).find? files.isFile ↔
      ¬Overlooked files extensions base) ∧
    (Overlooked files extensions base → r.resolve? files importer source = none) ∧
    (∀ found, r.resolve? files importer source = some found →
      r.component? files importer source = some found) ∧
    (Anchored files → ∀ place content, Vacant files.root place →
      let later := withFile files place content
      ((r.resolve? files importer source).isSome = true →
        (r.resolve? later importer source).isSome = true) ∧
      (r.resolve? later importer source = r.resolve? files importer source ∨
        ∃ found, r.resolve? later importer source = some found ∧ later.locate found = .ok place)) := by
  intro r extensions
  have normal := normal_basePath? based
  refine ⟨?_, fun overlooked => ?_, fun found resolved => ?_, fun anchored place content vacant => ?_⟩
  · rw [resolve?, based, Option.bind_some]
    exact probe?_iff normal
  · obtain rfl : base = ⟨""⟩ := congrArg Path.mk overlooked.1
    rw [resolve?, based, Option.bind_some, find?_of_empty, List.find?_eq_none]
    exact List.forall_mem_map.mpr fun extension member => by
      simpa using overlooked.2.1 extension member
  · rw [Resolver.component?, resolved]
  · obtain ⟨paths, shaped, searched⟩ := resolve?_eq_find? based
    obtain ⟨kept, same⟩ := find?_of_grows fun p member =>
      isFile_withFile anchored vacant content (shaped p member).1 (shaped p member).2
    rw [← searched, ← searched] at kept same
    refine ⟨kept, same.imp_right ?_⟩
    rintro ⟨found, member, first, rfl⟩
    obtain ⟨normalFound, filled⟩ := shaped found member
    have anchoredLater := anchored_withFile anchored vacant content
    have isFile := List.find?_some ((searched _).symm.trans first)
    obtain ⟨_, stands⟩ := (isFile_iff anchoredLater normalFound filled).mp isFile
    exact ⟨found, first, locate_of_holds anchoredLater normalFound filled stands⟩

/-- A project in the working directory, with an index file. -/
def inPlace : Files where
  root := .directory [("index.js", .file default), ("src", .directory [])]

theorem first_candidate_resolved_in_place :
    let r := Resolver.ofProject ⟨"."⟩ {}
    r.basePath? ⟨"src/App.jsx"⟩ "../" = some ⟨""⟩ ∧
      (choices r.extensions ⟨""⟩).find? inPlace.isFile = some ⟨"index.js"⟩ ∧
      r.resolve? inPlace ⟨"src/App.jsx"⟩ "../" = none ∧
      Anchored inPlace ∧ Vacant inPlace.root [".ts"] ∧
      ∃ found, r.resolve? (withFile inPlace [".ts"] default) ⟨"src/App.jsx"⟩ "../" = some found ∧
        (withFile inPlace [".ts"] default).locate found = .ok [".ts"] := by
  intro r
  have based : r.basePath? ⟨"src/App.jsx"⟩ "../" = some ⟨""⟩ := by decide
  have anchored : Anchored inPlace := ⟨_, rfl⟩
  have vacant : Vacant inPlace.root [".ts"] := by
    refine ⟨rfl, fun upper before holds => ?_⟩
    rcases List.prefix_cons_iff.mp before with rfl | ⟨more, rfl, rest⟩
    · obtain ⟨content, other⟩ := holds
      cases other
    · obtain rfl := List.prefix_nil.mp rest
      obtain ⟨content, other⟩ := holds
      cases other
  obtain ⟨-, overlooked, -, later⟩ :=
    first_candidate_resolved ⟨"."⟩ {} inPlace ⟨"src/App.jsx"⟩ "../" ⟨""⟩ based
  have none := overlooked ⟨rfl, by decide, ".js", by decide, by decide⟩
  refine ⟨based, by decide, none, anchored, vacant, ?_⟩
  refine (later anchored [".ts"] default vacant).2.resolve_left fun same => ?_
  have some : (r.resolve? (withFile inPlace [".ts"] default) ⟨"src/App.jsx"⟩ "../").isSome = true := by
    decide
  rw [same, none] at some
  cases some

end ImportAtlas.FirstCandidate
