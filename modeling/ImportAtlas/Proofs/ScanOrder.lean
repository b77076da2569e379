import ImportAtlas.Proofs.Cycles
import ImportAtlas.Proofs.Relations

/-! The order in which files were scanned does not show in what a graph answers. The
numbers of files and the order of edges depend on it, but what one file imports is listed
in its own relation, and answers go by that and by the order of paths. -/
namespace ImportAtlas
open ImportAtlas.Path (Place)

namespace FileRelation

/-- What a relation tells about places, however their paths are spelled. -/
def content (r : FileRelation) : Place × List Place × Table (List String) :=
  (r.target.components, r.files.map Path.components, r.imports)

end FileRelation

namespace ScanOrder
open Addition (Imports links mentioned targets)
open Building CycleOrder Cycles DepthFirst Reachability Relations
open FileRelation (Links calls content deep find? paths places)

/-- Elements with different keys are told apart by them, so choosing by a key does not
depend on the order of a list. -/
theorem filter_key_perm [DecidableEq β] {key : α → β} {xs ys : List α} (alike : xs.Perm ys)
    (distinct : (xs.map key).Nodup) (k : β) :
    xs.filter (key · = k) = ys.filter (key · = k) := by
  -- No two elements are chosen, so that they are trivially in order.
  have few : (xs.filter (key · = k)).Pairwise fun _ _ => False := by
    refine ((List.pairwise_map.mp distinct).filter _).imp_of_mem ?_
    intro a b first second different
    have keyA := of_decide_eq_true (List.mem_filter.mp first).2
    have keyB := of_decide_eq_true (List.mem_filter.mp second).2
    exact different (keyA.trans keyB.symm)
  have few' := (alike.filter (key · = k)).pairwise few (fun never => never)
  exact List.Perm.eq_of_pairwise (fun _ _ _ _ never => never.elim) few few' (alike.filter _)

section Permuted
variable {relations relations' : List FileRelation}

theorem links_calls (relations : List FileRelation) :
    links (calls relations) = (relations.flatMap fun r =>
      r.files.map fun file => (r.target.components, file.components)).eraseDups := by
  have added : (relations.map fun r => Addition.file r.target).filterMap Addition.link? = [] := by
    simp [List.filterMap_map, Function.comp_def, Addition.link?]
  rw [links, calls, List.filterMap_append, added, List.nil_append, List.filterMap_flatMap]
  simp [List.filterMap_map, Function.comp_def, Addition.link?]

/-- What a place imports is told by the relations of this place. -/
theorem targets_calls (relations : List FileRelation) (place : Place) :
    targets (calls relations) place = (((relations.filter (·.target.components = place)).flatMap
      fun r => r.files.map fun file => (r.target.components, file.components)).eraseDups).map (·.2) := by
  have own : (relations.flatMap fun r =>
        r.files.map fun file => (r.target.components, file.components)).filter (·.1 = place) =
      (relations.filter (·.target.components = place)).flatMap fun r =>
        r.files.map fun file => (r.target.components, file.components) := by
    induction relations with
    | nil => rfl
    | cons r rest ih =>
      rw [List.flatMap_cons, List.filter_append, ih]
      by_cases here : r.target.components = place
      · simp [here, List.filter_map, Function.comp_def]
      · simp [here, List.filter_map, Function.comp_def]
  have spelled : targets (calls relations) place =
      ((links (calls relations)).filter (·.1 = place)).map (·.2) := rfl
  rw [spelled, links_calls, filter_eraseDups, own]

theorem targets_perm (alike : relations.Perm relations')
    (distinct : (relations.map (·.target.components)).Nodup) :
    targets (calls relations) = targets (calls relations') := by
  funext place
  rw [targets_calls, targets_calls, filter_key_perm alike distinct]

theorem links_perm (alike : relations.Perm relations') : Links relations = Links relations' := by
  funext a b
  simp only [Links, alike.mem_iff]

theorem mem_places_perm (alike : relations.Perm relations') (place : Place) :
    place ∈ places relations ↔ place ∈ places relations' := by
  simp only [mem_places, alike.mem_iff]

/-- The cycles of some relations list the same places in the same order. -/
theorem cycles_perm (alike : relations.Perm relations')
    (distinct : (relations.map (·.target.components)).Nodup) :
    (FileGraph.ofRelations relations).cycles.map Cycle.places =
      (FileGraph.ofRelations relations').cycles.map Cycle.places := by
  have ascends (relations : List FileRelation) :
      ((FileGraph.ofRelations relations).cycles.map Cycle.places).Pairwise fun a b =>
        Path.compareLists (Path.compareLists Path.Component.compare) a b = .lt := by
    have represents := represents_ofRelations relations
    refine List.pairwise_map.mpr
      ((sorted_cycles represents (lawful_bySearch_of_represents represents)).imp ?_)
    intro c d less
    rwa [compareLists_paths] at less
  refine eq_of_ascending (ascends relations) (ascends relations') ?_
  intro listed
  have edges : Imports (calls relations) = Imports (calls relations') := by
    rw [imports_calls, imports_calls, links_perm alike]
  have classes (a : Place) : Mutual (calls relations) a = Mutual (calls relations') a := by
    funext b
    rw [Mutual, Mutual, edges]
  have represents := represents_ofRelations relations
  have represents' := represents_ofRelations relations'
  rw [FileGraph.cycles, FileGraph.cycles,
    mem_cyclesBy represents (lawful_bySearch_of_represents represents),
    mem_cyclesBy represents' (lawful_bySearch_of_represents represents'),
    targets_perm alike distinct]
  simp only [classes, edges]

/-- What is reached from a file lists the same places in the same order. -/
theorem reachableFrom_perm (alike : relations.Perm relations')
    (distinct : (relations.map (·.target.components)).Nodup) (p : Path) :
    ((FileGraph.ofRelations relations).reachableFrom p).map Path.components =
      ((FileGraph.ofRelations relations').reachableFrom p).map Path.components := by
  rw [ofRelations_eq_build, ofRelations_eq_build, reachableFrom_recursive,
    reachableFrom_recursive, mentioned_calls, mentioned_calls, targets_perm alike distinct]
  refine depthFirst_congr ?_
  intro v
  rw [mem_unvisited, mem_unvisited, mem_places_perm alike]

/-- With one relation for each target, that relation is found. -/
theorem find?_of_mem (distinct : (relations.map (·.target.components)).Nodup) (listed : r ∈ relations)
    (target : r.target.components = p.components) : find? relations p = some r := by
  obtain ⟨found, among, search, same⟩ := find?_of_target listed target
  obtain rfl := List.inj_on_of_nodup_map distinct among listed (same.trans target.symm)
  exact search

/-- There is an entry for each relation whose target is imported by nothing. -/
theorem mem_deep_content (distinct : (relations.map (·.target.components)).Nodup) :
    entry ∈ (deep relations).map content ↔ ∃ r ∈ relations,
      (∀ q, ¬Links relations q r.target.components) ∧
      entry = (r.target.components,
        ((FileGraph.ofRelations relations).reachableFrom r.target).map Path.components,
        r.imports) := by
  rw [List.mem_map]
  constructor
  · rintro ⟨_, listed, rfl⟩
    obtain ⟨root, isRoot, r, search, rfl⟩ := mem_deep.mp listed
    obtain ⟨isPlace, alone⟩ := mem_roots.mp (List.mem_map_of_mem isRoot)
    have same : r.target.components = root.components := by
      simpa [Path.same] using List.find?_some search
    refine ⟨r, List.mem_reverse.mp (List.mem_of_find?_eq_some search), same ▸ alone, ?_⟩
    rw [content, same, reachableFrom_congr same]
  · rintro ⟨r, listed, alone, rfl⟩
    have isPlace := mem_places.mpr ⟨r, listed, .inl rfl⟩
    obtain ⟨root, isRoot, same⟩ := List.mem_map.mp (mem_roots.mpr ⟨isPlace, alone⟩)
    refine ⟨_, mem_deep.mpr ⟨root, isRoot, r, find?_of_mem distinct listed same.symm, rfl⟩, ?_⟩
    rw [content, same, reachableFrom_congr same]

/-- Deep relations have the same entries in some order. -/
theorem deep_perm (alike : relations.Perm relations')
    (distinct : (relations.map (·.target.components)).Nodup) :
    ((deep relations).map content).Perm ((deep relations').map content) := by
  have once (relations : List FileRelation) : ((deep relations).map content).Nodup := by
    refine List.Nodup.of_map (·.1) ?_
    rw [List.map_map]
    exact nodup_deep_places relations
  refine (List.perm_ext_iff_of_nodup (once relations) (once relations')).mpr ?_
  intro entry
  rw [mem_deep_content distinct, mem_deep_content ((alike.map _).nodup_iff.mp distinct)]
  simp only [alike.mem_iff, links_perm alike, reachableFrom_perm alike distinct]

end Permuted

/-! Where each place is spelled in one way, answers that name the same places are equal. -/

section Spelling

/-- No two of some paths spell one place differently. -/
def Uniform (paths : List Path) : Prop :=
  ∀ p ∈ paths, ∀ q ∈ paths, p.components = q.components → p = q

/-- The path of a place among some paths. -/
def spelling (paths : List Path) (place : Place) : Path :=
  (paths.find? (·.components = place)).getD ⟨""⟩

variable {all : List Path} {relations relations' : List FileRelation}

theorem spelling_components (uniform : Uniform all) (listed : p ∈ all) :
    spelling all p.components = p := by
  rw [spelling]
  cases search : all.find? (·.components = p.components) with
  | none => exact absurd (decide_eq_true rfl) (List.find?_eq_none.mp search p listed)
  | some found =>
    have same : found.components = p.components := by simpa using List.find?_some search
    exact uniform found (List.mem_of_find?_eq_some search) p listed same

theorem map_spelling (uniform : Uniform all) {files : List Path} (within : files ⊆ all) :
    (files.map Path.components).map (spelling all) = files := by
  rw [List.map_map]
  exact (List.map_congr_left fun p member => spelling_components uniform (within member)).trans
    (List.map_id _)

theorem cycles_spelled (uniform : Uniform all)
    (within : (FileGraph.ofRelations relations).files ⊆ all) :
    ((FileGraph.ofRelations relations).cycles.map Cycle.places).map
      (fun places => (⟨places.map (spelling all)⟩ : Cycle)) =
      (FileGraph.ofRelations relations).cycles := by
  rw [List.map_map]
  refine (List.map_congr_left ?_).trans (List.map_id _)
  intro c member
  exact congrArg Cycle.mk
    (map_spelling uniform (List.Subset.trans (files_subset_of_mem_cyclesBy member) within))

theorem deep_spelled (uniform : Uniform all)
    (within : (FileGraph.ofRelations relations).files ⊆ all) :
    ((deep relations).map content).map
      (fun entry => (⟨spelling all entry.1, entry.2.1.map (spelling all), entry.2.2⟩ : FileRelation)) =
      deep relations := by
  rw [List.map_map]
  refine (List.map_congr_left ?_).trans (List.map_id _)
  intro e member
  obtain ⟨root, isRoot, r, -, rfl⟩ := mem_deep.mp member
  have target : root ∈ all := within (pathsOf_subset _ _ isRoot)
  simp only [Function.comp_apply, content, spelling_components uniform target,
    map_spelling uniform (List.Subset.trans (reachableFrom_subset _ root) within), id_eq]

end Spelling

/-- The order of the relations of different files does not show in the answers of their
graph. Its cycles list the same files in the same order, the same files are reached from
every file in the same order, and deep relations have the same entries in some order. Files
are the same if their places are, and then also their spellings, where the relations spell
every place in one way. -/
theorem answers_of_perm {relations relations' : List FileRelation}
    (alike : relations.Perm relations')
    (distinct : (relations.map (·.target.components)).Nodup) :
    let g := FileGraph.ofRelations relations
    let g' := FileGraph.ofRelations relations'
    (g.cycles.map Cycle.places = g'.cycles.map Cycle.places ∧
      (∀ p, (g.reachableFrom p).map Path.components = (g'.reachableFrom p).map Path.components) ∧
      ((deep relations).map content).Perm ((deep relations').map content)) ∧
    (Uniform (paths relations) →
      g.cycles = g'.cycles ∧ (∀ p, g.reachableFrom p = g'.reachableFrom p) ∧
      (deep relations).Perm (deep relations')) := by
  intro g g'
  have sameCycles := cycles_perm alike distinct
  have sameReached := reachableFrom_perm alike distinct
  have sameEntries := deep_perm alike distinct
  refine ⟨⟨sameCycles, sameReached, sameEntries⟩, ?_⟩
  intro uniform
  have within : g.files ⊆ paths relations := files_ofRelations relations
  have within' : g'.files ⊆ paths relations := by
    intro p member
    exact (alike.flatMap_right _).mem_iff.mpr (files_ofRelations relations' member)
  refine ⟨?_, ?_, ?_⟩
  · rw [← cycles_spelled uniform within, ← cycles_spelled uniform within', sameCycles]
  · intro p
    rw [← map_spelling uniform (List.Subset.trans (reachableFrom_subset g p) within),
      ← map_spelling uniform (List.Subset.trans (reachableFrom_subset g' p) within'), sameReached]
  · rw [← deep_spelled uniform within, ← deep_spelled uniform within']
    exact sameEntries.map _

/-- A cycle and a file that leads to it, scanned in two orders. -/
theorem answers_of_perm_swapped :
    let main : FileRelation := ⟨⟨"main.js"⟩, [⟨"b.js"⟩, ⟨"a.js"⟩], {}⟩
    let a : FileRelation := ⟨⟨"a.js"⟩, [⟨"b.js"⟩], {}⟩
    let b : FileRelation := ⟨⟨"b.js"⟩, [⟨"a.js"⟩], {}⟩
    (FileGraph.ofRelations [main, a, b]).cycles = [⟨[⟨"a.js"⟩, ⟨"b.js"⟩]⟩] ∧
      (FileGraph.ofRelations [a, main, b]).cycles = [⟨[⟨"a.js"⟩, ⟨"b.js"⟩]⟩] ∧
      (deep [main, a, b]).Perm (deep [a, main, b]) := by
  intro main a b
  obtain ⟨sameCycles, -, sameEntries⟩ :=
    (answers_of_perm (.swap a main [b]) (by decide)).2 (by unfold Uniform; decide)
  have listed : (FileGraph.ofRelations [a, main, b]).cycles = [⟨[⟨"a.js"⟩, ⟨"b.js"⟩]⟩] := by
    decide +kernel
  exact ⟨sameCycles.trans listed, listed, sameEntries⟩

end ScanOrder
end ImportAtlas
