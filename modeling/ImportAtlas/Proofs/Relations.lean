import ImportAtlas.Proofs.Registry
import ImportAtlas.Relation

/-! The graph of some relations, and what is told about its files that nothing imports.
The relations themselves say which places there are and which imports, so what a graph
answers can be put in their terms. -/
namespace ImportAtlas
open ImportAtlas.Path (Place)

namespace FileRelation

/-- The calls that build the graph of some relations: all targets, and then the imports
of one relation after the other. -/
def calls (relations : List FileRelation) : List Addition :=
  relations.map (fun r => .file r.target) ++
    relations.flatMap fun r => r.files.map (.importing r.target)

/-- The paths that some relations name. -/
def paths (relations : List FileRelation) : List Path :=
  relations.flatMap fun r => r.target :: r.files

/-- The places of some relations, each where it is first met: first the targets, and then
what they import. -/
def places (relations : List FileRelation) : List Place :=
  (relations.map (·.target.components) ++
    relations.flatMap fun r => r.files.map Path.components).eraseDups

/-- Some relation lets the first place import the second one. -/
def Links (relations : List FileRelation) (a b : Place) : Prop :=
  ∃ r ∈ relations, r.target.components = a ∧ b ∈ r.files.map Path.components

end FileRelation

namespace Relations
open Addition (Imports links mentioned sources mem_sources)
open FileRelation (Links calls find? paths places)
open Building Reachability Registered

variable {relations : List FileRelation}

theorem ofRelations_eq_build (relations : List FileRelation) :
    FileGraph.ofRelations relations = FileGraph.build (calls relations) := by
  rw [FileGraph.build, calls, List.foldl_append, List.foldl_map, List.foldl_flatMap]
  simp only [List.foldl_map]
  rfl

theorem imports_calls (relations : List FileRelation) :
    Imports (calls relations) = Links relations := by
  funext a b
  simp only [Imports, calls, Links, List.mem_append, List.mem_map, List.mem_flatMap]
  refine propext ⟨?_, ?_⟩
  · rintro ⟨source, target, ⟨r, _, other⟩ | ⟨r, listed, file, among, same⟩, rfl, rfl⟩
    · cases other
    · cases same
      exact ⟨r, listed, rfl, _, among, rfl⟩
  · rintro ⟨r, listed, rfl, file, among, rfl⟩
    exact ⟨r.target, file, .inr ⟨r, listed, file, among, rfl⟩, rfl, rfl⟩

/-- An import of a place that is listed only lists what it imports. -/
private theorem foldl_enlist_imports (known : target.components ∈ listed) (files : List Path) :
    ((files.map (Addition.importing target)).flatMap Addition.places).foldl enlist listed =
      (files.map Path.components).foldl enlist listed := by
  induction files generalizing listed with
  | nil => rfl
  | cons file files ih =>
    have here : enlist listed target.components = listed := by rw [enlist, if_pos known]
    simp only [List.map_cons, List.flatMap_cons, Addition.places, List.foldl_append, List.foldl_cons,
      List.foldl_nil, here]
    exact ih (mem_enlist.mpr (.inl known))

private theorem mem_foldl_enlist (known : place ∈ listed) (more : List Place) :
    place ∈ more.foldl enlist listed := by
  induction more generalizing listed with
  | nil => exact known
  | cons p more ih => exact ih (mem_enlist.mpr (.inl known))

/-- The places of some relations are those that their calls mention, in the same order. -/
theorem mentioned_calls (relations : List FileRelation) :
    mentioned (calls relations) = places relations := by
  have later (rest : List FileRelation) (listed : List Place)
      (known : ∀ r ∈ rest, r.target.components ∈ listed) :
      ((rest.flatMap fun r => r.files.map (Addition.importing r.target)).flatMap
        Addition.places).foldl enlist listed =
      (rest.flatMap fun r => r.files.map Path.components).foldl enlist listed := by
    induction rest generalizing listed with
    | nil => rfl
    | cons r rest ih =>
      obtain ⟨here, others⟩ := List.forall_mem_cons.mp known
      simp only [List.flatMap_cons, List.flatMap_append, List.foldl_append]
      rw [foldl_enlist_imports here]
      exact ih _ fun s among => mem_foldl_enlist (others s among) _
  have first : (relations.map fun r => Addition.file r.target).flatMap Addition.places =
      relations.map (·.target.components) := by
    rw [List.flatMap_map]
    exact List.map_eq_flatMap.symm
  rw [mentioned, calls, List.flatMap_append, eraseDups_append, first, places,
    eraseDups_append, later]
  intro r listed
  exact List.mem_eraseDups.mpr (List.mem_map_of_mem listed)

theorem represents_ofRelations (relations : List FileRelation) :
    Represents (FileGraph.ofRelations relations) (mentioned (calls relations))
      (links (calls relations)) :=
  ofRelations_eq_build relations ▸ represents_build _

/-- A graph holds no other paths than its relations. -/
theorem files_ofRelations (relations : List FileRelation) :
    (FileGraph.ofRelations relations).files ⊆ paths relations := by
  rw [ofRelations_eq_build]
  refine List.Subset.trans (files_build _) ?_
  intro p member
  simp only [calls, List.mem_flatMap, List.mem_append, List.mem_map] at member
  rw [paths, List.mem_flatMap]
  obtain ⟨call, ⟨r, listed, rfl⟩ | ⟨r, listed, file, among, rfl⟩, named⟩ := member
  · exact ⟨r, listed, List.mem_cons.mpr (.inl (List.mem_singleton.mp named))⟩
  · refine ⟨r, listed, ?_⟩
    rcases List.mem_pair.mp named with rfl | rfl
    · exact List.mem_cons_self
    · exact List.mem_cons_of_mem _ among

theorem mem_places : place ∈ places relations ↔
    ∃ r ∈ relations, r.target.components = place ∨ place ∈ r.files.map Path.components := by
  simp only [places, List.mem_eraseDups, List.mem_append, List.mem_map, List.mem_flatMap]
  constructor
  · rintro (⟨r, listed, rfl⟩ | ⟨r, listed, among⟩)
    · exact ⟨r, listed, .inl rfl⟩
    · exact ⟨r, listed, .inr among⟩
  · rintro ⟨r, listed, rfl | among⟩
    · exact .inl ⟨r, listed, rfl⟩
    · exact .inr ⟨r, listed, among⟩

theorem mem_places_of_links (edge : Links relations a b) : a ∈ places relations ∧ b ∈ places relations := by
  obtain ⟨r, listed, rfl, among⟩ := edge
  exact ⟨mem_places.mpr ⟨r, listed, .inl rfl⟩, mem_places.mpr ⟨r, listed, .inr among⟩⟩

/-- The roots of a graph are the places that nothing imports, in the order of the places. -/
theorem roots_eq (relations : List FileRelation) :
    (FileGraph.ofRelations relations).roots.map Path.components =
      (places relations).filter fun p => (sources (calls relations) p).isEmpty := by
  have represents := represents_ofRelations relations
  have alone (p : Path) : ((FileGraph.ofRelations relations).importersOf p).isEmpty =
      (sources (calls relations) p.components).isEmpty := by
    rw [sources, ← beside_places represents, List.isEmpty_map]
    rfl
  rw [roots_eq_filter represents, ← mentioned_calls, ← represents.files, List.filter_map]
  simp only [alone]
  rfl

theorem mem_roots : place ∈ (FileGraph.ofRelations relations).roots.map Path.components ↔
    place ∈ places relations ∧ ∀ q, ¬Links relations q place := by
  rw [roots_eq, List.mem_filter, List.isEmpty_iff, List.eq_nil_iff_forall_not_mem]
  simp only [mem_sources, imports_calls]

/-- A place that nothing imports is the target of a relation. -/
theorem target_of_root (isPlace : place ∈ places relations) (alone : ∀ q, ¬Links relations q place) :
    ∃ r ∈ relations, r.target.components = place := by
  obtain ⟨r, listed, target | among⟩ := mem_places.mp isPlace
  · exact ⟨r, listed, target⟩
  · exact absurd ⟨r, listed, rfl, among⟩ (alone _)

/-- The last relation of a target is found. -/
theorem find?_of_target (listed : r ∈ relations) (target : r.target.components = p.components) :
    ∃ found ∈ relations, find? relations p = some found ∧
      found.target.components = p.components := by
  cases search : find? relations p with
  | none =>
    have missed := List.find?_eq_none.mp search r (List.mem_reverse.mpr listed)
    simp [Path.same, target] at missed
  | some found =>
    have same := List.find?_some search
    exact ⟨found, List.mem_reverse.mp (List.mem_of_find?_eq_some search), rfl,
      by simpa [Path.same] using same⟩

theorem mem_deep : e ∈ FileRelation.deep relations ↔
    ∃ root ∈ (FileGraph.ofRelations relations).roots, ∃ r, find? relations root = some r ∧
      e = ⟨root, (FileGraph.ofRelations relations).reachableFrom root, r.imports⟩ := by
  simp only [FileRelation.deep, List.mem_filterMap, Option.map_eq_some_iff, eq_comm (b := e)]

/-- There is an entry for every root, in the order of the roots. -/
theorem deep_targets (relations : List FileRelation) :
    (FileRelation.deep relations).map (·.target) = (FileGraph.ofRelations relations).roots := by
  rw [FileRelation.deep, List.map_filterMap]
  refine (List.filterMap_congr ?_).trans List.filterMap_some
  intro root isRoot
  obtain ⟨isPlace, alone⟩ := mem_roots.mp (List.mem_map_of_mem isRoot)
  obtain ⟨r, listed, target⟩ := target_of_root isPlace alone
  obtain ⟨found, -, search, -⟩ := find?_of_target listed target
  rw [search]
  rfl

/-- The targets of the entries are the places that nothing imports, in the order of the
places. -/
theorem deep_places (relations : List FileRelation) :
    (FileRelation.deep relations).map (·.target.components) =
      (places relations).filter fun p => (sources (calls relations) p).isEmpty := by
  rw [← roots_eq, ← deep_targets, List.map_map]
  rfl

theorem nodup_deep_places (relations : List FileRelation) :
    ((FileRelation.deep relations).map (·.target.components)).Nodup := by
  rw [deep_places]
  exact (nodup_eraseDups _).filter _

/-- What is reached from a file, in terms of the relations. -/
theorem mem_reachableFrom (relations : List FileRelation) (p : Path) :
    place ∈ ((FileGraph.ofRelations relations).reachableFrom p).map Path.components ↔
      place ≠ p.components ∧ Relation.TransGen (Links relations) p.components place := by
  rw [ofRelations_eq_build, reachableFrom_recursive,
    DepthFirst.mem_iff_reached (targets_subset _), Addition.imports_eq, imports_calls]

end Relations
end ImportAtlas
