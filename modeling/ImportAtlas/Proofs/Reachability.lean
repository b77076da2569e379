import ImportAtlas.Proofs.Building
import ImportAtlas.Proofs.DepthFirst

/-! What a file imports through other files. The answer of a graph is compared with the
calls that built it: which chains of imports they add, and in which order a recursive
search would follow them. -/
namespace ImportAtlas.Reachability
open Addition (Imports linked links mentioned targets mem_linked mem_links mem_targets)
open Building DepthFirst FileGraph
open ImportAtlas.Path (Place)

variable {g : FileGraph} {additions : List Addition} {places : List Place}
  {pairs : List (Place × Place)} {direction : Direction}

/-- A call that adds an import mentions both of its places. -/
theorem mentioned_of_imports (imports : Imports additions a b) :
    a ∈ mentioned additions ∧ b ∈ mentioned additions := by
  obtain ⟨source, target, added, rfl, rfl⟩ := imports
  simp only [mentioned, List.mem_eraseDups, List.mem_flatMap]
  exact ⟨⟨_, added, by simp [Addition.places]⟩, ⟨_, added, by simp [Addition.places]⟩⟩

/-- A chain of imports starts and ends at places that have been mentioned. -/
theorem mentioned_of_chain (chain : Relation.TransGen (Imports additions) a b) :
    a ∈ mentioned additions ∧ b ∈ mentioned additions := by
  induction chain with
  | single edge => exact mentioned_of_imports edge
  | tail _ edge ih => exact ⟨ih.1, (mentioned_of_imports edge).2⟩

/-- Places that stand beside each other have both been mentioned. -/
theorem mentioned_of_linked (beside : b ∈ linked additions direction a) :
    a ∈ mentioned additions ∧ b ∈ mentioned additions := by
  have both := mentioned_of_imports (mem_links.mp (mem_linked.mp beside))
  cases direction with
  | outgoing => exact both
  | incoming => exact both.symm

theorem linked_subset (additions : List Addition) (direction : Direction) (place : Place) :
    linked additions direction place ⊆ mentioned additions :=
  fun _ beside => (mentioned_of_linked beside).2

theorem targets_subset (additions : List Addition) (place : Place) :
    targets additions place ⊆ mentioned additions :=
  linked_subset additions .outgoing place

theorem nodup_mentioned (additions : List Addition) : (mentioned additions).Nodup :=
  nodup_eraseDups _

/-- The numbers of the files are the numbers of their places. -/
theorem range_files (represents : Represents g (mentioned additions) (links additions)) :
    List.range g.files.length = (mentioned additions).map (mentioned additions).idxOf := by
  rw [← List.length_map (f := Path.components), represents.files]
  refine List.ext_getElem (by simp) ?_
  intro i _ _
  simp [(nodup_mentioned additions).idxOf_getElem]

private theorem near_numbers (direction : Direction) (link : Place × Place) :
    direction.near (numbers places link) = places.idxOf (direction.near link) := by
  cases direction with
  | _ => rfl

private theorem far_numbers (direction : Direction) (link : Place × Place) :
    direction.far (numbers places link) = places.idxOf (direction.far link) := by
  cases direction with
  | _ => rfl

/-- The neighbors of a file, by the earliest edge first, are the numbers of the places beside
it. -/
theorem orderedNeighbors_idxOf
    (represents : Represents g (mentioned additions) (links additions)) (direction : Direction)
    (place : Place) :
    g.store.orderedNeighbors direction ((mentioned additions).idxOf place) =
      (linked additions direction place).map (mentioned additions).idxOf := by
  have edges : g.store.edges = ((links additions).map (numbers (mentioned additions))).reverse :=
    represents.edges
  have beside : (links additions).filter
      ((direction.near · == (mentioned additions).idxOf place) ∘ numbers (mentioned additions)) =
      (links additions).filter (direction.near · = place) := by
    refine List.filter_congr fun link listed => ?_
    have near : direction.near link ∈ mentioned additions := by
      cases direction with
      | outgoing => exact (represents.within link listed).1
      | incoming => exact (represents.within link listed).2
    rw [Function.comp_apply, near_numbers, Bool.eq_iff_iff]
    simp [List.idxOf_inj near]
  rw [Store.orderedNeighbors, Store.neighbors, edges, List.filter_reverse, List.map_reverse,
    List.reverse_reverse, List.filter_map, beside, linked, List.map_map, List.map_map]
  exact List.map_congr_left fun link _ => far_numbers direction link

/-- The file with the number of a place is the file of this place. -/
theorem getElem?_files (represents : Represents g places pairs) (known : place ∈ places) :
    ∃ file, g.files[places.idxOf place]? = some file ∧ file.components = place := by
  refine Option.map_eq_some_iff.mp ?_
  rw [← List.getElem?_map, represents.files]
  exact List.getElem?_idxOf known

theorem pathsOf_idxOf (represents : Represents g places pairs) {found : List Place}
    (known : found ⊆ places) :
    (g.pathsOf (found.map places.idxOf)).map Path.components = found := by
  induction found with
  | nil => rfl
  | cons place found ih =>
    obtain ⟨here, later⟩ := List.cons_subset.mp known
    obtain ⟨path, atNumber, rfl⟩ := getElem?_files represents here
    have rest := ih later
    rw [FileGraph.pathsOf] at rest ⊢
    rw [List.map_cons, List.filterMap_cons, atNumber]
    exact congrArg (path.components :: ·) rest

theorem pathsOf_subset (g : FileGraph) (found : List Nat) : g.pathsOf found ⊆ g.files := by
  intro path member
  obtain ⟨i, _, atNumber⟩ := List.mem_filterMap.mp member
  exact List.mem_of_getElem? atNumber

/-- Edges lead from the numbers of places to numbers of places. -/
theorem orderedNeighbors_subset
    (represents : Represents g (mentioned additions) (links additions)) :
    ∀ i ∈ (mentioned additions).map (mentioned additions).idxOf,
      g.store.orderedNeighbors .outgoing i ⊆
        (mentioned additions).map (mentioned additions).idxOf := by
  intro i numbered
  obtain ⟨v, listed, rfl⟩ := List.mem_map.mp numbered
  rw [orderedNeighbors_idxOf represents .outgoing v]
  exact List.map_subset _ (targets_subset additions v)

/-- The stack of the search is emptied in the order of the recursive search, whatever has
been met before. -/
theorem search_eq (represents : Represents g (mentioned additions) (links additions))
    (known : place ∈ mentioned additions) {met : List Place} (past : met ⊆ mentioned additions) :
    g.store.search (met.map (mentioned additions).idxOf)
        (g.store.orderedNeighbors .outgoing ((mentioned additions).idxOf place)) =
      (depthFirst (targets additions) (unvisited (mentioned additions) met)
        (targets additions place)).map (mentioned additions).idxOf := by
  have distinct : ∀ u ∈ mentioned additions, ∀ v ∈ mentioned additions,
      (mentioned additions).idxOf u = (mentioned additions).idxOf v → u = v :=
    fun u listed v _ => (List.idxOf_inj listed).mp
  have few : unvisited (mentioned additions) met ⊆ mentioned additions :=
    fun v member => (mem_unvisited.mp member).1
  have fresh : ∀ i ∈ (mentioned additions).map (mentioned additions).idxOf,
      i ∈ (unvisited (mentioned additions) met).map (mentioned additions).idxOf ↔
        i ∉ met.map (mentioned additions).idxOf := by
    intro i member
    obtain ⟨v, listed, rfl⟩ := List.mem_map.mp member
    rw [name_mem_map_iff distinct listed few, name_mem_map_iff distinct listed past]
    simp [listed]
  rw [map_depthFirst distinct (fun v _ => targets_subset additions v)
    (fun v _ => orderedNeighbors_idxOf represents .outgoing v) few (targets_subset additions place)]
  have start := orderedNeighbors_idxOf represents .outgoing place
  have emptied := search_append g.store (orderedNeighbors_subset represents) [] fresh
    (orderedNeighbors_subset represents _ (List.mem_map_of_mem known))
  rw [Store.search, List.append_nil, List.append_nil] at emptied
  rw [emptied, start]
  rfl

theorem reachableFrom_absent (unknown : p.components ∉ mentioned additions) :
    (FileGraph.build additions).reachableFrom p = [] := by
  rw [FileGraph.reachableFrom, (represents_build additions).indexOf? p, if_neg unknown]

/-- The places that are reached, in the order of the recursive search. -/
theorem reachableFrom_recursive (additions : List Addition) (p : Path) :
    ((FileGraph.build additions).reachableFrom p).map Path.components =
      depthFirst (targets additions) (unvisited (mentioned additions) [p.components])
        (targets additions p.components) := by
  have represents := represents_build additions
  by_cases known : p.components ∈ mentioned additions
  · have few : depthFirst (targets additions) (unvisited (mentioned additions) [p.components])
        (targets additions p.components) ⊆ mentioned additions :=
      fun v member => (mem_unvisited.mp (mem_left member)).1
    rw [FileGraph.reachableFrom, represents.indexOf? p, if_pos known]
    dsimp only
    have searched := search_eq represents known (List.cons_subset.mpr ⟨known, List.nil_subset _⟩)
    rw [List.map_singleton] at searched
    rw [searched, pathsOf_idxOf represents few]
  · have nothing : targets additions p.components = [] := by
      refine List.eq_nil_iff_forall_not_mem.mpr ?_
      intro v edge
      exact known (mentioned_of_imports (mem_targets.mp edge)).1
    rw [reachableFrom_absent known, nothing, depthFirst, List.map_nil]

/-- A file is looked up by its place. -/
theorem reachableFrom_congr (same : p.components = q.components) :
    g.reachableFrom p = g.reachableFrom q := by
  simp only [FileGraph.reachableFrom, FileGraph.indexOf?, same]

theorem reachableFrom_subset (g : FileGraph) (p : Path) : g.reachableFrom p ⊆ g.files := by
  rw [FileGraph.reachableFrom]
  split
  · exact pathsOf_subset g _
  · exact List.nil_subset _

/-- What is reached from a file is exactly what the calls let it import in one or more
steps, without the file itself. It is listed once and in the order of a recursive
search that follows imports as they were first added, and each place is listed by the
path that it was first mentioned by. -/
theorem reachableFrom_exact (additions : List Addition) (p : Path) :
    let g := FileGraph.build additions
    let found := (g.reachableFrom p).map Path.components
    (p.components ∉ mentioned additions → g.reachableFrom p = []) ∧
    (∀ place, place ∈ found ↔ place ≠ p.components ∧
      Relation.TransGen (Imports additions) p.components place) ∧
    found.Nodup ∧
    found = depthFirst (targets additions) (unvisited (mentioned additions) [p.components])
      (targets additions p.components) ∧
    g.reachableFrom p ⊆ g.files := by
  intro g found
  have recursive : found = depthFirst (targets additions)
      (unvisited (mentioned additions) [p.components]) (targets additions p.components) :=
    reachableFrom_recursive additions p
  refine ⟨reachableFrom_absent, ?_, recursive ▸ nodup, recursive, reachableFrom_subset g p⟩
  intro place
  have edges : (fun a b => b ∈ targets additions a) = Imports additions := by
    funext a b
    exact propext mem_targets
  rw [recursive, mem_iff_reached (targets_subset additions), edges]

end ImportAtlas.Reachability
