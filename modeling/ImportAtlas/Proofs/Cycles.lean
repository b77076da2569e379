import ImportAtlas.Proofs.Components
import ImportAtlas.Proofs.CycleOrder
import ImportAtlas.Proofs.Reachability

/-! The cycles of a graph. Files that import each other, directly or through other
files, are listed together, every one of them once and no other file with them. Which
lists there are depends on what each place imports, and on nothing else about the calls
that built the graph or about the algorithms that found the components. -/
namespace ImportAtlas

/-- The places of the files of a cycle. -/
def Cycle.places (c : Cycle) : List Path.Place :=
  c.files.map Path.components

namespace Cycles
open Addition (Imports imports_eq links mentioned targets mem_links mem_targets)
open Building Components CycleOrder DepthFirst FileGraph Reachability
open ImportAtlas.Path (Place)

/-- Two places import each other, in one or more steps each way. -/
def Mutual (additions : List Addition) (a b : Place) : Prop :=
  Relation.TransGen (Imports additions) a b ∧ Relation.TransGen (Imports additions) b a

/-- Mutual places have the same mutual places. -/
theorem mutual_eq (both : Mutual additions a b) : Mutual additions a = Mutual additions b := by
  obtain ⟨there, back⟩ := both
  funext c
  refine propext ⟨?_, ?_⟩
  · exact fun also => ⟨back.trans also.1, also.2.trans there⟩
  · exact fun also => ⟨there.trans also.1, also.2.trans back⟩

section Graph
variable {additions : List Addition} {g : FileGraph}

theorem edge_iff (represents : Represents g (mentioned additions) (links additions)) :
    g.store.Edge i j ↔ ∃ a b, Imports additions a b ∧ (mentioned additions).idxOf a = i ∧
      (mentioned additions).idxOf b = j := by
  have edges : g.store.edges = ((links additions).map (numbers (mentioned additions))).reverse :=
    represents.edges
  rw [Store.Edge, edges, List.mem_reverse, List.mem_map]
  constructor
  · rintro ⟨⟨a, b⟩, listed, same⟩
    obtain ⟨source, target⟩ := Prod.mk.inj same
    exact ⟨a, b, mem_links.mp listed, source, target⟩
  · rintro ⟨a, b, edge, rfl, rfl⟩
    exact ⟨(a, b), mem_links.mpr edge, rfl⟩

theorem idxOf_lt (represents : Represents g (mentioned additions) (links additions))
    (known : a ∈ mentioned additions) :
    (mentioned additions).idxOf a < g.store.nodes.length :=
  represents.length_files ▸ List.idxOf_lt_length_of_mem known

theorem closed_store (represents : Represents g (mentioned additions) (links additions)) :
    g.store.Closed := by
  intro i j edge
  obtain ⟨a, b, imports, rfl, rfl⟩ := (edge_iff represents).mp edge
  obtain ⟨source, target⟩ := mentioned_of_imports imports
  exact ⟨idxOf_lt represents source, idxOf_lt represents target⟩

/-- What a number leads to are the numbers of what its place imports in one or more steps. -/
theorem chain_iff (represents : Represents g (mentioned additions) (links additions))
    (known : a ∈ mentioned additions) :
    Relation.TransGen g.store.Edge ((mentioned additions).idxOf a) j ↔
      ∃ b, Relation.TransGen (Imports additions) a b ∧ (mentioned additions).idxOf b = j := by
  constructor
  · intro chain
    induction chain with
    | single edge =>
      obtain ⟨c, b, imports, same, rfl⟩ := (edge_iff represents).mp edge
      obtain rfl := (List.idxOf_inj (mentioned_of_imports imports).1).mp same
      exact ⟨b, .single imports, rfl⟩
    | tail _ edge ih =>
      obtain ⟨b, chain, rfl⟩ := ih
      obtain ⟨c, d, imports, same, rfl⟩ := (edge_iff represents).mp edge
      obtain rfl := (List.idxOf_inj (mentioned_of_imports imports).1).mp same
      exact ⟨d, .tail chain imports, rfl⟩
  · rintro ⟨b, chain, rfl⟩
    exact chain.lift _ fun c d edge => (edge_iff represents).mpr ⟨c, d, edge, rfl, rfl⟩

section Classes
variable {components : List (List Nat)}

/-- Some numbers are those of the places that are mutual with a place. -/
def IsClass (additions : List Addition) (a : Place) (members : List Nat) : Prop :=
  ∀ i, i ∈ members ↔ ∃ b, Mutual additions a b ∧ (mentioned additions).idxOf b = i

/-- A component that is a cycle is the class of a place that leads back to itself. -/
private theorem class_of_mem (represents : Represents g (mentioned additions) (links additions))
    (parts : g.store.IsComponents components) (listed : c ∈ components)
    (cyclic : g.isCycle c = true) :
    ∃ a, Relation.TransGen (Imports additions) a a ∧ IsClass additions a c := by
  obtain ⟨i, member⟩ := List.exists_mem_of_ne_nil c (parts.filled c listed)
  have around := (isCycle_iff parts listed member).mp cyclic
  have inside := (parts.nodes i).mp (List.mem_flatten_of_mem listed member)
  obtain ⟨a, known, rfl⟩ : ∃ a ∈ mentioned additions, (mentioned additions).idxOf a = i := by
    have numbered : i ∈ List.range g.files.length := List.mem_range.mpr inside
    rwa [range_files represents, List.mem_map] at numbered
  obtain ⟨b, chain, same⟩ := (chain_iff represents known).mp around
  obtain rfl := (List.idxOf_inj (mentioned_of_chain chain).2).mp same
  refine ⟨_, chain, fun j => (parts.strong c listed _ member j).trans ⟨?_, ?_⟩⟩
  · rintro ⟨there, back⟩
    obtain ⟨d, onward, rfl⟩ := (chain_iff represents known).mp (around.trans_left there)
    obtain ⟨e, homeward, same⟩ :=
      (chain_iff represents (mentioned_of_chain onward).2).mp (around.trans_right back)
    obtain rfl := (List.idxOf_inj (mentioned_of_chain homeward).2).mp same
    exact ⟨d, ⟨onward, homeward⟩, rfl⟩
  · rintro ⟨d, ⟨onward, homeward⟩, rfl⟩
    have there := (chain_iff represents known).mpr ⟨d, onward, rfl⟩
    have back := (chain_iff represents (mentioned_of_chain onward).2).mpr ⟨_, homeward, rfl⟩
    exact ⟨there.to_reflTransGen, back.to_reflTransGen⟩

/-- The class of a place that leads back to itself is a component that is a cycle. -/
private theorem exists_class (represents : Represents g (mentioned additions) (links additions))
    (parts : g.store.IsComponents components)
    (chain : Relation.TransGen (Imports additions) a a) :
    ∃ c ∈ components, g.isCycle c = true ∧ IsClass additions a c := by
  have known := (mentioned_of_chain chain).1
  obtain ⟨c, listed, member⟩ :=
    List.mem_flatten.mp ((parts.nodes _).mpr (idxOf_lt represents known))
  have around := (chain_iff represents known).mpr ⟨a, chain, rfl⟩
  have cyclic := (isCycle_iff parts listed member).mpr around
  obtain ⟨b, -, exact⟩ := class_of_mem represents parts listed cyclic
  obtain ⟨d, both, same⟩ := (exact _).mp member
  obtain rfl := (List.idxOf_inj (mentioned_of_chain both.1).2).mp same
  refine ⟨c, listed, cyclic, ?_⟩
  rwa [IsClass, ← mutual_eq both]

end Classes

/-- The place of a number. -/
private def placeOf (g : FileGraph) (i : Nat) : Place :=
  (g.pathOf i).components

private theorem placeOf_idxOf (represents : Represents g (mentioned additions) (links additions))
    (known : a ∈ mentioned additions) : placeOf g ((mentioned additions).idxOf a) = a := by
  obtain ⟨file, found, rfl⟩ := getElem?_files represents known
  rw [placeOf, pathOf, found, Option.getD_some]

private theorem placeOf_injOn (represents : Represents g (mentioned additions) (links additions)) :
    ∀ i ∈ (mentioned additions).map (mentioned additions).idxOf,
      ∀ j ∈ (mentioned additions).map (mentioned additions).idxOf,
        placeOf g i = placeOf g j → i = j := by
  intro i numbered j numbered' same
  obtain ⟨a, listed, rfl⟩ := List.mem_map.mp numbered
  obtain ⟨b, listed', rfl⟩ := List.mem_map.mp numbered'
  rw [placeOf_idxOf represents listed, placeOf_idxOf represents listed'] at same
  rw [same]

private theorem map_pathsOf {listed : List Nat} (within : ∀ i ∈ listed, i < g.files.length) :
    (g.pathsOf listed).map Path.components = listed.map (placeOf g) := by
  rw [pathsOf, List.map_filterMap, ← List.filterMap_eq_map]
  refine List.filterMap_congr ?_
  intro i member
  simp [placeOf, pathOf, within i member]

/-- The files of a class are the places that are mutual with one of them, and are listed as
those of a cycle. -/
private theorem lists_class (represents : Represents g (mentioned additions) (links additions))
    (chain : Relation.TransGen (Imports additions) a a) (exact : IsClass additions a members)
    (once : members.Nodup) :
    Lists (targets additions) placeLE (Mutual additions a)
      ((g.pathsOf (g.cycleOrder members)).map Path.components) := by
  have filled : members ≠ [] := List.ne_nil_of_mem ((exact _).mpr ⟨a, ⟨chain, chain⟩, rfl⟩)
  have lists := lists_cycleOrder g filled once
  have numbered : ∀ i ∈ members, i ∈ (mentioned additions).map (mentioned additions).idxOf := by
    intro i member
    obtain ⟨b, both, rfl⟩ := (exact i).mp member
    exact List.mem_map_of_mem (mentioned_of_chain both.1).2
  have sameMembers : Named (placeOf g) (· ∈ members) = Mutual additions a := by
    funext b
    refine propext ⟨?_, ?_⟩
    · rintro ⟨i, member, rfl⟩
      obtain ⟨b, both, rfl⟩ := (exact i).mp member
      rwa [placeOf_idxOf represents (mentioned_of_chain both.1).2]
    · intro both
      exact ⟨_, (exact _).mpr ⟨b, both, rfl⟩,
        placeOf_idxOf represents (mentioned_of_chain both.1).2⟩
  rw [map_pathsOf, ← sameMembers]
  · refine lists.map (placeOf_injOn represents) (orderedNeighbors_subset represents) ?_ numbered
      (fun _ _ => rfl)
    intro i member
    obtain ⟨b, listed, rfl⟩ := List.mem_map.mp member
    rw [placeOf_idxOf represents listed, orderedNeighbors_idxOf represents, List.map_map]
    refine (List.map_congr_left ?_).trans (List.map_id _) |>.symm
    exact fun c edge => placeOf_idxOf represents (targets_subset additions b edge)
  · intro i member
    have listed := numbered i ((lists.mem_iff i).mp member)
    rw [← range_files represents] at listed
    exact List.mem_range.mp listed

/-! Cycles, whatever algorithms find the components. -/

variable {algorithms : GraphAlgorithms}

/-- The cycles of a graph before they are sorted. -/
private theorem cycles_perm (g : FileGraph) (algorithms : GraphAlgorithms) :
    (g.cyclesBy algorithms).Perm
      (((algorithms.components g.store).filter g.isCycle).map fun members =>
        (⟨g.pathsOf (g.cycleOrder members)⟩ : Cycle)) :=
  List.mergeSort_perm ..

theorem files_subset_of_mem_cyclesBy (member : c ∈ g.cyclesBy algorithms) :
    c.files ⊆ g.files := by
  obtain ⟨members, -, rfl⟩ := List.mem_map.mp ((cycles_perm g algorithms).mem_iff.mp member)
  exact pathsOf_subset g _

/-- The members of a cycle are the class of a place. -/
private theorem mem_cyclesBy_iff
    (represents : Represents g (mentioned additions) (links additions))
    (parts : g.store.IsComponents (algorithms.components g.store)) :
    c ∈ g.cyclesBy algorithms ↔ ∃ members ∈ algorithms.components g.store,
      c = ⟨g.pathsOf (g.cycleOrder members)⟩ ∧ ∃ a,
        Relation.TransGen (Imports additions) a a ∧ IsClass additions a members ∧
          Lists (targets additions) placeLE (Mutual additions a) c.places := by
  rw [(cycles_perm g algorithms).mem_iff, List.mem_map]
  constructor
  · rintro ⟨members, kept, rfl⟩
    obtain ⟨listed, cyclic⟩ := List.mem_filter.mp kept
    obtain ⟨a, chain, exact⟩ := class_of_mem represents parts listed cyclic
    have once : members.Nodup := (List.nodup_flatten.mp parts.once).1 members listed
    exact ⟨members, listed, rfl, a, chain, exact, lists_class represents chain exact once⟩
  · rintro ⟨members, listed, rfl, a, chain, exact, -⟩
    have member := (exact _).mpr ⟨a, ⟨chain, chain⟩, rfl⟩
    have around := (chain_iff represents (mentioned_of_chain chain).1).mpr ⟨a, chain, rfl⟩
    exact ⟨members, List.mem_filter.mpr ⟨listed, (isCycle_iff parts listed member).mpr around⟩,
      rfl⟩

/-- A place that leads back to itself is in a cycle. -/
theorem exists_cycle (represents : Represents g (mentioned additions) (links additions))
    (lawful : algorithms.Lawful g.store) (chain : Relation.TransGen (Imports additions) a a) :
    ∃ c ∈ g.cyclesBy algorithms,
      Lists (targets additions) placeLE (Mutual additions a) c.places := by
  have parts := lawful.components
  obtain ⟨members, listed, -, exact⟩ := exists_class represents parts chain
  have once : members.Nodup := (List.nodup_flatten.mp parts.once).1 members listed
  have lists := lists_class represents chain exact once
  exact ⟨_, (mem_cyclesBy_iff represents parts).mpr
    ⟨members, listed, rfl, a, chain, exact, lists⟩, lists⟩

theorem lists_of_mem_cyclesBy (represents : Represents g (mentioned additions) (links additions))
    (lawful : algorithms.Lawful g.store) (member : c ∈ g.cyclesBy algorithms) :
    ∃ a, Relation.TransGen (Imports additions) a a ∧
      Lists (targets additions) placeLE (Mutual additions a) c.places := by
  obtain ⟨_, -, -, a, chain, -, lists⟩ :=
    (mem_cyclesBy_iff represents lawful.components).mp member
  exact ⟨a, chain, lists⟩

/-- The cycles of a graph list the classes of mutual places, and there is no other way to
list one. -/
theorem mem_cyclesBy (represents : Represents g (mentioned additions) (links additions))
    (lawful : algorithms.Lawful g.store) {listed : List Place} :
    listed ∈ (g.cyclesBy algorithms).map Cycle.places ↔
      ∃ a, Relation.TransGen (Imports additions) a a ∧
        Lists (targets additions) placeLE (Mutual additions a) listed := by
  rw [List.mem_map]
  constructor
  · rintro ⟨c, member, rfl⟩
    exact lists_of_mem_cyclesBy represents lawful member
  · rintro ⟨a, chain, lists⟩
    obtain ⟨c, member, same⟩ := exists_cycle represents lawful chain
    exact ⟨c, member, same.unique placeLE_antisymm lists⟩

/-- No place is in two cycles. -/
theorem disjoint_cycles (represents : Represents g (mentioned additions) (links additions))
    (lawful : algorithms.Lawful g.store) :
    (g.cyclesBy algorithms).Pairwise fun c d => c.places.Disjoint d.places := by
  have symmetric {c d : Cycle} (apart : c.places.Disjoint d.places) : d.places.Disjoint c.places :=
    fun _ second first => apart first second
  have parts := lawful.components
  have disjoint := (List.nodup_flatten.mp parts.once).2.filter g.isCycle
  refine ((cycles_perm g algorithms).pairwise_iff symmetric).mpr ?_
  refine List.pairwise_map.mpr (disjoint.imp_of_mem ?_)
  intro members members' first second apart place member member'
  have placed {numbers : List Nat}
      (kept : numbers ∈ (algorithms.components g.store).filter g.isCycle)
      (among : place ∈ (g.pathsOf (g.cycleOrder numbers)).map Path.components) :
      (mentioned additions).idxOf place ∈ numbers := by
    obtain ⟨listed, cyclic⟩ := List.mem_filter.mp kept
    obtain ⟨a, chain, exact⟩ := class_of_mem represents parts listed cyclic
    have once : numbers.Nodup := (List.nodup_flatten.mp parts.once).1 numbers listed
    have lists := lists_class represents chain exact once
    exact (exact _).mpr ⟨place, (lists.mem_iff place).mp among, rfl⟩
  exact apart (placed first member) (placed second member')

/-- Cycles ascend strictly, since no two of them start with the same file. -/
theorem sorted_cycles (represents : Represents g (mentioned additions) (links additions))
    (lawful : algorithms.Lawful g.store) :
    (g.cyclesBy algorithms).Pairwise fun c d =>
      Path.compareLists Path.compare c.files d.files = .lt := by
  have sorted : (g.cyclesBy algorithms).Pairwise fun c d =>
      (Path.compareLists Path.compare c.files d.files).isLE = true := by
    refine List.pairwise_mergeSort ?_ ?_ _
    · intro c d e
      exact Std.TransCmp.isLE_trans
    · intro c d
      exact isLE_total _ _ _
  refine (sorted.and (disjoint_cycles represents lawful)).imp_of_mem ?_
  rintro c d member - ⟨ascends, apart⟩
  obtain ⟨a, -, lists⟩ := lists_of_mem_cyclesBy represents lawful member
  rcases Ordering.isLE_iff_eq_lt_or_eq_eq.mp ascends with less | same
  · exact less
  · rw [compareLists_paths] at same
    have equal : c.places = d.places := Std.LawfulEqCmp.eq_of_compare same
    obtain ⟨place, listed⟩ := List.exists_mem_of_ne_nil _ lists.ne_nil
    exact absurd (equal ▸ listed) (apart listed)

theorem hasCyclesBy_iff (represents : Represents g (mentioned additions) (links additions))
    (lawful : algorithms.Lawful g.store) :
    g.hasCyclesBy algorithms = true ↔ g.cyclesBy algorithms ≠ [] := by
  rw [FileGraph.hasCyclesBy, lawful.isCyclic]
  constructor
  · rintro ⟨i, around⟩
    obtain ⟨j, edge, -⟩ := Relation.TransGen.head'_iff.mp around
    obtain ⟨a, b, imports, rfl, -⟩ := (edge_iff represents).mp edge
    obtain ⟨c, chain, same⟩ :=
      (chain_iff represents (mentioned_of_imports imports).1).mp around
    obtain rfl := (List.idxOf_inj (mentioned_of_chain chain).2).mp same
    obtain ⟨cycle, member, -⟩ := exists_cycle represents lawful chain
    exact List.ne_nil_of_mem member
  · intro filled
    obtain ⟨c, member⟩ := List.exists_mem_of_ne_nil _ filled
    obtain ⟨a, chain, -⟩ := lists_of_mem_cyclesBy represents lawful member
    exact ⟨_, (chain_iff represents (mentioned_of_chain chain).1).mpr ⟨a, chain, rfl⟩⟩

/-- Files of a graph that name the same places are the same. -/
private theorem eq_of_places (represents : Represents g (mentioned additions) (links additions))
    {files files' : List Path} (within : files ⊆ g.files) (within' : files' ⊆ g.files)
    (same : files.map Path.components = files'.map Path.components) : files = files' := by
  have once : (g.files.map Path.components).Nodup :=
    represents.files ▸ nodup_mentioned additions
  induction files generalizing files' with
  | nil => exact (List.map_eq_nil_iff.mp same.symm).symm
  | cons p files ih =>
    obtain ⟨q, others, rfl, here, later⟩ := List.map_eq_cons_iff.mp same.symm
    obtain ⟨known, within⟩ := List.cons_subset.mp within
    obtain ⟨known', within'⟩ := List.cons_subset.mp within'
    rw [List.inj_on_of_nodup_map once known known' here.symm, ih within within' later.symm]

/-- Which algorithms find the components does not show in the cycles. -/
theorem cyclesBy_eq {others : GraphAlgorithms}
    (represents : Represents g (mentioned additions) (links additions))
    (lawful : algorithms.Lawful g.store) (lawful' : others.Lawful g.store) :
    g.cyclesBy algorithms = g.cyclesBy others := by
  have oriented : Std.OrientedCmp fun c d : Cycle =>
      Path.compareLists Path.compare c.files d.files :=
    ⟨(inferInstance : Std.OrientedCmp (Path.compareLists Path.compare)).eq_swap⟩
  have listed {one other : GraphAlgorithms} (lawful : one.Lawful g.store)
      (lawful' : other.Lawful g.store) {c : Cycle} (member : c ∈ g.cyclesBy one) :
      c ∈ g.cyclesBy other := by
    have also := (mem_cyclesBy represents lawful').mpr
      (lists_of_mem_cyclesBy represents lawful member)
    obtain ⟨d, found, same⟩ := List.mem_map.mp also
    have equal : d.files = c.files := eq_of_places represents
      (files_subset_of_mem_cyclesBy found) (files_subset_of_mem_cyclesBy member) same
    obtain ⟨files⟩ := c
    obtain ⟨files'⟩ := d
    obtain rfl : files' = files := equal
    exact found
  exact eq_of_ascending (sorted_cycles represents lawful) (sorted_cycles represents lawful')
    fun c => ⟨listed lawful lawful', listed lawful' lawful⟩

theorem hasCyclesBy_eq {others : GraphAlgorithms} (lawful : algorithms.Lawful g.store)
    (lawful' : others.Lawful g.store) : g.hasCyclesBy algorithms = g.hasCyclesBy others := by
  rw [Bool.eq_iff_iff, FileGraph.hasCyclesBy, FileGraph.hasCyclesBy, lawful.isCyclic,
    lawful'.isCyclic]

/-- The algorithms of a graph that some calls build are lawful. -/
theorem lawful_bySearch_of_represents
    (represents : Represents g (mentioned additions) (links additions)) :
    GraphAlgorithms.bySearch.Lawful g.store :=
  lawful_bySearch (closed_store represents)

end Graph

/-- Whatever algorithms find the strongly connected components of a graph, each once, and decide
whether it has a directed cycle: the cycles of the graph are exactly the classes of files that
the calls let import each other in one or more steps each way. Every file that leads back to
itself is in one of them, once, and no other file is in any. No cycle is empty, they ascend
strictly by their lists of files, and the graph has cycles when there is one to list. The
algorithms that go by the search are of this kind, and so the answers are always theirs. -/
theorem cycles_exact (additions : List Addition) (algorithms : GraphAlgorithms)
    (lawful : algorithms.Lawful (FileGraph.build additions).store) :
    let g := FileGraph.build additions
    let cycles := g.cyclesBy algorithms
    (∀ a b, (∃ c ∈ cycles, a ∈ c.places ∧ b ∈ c.places) ↔
      Relation.TransGen (Imports additions) a b ∧ Relation.TransGen (Imports additions) b a) ∧
    (cycles.flatMap Cycle.places).Nodup ∧
    (∀ a, a ∈ cycles.flatMap Cycle.places ↔ Relation.TransGen (Imports additions) a a) ∧
    (∀ c ∈ cycles, c.files ≠ [] ∧ c.files ⊆ g.files) ∧
    (cycles.Pairwise fun c d => Path.compareLists Path.compare c.files d.files = .lt) ∧
    (g.hasCyclesBy algorithms = true ↔ cycles ≠ []) ∧
    (GraphAlgorithms.bySearch.Lawful g.store ∧ g.cycles = cycles ∧
      g.hasCycles = g.hasCyclesBy algorithms) := by
  intro g cycles
  have represents := represents_build additions
  have own := lawful_bySearch_of_represents represents
  have lists {c : Cycle} (member : c ∈ cycles) :
      ∃ a, Lists (targets additions) placeLE (Mutual additions a) c.places := by
    obtain ⟨a, -, lists⟩ := lists_of_mem_cyclesBy represents lawful member
    exact ⟨a, lists⟩
  have together (a b : Place) : (∃ c ∈ cycles, a ∈ c.places ∧ b ∈ c.places) ↔
      Mutual additions a b := by
    constructor
    · rintro ⟨c, member, first, second⟩
      obtain ⟨x, listed⟩ := lists member
      obtain ⟨there, back⟩ := (listed.mem_iff a).mp first
      obtain ⟨there', back'⟩ := (listed.mem_iff b).mp second
      exact ⟨back.trans there', back'.trans there⟩
    · intro both
      have around := both.1.trans both.2
      obtain ⟨c, member, listed⟩ := exists_cycle represents lawful around
      exact ⟨c, member, (listed.mem_iff a).mpr ⟨around, around⟩, (listed.mem_iff b).mpr both⟩
  refine ⟨together, ?_, ?_, ?_, sorted_cycles represents lawful,
    hasCyclesBy_iff represents lawful, own, cyclesBy_eq represents own lawful,
    hasCyclesBy_eq own lawful⟩
  · refine List.nodup_flatMap.mpr ⟨?_, disjoint_cycles represents lawful⟩
    intro c member
    obtain ⟨a, listed⟩ := lists member
    exact listed.nodup
  · intro a
    rw [List.mem_flatMap]
    have own := together a a
    simpa [Mutual] using own
  · intro c member
    obtain ⟨a, listed⟩ := lists member
    refine ⟨?_, files_subset_of_mem_cyclesBy member⟩
    intro nothing
    exact listed.ne_nil (by rw [Cycle.places, nothing, List.map_nil])

/-- Calls that let two files import each other, and one of them a third one. -/
private def tangle : List Addition :=
  [.importing ⟨"b"⟩ ⟨"a"⟩, .importing ⟨"a"⟩ ⟨"b"⟩, .importing ⟨"a"⟩ ⟨"c"⟩]

theorem cycles_exact_tangle :
    GraphAlgorithms.bySearch.Lawful (FileGraph.build tangle).store ∧
      (∃ c ∈ (FileGraph.build tangle).cyclesBy .bySearch,
        [.name "a"] ∈ c.places ∧ [.name "b"] ∈ c.places) ∧
      [.name "c"] ∉ ((FileGraph.build tangle).cyclesBy .bySearch).flatMap Cycle.places ∧
      (FileGraph.build tangle).hasCyclesBy .bySearch = true := by
  have lawful := lawful_bySearch_of_represents (represents_build tangle)
  obtain ⟨together, -, around, -, -, some, -⟩ := cycles_exact tangle .bySearch lawful
  have there : Imports tangle [.name "a"] [.name "b"] := ⟨⟨"a"⟩, ⟨"b"⟩, by simp [tangle], rfl, rfl⟩
  have back : Imports tangle [.name "b"] [.name "a"] := ⟨⟨"b"⟩, ⟨"a"⟩, by simp [tangle], rfl, rfl⟩
  have both := (together _ _).mpr ⟨.single there, .single back⟩
  have outside : ¬Relation.TransGen (Imports tangle) [.name "c"] [.name "c"] := by
    intro chain
    obtain ⟨_, edge, -⟩ := Relation.TransGen.head'_iff.mp chain
    rw [← mem_targets] at edge
    exact absurd edge List.not_mem_nil
  obtain ⟨c, member, -⟩ := id both
  exact ⟨lawful, both, mt (around _).mp outside, some.mpr (List.ne_nil_of_mem member)⟩

end Cycles
end ImportAtlas
