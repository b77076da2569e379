import Mathlib.Data.List.Nodup
import ImportAtlas.Graph.Cycle
import ImportAtlas.Proofs.DepthFirst

/-! Strongly connected components. Algorithms for graphs are relied on for two things: a list of
the components of a store, each once, and whether the store has a directed cycle. The algorithms
that go by the search give both. The components that lie on a cycle are then those with more than
one member or with an edge from a member to itself. -/
namespace ImportAtlas

namespace Store
variable {α : Type}

/-- An edge leads from the first number to the second one. -/
def Edge (s : Store α) (i j : Nat) : Prop :=
  (i, j) ∈ s.edges

/-- Edges are between nodes. -/
def Closed (s : Store α) : Prop :=
  ∀ i j, s.Edge i j → i < s.nodes.length ∧ j < s.nodes.length

/-- A list of the strongly connected components of a store: every node is in one of them, once,
and is there with the numbers that it leads to and that lead back to it. -/
structure IsComponents (s : Store α) (components : List (List Nat)) : Prop where
  filled : ∀ c ∈ components, c ≠ []
  once : components.flatten.Nodup
  nodes : ∀ i, i ∈ components.flatten ↔ i < s.nodes.length
  strong : ∀ c ∈ components, ∀ i ∈ c, ∀ j,
    j ∈ c ↔ Relation.ReflTransGen s.Edge i j ∧ Relation.ReflTransGen s.Edge j i

end Store

/-- What algorithms are relied on for where they are asked about a store. -/
structure GraphAlgorithms.Lawful (algorithms : GraphAlgorithms) (s : Store Path) : Prop where
  components : s.IsComponents (algorithms.components s)
  isCyclic : algorithms.isCyclic s = true ↔ ∃ i, Relation.TransGen s.Edge i i

namespace Components
open DepthFirst Store
open Relation (ReflTransGen TransGen reflTransGen_iff_eq_or_transGen)

section Searching
variable {α : Type} {s : Store α}

theorem mem_orderedNeighbors {direction : Direction} :
    j ∈ s.orderedNeighbors direction i ↔ direction.edge i j ∈ s.edges := by
  rw [orderedNeighbors, neighbors, List.mem_reverse, List.mem_map]
  constructor
  · rintro ⟨e, beside, rfl⟩
    obtain ⟨listed, here⟩ := List.mem_filter.mp beside
    rwa [← beq_iff_eq.mp here, Direction.edge_near_far]
  · intro listed
    exact ⟨_, List.mem_filter.mpr ⟨listed, by simp⟩, Direction.far_edge i j⟩

/-- The search meets what one or more edges lead to. -/
theorem mem_descendants (closed : s.Closed) :
    j ∈ s.descendants i ↔ TransGen s.Edge i j := by
  have edges : (fun a b => b ∈ s.orderedNeighbors .outgoing a) = s.Edge := by
    funext a b
    exact propext mem_orderedNeighbors
  have within : ∀ a, ∀ b ∈ s.orderedNeighbors .outgoing a, b ∈ List.range s.nodes.length :=
    fun a b below => List.mem_range.mpr (closed a b (mem_orderedNeighbors.mp below)).2
  have searched : s.descendants i =
      depthFirst (s.orderedNeighbors .outgoing) (List.range s.nodes.length)
        (s.orderedNeighbors .outgoing i) := by
    have unmet : ∀ i ∈ List.range s.nodes.length, i ∈ List.range s.nodes.length ↔ i ∉ [] := by
      simp
    have emptied := search_append s (fun a _ => within a) [] unmet (within i)
    rwa [Store.search, List.append_nil, List.append_nil] at emptied
  rw [searched, mem_iff_transGen within, edges]

theorem isCyclic_iff (closed : s.Closed) :
    s.isCyclic = true ↔ ∃ i, TransGen s.Edge i i := by
  rw [Store.isCyclic, List.any_eq_true]
  simp only [Bool.or_eq_true, beq_iff_eq, List.contains_iff_mem, mem_descendants closed]
  constructor
  · rintro ⟨⟨i, j⟩, edge, same | back⟩
    · exact ⟨i, .single ((show i = j from same) ▸ edge)⟩
    · exact ⟨i, .head edge back⟩
  · rintro ⟨i, around⟩
    obtain ⟨j, edge, back⟩ := TransGen.head'_iff.mp around
    exact ⟨(i, j), edge, reflTransGen_iff_eq_or_transGen.mp back⟩

end Searching

section Groups
variable {numbers : List Reaching}

private theorem meets_comm (a b : Reaching) : a.meets b = b.meets a :=
  Bool.and_comm ..

/-- Meeting divides numbers into classes. -/
private structure Divided (numbers : List Reaching) : Prop where
  self : ∀ a ∈ numbers, a.meets a = true
  trans : ∀ a ∈ numbers, ∀ b ∈ numbers, ∀ c ∈ numbers,
    a.meets b = true → b.meets c = true → a.meets c = true

private theorem Divided.sublist (divided : Divided numbers) (fewer : few.Sublist numbers) :
    Divided few :=
  ⟨fun a member => divided.self a (fewer.mem member), fun a first b second c third =>
    divided.trans a (fewer.mem first) b (fewer.mem second) c (fewer.mem third)⟩

/-- Numbers that meet, meet the same numbers. -/
private theorem Divided.filter_eq (divided : Divided numbers) (memberA : a ∈ numbers)
    (memberB : b ∈ numbers) (met : a.meets b = true) :
    numbers.filter b.meets = numbers.filter a.meets := by
  refine List.filter_congr ?_
  intro c listed
  rw [Bool.eq_iff_iff]
  refine ⟨divided.trans a memberA b memberB c listed met, ?_⟩
  exact divided.trans b memberB a memberA c listed (meets_comm a b ▸ met)

/-- Whoever meets a stranger is a stranger too. -/
private theorem Divided.filter_stranger (divided : Divided (a :: others))
    (member : b ∈ strangers a others) :
    (a :: others).filter b.meets = (strangers a others).filter b.meets := by
  obtain ⟨known, unmet⟩ := List.mem_filter.mp member
  have unmet : a.meets b = false := by simpa using unmet
  rw [List.filter_cons_of_neg (by simp [meets_comm b a, unmet]), strangers, List.filter_filter]
  refine List.filter_congr ?_
  intro c listed
  cases met : b.meets c with
  | false => simp
  | true =>
    have unmetToo : a.meets c = false := by
      by_contra meets
      have back := divided.trans a List.mem_cons_self c (List.mem_cons_of_mem _ listed) b
        (List.mem_cons_of_mem _ known) (by simpa using meets) (meets_comm b c ▸ met)
      simp [unmet] at back
    simp [unmetToo]

/-- A group is everything that meets one of its members, where meeting divides the
numbers into classes. -/
private theorem mem_groups (divided : Divided numbers) :
    group ∈ groups numbers ↔ ∃ a ∈ numbers, group = (numbers.filter a.meets).map (·.1) := by
  fun_induction groups numbers with
  | case1 => simp
  | case2 a others ih =>
    have fewer : (strangers a others).Sublist (a :: others) := .cons _ List.filter_sublist
    have own : (a :: others).filter a.meets = a :: mates a others := by
      rw [List.filter_cons_of_pos (divided.self a List.mem_cons_self), mates]
    rw [List.mem_cons, ih (divided.sublist fewer)]
    constructor
    · rintro (rfl | ⟨b, member, rfl⟩)
      · exact ⟨a, List.mem_cons_self, by rw [own, List.map_cons]⟩
      · exact ⟨b, fewer.mem member, by rw [divided.filter_stranger member]⟩
    · rintro ⟨b, member, rfl⟩
      cases met : a.meets b with
      | true =>
        have same := divided.filter_eq List.mem_cons_self member met
        exact .inl (by rw [same, own, List.map_cons])
      | false =>
        have stranger : b ∈ strangers a others := by
          rcases List.mem_cons.mp member with rfl | later
          · rw [divided.self b member] at met
            cases met
          · exact List.mem_filter.mpr ⟨later, by simp [met]⟩
        exact .inr ⟨b, stranger, by rw [divided.filter_stranger stranger]⟩

private theorem mem_of_mem_groups (listed : group ∈ groups numbers) (member : i ∈ group) :
    i ∈ numbers.map (·.1) := by
  fun_induction groups numbers with
  | case1 => cases listed
  | case2 a others ih =>
    rcases List.mem_cons.mp listed with rfl | later
    · refine List.Sublist.mem member (.cons_cons _ (.map _ List.filter_sublist))
    · exact List.mem_cons_of_mem _ (List.Sublist.mem (ih later) (.map _ List.filter_sublist))

/-- No number is in two groups. -/
theorem disjoint_groups (once : (numbers.map (·.1)).Nodup) :
    (groups numbers).Pairwise List.Disjoint := by
  fun_induction groups numbers with
  | case1 => exact .nil
  | case2 a others ih =>
    obtain ⟨absent, once⟩ := List.nodup_cons.mp once
    have fewer : ((strangers a others).map (·.1)).Sublist (others.map (·.1)) :=
      .map _ List.filter_sublist
    refine List.pairwise_cons.mpr ⟨?_, ih (once.sublist fewer)⟩
    intro group listed i own member
    have later := mem_of_mem_groups listed member
    rcases List.mem_cons.mp own with rfl | mate
    · exact absent (fewer.mem later)
    · -- A number stands for one element, which cannot be a mate and a stranger.
      obtain ⟨b, isMate, rfl⟩ := List.mem_map.mp mate
      obtain ⟨c, isStranger, same⟩ := List.mem_map.mp later
      obtain ⟨listedB, met⟩ := List.mem_filter.mp isMate
      obtain ⟨listedC, unmet⟩ := List.mem_filter.mp isStranger
      obtain rfl := List.inj_on_of_nodup_map once listedC listedB same
      simp [met] at unmet

end Groups

/-! The groups of the nodes of a store. -/

section Nodes
variable {α : Type} {s : Store α}

/-- A node with the nodes that it leads to, in any number of steps. -/
private def reaching (s : Store α) (i : Nat) : Reaching :=
  (i, i :: s.descendants i)

private theorem meets_iff (closed : s.Closed) :
    (reaching s i).meets (reaching s j) = true ↔
      ReflTransGen s.Edge i j ∧ ReflTransGen s.Edge j i := by
  have leads (i j : Nat) : j ∈ i :: s.descendants i ↔ ReflTransGen s.Edge i j := by
    rw [List.mem_cons, mem_descendants closed, reflTransGen_iff_eq_or_transGen]
  rw [Reaching.meets, Bool.and_eq_true, List.contains_iff_mem, List.contains_iff_mem]
  exact and_congr (leads i j) (leads j i)

private theorem divided_reaching (closed : s.Closed) :
    Divided ((List.range s.nodes.length).map (reaching s)) := by
  constructor
  · intro r member
    obtain ⟨i, -, rfl⟩ := List.mem_map.mp member
    exact (meets_iff closed).mpr ⟨.refl, .refl⟩
  · intro r first t second u third
    obtain ⟨i, -, rfl⟩ := List.mem_map.mp first
    obtain ⟨j, -, rfl⟩ := List.mem_map.mp second
    obtain ⟨k, -, rfl⟩ := List.mem_map.mp third
    rw [meets_iff closed, meets_iff closed, meets_iff closed]
    exact fun there back => ⟨there.1.trans back.1, back.2.trans there.2⟩

/-- The nodes of the component of a node. -/
private def classOf (s : Store α) (i : Nat) : List Nat :=
  (List.range s.nodes.length).filter fun j => (reaching s i).meets (reaching s j)

private theorem mem_classOf (closed : s.Closed) :
    j ∈ classOf s i ↔
      j < s.nodes.length ∧ ReflTransGen s.Edge i j ∧ ReflTransGen s.Edge j i := by
  rw [classOf, List.mem_filter, List.mem_range, meets_iff closed]

private theorem mem_components (closed : s.Closed) :
    c ∈ s.components ↔ ∃ i < s.nodes.length, c = classOf s i := by
  have own (r : Reaching) :
      (((List.range s.nodes.length).map (reaching s)).filter r.meets).map (·.1) =
        (List.range s.nodes.length).filter fun j => r.meets (reaching s j) := by
    rw [List.filter_map, List.map_map]
    exact List.map_id _
  refine (mem_groups (divided_reaching closed)).trans ⟨?_, ?_⟩
  · rintro ⟨r, member, rfl⟩
    obtain ⟨i, known, rfl⟩ := List.mem_map.mp member
    exact ⟨i, List.mem_range.mp known, own _⟩
  · rintro ⟨i, known, rfl⟩
    exact ⟨_, List.mem_map_of_mem (List.mem_range.mpr known), (own _).symm⟩

private theorem disjoint_components (s : Store α) : s.components.Pairwise List.Disjoint := by
  have once : (((List.range s.nodes.length).map (reaching s)).map (·.1)).Nodup := by
    rw [List.map_map, show (·.1) ∘ reaching s = id from rfl, List.map_id]
    exact List.nodup_range
  exact disjoint_groups once

theorem isComponents_components (closed : s.Closed) : s.IsComponents s.components := by
  have within {i j : Nat} (known : i < s.nodes.length) (leads : ReflTransGen s.Edge i j) :
      j < s.nodes.length := by
    cases leads with
    | refl => exact known
    | tail _ edge => exact (closed _ _ edge).2
  refine ⟨?_, List.nodup_flatten.mpr ⟨?_, disjoint_components s⟩, ?_, ?_⟩
  · intro c listed
    obtain ⟨i, known, rfl⟩ := (mem_components closed).mp listed
    exact List.ne_nil_of_mem ((mem_classOf closed).mpr ⟨known, .refl, .refl⟩)
  · intro c listed
    obtain ⟨i, -, rfl⟩ := (mem_components closed).mp listed
    exact List.nodup_range.filter _
  · intro i
    rw [List.mem_flatten]
    constructor
    · rintro ⟨c, listed, member⟩
      obtain ⟨j, -, rfl⟩ := (mem_components closed).mp listed
      exact ((mem_classOf closed).mp member).1
    · exact fun known => ⟨classOf s i, (mem_components closed).mpr ⟨i, known, rfl⟩,
        (mem_classOf closed).mpr ⟨known, .refl, .refl⟩⟩
  · intro c listed i member j
    obtain ⟨k, -, rfl⟩ := (mem_components closed).mp listed
    obtain ⟨known, there, back⟩ := (mem_classOf closed).mp member
    rw [mem_classOf closed]
    constructor
    · exact fun ⟨_, onward, homeward⟩ => ⟨back.trans onward, homeward.trans there⟩
    · exact fun ⟨onward, homeward⟩ =>
        ⟨within known onward, there.trans onward, homeward.trans back⟩

end Nodes

/-- What the search answers is what algorithms are relied on for. -/
theorem lawful_bySearch {s : Store Path} (closed : s.Closed) :
    GraphAlgorithms.bySearch.Lawful s :=
  ⟨isComponents_components closed, isCyclic_iff closed⟩

section Filter
variable {g : FileGraph} {components : List (List Nat)}

/-- A component is a cycle exactly when some edges lead from one of its members back to it. -/
theorem isCycle_iff (parts : g.store.IsComponents components) (listed : c ∈ components)
    (member : i ∈ c) : g.isCycle c = true ↔ TransGen g.store.Edge i i := by
  have strong := parts.strong c listed i member
  have once : c.Nodup := (List.nodup_flatten.mp parts.once).1 c listed
  cases c with
  | nil => cases member
  | cons a others =>
    have self : g.isCycle (a :: others) = true ↔ others ≠ [] ∨ g.store.Edge a a := by
      simp [FileGraph.isCycle, containsEdge, Edge, List.length_pos_iff]
    rw [self]
    by_cases alone : others = []
    · subst alone
      obtain rfl := List.mem_singleton.mp member
      constructor
      · rintro (other | edge)
        · exact absurd rfl other
        · exact .single edge
      · -- The last step of a way around starts at a member, and there is only one.
        intro around
        obtain ⟨j, there, edge⟩ := TransGen.tail'_iff.mp around
        obtain rfl := List.mem_singleton.mp ((strong j).mpr ⟨there, .single edge⟩)
        exact .inr edge
    · refine iff_of_true (.inl alone) ?_
      obtain ⟨j, among, other⟩ : ∃ j ∈ a :: others, j ≠ i := by
        obtain ⟨b, later⟩ := List.exists_mem_of_ne_nil others alone
        obtain ⟨absent, -⟩ := List.nodup_cons.mp once
        by_cases first : a = i
        · exact ⟨b, List.mem_cons_of_mem a later, fun same => absent (first ▸ same ▸ later)⟩
        · exact ⟨a, List.mem_cons_self, first⟩
      obtain ⟨there, back⟩ := (strong j).mp among
      exact ((reflTransGen_iff_eq_or_transGen.mp there).resolve_left other).trans_left back

end Filter

end Components
end ImportAtlas
