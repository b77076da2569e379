import Mathlib.Logic.Relation
import ImportAtlas.Graph.Reach

/-! The search for what can be reached, as a recursion. It visits the vertices that
are pending one after the other, each with everything below it, and keeps no stack.
The search of a graph, which keeps one and marks a number only when it is taken from
the stack, lists the same numbers in the same order. -/
namespace ImportAtlas

/-- The vertices that are left to visit after some visits. -/
def unvisited [DecidableEq α] (left visited : List α) : List α :=
  left.filter (· ∉ visited)

/-- The vertices that a recursive search visits, each before the ones below it. A
vertex that is not among those left to visit is passed over. -/
def depthFirst [DecidableEq α] (next : α → List α) (left : List α) : List α → List α
  | [] => []
  | v :: pending =>
    if v ∈ left then
      let visited := v :: depthFirst next (unvisited left [v]) (next v)
      visited ++ depthFirst next (unvisited left visited) pending
    else depthFirst next left pending
termination_by pending => (left.length, pending.length)
decreasing_by
  · refine Prod.Lex.left _ _ (List.length_filter_lt_length_iff_exists.mpr ⟨v, ‹v ∈ left›, ?_⟩)
    simp
  · exact Prod.Lex.right' _ (List.length_filter_le ..) (Nat.lt_succ_self _)
  · exact Prod.Lex.right _ (Nat.lt_succ_self _)

namespace DepthFirst

section Search
variable {α : Type} [DecidableEq α] {next : α → List α} {left pending : List α}

@[simp] theorem mem_unvisited {visited : List α} :
    v ∈ unvisited left visited ↔ v ∈ left ∧ v ∉ visited := by
  simp [unvisited]

/-- Only vertices that are left to visit are visited. -/
theorem mem_left (member : v ∈ depthFirst next left pending) : v ∈ left := by
  fun_induction depthFirst next left pending with
  | case1 => cases member
  | case2 left u pending among visited ihBelow ihRest =>
    rcases List.mem_append.mp member with first | later
    · rcases List.mem_cons.mp first with rfl | below
      · exact among
      · exact (mem_unvisited.mp (ihBelow below)).1
    · exact (mem_unvisited.mp (ihRest later)).1
  | case3 left u pending _ ih => exact ih member

/-- No vertex is visited twice. -/
theorem nodup : (depthFirst next left pending).Nodup := by
  fun_induction depthFirst next left pending with
  | case1 => exact List.nodup_nil
  | case2 left u pending _ visited ihBelow ihRest =>
    have first : visited.Nodup := by
      refine List.nodup_cons.mpr ⟨?_, ihBelow⟩
      intro below
      simpa using mem_left below
    refine List.nodup_append.mpr ⟨first, ihRest, ?_⟩
    rintro v early w late rfl
    exact (mem_unvisited.mp (mem_left late)).2 early
  | case3 left u pending _ ih => exact ih

/-- A vertex that is visited is pending or below one that is. -/
theorem reached_of_mem (member : v ∈ depthFirst next left pending) :
    ∃ u ∈ pending, Relation.ReflTransGen (fun a b => b ∈ next a) u v := by
  fun_induction depthFirst next left pending with
  | case1 => cases member
  | case2 left u pending _ visited ihBelow ihRest =>
    rcases List.mem_append.mp member with first | later
    · refine ⟨u, List.mem_cons_self, ?_⟩
      rcases List.mem_cons.mp first with rfl | below
      · exact .refl
      · obtain ⟨w, edge, reached⟩ := ihBelow below
        exact .head edge reached
    · obtain ⟨w, among, reached⟩ := ihRest later
      exact ⟨w, List.mem_cons_of_mem _ among, reached⟩
  | case3 left u pending _ ih =>
    obtain ⟨w, among, reached⟩ := ih member
    exact ⟨w, List.mem_cons_of_mem _ among, reached⟩

/-- A pending vertex is visited if it is left to visit. -/
theorem mem_of_pending (among : v ∈ pending) (remains : v ∈ left) :
    v ∈ depthFirst next left pending := by
  fun_induction depthFirst next left pending with
  | case1 => cases among
  | case2 left u pending _ visited _ ihRest =>
    by_cases early : v ∈ visited
    · exact List.mem_append_left _ early
    · have later : v ∈ pending := by
        rcases List.mem_cons.mp among with rfl | later
        · exact absurd List.mem_cons_self early
        · exact later
      exact List.mem_append_right _ (ihRest later (mem_unvisited.mpr ⟨remains, early⟩))
  | case3 left u pending absent ih =>
    rcases List.mem_cons.mp among with rfl | later
    · exact absurd remains absent
    · exact ih later remains

/-- What lies below a visited vertex is visited too, if it was left to visit. -/
theorem mem_of_next (member : v ∈ depthFirst next left pending) (edge : w ∈ next v)
    (remains : w ∈ left) : w ∈ depthFirst next left pending := by
  fun_induction depthFirst next left pending with
  | case1 => cases member
  | case2 left u pending _ visited ihBelow ihRest =>
    by_cases early : w ∈ visited
    · exact List.mem_append_left _ early
    rcases List.mem_append.mp member with first | later
    · -- The vertices below `u` come before the rest, so `w` was met among them.
      have stillLeft : w ∈ unvisited left [u] := by
        refine mem_unvisited.mpr ⟨remains, ?_⟩
        intro same
        exact early (List.mem_cons.mpr (.inl (List.mem_singleton.mp same)))
      refine absurd (List.mem_cons_of_mem u ?_) early
      rcases List.mem_cons.mp first with rfl | below
      · exact mem_of_pending edge stillLeft
      · exact ihBelow below stillLeft
    · exact List.mem_append_right _ (ihRest later (mem_unvisited.mpr ⟨remains, early⟩))
  | case3 left u pending _ ih => exact ih member remains

/-- From the vertices below one vertex, the search visits exactly the others that a
chain of one or more steps leads to. -/
theorem mem_iff_reached {all : List α} {start v : α} (closed : ∀ a, ∀ b ∈ next a, b ∈ all) :
    v ∈ depthFirst next (unvisited all [start]) (next start) ↔
      v ≠ start ∧ Relation.TransGen (fun a b => b ∈ next a) start v := by
  have remains {u w} (edge : w ∈ next u) (other : w ≠ start) : w ∈ unvisited all [start] :=
    mem_unvisited.mpr ⟨closed u w edge, by simpa using other⟩
  constructor
  · intro member
    refine ⟨by simpa using (mem_unvisited.mp (mem_left member)).2, ?_⟩
    obtain ⟨u, edge, reached⟩ := reached_of_mem member
    exact .head' edge reached
  · rintro ⟨other, reached⟩
    induction reached with
    | single edge => exact mem_of_pending edge (remains edge other)
    | @tail u v _ edge ih =>
      by_cases back : u = start
      · subst back
        exact mem_of_pending edge (remains edge other)
      · exact mem_of_next (ih back) edge (remains edge other)

/-- With every vertex left to visit, the search visits what a chain of one or more steps
leads to, the vertex itself if the chain comes back. -/
theorem mem_iff_transGen {all : List α} {start v : α} (closed : ∀ a, ∀ b ∈ next a, b ∈ all) :
    v ∈ depthFirst next all (next start) ↔ Relation.TransGen (fun a b => b ∈ next a) start v := by
  constructor
  · intro member
    obtain ⟨u, edge, reached⟩ := reached_of_mem member
    exact .head' edge reached
  · intro reached
    induction reached with
    | single edge => exact mem_of_pending edge (closed _ _ edge)
    | tail _ edge ih => exact mem_of_next ih edge (closed _ _ edge)

/-- Which vertices are left to visit matters, and not how they are listed. -/
theorem depthFirst_congr {left' : List α} (same : ∀ v, v ∈ left ↔ v ∈ left') :
    depthFirst next left pending = depthFirst next left' pending := by
  have sameUnvisited {left left' visited : List α} (same : ∀ v, v ∈ left ↔ v ∈ left') (v : α) :
      v ∈ unvisited left visited ↔ v ∈ unvisited left' visited := by
    rw [mem_unvisited, mem_unvisited, same]
  fun_induction depthFirst next left pending generalizing left' with
  | case1 => rw [depthFirst]
  | case2 left u pending remains visited ihBelow =>
    rename_i ihRest
    have below : visited = u :: depthFirst next (unvisited left' [u]) (next u) :=
      congrArg (u :: ·) (ihBelow (sameUnvisited same))
    rw [depthFirst, if_pos ((same u).mp remains), ← below]
    exact congrArg (visited ++ ·) (ihRest (sameUnvisited same))
  | case3 left u pending absent ih =>
    rw [depthFirst, if_neg (mt (same u).mpr absent)]
    exact ih same

omit [DecidableEq α] in
/-- Different vertices of a list have different names, so a vertex is found by its name. -/
theorem name_mem_map_iff {β : Type} {name : α → β} {all some : List α}
    (distinct : ∀ u ∈ all, ∀ v ∈ all, name u = name v → u = v) (known : v ∈ all)
    (within : some ⊆ all) : name v ∈ some.map name ↔ v ∈ some := by
  refine ⟨?_, List.mem_map_of_mem⟩
  intro member
  obtain ⟨u, listed, same⟩ := List.mem_map.mp member
  exact distinct u (within listed) v known same ▸ listed

/-- Numbers that stand for different names are visited in the order of the names. -/
theorem map_depthFirst {β : Type} [DecidableEq β] {named : β → List β} {name : α → β}
    {all : List α} (distinct : ∀ u ∈ all, ∀ v ∈ all, name u = name v → u = v)
    (closed : ∀ v ∈ all, next v ⊆ all) (follows : ∀ v ∈ all, named (name v) = (next v).map name)
    (few : left ⊆ all) (among : pending ⊆ all) :
    (depthFirst next left pending).map name =
      depthFirst named (left.map name) (pending.map name) := by
  have map_mem {v : α} {some : List α} (known : v ∈ all) (within : some ⊆ all) :=
    name_mem_map_iff distinct known within
  have map_unvisited {left visited : List α} (few : left ⊆ all) (within : visited ⊆ all) :
      (unvisited left visited).map name = unvisited (left.map name) (visited.map name) := by
    rw [unvisited, unvisited, List.filter_map]
    congr 1
    refine List.filter_congr ?_
    intro v listed
    exact decide_eq_decide.mpr (not_congr (map_mem (few listed) within).symm)
  fun_induction depthFirst next left pending with
  | case1 => simp [depthFirst]
  | case2 left u pending remains visited ihBelow ihRest =>
    obtain ⟨known, later⟩ := List.cons_subset.mp among
    have fewer {visited} : unvisited left visited ⊆ all :=
      fun _ member => few (mem_unvisited.mp member).1
    have below : visited.map name =
        name u :: depthFirst named (unvisited (left.map name) [name u]) (named (name u)) := by
      have inner := ihBelow fewer (closed u known)
      rw [map_unvisited few (by simpa using known), ← follows u known] at inner
      exact congrArg (name u :: ·) inner
    have within : visited ⊆ all := by
      refine List.cons_subset.mpr ⟨known, ?_⟩
      exact fun _ member => fewer (mem_left member)
    have rest := ihRest fewer later
    rw [map_unvisited few within, below] at rest
    rw [List.map_cons, depthFirst, if_pos ((map_mem known few).mpr remains), List.map_append,
      below, rest]
  | case3 left u pending absent ih =>
    obtain ⟨known, later⟩ := List.cons_subset.mp among
    rw [List.map_cons, depthFirst, if_neg (mt (map_mem known few).mp absent), ih few later]

end Search

/-! The search of a graph keeps a stack, on which a number may stand several times. -/

section Stack
variable {α : Type} (s : Store α)

/-- The search depends on which numbers have been met, and not on when. -/
theorem search_congr {met met' stack : List Nat} (same : ∀ i, i ∈ met ↔ i ∈ met') :
    s.search met stack = s.search met' stack := by
  fun_induction Store.search s met stack generalizing met' with
  | case1 => rw [Store.search]
  | case2 met i stack known ih =>
    have known' : met'.contains i = true := by simpa [← same] using known
    rw [Store.search, if_pos known']
    exact ih same
  | case3 met i stack unknown ih =>
    have unknown' : ¬met'.contains i = true := by simpa [← same] using unknown
    rw [Store.search, if_neg unknown']
    exact congrArg (i :: ·) (ih (by simp [same]))

/-- One step of the search. -/
theorem search_cons (met : List Nat) (i : Nat) (stack : List Nat) :
    s.search met (i :: stack) =
      if i ∈ met then s.search met stack
      else i :: s.search (i :: met) (s.orderedNeighbors .outgoing i ++ stack) := by
  rw [Store.search]
  simp only [List.contains_iff_mem]

/-- The top of the stack is searched recursively before the rest of it, wherever the
numbers on the stack repeat each other. -/
theorem search_append {all : List Nat}
    (closed : ∀ i ∈ all, s.orderedNeighbors .outgoing i ⊆ all)
    {left met pending : List Nat} (stack : List Nat) (fresh : ∀ i ∈ all, i ∈ left ↔ i ∉ met)
    (among : pending ⊆ all) :
    s.search met (pending ++ stack) =
      depthFirst (s.orderedNeighbors .outgoing) left pending ++
        s.search (depthFirst (s.orderedNeighbors .outgoing) left pending ++ met) stack := by
  fun_induction depthFirst (s.orderedNeighbors .outgoing) left pending generalizing met stack with
  | case1 => rfl
  | case2 left i pending remains visited ihBelow =>
    rename_i ihRest
    obtain ⟨known, later⟩ := List.cons_subset.mp among
    have unmet : i ∉ met := (fresh i known).mp remains
    -- What is met below `i` and what is visited there are the same numbers.
    have below := @ihBelow (i :: met) (pending ++ stack)
      (fun j listed => by simp [fresh j listed, and_comm]) (closed i known)
    have rest := @ihRest (visited ++ met) stack
      (fun j listed => by simp [fresh j listed, and_comm]) later
    have sameMet : s.search (visited.tail ++ i :: met) (pending ++ stack) =
        s.search (visited ++ met) (pending ++ stack) :=
      search_congr s fun j => by simp [visited, or_left_comm]
    have sameAfter {later : List Nat} : s.search (later ++ (visited ++ met)) stack =
        s.search (visited ++ later ++ met) stack :=
      search_congr s fun j => by simp [or_left_comm]
    rw [List.cons_append, search_cons, if_neg unmet, below]
    change i :: (visited.tail ++ s.search (visited.tail ++ i :: met) (pending ++ stack)) = _
    rw [sameMet, rest, sameAfter]
    simp [visited]
  | case3 left i pending absent ih =>
    obtain ⟨known, later⟩ := List.cons_subset.mp among
    have again : i ∈ met := Decidable.of_not_not (mt (fresh i known).mpr absent)
    rw [List.cons_append, search_cons, if_pos again]
    exact ih stack fresh later

end Stack
end DepthFirst
end ImportAtlas
