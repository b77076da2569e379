import Mathlib.Data.List.Nodup
import Mathlib.Order.Compare
import ImportAtlas.Graph.Cycle
import ImportAtlas.Proofs.Building
import ImportAtlas.Proofs.DepthFirst

/-! The order of the files of a cycle. They are listed from the smallest one along
their imports, each step to the first import that is left, and then by path. The
members of a cycle and what each of them imports first leave no choice in this, so
nothing else about a graph shows in a list. -/
namespace ImportAtlas.CycleOrder

section Listing
variable {α : Type} {next : α → List α} {members : α → Prop} {le : α → α → Bool}

/-- A walk along the members of a group. Each step goes to the first vertex below the
current one that is a member and has not been used, as long as there is one. -/
inductive Walks (next : α → List α) (members : α → Prop) : List α → α → List α → Prop where
  | stop (stuck : ∀ v ∈ next current, members v → v ∈ used) : Walks next members used current []
  | step (below : next current = before ++ v :: after) (member : members v) (fresh : v ∉ used)
      (passed : ∀ u ∈ before, members u → u ∈ used)
      (more : Walks next members (v :: used) v walked) :
      Walks next members used current (v :: walked)

/-- The members of a group, each listed once: a smallest one, a walk from there, and in
ascending order those that the walk leaves out. -/
structure Listed (next : α → List α) (le : α → α → Bool) (members : α → Prop) (first : α)
    (walked rest : List α) : Prop where
  exact : ∀ v, v ∈ first :: (walked ++ rest) ↔ members v
  once : (first :: (walked ++ rest)).Nodup
  least : ∀ v, members v → le first v = true
  walks : Walks next members [first] first walked
  ascends : rest.Pairwise fun u v => le u v = true

/-- A list of the members of a group in the order of a cycle. -/
def Lists (next : α → List α) (le : α → α → Bool) (members : α → Prop) (files : List α) : Prop :=
  ∃ first walked rest, files = first :: (walked ++ rest) ∧
    Listed next le members first walked rest

/-- The first vertex with a property is the same, however a list is taken apart. -/
private theorem first_unique {p : α → Prop} {xs before after before' after' : List α} {v v' : α}
    (split : xs = before ++ v :: after) (split' : xs = before' ++ v' :: after')
    (holds : p v) (holds' : p v') (passed : ∀ u ∈ before, ¬p u) (passed' : ∀ u ∈ before', ¬p u) :
    v = v' := by
  rcases List.append_eq_append_iff.mp (split.symm.trans split') with
    ⟨between, first, second⟩ | ⟨between, first, second⟩
  · cases between with
    | nil => exact (List.cons.inj second).1
    | cons u between =>
      obtain rfl := (List.cons.inj second).1
      exact absurd holds (passed' v (by simp [first]))
  · cases between with
    | nil => exact (List.cons.inj second).1.symm
    | cons u between =>
      obtain rfl := (List.cons.inj second).1
      exact absurd holds' (passed v' (by simp [first]))

/-- There is only one walk from a vertex. -/
theorem Walks.unique (first : Walks next members used current walked)
    (second : Walks next members used current walked') : walked = walked' := by
  induction first generalizing walked' with
  | stop stuck =>
    cases second with
    | stop => rfl
    | step below member fresh _ _ => exact absurd (stuck _ (by simp [below]) member) fresh
  | @step current before v after used walked below member fresh passed more ih =>
    cases second with
    | stop stuck => exact absurd (stuck v (by simp [below]) member) fresh
    | @step _ before' v' after' _ walked' below' member' fresh' passed' more' =>
      have same : v = v' :=
        first_unique (p := fun u => members u ∧ u ∉ used) below below' ⟨member, fresh⟩
          ⟨member', fresh'⟩ (fun u early free => free.2 (passed u early free.1))
          (fun u early free => free.2 (passed' u early free.1))
      subst same
      rw [ih more']

/-- There is only one list of the members of a group. -/
theorem Lists.unique (antisymm : ∀ u v, le u v = true → le v u = true → u = v)
    (one : Lists next le members files) (other : Lists next le members files') :
    files = files' := by
  obtain ⟨first, walked, rest, rfl, listed⟩ := one
  obtain ⟨first', walked', rest', rfl, listed'⟩ := other
  have start : first = first' :=
    antisymm _ _ (listed.least _ ((listed'.exact _).mp List.mem_cons_self))
      (listed'.least _ ((listed.exact _).mp List.mem_cons_self))
  subst start
  have trail := listed.walks.unique listed'.walks
  subst trail
  -- What the walk leaves out is the same on both sides, and sorted on both sides.
  have left (v : α) : v ∈ rest ↔ v ∈ rest' := by
    have same := (listed.exact v).trans (listed'.exact v).symm
    have apart := (List.nodup_append.mp listed.once.of_cons).2.2
    have apart' := (List.nodup_append.mp listed'.once.of_cons).2.2
    have notFirst := (List.nodup_cons.mp listed.once).1
    have notFirst' := (List.nodup_cons.mp listed'.once).1
    grind
  have alike : rest.Perm rest' :=
    (List.perm_ext_iff_of_nodup (List.nodup_append.mp listed.once.of_cons).2.1
      (List.nodup_append.mp listed'.once.of_cons).2.1).mpr left
  have equal := List.Perm.eq_of_pairwise (fun u v _ _ => antisymm u v) listed.ascends
    listed'.ascends alike
  rw [equal]

theorem Lists.mem_iff (lists : Lists next le members files) (v : α) : v ∈ files ↔ members v := by
  obtain ⟨first, walked, rest, rfl, listed⟩ := lists
  exact listed.exact v

theorem Lists.nodup (lists : Lists next le members files) : files.Nodup := by
  obtain ⟨first, walked, rest, rfl, listed⟩ := lists
  exact listed.once

theorem Lists.ne_nil (lists : Lists next le members files) : files ≠ [] := by
  obtain ⟨first, walked, rest, rfl, listed⟩ := lists
  exact List.cons_ne_nil _ _

section Naming
variable {β : Type} {named : β → List β} {name : α → β} {all : List α} {le' : β → β → Bool}

/-- The members of a group by their names. -/
def Named (name : α → β) (members : α → Prop) (w : β) : Prop :=
  ∃ v, members v ∧ name v = w

private theorem named_iff (distinct : ∀ u ∈ all, ∀ v ∈ all, name u = name v → u = v)
    (known : ∀ v, members v → v ∈ all) (listed : v ∈ all) :
    Named name members (name v) ↔ members v := by
  constructor
  · rintro ⟨u, member, same⟩
    exact distinct u (known u member) v listed same ▸ member
  · exact fun member => ⟨v, member, rfl⟩

private theorem Walks.map (distinct : ∀ u ∈ all, ∀ v ∈ all, name u = name v → u = v)
    (closed : ∀ v ∈ all, next v ⊆ all) (follows : ∀ v ∈ all, named (name v) = (next v).map name)
    (known : ∀ v, members v → v ∈ all) (walks : Walks next members used current walked)
    (here : current ∈ all) (past : used ⊆ all) :
    Walks named (Named name members) (used.map name) (name current) (walked.map name) := by
  induction walks with
  | @stop current used stuck =>
    refine .stop ?_
    intro w below member
    rw [follows _ here] at below
    obtain ⟨v, edge, rfl⟩ := List.mem_map.mp below
    have listed := closed _ here edge
    exact List.mem_map_of_mem (stuck v edge ((named_iff distinct known listed).mp member))
  | @step current before v after used walked below member fresh passed more ih =>
    have listed : v ∈ all := known v member
    have belowNamed : named (name current) = before.map name ++ name v :: after.map name := by
      rw [follows _ here, below, List.map_append, List.map_cons]
    refine .step belowNamed ⟨v, member, rfl⟩
      (mt (DepthFirst.name_mem_map_iff distinct listed past).mp fresh) ?_
      (ih listed (List.cons_subset.mpr ⟨listed, past⟩))
    intro w early chosen
    obtain ⟨u, sooner, rfl⟩ := List.mem_map.mp early
    have inside : u ∈ all := closed _ here (by simp [below, sooner])
    exact List.mem_map_of_mem (passed u sooner ((named_iff distinct known inside).mp chosen))

/-- A list of numbers that stand for different names is a list of the names. -/
theorem Lists.map (distinct : ∀ u ∈ all, ∀ v ∈ all, name u = name v → u = v)
    (closed : ∀ v ∈ all, next v ⊆ all) (follows : ∀ v ∈ all, named (name v) = (next v).map name)
    (known : ∀ v, members v → v ∈ all) (order : ∀ u v, le' (name u) (name v) = le u v)
    (lists : Lists next le members files) :
    Lists named le' (Named name members) (files.map name) := by
  obtain ⟨first, walked, rest, rfl, listed⟩ := lists
  have start : first ∈ all := known first ((listed.exact first).mp List.mem_cons_self)
  refine ⟨name first, walked.map name, rest.map name, by simp, ?_, ?_, ?_, ?_, ?_⟩
  · intro w
    simp only [← List.map_append, ← List.map_cons, List.mem_map, listed.exact, Named]
  · rw [← List.map_append, ← List.map_cons]
    refine List.Nodup.map_on ?_ listed.once
    intro u member v other
    exact distinct u (known u ((listed.exact u).mp member)) v (known v ((listed.exact v).mp other))
  · rintro _ ⟨v, member, rfl⟩
    rw [order]
    exact listed.least v member
  · exact listed.walks.map distinct closed follows known start (by simpa using start)
  · refine List.pairwise_map.mpr (listed.ascends.imp ?_)
    intro u v ascends
    rwa [order]

end Naming
end Listing

/-! Paths are compared by their components, and lists of them by the first difference.
Both are linear orders of places, whatever the paths are spelled like. -/

section Comparing
open ImportAtlas.Path

theorem compareLists_eq_compareLex (f : α → α → Ordering) :
    Path.compareLists f = List.compareLex f := by
  funext as bs
  induction as generalizing bs with
  | nil =>
    cases bs with
    | nil => rfl
    | cons b bs => rfl
  | cons a as ih =>
    cases bs with
    | nil => rfl
    | cons b bs =>
      rw [Path.compareLists, List.compareLex, ih]
      cases f a b with
      | _ => rfl

instance [Std.TransCmp f] : Std.TransCmp (Path.compareLists f) :=
  compareLists_eq_compareLex f ▸ inferInstance

instance [Std.LawfulEqCmp f] : Std.LawfulEqCmp (Path.compareLists f) :=
  compareLists_eq_compareLex f ▸ inferInstance

/-- Components of one kind with one text are the same. -/
private theorem eq_of_rank_of_text {a b : Component} (rank : a.rank = b.rank) (text : a.text = b.text) :
    a = b := by
  cases a with
  | _ =>
    cases b with
    | _ => simp_all [Component.rank, Component.text]

instance : Std.TransCmp Component.compare :=
  inferInstanceAs (Std.TransCmp (compareLex (compareOn Component.rank) (compareOn Component.text)))

instance : Std.LawfulEqCmp Component.compare where
  eq_of_compare {a b} same := by
    obtain ⟨rank, text⟩ := Ordering.then_eq_eq.mp same
    exact eq_of_rank_of_text (Std.LawfulEqCmp.eq_of_compare rank)
      (Std.LawfulEqCmp.eq_of_compare text)

/-- A place does not come after another one. -/
def placeLE (p q : Place) : Bool :=
  (compareLists Component.compare p q).isLE

theorem placeLE_antisymm (p q : Place) (first : placeLE p q = true) (second : placeLE q p = true) :
    p = q :=
  Std.LawfulEqCmp.eq_of_compare (Std.OrientedCmp.isLE_antisymm first second)

instance : Std.TransCmp Path.compare where
  eq_swap := (inferInstance : Std.OrientedCmp (compareLists Component.compare)).eq_swap
  isLE_trans := (inferInstance : Std.TransCmp (compareLists Component.compare)).isLE_trans

theorem isLE_total (cmp : α → α → Ordering) [Std.OrientedCmp cmp] (a b : α) :
    ((cmp a b).isLE || (cmp b a).isLE) = true := by
  have swapped : cmp b a = (cmp a b).swap := Std.OrientedCmp.eq_swap
  rw [swapped]
  cases cmp a b with
  | _ => rfl

/-- Comparing lists of paths compares the lists of their places. -/
theorem compareLists_paths (files files' : List Path) :
    compareLists Path.compare files files' =
      compareLists (compareLists Component.compare) (files.map Path.components)
        (files'.map Path.components) := by
  induction files generalizing files' with
  | nil =>
    cases files' with
    | _ => rfl
  | cons p files ih =>
    cases files' with
    | nil => rfl
    | cons q files' =>
      rw [compareLists, List.map_cons, List.map_cons, compareLists, ih]
      rfl

/-- A strictly ascending list is known by its members. -/
theorem eq_of_ascending {cmp : α → α → Ordering} [Std.OrientedCmp cmp] {xs ys : List α}
    (ascends : xs.Pairwise fun a b => cmp a b = .lt) (ascends' : ys.Pairwise fun a b => cmp a b = .lt)
    (same : ∀ x, x ∈ xs ↔ x ∈ ys) : xs = ys := by
  have asymm {a b : α} (less : cmp a b = .lt) : cmp b a ≠ .lt := Std.OrientedCmp.not_lt_of_lt less
  have irrefl : Std.Irrefl fun a b => cmp a b = .lt := ⟨fun _ less => asymm less less⟩
  exact List.Perm.eq_of_pairwise (fun _ _ _ _ less more => absurd more (asymm less)) ascends
    ascends' ((List.perm_ext_iff_of_nodup ascends.nodup ascends'.nodup).mpr same)

end Comparing

/-! The walk of a graph and the sorting of what it leaves out, on the numbers of its
files. -/

section Graph
variable (g : FileGraph)

/-- The path of a number does not come after that of another one. -/
def numberLE (i j : Nat) : Bool :=
  (g.pathOf i).le (g.pathOf j)

private theorem numberLE_trans (i j k : Nat) (first : numberLE g i j = true)
    (second : numberLE g j k = true) : numberLE g i k = true :=
  (inferInstance : Std.TransCmp Path.compare).isLE_trans first second

private theorem numberLE_total (i j : Nat) : (numberLE g i j || numberLE g j i) = true :=
  isLE_total Path.compare _ _

private theorem numberLE_refl (i : Nat) : numberLE g i i = true := by
  simpa using numberLE_total g i i

theorem smallest?_eq_none (nothing : g.smallest? members = none) : members = [] := by
  cases members with
  | nil => rfl
  | cons i rest =>
    rw [FileGraph.smallest?] at nothing
    split at nothing
    · cases nothing
    · split at nothing
      · cases nothing
      · cases nothing

private theorem smallest?_least (found : g.smallest? members = some first) :
    first ∈ members ∧ ∀ i ∈ members, numberLE g first i = true := by
  induction members generalizing first with
  | nil => cases found
  | cons i rest ih =>
    rw [FileGraph.smallest?] at found
    split at found
    · rename_i nothing
      obtain rfl := smallest?_eq_none g nothing
      cases found
      exact ⟨List.mem_cons_self, by simpa using numberLE_refl g i⟩
    · rename_i j later
      obtain ⟨among, least⟩ := ih later
      split at found
      · rename_i smaller
        cases found
        refine ⟨List.mem_cons_self, List.forall_mem_cons.mpr ⟨numberLE_refl g i, ?_⟩⟩
        exact fun k member => numberLE_trans g _ _ _ smaller (least k member)
      · rename_i larger
        cases found
        refine ⟨List.mem_cons_of_mem _ among, List.forall_mem_cons.mpr ⟨?_, least⟩⟩
        exact (Bool.or_eq_true _ _ ▸ numberLE_total g i first).resolve_left larger

/-- The walk of a graph takes the first import that is left at every step. -/
private theorem walks_trail (members : Nat → Prop) (current : Nat) (unused used : List Nat)
    (free : ∀ i, i ∈ unused ↔ members i ∧ i ∉ used) (once : unused.Nodup) :
    Walks (g.store.orderedNeighbors .outgoing) members used current (g.trail current unused).1 ∧
      ((g.trail current unused).1 ++ (g.trail current unused).2).Perm unused := by
  fun_induction FileGraph.trail g current unused generalizing used with
  | case1 current unused next found later ih =>
    obtain ⟨chosen, before, after, below, passed⟩ := List.find?_eq_some_iff_append.mp found
    have unusedNext : next ∈ unused := by simpa using chosen
    obtain ⟨member, fresh⟩ := (free next).mp unusedNext
    have fewer (i : Nat) : i ∈ unused.erase next ↔ members i ∧ i ∉ next :: used := by
      rw [once.mem_erase_iff, free i, List.mem_cons]
      grind
    obtain ⟨walks, alike⟩ := ih (next :: used) fewer (once.erase next)
    refine ⟨.step below member fresh ?_ walks, ?_⟩
    · intro i early inside
      have unavailable : i ∉ unused := by simpa using passed i early
      exact Decidable.of_not_not fun unused => unavailable ((free i).mpr ⟨inside, unused⟩)
    · exact (alike.cons next).trans (List.perm_cons_erase unusedNext).symm
  | case2 current unused stuck =>
    refine ⟨.stop ?_, .refl _⟩
    intro i below member
    have unavailable : i ∉ unused := by simpa using List.find?_eq_none.mp stuck i below
    exact Decidable.of_not_not fun fresh => unavailable ((free i).mpr ⟨member, fresh⟩)

/-- The members of a group are listed in the order of a cycle. -/
theorem lists_cycleOrder (filled : members ≠ []) (once : members.Nodup) :
    Lists (g.store.orderedNeighbors .outgoing) (numberLE g) (· ∈ members) (g.cycleOrder members) := by
  unfold FileGraph.cycleOrder
  split
  · rename_i nothing
    exact absurd (smallest?_eq_none g nothing) filled
  rename_i first found
  obtain ⟨among, least⟩ := smallest?_least g found
  obtain ⟨walks, alike⟩ := walks_trail g (· ∈ members) first (members.erase first) [first]
    (fun i => by rw [once.mem_erase_iff, List.mem_singleton, and_comm]) (once.erase first)
  let sorted := (g.trail first (members.erase first)).2.mergeSort (numberLE g)
  have whole : (first :: ((g.trail first (members.erase first)).1 ++ sorted)).Perm members := by
    have rest := (List.mergeSort_perm (g.trail first (members.erase first)).2 (numberLE g))
    exact (((List.Perm.append_left _ rest).trans alike).cons first).trans
      (List.perm_cons_erase among).symm
  refine ⟨first, _, sorted, rfl, ?_, ?_, least, walks, ?_⟩
  · exact fun i => whole.mem_iff
  · exact whole.nodup_iff.mpr once
  · exact List.pairwise_mergeSort (numberLE_trans g) (numberLE_total g) _

end Graph
end ImportAtlas.CycleOrder
