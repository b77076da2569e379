import Mathlib
import ImportAtlas.Proofs.Cycles

/-! A cycle read from its first file on. The files that its walk meets import one another
in the order in which they are listed, and the files that the walk leaves out follow
sorted. A cycle in which nobody has a choice is walked all around: nobody is left out, and
the last file imports the first. -/
namespace ImportAtlas.CyclePath
open Addition (Imports imports_eq targets mem_targets)
open Building CycleOrder Cycles
open ImportAtlas.Path (Place)

section Walking
variable {α : Type} {next : α → List α} {members : α → Prop}

/-- Whoever belongs to a group leads to no more than one other of its members. -/
def Simple (next : α → List α) (members : α → Prop) : Prop :=
  ∀ u, members u → ∀ v ∈ next u, members v → ∀ w ∈ next u, members w → v = w

theorem isChain_of_walks (walks : Walks next members used current walked) :
    (current :: walked).IsChain fun u v => v ∈ next u := by
  induction walks with
  | stop => exact .singleton _
  | step below _ _ _ _ ih => exact .cons_cons (by simp [below]) ih

theorem members_of_walks (walks : Walks next members used current walked) :
    ∀ v ∈ walked, members v := by
  induction walks with
  | stop => simp
  | step _ member _ _ _ ih => exact List.forall_mem_cons.mpr ⟨member, ih⟩

/-- A walk through a simple group leaves nothing behind: what the vertices that it has
used lead to is used in the end, since every vertex but the current one has already taken
the only step that it has. -/
theorem closed_of_walks (simple : Simple next members)
    (walks : Walks next members used current walked) (member : members current)
    (past : ∀ u ∈ used, u ≠ current → ∀ v ∈ next u, members v → v ∈ used) :
    ∀ u, u ∈ used ∨ u ∈ walked → ∀ v ∈ next u, members v → v ∈ used ∨ v ∈ walked := by
  induction walks with
  | @stop current used stuck =>
    rintro u (usedUp | walked) v edge inside
    · by_cases here : u = current
      · exact .inl (stuck v (here ▸ edge) inside)
      · exact .inl (past u usedUp here v edge inside)
    · cases walked
  | @step current before w after used walked below chosen fresh _ _ ih =>
    have spent : ∀ u ∈ w :: used, u ≠ w → ∀ v ∈ next u, members v → v ∈ w :: used := by
      intro u usedUp other v edge inside
      have usedUp := (List.mem_cons.mp usedUp).resolve_left other
      by_cases here : u = current
      · -- The only member that the current vertex leads to is the one that is taken.
        have only := simple current member v (here ▸ edge) inside w (by simp [below]) chosen
        exact only ▸ List.mem_cons_self
      · exact List.mem_cons_of_mem _ (past u usedUp here v edge inside)
    -- Whether the vertex just taken counts as used or as walked makes no difference.
    have shift (x : α) : x ∈ w :: used ∨ x ∈ walked ↔ x ∈ used ∨ x ∈ w :: walked := by
      simp only [List.mem_cons, or_assoc, or_left_comm]
    simp only [← shift]
    exact ih chosen spent

/-- The vertex that leads to the first one of a chain is the last one, where no vertex has
a choice. -/
theorem isChain_closes (simple : Simple next members)
    (chain : (first :: walked).IsChain fun u v => v ∈ next u)
    (inside : ∀ v ∈ first :: walked, members v) (once : (first :: walked).Nodup)
    (among : u ∈ first :: walked) (back : first ∈ next u) :
    (first :: walked ++ [first]).IsChain fun u v => v ∈ next u := by
  obtain ⟨before, after, split⟩ := List.append_of_mem among
  cases after with
  | nil =>
    refine List.isChain_append.mpr ⟨chain, .singleton _, ?_⟩
    simpa [split] using back
  | cons w after =>
    rw [split] at chain inside
    have edge : w ∈ next u := (List.isChain_cons_cons.mp (List.isChain_append.mp chain).2.1).1
    have start : members first := inside first (split ▸ List.mem_cons_self)
    have only : w = first :=
      simple u (inside u (by simp)) w edge (inside w (by simp)) first back start
    -- A later vertex is not the first one again.
    have later : w ∈ walked := by
      cases before with
      | nil => simp [(List.cons.inj split).2]
      | cons _ before => simp [(List.cons.inj split).2]
    exact absurd (only ▸ later) (List.nodup_cons.mp once).1

end Walking

section Graph
variable {additions : List Addition}

/-- Places that contain everything mutual that they import, contain a whole class of mutual
places or nothing of it. -/
theorem mem_of_closed {inside : Place → Prop} (start : inside a)
    (closed : ∀ u, inside u → ∀ v, Imports additions u v → Mutual additions a v → inside v)
    (both : Mutual additions a b) : inside b := by
  obtain ⟨there, back⟩ := both
  induction there with
  | single edge => exact closed _ start _ edge ⟨.single edge, back⟩
  | @tail c b there edge ih =>
    exact closed c (ih (.head edge back)) b edge ⟨there.tail edge, back⟩

/-- Some place of a class of mutual places imports the place that it is the class of. -/
theorem exists_back (around : Relation.TransGen (Imports additions) a a) :
    ∃ u, Mutual additions a u ∧ Imports additions u a := by
  obtain ⟨u, chain, edge⟩ := Relation.TransGen.tail'_iff.mp around
  rcases Relation.reflTransGen_iff_eq_or_transGen.mp chain with rfl | chain
  · exact ⟨u, ⟨around, around⟩, edge⟩
  · exact ⟨u, ⟨chain, .single edge⟩, edge⟩

/-- A class of mutual places without a choice is walked all around. -/
theorem listed_around (around : Relation.TransGen (Imports additions) first first)
    (simple : Simple (targets additions) (Mutual additions first))
    (listed : Listed (targets additions) placeLE (Mutual additions first) first walked rest) :
    rest = [] ∧ (first :: walked ++ [first]).IsChain (Imports additions) := by
  have start : Mutual additions first first := ⟨around, around⟩
  have inside : ∀ v ∈ first :: walked, Mutual additions first v :=
    List.forall_mem_cons.mpr ⟨start, members_of_walks listed.walks⟩
  have closed := closed_of_walks simple listed.walks start (by simp)
  have all {v : Place} (both : Mutual additions first v) : v ∈ first :: walked := by
    refine mem_of_closed List.mem_cons_self ?_ both
    intro u among v edge both
    simpa using closed u (by simpa using among) v (mem_targets.mpr edge) both
  have once : (first :: walked ++ rest).Nodup := listed.once
  obtain ⟨onceWalked, -, apart⟩ := List.nodup_append.mp once
  refine ⟨?_, ?_⟩
  · refine List.eq_nil_iff_forall_not_mem.mpr ?_
    intro v left
    have both := (listed.exact v).mp (by simp [left])
    exact apart v (all both) v left rfl
  · obtain ⟨u, both, back⟩ := exists_back around
    rw [← imports_eq]
    exact isChain_closes simple (isChain_of_walks listed.walks) inside onceWalked (all both)
      (mem_targets.mpr back)

/-- The path of a cycle spells its files, and then the first one again. -/
theorem path_spells {c : Cycle} (places : c.places = first :: others) :
    ∃ circle ⊆ c.files, circle.map Path.components = c.places ++ [first] ∧
      c.path = " -> ".intercalate (circle.map Path.text) := by
  obtain ⟨p, files, spelled, start, -⟩ := List.map_eq_cons_iff.mp places
  have head : c.files.head? = some p := by rw [spelled, List.head?_cons]
  refine ⟨c.files ++ [p], ?_, ?_, ?_⟩
  · exact List.append_subset.mpr ⟨List.Subset.refl _, by simp [spelled]⟩
  · rw [List.map_append, List.map_singleton, start, Cycle.places]
  · rw [Cycle.path, Cycle.arrows, List.map_append, List.head?_map, head]
    rfl

/-- A cycle is listed from its smallest place. The places after it are met by a walk in
which each place imports the next one, and each step is to the first import of a place
that stays in the cycle and was not used before, until there is none. The places that the
walk does not meet follow in ascending order, so that each place is listed, once, that is
mutual with the first one. Where every place of a cycle imports exactly one place of it,
the walk meets all of them and the last one imports the first, and the path of the cycle
spells files that form a circle of imports. -/
theorem cycle_in_order (additions : List Addition)
    (member : c ∈ (FileGraph.build additions).cycles) :
    ∃ first walked rest, c.places = first :: (walked ++ rest) ∧ c.places.Nodup ∧
      (∀ b, b ∈ c.places ↔ Mutual additions first b) ∧
      (∀ b ∈ c.places, placeLE first b = true) ∧
      (first :: walked).IsChain (Imports additions) ∧
      Walks (targets additions) (· ∈ c.places) [first] first walked ∧
      (rest.Pairwise fun a b => placeLE a b = true) ∧
      ((∀ a ∈ c.places, ∃! b, Imports additions a b ∧ b ∈ c.places) →
        rest = [] ∧ ∃ circle ⊆ (FileGraph.build additions).files,
          circle.map Path.components = c.places ++ [first] ∧
          (circle.map Path.components).IsChain (Imports additions) ∧
          c.path = " -> ".intercalate (circle.map Path.text)) := by
  have represents := represents_build additions
  obtain ⟨a, around, first, walked, rest, places, listed⟩ :=
    lists_of_mem_cyclesBy represents (lawful_bySearch_of_represents represents) member
  have start := (listed.exact first).mp List.mem_cons_self
  rw [mutual_eq start] at listed
  have exact (b : Place) : b ∈ c.places ↔ Mutual additions first b := places ▸ listed.exact b
  have inside : (· ∈ c.places) = Mutual additions first := funext fun b => propext (exact b)
  refine ⟨first, walked, rest, places, places ▸ listed.once, exact,
    fun b among => listed.least b ((exact b).mp among),
    imports_eq additions ▸ isChain_of_walks listed.walks, inside ▸ listed.walks,
    listed.ascends, ?_⟩
  intro choiceless
  have simple : Simple (targets additions) (Mutual additions first) := by
    intro u both v edge one w edge' other
    obtain ⟨only, -, unique⟩ := choiceless u ((exact u).mpr both)
    rw [unique v ⟨mem_targets.mp edge, (exact v).mpr one⟩,
      unique w ⟨mem_targets.mp edge', (exact w).mpr other⟩]
  obtain ⟨rfl, chain⟩ := listed_around (start.2.trans start.1) simple listed
  rw [List.append_nil] at places
  obtain ⟨circle, listedFiles, round, spelled⟩ := path_spells places
  have known := files_subset_of_mem_cyclesBy member
  exact ⟨rfl, circle, List.Subset.trans listedFiles known, round, by rwa [round, places], spelled⟩

/-- Two files that import each other, and one that only one of them imports. -/
private def ring : List Addition :=
  [.importing ⟨"b"⟩ ⟨"a"⟩, .importing ⟨"a"⟩ ⟨"c"⟩, .importing ⟨"a"⟩ ⟨"b"⟩]

theorem cycle_in_order_ring : ⟨[⟨"a"⟩, ⟨"b"⟩]⟩ ∈ (FileGraph.build ring).cycles ∧
    ∃ circle ⊆ (FileGraph.build ring).files,
      (circle.map Path.components).IsChain (Imports ring) ∧
      (⟨[⟨"a"⟩, ⟨"b"⟩]⟩ : Cycle).path = " -> ".intercalate (circle.map Path.text) := by
  have listed : (FileGraph.build ring).cycles = [⟨[⟨"a"⟩, ⟨"b"⟩]⟩] := by cbv
  have member : ⟨[⟨"a"⟩, ⟨"b"⟩]⟩ ∈ (FileGraph.build ring).cycles := by simp [listed]
  have places : (⟨[⟨"a"⟩, ⟨"b"⟩]⟩ : Cycle).places = [[.name "a"], [.name "b"]] := by cbv
  have first : targets ring [.name "a"] = [[.name "c"], [.name "b"]] := by cbv
  have second : targets ring [.name "b"] = [[.name "a"]] := by cbv
  obtain ⟨_, _, _, _, _, _, _, _, _, _, around⟩ := cycle_in_order ring member
  obtain ⟨-, circle, known, -, chain, spelled⟩ := around <| by
    simp [places, ← mem_targets, first, second, ExistsUnique]
  exact ⟨member, circle, known, chain, spelled⟩

end Graph
end ImportAtlas.CyclePath
