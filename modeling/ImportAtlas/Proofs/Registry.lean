import Mathlib.Data.List.Nodup
import ImportAtlas.Proofs.Reachability

/-! The two parts of a graph, a table with the number of every place and a store with the nodes
of these numbers. Whatever calls extend the two, they stay in step with each other, and what the
graph answers is given by the calls alone. -/
namespace ImportAtlas
open Addition (link? linked links mentioned sources targets)
open ImportAtlas.Path (Place)

/-- The places that some calls let stand beside a place in one direction, as often as they do. -/
def Addition.named (additions : List Addition) (direction : Direction) (place : Place) :
    List Place :=
  ((additions.filterMap link?).filter (direction.near · = place)).map direction.far

namespace Registered
open Addition (named)
open Building FileGraph Reachability

/-- A table gives some places the numbers of nodes, one to one: a place has the number of the
node that bears this place. -/
structure Numbers (table : Place → Option Nat) (nodes : List Path) (places : List Place) :
    Prop where
  known : ∀ place, (table place).isSome ↔ place ∈ places
  node : ∀ place i, table place = some i ↔ ∃ p, nodes[i]? = some p ∧ p.components = place

variable {g : FileGraph} {additions : List Addition} {direction : Direction}

/-- Duplicates may be removed before a one-to-one function is applied or after that. -/
theorem map_eraseDups {α β : Type} [BEq α] [LawfulBEq α] [BEq β] [LawfulBEq β] {f : α → β}
    {xs : List α} (oneToOne : ∀ x ∈ xs, ∀ y ∈ xs, f x = f y → x = y) :
    xs.eraseDups.map f = (xs.map f).eraseDups := by
  induction xs using List.reverseRecOn with
  | nil => rfl
  | append_singleton xs x ih =>
    have listed : f x ∈ (xs.map f).eraseDups ↔ x ∈ xs.eraseDups := by
      rw [List.mem_eraseDups, List.mem_eraseDups]
      refine ⟨fun image => ?_, List.mem_map_of_mem⟩
      obtain ⟨y, member, same⟩ := List.mem_map.mp image
      exact oneToOne y (by simp [member]) x (by simp) same ▸ member
    have fewer := ih fun x member y other => oneToOne x (by simp [member]) y (by simp [other])
    rw [List.map_append, List.map_singleton, eraseDups_concat, eraseDups_concat, enlist, enlist]
    simp only [listed]
    split
    · exact fewer
    · rw [List.map_append, fewer, List.map_singleton]

/-- What stands beside a place is what the calls name, each place where it is first named. -/
theorem linked_eq (additions : List Addition) (direction : Direction) (place : Place) :
    linked additions direction place = (named additions direction place).eraseDups := by
  rw [linked, links, filter_eraseDups, named, map_eraseDups]
  intro link member other member' same
  have near : direction.near link = place := by simpa using (List.mem_filter.mp member).2
  have near' : direction.near other = place := by simpa using (List.mem_filter.mp member').2
  have whole (e : Place × Place) : direction.edge (direction.near e) (direction.far e) = e :=
    Direction.edge_near_far e
  rw [← whole link, ← whole other, near, near', same]

/-- The files beside a file are those of the places that the calls put there. -/
theorem beside_places (represents : Represents g (mentioned additions) (links additions))
    (direction : Direction) (p : Path) :
    (g.beside direction p).map Path.components = linked additions direction p.components := by
  rw [FileGraph.beside, represents.indexOf? p]
  by_cases known : p.components ∈ mentioned additions
  · rw [if_pos known]
    dsimp only
    rw [orderedNeighbors_idxOf represents, pathsOf_idxOf represents (linked_subset additions _ _)]
  · have nothing : linked additions direction p.components = [] :=
      List.eq_nil_iff_forall_not_mem.mpr fun _ beside => known (mentioned_of_linked beside).1
    rw [if_neg known, nothing]
    rfl

theorem beside_subset (g : FileGraph) (direction : Direction) (p : Path) :
    g.beside direction p ⊆ g.files := by
  rw [FileGraph.beside]
  split
  · exact pathsOf_subset g _
  · exact List.nil_subset _

/-- A file's number is where it stands among the files. -/
theorem indexOf?_of_getElem? (represents : Represents g (mentioned additions) (links additions))
    (here : g.files[i]? = some p) : g.indexOf? p = some i := by
  have placed : (mentioned additions)[i]? = some p.components := by
    rw [← represents.files, List.getElem?_map, here]
    rfl
  obtain ⟨inside, same⟩ := List.getElem?_eq_some_iff.mp placed
  rw [represents.indexOf? p, if_pos (List.mem_of_getElem? placed), ← same,
    (nodup_mentioned additions).idxOf_getElem]

/-- Choosing elements by their numbers is choosing them by a property that says the same. -/
private theorem filterMap_range {α : Type} {q : Nat → Bool} {r : α → Bool} {xs : List α}
    (agree : ∀ i x, xs[i]? = some x → q i = r x) :
    ((List.range xs.length).filter q).filterMap (xs[·]?) = xs.filter r := by
  induction xs using List.reverseRecOn with
  | nil => rfl
  | append_singleton xs x ih =>
    have last := agree xs.length x (by simp)
    have front : ((List.range xs.length).filter q).filterMap ((xs ++ [x])[·]?) =
        ((List.range xs.length).filter q).filterMap (xs[·]?) := by
      refine List.filterMap_congr fun i member => ?_
      exact List.getElem?_append_left (List.mem_range.mp (List.mem_filter.mp member).1)
    have earlier := ih fun i y here => by
      obtain ⟨inside, -⟩ := List.getElem?_eq_some_iff.mp here
      exact agree i y ((List.getElem?_append_left inside).trans here)
    rw [List.length_append, List.length_singleton, List.range_succ, List.filter_append,
      List.filterMap_append, front, earlier, List.filter_append]
    cases chosen : r x with
    | true => simp [last, chosen]
    | false => simp [last, chosen]

/-- The roots are the files that no file imports, in the order of the files. -/
theorem roots_eq_filter (represents : Represents g (mentioned additions) (links additions)) :
    g.roots = g.files.filter fun p => (g.importersOf p).isEmpty := by
  refine filterMap_range fun i p here => ?_
  have number := represents.indexOf? p
  rw [indexOf?_of_getElem? represents here] at number
  split at number
  · obtain rfl := Option.some.inj number
    have neighbors := orderedNeighbors_idxOf represents .incoming p.components
    rw [← List.isEmpty_reverse, ← Store.orderedNeighbors, neighbors, List.isEmpty_map,
      ← beside_places represents, List.isEmpty_map]
    rfl
  · cases number

private theorem find?_addFile {places : List Place} {pairs : List (Place × Place)}
    (represents : Represents g places pairs) (p q : Path) :
    (g.addFile q).1.files.find? (·.same p) =
      (g.files.find? (·.same p)).or ([q].find? (·.same p)) := by
  cases found : g.indexOf? q with
  | none =>
    rw [(files_addFile_of_unknown found).1]
    exact List.find?_append
  | some i =>
    rw [addFile_of_known found]
    cases first : g.files.find? (·.same p) with
    | some file => rfl
    | none =>
      -- The file with the place of the other path would have been found.
      have listed : q.components ∈ places := by
        by_contra absent
        rw [represents.indexOf? q, if_neg absent] at found
        cases found
      obtain ⟨file, member, same⟩ := List.mem_map.mp (represents.files ▸ listed)
      have missed := List.find?_eq_none.mp first file member
      have other : ¬q.same p = true := by
        simp only [Path.same, beq_iff_eq] at missed ⊢
        rwa [← same]
      simp [other]

/-- A file is listed by the path that names its place first. -/
theorem files_find? (additions : List Addition) (p : Path) :
    (FileGraph.build additions).files.find? (·.same p) =
      (additions.flatMap Addition.paths).find? (·.same p) := by
  induction additions using List.reverseRecOn with
  | nil => rfl
  | append_singleton additions call ih =>
    have represents := represents_build additions
    have step : FileGraph.build (additions ++ [call]) = (FileGraph.build additions).add call := by
      simp [FileGraph.build]
    rw [step, List.flatMap_append, List.flatMap_singleton, List.find?_append, ← ih]
    cases call with
    | file q => exact find?_addFile represents p q
    | importing source target =>
      have middle := (represents_addFile represents source).1
      rw [FileGraph.add, FileGraph.addImport, files_addEdge, find?_addFile middle,
        find?_addFile represents, Option.or_assoc, ← List.find?_append]
      rfl

theorem nodup_edges (represents : Represents g (mentioned additions) (links additions)) :
    g.edges.Nodup := by
  rw [represents.edges, List.nodup_reverse]
  refine List.Nodup.map_on ?_ (nodup_eraseDups _)
  intro link listed other _ same
  obtain ⟨source, target⟩ := represents.within link listed
  obtain ⟨sameSource, sameTarget⟩ := Prod.mk.inj same
  exact Prod.ext ((List.idxOf_inj source).mp sameSource) ((List.idxOf_inj target).mp sameTarget)

/-- The table of a graph numbers the places that the calls mention. -/
theorem numbers_of_represents
    (represents : Represents g (mentioned additions) (links additions)) :
    Numbers g.numbers g.files (mentioned additions) := by
  have known (place : Place) : (g.numbers place).isSome ↔ place ∈ mentioned additions := by
    rw [represents.table, Option.isSome_iff_exists]
    split
    · rename_i listed
      exact iff_of_true ⟨_, rfl⟩ listed
    · rename_i absent
      exact iff_of_false (by simp) absent
  refine ⟨known, fun place i => ?_⟩
  constructor
  · intro number
    have listed := (known place).mp (number ▸ rfl)
    rw [represents.table, if_pos listed] at number
    obtain rfl := Option.some.inj number
    exact getElem?_files represents listed
  · rintro ⟨p, here, rfl⟩
    exact indexOf?_of_getElem? represents here

/-- However calls that add files and imports follow each other, the table of a graph numbers the
places that they mention one to one with its nodes. The files are these places, each once and
where it is first mentioned, by the path that mentions it first. No edge is there twice, and
there is one for every two places of which the calls let the first import the second. What a file
imports, and what imports it, is what the calls say, each place once and where they first say so,
and the roots are the files that no file imports, in the order of the files. -/
theorem registry_faithful (additions : List Addition) :
    let g := FileGraph.build additions
    Numbers g.numbers g.files (mentioned additions) ∧
    (g.files.map Path.components = (additions.flatMap Addition.places).eraseDups ∧
      (g.files.map Path.components).Nodup ∧
      ∀ p, g.files.find? (·.same p) = (additions.flatMap Addition.paths).find? (·.same p)) ∧
    (g.edges.Nodup ∧ g.edges.length = (additions.filterMap link?).eraseDups.length) ∧
    (∀ p, g.importsOf p ⊆ g.files ∧
      (g.importsOf p).map Path.components = (named additions .outgoing p.components).eraseDups) ∧
    (∀ p, g.importersOf p ⊆ g.files ∧
      (g.importersOf p).map Path.components = (named additions .incoming p.components).eraseDups) ∧
    g.roots = g.files.filter fun p => (g.importersOf p).isEmpty := by
  intro g
  have represents := represents_build additions
  have beside (direction : Direction) (p : Path) : g.beside direction p ⊆ g.files ∧
      (g.beside direction p).map Path.components =
        (named additions direction p.components).eraseDups := by
    refine ⟨beside_subset g direction p, ?_⟩
    rw [beside_places represents, linked_eq]
  refine ⟨numbers_of_represents represents, ⟨represents.files, ?_, files_find? additions⟩,
    ⟨nodup_edges represents, ?_⟩, beside .outgoing, beside .incoming, roots_eq_filter represents⟩
  · rw [represents.files]
    exact nodup_mentioned additions
  · rw [represents.edges, List.length_reverse, List.length_map, links]

end Registered
end ImportAtlas
