import Mathlib.Data.List.Basic
import Mathlib.Data.List.Induction
import ImportAtlas.Graph.Basic

/-! Graphs in terms of the calls that build them. Whatever the calls are, the files of
a graph are the places that they mention, and its edges are the imports that they add,
each where it is first mentioned or added. -/
namespace ImportAtlas

/-- A call that extends a graph. -/
inductive Addition where
  | file (p : Path)
  | importing (source target : Path)

namespace Addition
open ImportAtlas.Path (Place)

/-- The places that a call mentions. -/
def places : Addition → List Place
  | file p => [p.components]
  | importing source target => [source.components, target.components]

/-- The paths that a call names. -/
def paths : Addition → List Path
  | file p => [p]
  | importing source target => [source, target]

/-- The import that a call adds. -/
def link? : Addition → Option (Place × Place)
  | file _ => none
  | importing source target => some (source.components, target.components)

/-- The places that some calls mention, each where it is first mentioned. -/
def mentioned (additions : List Addition) : List Place :=
  (additions.flatMap places).eraseDups

/-- The imports that some calls add, each where it is first added. -/
def links (additions : List Addition) : List (Place × Place) :=
  (additions.filterMap link?).eraseDups

/-- The places beside a place in one direction, in the order in which the imports were first
added. -/
def linked (additions : List Addition) (direction : Direction) (place : Place) : List Place :=
  ((links additions).filter (direction.near · = place)).map direction.far

/-- What a place imports after some calls. -/
def targets (additions : List Addition) (place : Place) : List Place :=
  linked additions .outgoing place

/-- What imports a place after some calls. -/
def sources (additions : List Addition) (place : Place) : List Place :=
  linked additions .incoming place

/-- Some call lets the first place import the second one. -/
def Imports (additions : List Addition) (a b : Place) : Prop :=
  ∃ source target, importing source target ∈ additions ∧ source.components = a ∧
    target.components = b

theorem mem_links {additions : List Addition} :
    (a, b) ∈ links additions ↔ Imports additions a b := by
  rw [links, List.mem_eraseDups, List.mem_filterMap]
  constructor
  · rintro ⟨call, added, linked⟩
    cases call with
    | file p => cases linked
    | importing source target =>
      cases linked
      exact ⟨source, target, added, rfl, rfl⟩
  · rintro ⟨source, target, added, rfl, rfl⟩
    exact ⟨_, added, rfl⟩

theorem mem_linked {additions : List Addition} {direction : Direction} :
    b ∈ linked additions direction a ↔ direction.edge a b ∈ links additions := by
  rw [linked, List.mem_map]
  constructor
  · rintro ⟨link, beside, rfl⟩
    obtain ⟨listed, here⟩ := List.mem_filter.mp beside
    rwa [← of_decide_eq_true here, Direction.edge_near_far]
  · intro listed
    exact ⟨_, List.mem_filter.mpr ⟨listed, by simp⟩, Direction.far_edge a b⟩

theorem mem_targets {additions : List Addition} :
    b ∈ targets additions a ↔ Imports additions a b :=
  mem_linked.trans mem_links

theorem mem_sources {additions : List Addition} :
    a ∈ sources additions b ↔ Imports additions a b :=
  mem_linked.trans mem_links

/-- The targets of the places are what the calls let them import. -/
theorem imports_eq (additions : List Addition) :
    (fun a b => b ∈ targets additions a) = Imports additions := by
  funext a b
  exact propext mem_targets

end Addition

namespace FileGraph

/-- The graph after a call. -/
def add (g : FileGraph) : Addition → FileGraph
  | .file p => (g.addFile p).1
  | .importing source target => g.addImport source target

/-- The graph that some calls build from nothing. -/
def build (additions : List Addition) : FileGraph :=
  additions.foldl add {}

end FileGraph

namespace Building
open FileGraph
open ImportAtlas.Path (Place)

section Listing
variable {α : Type} [BEq α] [LawfulBEq α]

/-- A list with one more element at its end, unless the element is there. -/
def enlist (listed : List α) (x : α) : List α :=
  if x ∈ listed then listed else listed ++ [x]

theorem eraseDups_concat (xs : List α) (x : α) :
    (xs ++ [x]).eraseDups = enlist xs.eraseDups x := by
  rw [List.eraseDups_append, enlist]
  by_cases known : x ∈ xs
  · simp [List.removeAll, known]
  · simp [List.removeAll, known, List.eraseDups_cons]

theorem eraseDups_append (xs ys : List α) :
    (xs ++ ys).eraseDups = ys.foldl enlist xs.eraseDups := by
  induction ys generalizing xs with
  | nil => rw [List.append_nil, List.foldl_nil]
  | cons y ys ih => rw [List.append_cons, ih, eraseDups_concat, List.foldl_cons]

theorem nodup_eraseDups (xs : List α) : xs.eraseDups.Nodup := by
  induction xs using List.reverseRecOn with
  | nil => exact List.nodup_nil
  | append_singleton xs x ih =>
    rw [eraseDups_concat, enlist]
    split
    · exact ih
    · rename_i absent
      refine List.nodup_append.mpr ⟨ih, List.pairwise_singleton .., ?_⟩
      rintro y early z last rfl
      exact absent (List.mem_singleton.mp last ▸ early)

theorem mem_enlist {listed : List α} : y ∈ enlist listed x ↔ y ∈ listed ∨ y = x := by
  unfold enlist
  split
  · rename_i known
    refine ⟨.inl, ?_⟩
    rintro (member | rfl)
    · exact member
    · exact known
  · simp

/-- Duplicates may be removed before some elements are chosen or after that. -/
theorem filter_eraseDups (p : α → Bool) (xs : List α) :
    xs.eraseDups.filter p = (xs.filter p).eraseDups := by
  induction xs using List.reverseRecOn with
  | nil => rfl
  | append_singleton xs x ih =>
    rw [eraseDups_concat, List.filter_append]
    by_cases chosen : p x = true
    · have listed : x ∈ (xs.filter p).eraseDups ↔ x ∈ xs.eraseDups := by simp [chosen]
      rw [List.filter_cons_of_pos chosen, List.filter_nil, eraseDups_concat, enlist, enlist]
      simp only [listed]
      split
      · exact ih
      · rw [List.filter_append, ih, List.filter_cons_of_pos chosen, List.filter_nil]
    · rw [List.filter_cons_of_neg chosen, List.filter_nil, List.append_nil, ← ih, enlist]
      split
      · rfl
      · simp [chosen]

/-- An element that is listed keeps its number. -/
theorem idxOf_enlist {listed : List α} (known : y ∈ listed) (x : α) :
    (enlist listed x).idxOf y = listed.idxOf y := by
  unfold enlist
  split
  · rfl
  · exact List.idxOf_append_of_mem known

end Listing

/-- The numbers of the two places of an import. -/
def numbers (places : List Place) (link : Place × Place) : Nat × Nat :=
  (places.idxOf link.1, places.idxOf link.2)

/-- A graph has exactly some places as its files and some imports as its edges, the files in
their order and the edges in the opposite one. Its table has the numbers of the files. -/
structure Represents (g : FileGraph) (places : List Place) (links : List (Place × Place)) :
    Prop where
  files : g.files.map Path.components = places
  edges : g.edges = (links.map (numbers places)).reverse
  within : ∀ link ∈ links, link.1 ∈ places ∧ link.2 ∈ places
  table : ∀ place, g.numbers place = if place ∈ places then some (places.idxOf place) else none

variable {g : FileGraph} {places : List Place} {links : List (Place × Place)}

/-- A file is found by its place. -/
theorem Represents.indexOf? (represents : Represents g places links) (p : Path) :
    g.indexOf? p = if p.components ∈ places then some (places.idxOf p.components) else none :=
  represents.table p.components

theorem Represents.length_files (represents : Represents g places links) :
    g.files.length = places.length := by
  rw [← represents.files, List.length_map]

/-- One more file is one more node, and an entry of the table. -/
theorem files_addFile_of_unknown (unknown : g.indexOf? p = none) :
    (g.addFile p).1.files = g.files ++ [p] ∧ (g.addFile p).1.edges = g.edges ∧
      (g.addFile p).2 = g.files.length ∧ ∀ place, (g.addFile p).1.numbers place =
        if place = p.components then some g.files.length else g.numbers place := by
  unfold FileGraph.addFile
  rw [unknown]
  exact ⟨rfl, rfl, rfl, fun _ => rfl⟩

theorem addFile_of_known (known : g.indexOf? p = some i) : g.addFile p = (g, i) := by
  rw [FileGraph.addFile, known]

theorem represents_addFile (represents : Represents g places links) (p : Path) :
    Represents (g.addFile p).1 (enlist places p.components) links ∧
      (g.addFile p).2 = (enlist places p.components).idxOf p.components := by
  have edges : g.edges = (links.map (numbers (enlist places p.components))).reverse := by
    rw [represents.edges]
    refine congrArg List.reverse (List.map_congr_left ?_)
    intro link listed
    obtain ⟨source, target⟩ := represents.within link listed
    rw [numbers, numbers, idxOf_enlist source p.components, idxOf_enlist target p.components]
  have within : ∀ link ∈ links,
      link.1 ∈ enlist places p.components ∧ link.2 ∈ enlist places p.components := by
    intro link listed
    obtain ⟨source, target⟩ := represents.within link listed
    exact ⟨mem_enlist.mpr (.inl source), mem_enlist.mpr (.inl target)⟩
  have index := represents.indexOf? p
  by_cases known : p.components ∈ places
  · rw [if_pos known] at index
    rw [addFile_of_known index]
    rw [enlist, if_pos known] at edges within ⊢
    exact ⟨⟨represents.files, edges, within, represents.table⟩, rfl⟩
  · rw [if_neg known] at index
    obtain ⟨files, sameEdges, number, table⟩ := files_addFile_of_unknown index
    have last : (enlist places p.components).idxOf p.components = g.files.length := by
      rw [enlist, if_neg known, List.idxOf_append_of_notMem known, represents.length_files]
      simp
    refine ⟨⟨?_, sameEdges.trans edges, within, ?_⟩, number.trans last.symm⟩
    · rw [files, enlist, if_neg known, List.map_append, represents.files, List.map_singleton]
    · intro place
      rw [table, ← last, represents.table]
      by_cases here : place = p.components
      · subst here
        rw [if_pos rfl, if_pos (mem_enlist.mpr (.inr rfl))]
      · have same : place ∈ enlist places p.components ↔ place ∈ places := by
          rw [mem_enlist, or_iff_left here]
        rw [if_neg here]
        by_cases listed : place ∈ places
        · rw [if_pos listed, if_pos (same.mpr listed), idxOf_enlist listed]
        · rw [if_neg listed, if_neg (mt same.mp listed)]

theorem represents_addEdge (represents : Represents g places links) (source : a ∈ places)
    (target : b ∈ places) :
    Represents (g.addEdge (numbers places (a, b))) places (enlist links (a, b)) := by
  have known : g.edges.contains (numbers places (a, b)) = true ↔ (a, b) ∈ links := by
    rw [List.contains_iff_mem, represents.edges, List.mem_reverse, List.mem_map]
    refine ⟨?_, fun listed => ⟨_, listed, rfl⟩⟩
    rintro ⟨⟨c, d⟩, listed, same⟩
    obtain ⟨sameSource, sameTarget⟩ := Prod.mk.inj same
    obtain rfl := List.idxOf_inj (represents.within _ listed).1 |>.mp sameSource
    obtain rfl := List.idxOf_inj (represents.within _ listed).2 |>.mp sameTarget
    exact listed
  by_cases listed : (a, b) ∈ links
  · have same : g.addEdge (numbers places (a, b)) = g := by
      rw [FileGraph.addEdge, Store.updateEdge]
      exact congrArg (FileGraph.mk · g.numbers) (if_pos (known.mpr listed))
    rw [same, enlist, if_pos listed]
    exact represents
  · have added : (g.addEdge (numbers places (a, b))).store =
        { g.store with edges := numbers places (a, b) :: g.edges } :=
      if_neg (mt known.mp listed)
    rw [enlist, if_neg listed]
    refine ⟨?_, ?_, ?_, represents.table⟩
    · rw [FileGraph.files, added]
      exact represents.files
    · rw [FileGraph.edges, added, List.map_append, List.reverse_append, ← represents.edges]
      rfl
    · intro link member
      rcases List.mem_append.mp member with early | last
      · exact represents.within link early
      · rw [List.mem_singleton.mp last]
        exact ⟨source, target⟩

/-- A call lists the places that it mentions and the import that it adds. -/
theorem represents_add (represents : Represents g places links) (call : Addition) :
    Represents (g.add call) (call.places.foldl enlist places)
      (call.link?.toList.foldl enlist links) := by
  cases call with
  | file p => exact (represents_addFile represents p).1
  | importing source target =>
    obtain ⟨first, firstNumber⟩ := represents_addFile represents source
    obtain ⟨second, secondNumber⟩ := represents_addFile first target
    have sourceFirst : source.components ∈ enlist places source.components :=
      mem_enlist.mpr (.inr rfl)
    have edge : ((g.addFile source).2, ((g.addFile source).1.addFile target).2) =
        numbers (enlist (enlist places source.components) target.components)
          (source.components, target.components) := by
      rw [numbers, firstNumber, secondNumber, idxOf_enlist sourceFirst]
    have added := represents_addEdge second (mem_enlist.mpr (.inl sourceFirst))
      (mem_enlist.mpr (.inr rfl))
    rw [← edge] at added
    exact added

/-- Every sequence of calls builds a graph of the places that it mentions and the
imports that it adds. -/
theorem represents_build (additions : List Addition) :
    Represents (build additions) (Addition.mentioned additions) (Addition.links additions) := by
  induction additions using List.reverseRecOn with
  | nil =>
    exact ⟨rfl, rfl, List.forall_mem_nil _, fun _ => rfl⟩
  | append_singleton additions call ih =>
    have step : build (additions ++ [call]) = (build additions).add call := by
      simp [build]
    have mentioned : Addition.mentioned (additions ++ [call]) =
        call.places.foldl enlist (Addition.mentioned additions) := by
      rw [Addition.mentioned, List.flatMap_append, List.flatMap_singleton, eraseDups_append]
      rfl
    have links : Addition.links (additions ++ [call]) =
        call.link?.toList.foldl enlist (Addition.links additions) := by
      rw [Addition.links, List.filterMap_append, eraseDups_append]
      cases linked : call.link? with
      | none => simp [linked, Addition.links]
      | some link => simp [linked, Addition.links]
    rw [step, mentioned, links]
    exact represents_add ih call

theorem files_addEdge (g : FileGraph) (edge : Nat × Nat) : (g.addEdge edge).files = g.files := by
  rw [FileGraph.files, FileGraph.addEdge, Store.updateEdge]
  split
  · rfl
  · rfl

private theorem mem_files_addFile (member : q ∈ (g.addFile p).1.files) : q ∈ g.files ∨ q = p := by
  cases index : g.indexOf? p with
  | some i =>
    rw [addFile_of_known index] at member
    exact .inl member
  | none =>
    rw [(files_addFile_of_unknown index).1] at member
    simpa using member

private theorem mem_files_add {call : Addition} (member : q ∈ (g.add call).files) :
    q ∈ g.files ∨ q ∈ call.paths := by
  cases call with
  | file p => exact (mem_files_addFile member).imp_right List.mem_singleton.mpr
  | importing source target =>
    rw [FileGraph.add, FileGraph.addImport, files_addEdge] at member
    rcases mem_files_addFile member with first | rfl
    · exact (mem_files_addFile first).imp_right fun same => by simp [Addition.paths, same]
    · exact .inr (by simp [Addition.paths])

/-- A graph holds no other paths than its calls. -/
theorem files_build (additions : List Addition) :
    (build additions).files ⊆ additions.flatMap Addition.paths := by
  induction additions using List.reverseRecOn with
  | nil => exact List.nil_subset _
  | append_singleton additions call ih =>
    intro q member
    rw [build, List.foldl_append] at member
    rw [List.flatMap_append, List.flatMap_singleton, List.mem_append]
    exact (mem_files_add member).imp_left fun earlier => ih earlier

end Building
end ImportAtlas
