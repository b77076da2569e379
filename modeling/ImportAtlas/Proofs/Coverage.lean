import Mathlib.Data.Set.Finite.List
import Mathlib.Order.WellFounded
import ImportAtlas.Proofs.Relations

/-! What deep relations tell about a project. They have an entry for each file that
nothing imports, and together they lead to every file that has no cycle behind it. -/
namespace ImportAtlas.Coverage
open FileRelation (Links places)
open ImportAtlas.Path (Place)
open Relations

/-- A place is the target of a deep relation, or among the files that one leads to. -/
def Covered (relations : List FileRelation) (place : Place) : Prop :=
  ∃ e ∈ FileRelation.deep relations,
    place = e.target.components ∨ place ∈ e.files.map Path.components

/-- From a vertex back along edges one comes to a vertex that no edge leads to, unless one
can go around in a cycle. -/
theorem exists_source_or_cycle {α : Type} {edge : α → α → Prop} {all : List α} {v : α}
    (within : ∀ a b, edge a b → a ∈ all) (listed : v ∈ all) :
    (∃ r ∈ all, (∀ u, ¬edge u r) ∧ Relation.ReflTransGen edge r v) ∨
      ∃ c, Relation.TransGen edge c c ∧ Relation.ReflTransGen edge c v := by
  by_cases cycle : ∃ c, Relation.TransGen edge c c ∧ Relation.ReflTransGen edge c v
  · exact .inr cycle
  -- Without a cycle, being further back is well-founded on the finitely many vertices behind `v`.
  let Behind := { u : α // u ∈ all ∧ Relation.ReflTransGen edge u v }
  have finite : Finite Behind := (all.finite_toSet.subset fun _ behind => behind.1).to_subtype
  let further (a b : Behind) : Prop := Relation.TransGen edge a.1 b.1
  have : IsTrans Behind further := ⟨fun _ _ _ => .trans⟩
  have : Std.Irrefl further := ⟨fun a around => cycle ⟨a.1, around, a.2.2⟩⟩
  obtain ⟨first, -, furthest⟩ := (Finite.wellFounded_of_trans_of_irrefl further).has_min
    Set.univ ⟨⟨v, listed, .refl⟩, trivial⟩
  refine .inl ⟨first.1, first.2.1, ?_, first.2.2⟩
  intro u edge
  exact furthest ⟨u, within _ _ edge, .head edge first.2.2⟩ trivial (.single edge)

variable {relations : List FileRelation}

/-- What a file leads to is covered if nothing imports the file. -/
theorem covered_of_root (isPlace : root ∈ places relations) (alone : ∀ q, ¬Links relations q root)
    (reached : Relation.ReflTransGen (Links relations) root place) : Covered relations place := by
  have isRoot := mem_roots.mpr ⟨isPlace, alone⟩
  rw [← deep_targets, List.map_map] at isRoot
  obtain ⟨e, listed, rfl⟩ := List.mem_map.mp isRoot
  refine ⟨e, listed, ?_⟩
  rcases Relation.reflTransGen_iff_eq_or_transGen.mp reached with same | chain
  · exact .inl same
  · by_cases same : place = e.target.components
    · exact .inl same
    · obtain ⟨p, -, r, -, rfl⟩ := mem_deep.mp listed
      exact .inr ((mem_reachableFrom relations p).mpr ⟨same, chain⟩)

/-- A place that no entry leads to has a cycle behind it. -/
theorem covered_or_cycle (isPlace : place ∈ places relations) : Covered relations place ∨
    ∃ c, Relation.TransGen (Links relations) c c ∧
      Relation.ReflTransGen (Links relations) c place := by
  have within : ∀ a b, Links relations a b → a ∈ places relations :=
    fun _ _ edge => (mem_places_of_links edge).1
  rcases exists_source_or_cycle within isPlace with ⟨root, known, alone, reached⟩ | cycle
  · exact .inl (covered_of_root known alone reached)
  · exact .inr cycle

/-- Deep relations have one entry for each place that nothing imports, in the order of the
places, and each leads to what is reachable from its target. In a project without cycles
they cover every target and every imported file. In any project, a file that they do not
cover is one that a cycle leads to. -/
theorem deep_covers (relations : List FileRelation) :
    let entries := FileRelation.deep relations
    let roots := entries.map (·.target.components)
    roots.Sublist (places relations) ∧ roots.Nodup ∧
    (∀ p, p ∈ roots ↔ p ∈ places relations ∧ ∀ q, ¬Links relations q p) ∧
    (∀ e ∈ entries, e.files = (FileGraph.ofRelations relations).reachableFrom e.target) ∧
    ((∀ p, ¬Relation.TransGen (Links relations) p p) → ∀ r ∈ relations,
      Covered relations r.target.components ∧
        ∀ file ∈ r.files, Covered relations file.components) ∧
    (∀ p ∈ places relations, ¬Covered relations p →
      ∃ c, Relation.TransGen (Links relations) c c ∧
        Relation.ReflTransGen (Links relations) c p) := by
  intro entries roots
  have rootsOf : roots = (FileGraph.ofRelations relations).roots.map Path.components := by
    rw [← deep_targets, List.map_map]
    rfl
  have ordered : roots.Sublist (places relations) := by
    rw [show roots = _ from deep_places relations]
    exact List.filter_sublist
  refine ⟨ordered, nodup_deep_places relations, ?_, ?_, ?_, ?_⟩
  · intro p
    rw [rootsOf]
    exact mem_roots
  · intro e listed
    obtain ⟨root, -, r, -, rfl⟩ := mem_deep.mp listed
    rfl
  · intro acyclic r listed
    have covered {p : Place} (isPlace : p ∈ places relations) : Covered relations p :=
      (covered_or_cycle isPlace).resolve_right fun ⟨c, around, _⟩ => acyclic c around
    refine ⟨covered (mem_places.mpr ⟨r, listed, .inl rfl⟩), ?_⟩
    intro file among
    exact covered (mem_places.mpr ⟨r, listed, .inr (List.mem_map_of_mem among)⟩)
  · intro p isPlace uncovered
    exact (covered_or_cycle isPlace).resolve_left uncovered

end ImportAtlas.Coverage
