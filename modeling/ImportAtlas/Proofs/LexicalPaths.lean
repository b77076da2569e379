import Mathlib.Logic.Relation
import ImportAtlas.Proofs.Building
import ImportAtlas.Proofs.PathForms

/-! The lexical meaning of paths. Points, and entries that are left again at once, may be taken
out of a path without a look at the file system. Two paths spell the same way if such
contractions lead from one to the other, and every way has one normal form: the spellings of it
are exactly the paths that are normalized to it. -/
namespace ImportAtlas.LexicalPaths
open ImportAtlas.Path PathForms

/-- One contraction of a path: the current directory is left out, or an entry together with the
step up behind it, or a step up from the root. -/
inductive Contracts : List Component → List Component → Prop where
  | current (before after : List Component) :
      Contracts (before ++ .current :: after) (before ++ after)
  | turn (before : List Component) (text : String) (after : List Component) :
      Contracts (before ++ .name text :: .parent :: after) (before ++ after)
  | above (after : List Component) : Contracts (.root :: .parent :: after) (.root :: after)

/-- Two paths spell the same way: contractions, forwards and backwards, lead from one to the
other. -/
def SpellsSame (p q : Path) : Prop :=
  Relation.EqvGen Contracts p.components q.components

/-- Components without the current directory, and with steps up only where they start, which is
nowhere in an absolute path. -/
structure NormalForm (absolute : Bool) (components : List Component) : Prop where
  moves : .current ∉ components
  rooted : absolute = true → .parent ∉ components
  leading : ∃ ups rest, components = List.replicate ups .parent ++ rest ∧ .parent ∉ rest

variable {cs ds above : List Component} {p q : Path}

/-! Contractions and folding. -/

/-- A contraction does not show in the folded components. -/
theorem foldl_of_contracts (contracts : Contracts cs ds) :
    cs.foldl extend [] = ds.foldl extend [] := by
  cases contracts with
  | current before after => rw [List.foldl_append, List.foldl_append, List.foldl_cons]; rfl
  | turn before text after =>
    rw [List.foldl_append, List.foldl_append, List.foldl_cons, List.foldl_cons]
    rfl
  | above after => rfl

theorem normalized_of_spellsSame (same : Relation.EqvGen Contracts cs ds) :
    normalized cs = normalized ds := by
  induction same with
  | rel cs ds contracts => rw [normalized, normalized, foldl_of_contracts contracts]
  | refl cs => rfl
  | symm cs ds _ ih => exact ih.symm
  | trans cs ds es _ _ first second => exact first.trans second

/-- Folding a component into a normal form is a contraction, or only moves the component. -/
theorem contracts_extend (folded : Folded above) (c : Component) (later : List Component) :
    above.reverse ++ c :: later = (extend above c).reverse ++ later ∨
      Contracts (above.reverse ++ c :: later) ((extend above c).reverse ++ later) := by
  have moved : above.reverse ++ c :: later = (c :: above).reverse ++ later := by simp
  cases c with
  | root => exact .inl moved
  | name text => exact .inl moved
  | current => exact .inr (.current above.reverse later)
  | parent =>
    cases above with
    | nil => exact .inl moved
    | cons top below =>
      cases top with
      | current => exact folded.elim
      | parent => exact .inl moved
      | root =>
        obtain rfl : below = [] := folded
        exact .inr (.above later)
      | name text =>
        refine .inr ?_
        rw [List.reverse_cons, List.append_assoc]
        exact .turn below.reverse text later

/-- What is folded into a normal form is contracted, component by component. -/
theorem contracts_foldl (folded : Folded above) (inner : ∀ c ∈ cs, c ≠ .root) :
    Relation.ReflTransGen Contracts (above.reverse ++ cs) (cs.foldl extend above).reverse := by
  induction cs generalizing above with
  | nil => rw [List.append_nil, List.foldl_nil]
  | cons c later ih =>
    obtain ⟨notRoot, others⟩ := List.forall_mem_cons.mp inner
    have rest := ih (folded.extend notRoot) others
    rcases contracts_extend folded c later with same | step
    · rw [same]
      exact rest
    · exact rest.head step

/-- The components of a path contract to those of its normal form. -/
theorem contracts_normalized (p : Path) :
    Relation.ReflTransGen Contracts p.components (normalized p.components) := by
  obtain ⟨lead, rest, same, atStart, isSteps⟩ := (spelled_components p).parts
  have inner : ∀ c ∈ rest, c ≠ .root := fun c member => (isSteps c member).ne_root
  have nothing : Folded [] := trivial
  have root : Folded [.root] := rfl
  rw [same]
  rcases atStart with rfl | rfl | rfl
  · exact contracts_foldl nothing inner
  · exact contracts_foldl root inner
  · exact (contracts_foldl nothing inner).head (.current [] rest)

/-- Two paths spell the same way if and only if they have the same normal form. -/
theorem spellsSame_iff : SpellsSame p q ↔ p.normalize = q.normalize := by
  constructor
  · intro same
    rw [Path.normalize, Path.normalize, normalized_of_spellsSame same]
  · intro same
    have normal : normalized p.components = normalized q.components := by
      rw [← components_normalize, same, components_normalize]
    have first := Relation.EqvGen.reflTransGen_le_eqvGen Contracts _ _ (contracts_normalized p)
    have second := Relation.EqvGen.reflTransGen_le_eqvGen Contracts _ _ (contracts_normalized q)
    rw [← normal] at second
    exact first.trans _ _ _ (second.symm _ _)

/-! Normal forms. -/

/-- The root stays in a normal form, and does not come into it from elsewhere. -/
theorem root_mem_normalized : .root ∈ normalized p.components ↔ p.isAbsolute = true := by
  rw [normalized, List.mem_reverse]
  constructor
  · intro member
    rcases mem_foldl_extend member with nothing | listed | up
    · cases nothing
    · exact root_mem_components.mp listed
    · cases up
  · intro absolute
    rw [components_of_absolute absolute, List.foldl_cons]
    exact foldl_extend_keeps (List.mem_singleton.mpr rfl) (by simp)

theorem isAbsolute_normalize (p : Path) : p.normalize.isAbsolute = p.isAbsolute := by
  rw [Bool.eq_iff_iff, ← root_mem_normalized, ← root_mem_normalized, normalized_normalize]

theorem normalForm_normalize (p : Path) : NormalForm p.isAbsolute p.normalize.components := by
  rw [components_normalize]
  have root := (root_mem_normalized (p := p)).mpr
  rw [normalized] at root ⊢
  obtain ⟨names, same | ⟨ups, same⟩⟩ := (folded_components p).shape
  · rw [same, List.reverse_append]
    exact ⟨by simp, by simp, 0, _, rfl, by simp⟩
  · rw [same, List.reverse_append, List.reverse_replicate] at root ⊢
    refine ⟨by simp [List.mem_replicate], fun absolute => ?_, ups, _, rfl, by simp⟩
    exact absurd (root absolute) (by simp [List.mem_replicate])

/-! Joined paths and nodes of graphs. -/

theorem foldl_normalize (p : Path) :
    p.normalize.components.foldl extend [] = p.components.foldl extend [] := by
  rw [components_normalize, normalized, (folded_components p).foldl_reverse]

theorem normalize_normalize (p : Path) : p.normalize.normalize = p.normalize := by
  rw [Path.normalize, normalized_normalize]
  rfl

/-- What is joined to a path may as well be joined to its normal form. -/
theorem normalize_join (p q : Path) : (p.join q).normalize = (p.normalize.join q).normalize := by
  by_cases absolute : q.isAbsolute = true
  · rw [join_of_absolute absolute, join_of_absolute absolute]
  · have relative : q.isAbsolute = false := by simpa using absolute
    have folds := foldl_components_join p.normalize relative
    rw [foldl_normalize, ← foldl_components_join p relative] at folds
    rw [Path.normalize, Path.normalize, normalized, normalized, folds]

/-- A file that is added behind another one gets its number if and only if it has its place. -/
theorem addFile_same_iff (additions : List Addition) (p q : Path) :
    (((FileGraph.build additions).addFile p).1.addFile q).2 =
        ((FileGraph.build additions).addFile p).2 ↔ p.components = q.components := by
  obtain ⟨represents, number⟩ :=
    Building.represents_addFile (Building.represents_build additions) p
  obtain ⟨-, next⟩ := Building.represents_addFile represents q
  have known : p.components ∈ Building.enlist (Addition.mentioned additions) p.components :=
    Building.mem_enlist.mpr (.inr rfl)
  rw [next, number, ← Building.idxOf_enlist known q.components,
    List.idxOf_inj (Building.mem_enlist.mpr (.inr rfl)), eq_comm]

theorem components_normalize_inj :
    p.normalize.components = q.normalize.components ↔ p.normalize = q.normalize := by
  refine ⟨fun same => ?_, congrArg _⟩
  rw [components_normalize, components_normalize] at same
  rw [Path.normalize, Path.normalize, same]

/-- A normalized path is in normal form, and absolute if the path is. Joining to a path and to
its normal form is the same up to normalization, and a normal form is its own normal form. Two
paths have the same normal form, and so one node in every graph, if and only if they spell the
same way. -/
theorem normalize_normal_form (p : Path) :
    NormalForm p.isAbsolute p.normalize.components ∧
    p.normalize.isAbsolute = p.isAbsolute ∧
    (∀ q, (p.join q).normalize = (p.normalize.join q).normalize) ∧
    p.normalize.normalize = p.normalize ∧
    (∀ q, p.normalize = q.normalize ↔ SpellsSame p q) ∧
    ∀ additions q,
      (((FileGraph.build additions).addFile p.normalize).1.addFile q.normalize).2 =
        ((FileGraph.build additions).addFile p.normalize).2 ↔ SpellsSame p q := by
  refine ⟨normalForm_normalize p, isAbsolute_normalize p, normalize_join p, normalize_normalize p,
    fun q => spellsSame_iff.symm, fun additions q => ?_⟩
  rw [addFile_same_iff, components_normalize_inj, spellsSame_iff]

end ImportAtlas.LexicalPaths
