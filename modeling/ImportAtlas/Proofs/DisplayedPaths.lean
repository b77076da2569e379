import ImportAtlas.Proofs.RawPaths

/-! Paths as reports show them. A path that lies under a root is shown by what it adds to the
root, and any other path in full. Bytes that encode a text without backslashes are shown as they
are. Read from the root again, what is shown then leads to the same place, so an absolute path can
be told from what is shown of it. Of other bytes something is lost: backslashes are shown as
slashes, and what cannot be decoded by a replacement character. -/
namespace ImportAtlas.DisplayedPaths
open ImportAtlas.Path (Component dropStart? extend normalized ofComponents withSlashes)
open ImportAtlas.RawPath (ofSpelled unspell)
open Decoding LexicalPaths PathForms RawPaths

/-- No component of a path has a backslash. -/
def Unescaped (p : RawPath) : Prop :=
  ∀ c ∈ p.components, '\\' ∉ c.text.toList

instance (p : RawPath) : Decidable (Unescaped p) :=
  inferInstanceAs (Decidable (∀ c ∈ p.components, '\\' ∉ c.text.toList))

/-- The components of a path encode texts. -/
def Decodable (p : RawPath) : Prop :=
  ∀ c ∈ p.components, ∃ text, unspell c.text = Text.utf8 text

/-- In normal form, a path is a directory or goes on below it. -/
def LiesUnder (directory p : RawPath) : Prop :=
  normalized directory.components <+: normalized p.components

instance (directory p : RawPath) : Decidable (LiesUnder directory p) :=
  inferInstanceAs (Decidable (_ <+: _))

section Texts
variable {root p q : Path} {cs rest : List Component}

theorem dropStart?_eq_some [DecidableEq α] {whole front rest : List α} :
    dropStart? whole front = some rest ↔ whole = front ++ rest := by
  induction front generalizing whole with
  | nil => simp [dropStart?]
  | cons a front ih =>
    cases whole with
    | nil => simp [dropStart?]
    | cons b whole =>
      rw [dropStart?]
      split
      · rename_i same
        simp [ih, same]
      · rename_i other
        simp [other]

/-! What is joined to a root. -/

/-- What follows the first component of a path is made of steps. -/
theorem isStep_of_spelled {c d : Component} (spelled : Spelled (c :: cs)) (member : d ∈ cs) :
    IsStep d := by
  obtain ⟨lead, rest, same, atStart, isSteps⟩ := spelled.parts
  rcases atStart with rfl | rfl | rfl
  · rw [List.nil_append] at same
    exact isSteps d (same ▸ List.mem_cons_of_mem _ member)
  · obtain ⟨-, rfl⟩ := List.cons.inj same
    exact isSteps d member
  · obtain ⟨-, rfl⟩ := List.cons.inj same
    exact isSteps d member

/-- Steps alone are a relative path with these steps as its components. -/
theorem components_of_steps (isSteps : ∀ c ∈ cs, IsStep c) :
    (ofComponents cs).isAbsolute = false ∧ (ofComponents cs).components = cs := by
  have read : (ofComponents cs).components = cs :=
    components_ofComponents ⟨[], cs, rfl, .inl rfl, isSteps⟩
  refine ⟨?_, read⟩
  rw [Bool.eq_false_iff, ne_eq, ← root_mem_components, read]
  exact fun member => (isSteps _ member).ne_root rfl

/-- What a path adds to a root leads from the root to the path. -/
theorem normalize_join_rest
    (same : normalized p.components = normalized root.components ++ rest) :
    (root.join (ofComponents rest)).normalize = p.normalize := by
  cases shape : normalized root.components with
  | nil =>
    -- The rest is the whole path here, and so it may be absolute.
    have here : root.normalize = ⟨""⟩ := by rw [Path.normalize, shape]; rfl
    rw [shape, List.nil_append] at same
    rw [normalize_join, here, ← same]
    change ((⟨""⟩ : Path).join p.normalize).normalize = p.normalize
    have nothing : (⟨""⟩ : Path).join p.normalize = p.normalize := by
      by_cases absolute : p.normalize.isAbsolute = true
      · exact join_of_absolute absolute
      · exact join_of_empty (by simpa using absolute) rfl
    rw [nothing, normalize_normalize]
  | cons c front =>
    have spelled := spelled_normalized p
    rw [same, shape] at spelled
    have isSteps : ∀ d ∈ rest, IsStep d := fun d member =>
      isStep_of_spelled spelled (List.mem_append_right front member)
    obtain ⟨relative, read⟩ := components_of_steps isSteps
    have fold : root.components.foldl extend [] = (normalized root.components).foldl extend [] := by
      rw [normalized, (folded_components root).foldl_reverse]
    have whole : (root.join (ofComponents rest)).components.foldl extend [] =
        (normalized p.components).foldl extend [] := by
      rw [foldl_components_join root relative, read, fold, ← List.foldl_append, ← same]
    rw [Path.normalize, Path.normalize, normalized, whole, ← normalized, normalized_normalized]

/-- What is seen of a path from a root leads from the root to the path, if the path lies under the
root or is absolute. -/
theorem normalize_join_seenFrom
    (placed : normalized root.components <+: normalized p.components ∨ p.isAbsolute = true) :
    (root.join (root.seenFrom p)).normalize = p.normalize := by
  unfold Path.seenFrom
  dsimp only
  cases below : dropStart? (normalized p.components) (normalized root.components) with
  | some rest => exact normalize_join_rest (dropStart?_eq_some.mp below)
  | none =>
    -- A root that is joined to an absolute path is given up.
    have absolute : p.normalize.isAbsolute = true := by
      rw [isAbsolute_normalize]
      refine placed.resolve_left ?_
      rintro ⟨rest, same⟩
      rw [dropStart?_eq_some.mpr same.symm] at below
      cases below
    change (root.join p.normalize).normalize = p.normalize
    rw [join_of_absolute absolute, normalize_normalize]

/-- What is seen of a path is made of components of its normal form. -/
theorem seenFrom_eq (root p : Path) :
    ∃ cs ⊆ normalized p.components, root.seenFrom p = ofComponents cs := by
  unfold Path.seenFrom
  dsimp only
  cases below : dropStart? (normalized p.components) (normalized root.components) with
  | some rest =>
    have same := dropStart?_eq_some.mp below
    exact ⟨rest, same ▸ List.subset_append_right _ rest, rfl⟩
  | none => exact ⟨_, List.Subset.refl _, rfl⟩

end Texts

/-! What is shown as it is. -/

section Legible
variable {p q root : RawPath}

/-- Characters that stand for the bytes of a text without backslashes. -/
def Legible (text : List Char) : Prop :=
  '\\' ∉ text ∧ ∃ original, text = encoded original

theorem joinable_legible : Joinable Legible := by
  refine ⟨⟨by simp, [], rfl⟩, ⟨by decide, ['.'], rfl⟩, ⟨by decide, ['/'], rfl⟩, ?_⟩
  rintro first second ⟨plain, one, rfl⟩ ⟨plain', other, rfl⟩
  refine ⟨?_, one ++ other, (encoded_append one other).symm⟩
  rw [List.mem_append, not_or]
  exact ⟨plain, plain'⟩

theorem legible_components (unescaped : Unescaped p) (decodable : Decodable p) :
    ∀ c ∈ p.components, Legible c.text.toList := by
  intro c member
  obtain ⟨text, bytes⟩ := decodable c member
  have narrow := narrow_components (narrow_spell p.bytes) c member
  refine ⟨unescaped c member, text, ?_⟩
  rw [encoded, ← bytes, spell_unspell narrow]

theorem withSlashes_eq_self {text : String} (plain : '\\' ∉ text.toList) :
    withSlashes text = text := by
  have kept : ∀ c ∈ text.toList, (if c = '\\' then '/' else c) = id c := by
    intro c member
    refine if_neg ?_
    rintro rfl
    exact plain member
  rw [withSlashes, List.map_congr_left kept, List.map_id, String.ofList_toList]

/-- The bytes of what is shown of legible bytes are the same bytes. -/
theorem raw_decoded {path : Path} (legible : Legible path.text.toList) :
    (Path.mk (ofSpelled path).decoded).raw.spelled = path := by
  obtain ⟨plain, text, same⟩ := legible
  have original : path = (Path.mk (String.ofList text)).raw.spelled := by
    refine eq_of_text ?_
    rw [spelled_raw, String.toList_ofList, same]
  have unescaped : '\\' ∉ (String.ofList text).toList := by
    rw [String.toList_ofList]
    intro member
    obtain ⟨before, after, rfl⟩ := List.append_of_mem member
    refine plain ?_
    rw [same, encoded_append, ← List.singleton_append, encoded_append]
    exact List.mem_append_right _ (List.mem_append_left _ List.mem_cons_self)
  rw [original, ofSpelled_spelled, decoded_raw, withSlashes_eq_self unescaped]

theorem raw_relativeTo (root : RawPath) (unescaped : Unescaped p) (decodable : Decodable p) :
    (Path.mk (root.relativeTo p)).raw.spelled = root.spelled.seenFrom p.spelled := by
  have kept := joinable_legible.normalized (legible_components unescaped decodable)
  obtain ⟨cs, among, same⟩ := seenFrom_eq root.spelled p.spelled
  refine raw_decoded (same ▸ ?_)
  exact joinable_legible.ofComponents fun c member => kept c (among member)

theorem decodable_raw (path : Path) : Decodable path.raw := by
  intro c member
  rw [components_raw] at member
  obtain ⟨d, -, rfl⟩ := List.mem_map.mp member
  refine ⟨d.text.toList, ?_⟩
  rw [← String.ofList_toList (s := (encode d).text), text_encode, encoded, String.ofList_toList,
    unspell_spell]

/-- What is shown of a path leads from the root to the path. -/
theorem normalize_join_relativeTo (unescaped : Unescaped p) (decodable : Decodable p)
    (placed : LiesUnder root p ∨ p.isAbsolute = true) :
    (root.join (Path.mk (root.relativeTo p)).raw).normalize = p.normalize := by
  rw [← spelled_inj, spelled_normalize, spelled_normalize, spelled_join,
    raw_relativeTo root unescaped decodable]
  exact normalize_join_seenFrom placed

/-- What is shown of a path without a root is the path. -/
theorem raw_decoded_self (unescaped : Unescaped p) (decodable : Decodable p) :
    (Path.mk p.decoded).raw = p := by
  have legible := joinable_legible.text (legible_components unescaped decodable)
  have back := raw_decoded legible
  rwa [ofSpelled_spelled, spelled_inj] at back

/-- Absolute paths that are shown alike are the same place. -/
theorem normalize_of_shown (top : Option RawPath) (unescaped : Unescaped p)
    (decodable : Decodable p) (unescapedOther : Unescaped q) (decodableOther : Decodable q)
    (absolute : p.isAbsolute = true) (absoluteOther : q.isAbsolute = true)
    (same : RawPath.shown top p = RawPath.shown top q) : p.normalize = q.normalize := by
  cases top with
  | some root =>
    have alike : root.relativeTo p = root.relativeTo q := same
    rw [← normalize_join_relativeTo unescaped decodable (.inr absolute), alike]
    exact normalize_join_relativeTo unescapedOther decodableOther (.inr absoluteOther)
  | none =>
    have alike : p.decoded = q.decoded := same
    rw [← raw_decoded_self unescaped decodable, alike,
      raw_decoded_self unescapedOther decodableOther]

theorem relativeTo_congr (root : RawPath) (same : p.normalize = q.normalize) :
    root.relativeTo p = root.relativeTo q := by
  have normal := congrArg (fun p => p.spelled.components) same
  simp only [spelled_normalize, components_normalize] at normal
  rw [RawPath.relativeTo, RawPath.relativeTo, Path.seenFrom, Path.seenFrom, normal]

end Legible

/-- What is shown of a path that encodes texts without backslashes leads from the root to that
path, if the path lies under the root or is absolute. So two absolute paths of this kind have the
same normal form if and only if they are shown alike from a root, and neither with a root nor
without one are two of them shown alike otherwise. The bytes of a text are shown as the text is,
and so in every report the texts that are shown alike have the same normal form. -/
theorem shown_identifies (root p : RawPath) (unescaped : Unescaped p) (decodable : Decodable p)
    (placed : LiesUnder root p ∨ p.isAbsolute = true) :
    (root.join (Path.mk (root.relativeTo p)).raw).normalize = p.normalize ∧
    (p.isAbsolute = true → ∀ q, Unescaped q → Decodable q → q.isAbsolute = true →
      (root.relativeTo p = root.relativeTo q ↔ p.normalize = q.normalize) ∧
      ∀ top, RawPath.shown top p = RawPath.shown top q → p.normalize = q.normalize) ∧
    ∀ path : Path, path.raw = p →
      (∀ top : Path, top.raw = root → root.relativeTo p = top.relativeTo path ∧
        (top.join ⟨top.relativeTo path⟩).normalize = path.normalize) ∧
      (p.isAbsolute = true → ∀ (report : Report) (other : Path), Unescaped other.raw →
        other.isAbsolute = true → report.shown path = report.shown other →
          path.normalize = other.normalize) := by
  have back := normalize_join_relativeTo unescaped decodable placed
  refine ⟨back, fun absolute q unescapedOther decodableOther absoluteOther =>
    ⟨⟨fun same => ?_, relativeTo_congr root⟩, fun top => ?_⟩, ?_⟩
  · rw [← back, same]
    exact normalize_join_relativeTo unescapedOther decodableOther (.inr absoluteOther)
  · exact normalize_of_shown top unescaped decodable unescapedOther decodableOther absolute
      absoluteOther
  · rintro path rfl
    refine ⟨?_, fun absolute report other unescapedOther absoluteOther same => ?_⟩
    · rintro top rfl
      rw [relativeTo_raw, ← join_raw, normalize_raw, normalize_raw, raw_inj] at back
      exact ⟨relativeTo_raw top path, back⟩
    · rw [← shown_raw, ← shown_raw] at same
      rw [← isAbsolute_raw] at absoluteOther
      rw [← raw_inj, ← normalize_raw, ← normalize_raw]
      exact normalize_of_shown _ unescaped decodable unescapedOther (decodable_raw other) absolute
        absoluteOther same

/-- A file under a root that is not in normal form, and one beside it in a directory whose name
only starts like the root's and is not ASCII. -/
theorem shown_identifies_beside :
    let root : RawPath := (Path.mk "/app/./lib/..").raw
    let inside : RawPath := (Path.mk "/app/src//../src/a.js").raw
    let beside : RawPath := (Path.mk "/app\u00e9/a.js").raw
    (Unescaped inside ∧ Decodable inside ∧ inside.isAbsolute = true ∧
      (root.join (Path.mk (root.relativeTo inside)).raw).normalize = inside.normalize) ∧
    (Unescaped beside ∧ Decodable beside ∧ beside.isAbsolute = true ∧
      (root.join (Path.mk (root.relativeTo beside)).raw).normalize = beside.normalize) := by
  intro root inside beside
  have unescaped : Unescaped inside := by decide
  have unescapedOther : Unescaped beside := by decide
  have absolute : inside.isAbsolute = true := by decide
  have absoluteOther : beside.isAbsolute = true := by decide
  have back := (shown_identifies root inside unescaped (decodable_raw _) (.inr absolute)).1
  have backOther :=
    (shown_identifies root beside unescapedOther (decodable_raw _) (.inr absoluteOther)).1
  exact ⟨⟨unescaped, decodable_raw _, absolute, back⟩,
    unescapedOther, decodable_raw _, absoluteOther, backOther⟩

/-- A name of one byte that encodes no text, between a directory and an ending. -/
private def undecodable (byte : UInt8) : RawPath :=
  ⟨Text.utf8 "/r/src/".toList ++ byte :: Text.utf8 ".js".toList⟩

/-- Two files under a root that have no backslash in their paths and are shown alike, since
neither name encodes a text; what is shown leads to none of them. Two others are shown alike in a
report since one of them has a backslash. -/
theorem shown_alike :
    let root : RawPath := (Path.mk "/r").raw
    let p := undecodable 0xFF
    let q := undecodable 0xFE
    (Unescaped p ∧ Unescaped q ∧ LiesUnder root p ∧ LiesUnder root q ∧ p.isAbsolute = true ∧
      q.isAbsolute = true) ∧
    (root.join (Path.mk (root.relativeTo p)).raw).normalize ≠ p.normalize ∧
    RawPath.shown (some root) p = RawPath.shown (some root) q ∧ p.normalize ≠ q.normalize ∧
    (let report : Report := { project := "r", root := some ⟨"/r"⟩ }
     report.shown ⟨"/r/a\\b.js"⟩ = report.shown ⟨"/r/a/b.js"⟩ ∧
       Path.normalize ⟨"/r/a\\b.js"⟩ ≠ Path.normalize ⟨"/r/a/b.js"⟩) := by
  decide +kernel

end ImportAtlas.DisplayedPaths
