import Mathlib.Data.List.Basic
import ImportAtlas.Path.Raw
import ImportAtlas.Proofs.Decoding
import ImportAtlas.Proofs.LexicalPaths
import ImportAtlas.Report.Basic

/-! Paths in bytes and paths that are texts. What is done to the one is done to the other: a path
in bytes is handled like the text with one character for each byte, and the bytes that encode a
text are divided, put together and shown as the text is. -/
namespace ImportAtlas.RawPaths
open ImportAtlas.Path (Component component? dropStart? extend normalized ofComponents pieces start)
open ImportAtlas.RawPath (ofSpelled spell spelled unspell)
open Decoding LexicalPaths PathForms Text

theorem eq_of_text {p q : Path} (same : p.text.toList = q.text.toList) : p = q :=
  congrArg Path.mk (String.toList_inj.mp same)

/-! Texts of which paths are made. -/

/-- A property of texts that holds of what is put together from texts with the property. -/
structure Joinable (holds : List Char → Prop) : Prop where
  nil : holds []
  point : holds ['.']
  slash : holds ['/']
  append : ∀ first second, holds first → holds second → holds (first ++ second)

section Joinable
variable {holds : List Char → Prop} {p : Path} {cs : List Component}

theorem Joinable.intercalate (joinable : Joinable holds) {texts : List (List Char)}
    (all : ∀ text ∈ texts, holds text) : holds (['/'].intercalate texts) := by
  induction texts with
  | nil => exact joinable.nil
  | cons text texts ih =>
    obtain ⟨here, later⟩ := List.forall_mem_cons.mp all
    cases texts with
    | nil => simpa using here
    | cons next texts =>
      rw [List.intercalate_cons_cons]
      exact joinable.append _ _ (joinable.append _ _ here joinable.slash) (ih later)

/-- A path is put together from its components, with points and slashes. -/
theorem Joinable.text (joinable : Joinable holds) (all : ∀ c ∈ p.components, holds c.text.toList) :
    holds p.text.toList := by
  rw [← intercalate_pieces p.text.toList]
  refine joinable.intercalate fun piece among => ?_
  cases read : component? piece with
  | none =>
    have blank : piece = [] ∨ piece = ['.'] := by
      by_contra other
      rw [component?, if_neg other] at read
      split at read
      all_goals cases read
    rcases blank with rfl | rfl
    · exact joinable.nil
    · exact joinable.point
  | some c =>
    have listed : c ∈ p.components :=
      List.mem_append_right _ (List.mem_filterMap.mpr ⟨piece, among, read⟩)
    exact text_of_component? read ▸ all c listed

theorem Joinable.normalized (joinable : Joinable holds)
    (all : ∀ c ∈ cs, holds c.text.toList) : ∀ c ∈ normalized cs, holds c.text.toList := by
  intro c member
  rcases mem_foldl_extend (List.mem_reverse.mp member) with none | listed | rfl
  · cases none
  · exact all c listed
  · exact joinable.append _ _ joinable.point joinable.point

theorem Joinable.ofComponents (joinable : Joinable holds)
    (all : ∀ c ∈ cs, holds c.text.toList) : holds (ofComponents cs).text.toList := by
  have written (ds : List Component) (all : ∀ c ∈ ds, holds c.text.toList) :
      holds ("/".intercalate (ds.map Component.text)).toList := by
    rw [String.toList_intercalate, List.map_map]
    refine joinable.intercalate fun text among => ?_
    obtain ⟨c, listed, rfl⟩ := List.mem_map.mp among
    exact all c listed
  unfold Path.ofComponents
  split
  · rename_i rest
    rw [String.toList_append]
    exact joinable.append _ _ joinable.slash (written rest (List.forall_mem_cons.mp all).2)
  · exact written cs all

end Joinable

/-! One character for each byte. -/

section Spelling
variable {p q : RawPath} {root path : Path}

theorem toNat_character (b : UInt8) : (Char.ofNat b.toNat).toNat = b.toNat := by
  have small : b.toNat < 256 := b.toNat_lt
  have valid : b.toNat.isValidChar := .inl (by omega)
  rw [Char.ofNat, dif_pos valid]
  rfl

theorem unspell_spell (bytes : List UInt8) : unspell (spell bytes) = bytes := by
  have back : ∀ b ∈ bytes, ((fun c => UInt8.ofNat c.toNat) ∘ fun b => Char.ofNat b.toNat) b = id b := by
    intro b _
    rw [Function.comp_apply, toNat_character, UInt8.ofNat_toNat, id]
  rw [unspell, spell, String.toList_ofList, List.map_map, List.map_congr_left back, List.map_id]

/-- The characters of a text are those of bytes. -/
def Narrow (text : List Char) : Prop :=
  ∀ c ∈ text, c.toNat < 256

theorem joinable_narrow : Joinable Narrow :=
  ⟨by simp [Narrow], by simp [Narrow], by simp [Narrow], fun _ _ first second =>
    List.forall_mem_append.mpr ⟨first, second⟩⟩

theorem narrow_spell (bytes : List UInt8) : Narrow (spell bytes).toList := by
  rw [spell, String.toList_ofList]
  intro c member
  obtain ⟨b, -, rfl⟩ := List.mem_map.mp member
  rw [toNat_character]
  exact b.toNat_lt

theorem spell_unspell {text : String} (narrow : Narrow text.toList) :
    spell (unspell text) = text := by
  have back : ∀ c ∈ text.toList,
      ((fun b => Char.ofNat b.toNat) ∘ fun c => UInt8.ofNat c.toNat) c = id c := by
    intro c member
    have small := narrow c member
    rw [Function.comp_apply, toNat_byte, Nat.mod_eq_of_lt small, Char.ofNat_toNat, id]
  rw [spell, unspell, List.map_map, List.map_congr_left back, List.map_id, String.ofList_toList]

@[simp] theorem ofSpelled_spelled (p : RawPath) : ofSpelled p.spelled = p := by
  rw [ofSpelled, spelled, unspell_spell]

theorem spelled_ofSpelled (narrow : Narrow path.text.toList) : (ofSpelled path).spelled = path := by
  rw [spelled, ofSpelled, spell_unspell narrow]

theorem spelled_inj : p.spelled = q.spelled ↔ p = q := by
  refine ⟨fun same => ?_, congrArg _⟩
  rw [← ofSpelled_spelled p, same, ofSpelled_spelled]

theorem piece_subset {text piece : List Char} (among : piece ∈ pieces text) : piece ⊆ text := by
  induction text generalizing piece with
  | nil =>
    obtain rfl := List.mem_singleton.mp among
    exact List.nil_subset _
  | cons c rest ih =>
    rw [pieces] at among
    split at among
    · rcases List.mem_cons.mp among with rfl | later
      · exact List.nil_subset _
      · exact List.subset_cons_of_subset c (ih later)
    · cases shape : pieces rest with
      | nil => exact (pieces_ne_nil rest shape).elim
      | cons first others =>
        rw [shape] at among ih
        rcases List.mem_cons.mp among with rfl | later
        · exact List.cons_subset_cons c (ih List.mem_cons_self)
        · exact List.subset_cons_of_subset c (ih (List.mem_cons_of_mem _ later))

theorem narrow_components (narrow : Narrow path.text.toList) :
    ∀ c ∈ path.components, Narrow c.text.toList := by
  intro c member
  rcases List.mem_append.mp member with atStart | later
  · have special : c = .root ∨ c = .current := by
      unfold Path.start at atStart
      split at atStart
      · exact .inl (List.mem_singleton.mp atStart)
      split at atStart
      · exact .inr (List.mem_singleton.mp atStart)
      · cases atStart
    rcases special with rfl | rfl
    · exact joinable_narrow.slash
    · exact joinable_narrow.point
  · obtain ⟨piece, among, read⟩ := List.mem_filterMap.mp later
    rw [text_of_component? read]
    exact fun c inside => narrow c (piece_subset among inside)

theorem narrow_normalized (p : RawPath) :
    ∀ c ∈ normalized p.spelled.components, Narrow c.text.toList :=
  joinable_narrow.normalized (narrow_components (narrow_spell p.bytes))

theorem spelled_normalize (p : RawPath) : p.normalize.spelled = p.spelled.normalize :=
  spelled_ofSpelled (joinable_narrow.ofComponents (narrow_normalized p))

theorem spelled_join (p q : RawPath) : (p.join q).spelled = p.spelled.join q.spelled := by
  have first : Narrow p.spelled.text.toList := narrow_spell p.bytes
  have second : Narrow q.spelled.text.toList := narrow_spell q.bytes
  refine spelled_ofSpelled ?_
  unfold Path.join
  split
  · exact second
  split
  · rw [String.toList_append]
    exact joinable_narrow.append _ _ first second
  · rw [String.toList_append, String.toList_append]
    exact joinable_narrow.append _ _ (joinable_narrow.append _ _ first joinable_narrow.slash) second

end Spelling

/-! Paths that are texts. -/

section Encoding
variable {text piece : List Char} {p q root : Path} {cs ds : List Component}

/-- The encoding of a text, with one character for each byte. -/
def encoded (text : List Char) : List Char :=
  (spell (utf8 text)).toList

/-- The component with one character for each byte. -/
def encode : Component → Component
  | .name text => .name (String.ofList (encoded text.toList))
  | c => c

theorem encoded_append (first second : List Char) :
    encoded (first ++ second) = encoded first ++ encoded second := by
  simp [encoded, spell]

theorem encoded_inj : encoded text = encoded piece ↔ text = piece := by
  refine ⟨fun same => ?_, congrArg _⟩
  have bytes := congrArg unspell (String.toList_inj.mp same)
  rw [unspell_spell, unspell_spell] at bytes
  rw [← lossy_utf8 text, bytes, lossy_utf8]

theorem text_encode (c : Component) : (encode c).text.toList = encoded c.text.toList := by
  cases c with
  | name text => exact String.toList_ofList
  | _ => rfl

theorem encode_inj {c d : Component} : encode c = encode d ↔ c = d := by
  refine ⟨fun same => ?_, congrArg _⟩
  have texts := congrArg (fun c : Component => c.text.toList) same
  simp only [text_encode, encoded_inj, String.toList_inj] at texts
  cases c with
  | _ => cases d with
    | _ => simp_all [encode, Component.text]

theorem encoded_eq_map (text : List Char) :
    encoded text = (utf8 text).map fun b => Char.ofNat b.toNat :=
  String.toList_ofList

/-- A character is encoded by itself, or by characters that are not ASCII as it is not. -/
theorem encoded_singleton (c : Char) :
    encoded [c] = [c] ∨ 128 ≤ c.toNat ∧ encoded [c] ≠ [] ∧ ∀ d ∈ encoded [c], 128 ≤ d.toNat := by
  have bytes : encoded [c] = (String.utf8EncodeChar c).map fun b => Char.ofNat b.toNat := by
    rw [encoded_eq_map, utf8_cons, utf8_nil, List.append_nil]
  rw [bytes]
  by_cases ascii : c.toNat < 128
  · have byte : (UInt8.ofNat c.toNat).toNat = c.toNat := by
      rw [toNat_byte]
      omega
    have single : String.utf8EncodeChar c = [UInt8.ofNat c.toNat] :=
      if_pos (show c.val.toNat ≤ 127 from Nat.le_of_lt_succ ascii)
    rw [single, List.map_singleton, byte, Char.ofNat_toNat]
    exact .inl rfl
  · refine .inr ⟨by omega, by simp [String.utf8EncodeChar_ne_nil], ?_⟩
    have high : ∀ b ∈ String.utf8EncodeChar c, 128 ≤ b.toNat := by
      have wide : ¬c.val.toNat ≤ 127 := fun small => ascii (Nat.lt_succ_of_le small)
      unfold String.utf8EncodeChar
      dsimp only
      rw [if_neg wide]
      split_ifs
      all_goals
        simp only [List.mem_cons, List.not_mem_nil, or_false, forall_eq_or_imp, forall_eq, toNat_byte]
        omega
    intro d member
    obtain ⟨b, among, rfl⟩ := List.mem_map.mp member
    rw [toNat_character]
    exact high b among

theorem pieces_append_of_plain {front : List Char} (plain : '/' ∉ front)
    (shape : pieces text = piece :: others) : pieces (front ++ text) = (front ++ piece) :: others := by
  induction front with
  | nil => exact shape
  | cons c front ih =>
    rw [List.mem_cons, not_or] at plain
    rw [List.cons_append, pieces, if_neg (Ne.symm plain.1), ih plain.2]
    rfl

theorem pieces_encoded (text : List Char) : pieces (encoded text) = (pieces text).map encoded := by
  induction text with
  | nil => rfl
  | cons c rest ih =>
    rw [← List.singleton_append, encoded_append]
    by_cases slash : c = '/'
    · subst slash
      rw [show encoded ['/'] = ['/'] from rfl, List.singleton_append, List.singleton_append, pieces,
        if_pos rfl, ih, pieces, if_pos rfl]
      rfl
    · have plain : '/' ∉ encoded [c] := by
        intro member
        rcases encoded_singleton c with same | ⟨-, -, high⟩
        · rw [same] at member
          exact slash (List.mem_singleton.mp member).symm
        · exact absurd (high _ member) (by decide)
      cases shape : pieces rest with
      | nil => exact (pieces_ne_nil rest shape).elim
      | cons piece others =>
        rw [shape] at ih
        rw [pieces_append_of_plain plain ih, List.singleton_append, pieces, if_neg slash, shape,
          List.map_cons, ← encoded_append]
        rfl

theorem component?_encoded (piece : List Char) :
    component? (encoded piece) = (component? piece).map encode := by
  have empty : encoded piece = [] ↔ piece = [] := @encoded_inj piece []
  have point : encoded piece = ['.'] ↔ piece = ['.'] := @encoded_inj piece ['.']
  have points : encoded piece = ['.', '.'] ↔ piece = ['.', '.'] := @encoded_inj piece ['.', '.']
  unfold Path.component?
  simp only [empty, point, points]
  split
  · rfl
  split
  · rfl
  · simp [encode]

theorem start_encoded (text : List Char) : start (encoded text) = (start text).map encode := by
  have slash : (encoded text).head? = some '/' ↔ text.head? = some '/' := by
    cases text with
    | nil => rfl
    | cons c rest =>
      rw [← List.singleton_append, encoded_append]
      rcases encoded_singleton c with same | ⟨wide, filled, high⟩
      · rw [same]
        rfl
      · rw [List.head?_append_of_ne_nil _ filled]
        refine iff_of_false (fun head => ?_) (fun head => ?_)
        · exact absurd (high _ (List.mem_of_head? head)) (by decide)
        · obtain rfl : c = '/' := Option.some.inj head
          exact absurd wide (by decide)
  have point : (pieces (encoded text)).head? = some ['.'] ↔
      (pieces text).head? = some ['.'] := by
    have alike (piece : List Char) : encoded piece = ['.'] ↔ piece = ['.'] :=
      @encoded_inj piece ['.']
    rw [pieces_encoded, List.head?_map, Option.map_eq_some_iff]
    simp only [alike, exists_eq_right]
  unfold Path.start
  simp only [slash, point]
  split
  · rfl
  split
  · rfl
  · rfl

/-- The components of the bytes of a path are its components. -/
theorem components_raw (p : Path) : p.raw.components = p.components.map encode := by
  have pieces : (pieces (encoded p.text.toList)).filterMap component? =
      ((pieces p.text.toList).filterMap component?).map encode := by
    rw [pieces_encoded, List.filterMap_map, List.map_filterMap]
    exact List.filterMap_congr fun piece _ => component?_encoded piece
  rw [Path.components, List.map_append, ← start_encoded, ← pieces]
  rfl

theorem normalized_encode (cs : List Component) :
    normalized (cs.map encode) = (normalized cs).map encode := by
  have step (above : List Component) (c : Component) :
      extend (above.map encode) (encode c) = (extend above c).map encode := by
    cases c with
    | parent =>
      cases above with
      | nil => rfl
      | cons d above =>
        cases d with
        | _ => rfl
    | _ => rfl
  have folded (above : List Component) : (cs.map encode).foldl extend (above.map encode) =
      (cs.foldl extend above).map encode := by
    induction cs generalizing above with
    | nil => rfl
    | cons c cs ih => rw [List.map_cons, List.foldl_cons, List.foldl_cons, step, ih]
  rw [normalized, normalized, List.map_reverse]
  exact congrArg List.reverse (folded [])

theorem dropStart?_encode (cs ds : List Component) :
    dropStart? (cs.map encode) (ds.map encode) = (dropStart? cs ds).map (List.map encode) := by
  induction ds generalizing cs with
  | nil => cases cs with
    | _ => rfl
  | cons d ds ih =>
    cases cs with
    | nil => rfl
    | cons c cs =>
      rw [List.map_cons, List.map_cons, dropStart?, dropStart?]
      simp only [encode_inj]
      split
      · exact ih cs
      · rfl

theorem encoded_intercalate (texts : List (List Char)) :
    encoded (['/'].intercalate texts) = ['/'].intercalate (texts.map encoded) := by
  induction texts with
  | nil => rfl
  | cons text texts ih =>
    cases texts with
    | nil => simp
    | cons next texts =>
      rw [List.map_cons, List.map_cons, List.intercalate_cons_cons, List.intercalate_cons_cons,
        encoded_append, encoded_append, ih]
      rfl

theorem spelled_raw (p : Path) : p.raw.spelled.text.toList = encoded p.text.toList :=
  rfl

theorem ofComponents_encode (cs : List Component) :
    ofComponents (cs.map encode) = (ofComponents cs).raw.spelled := by
  have written (ds : List Component) :
      ("/".intercalate ((ds.map encode).map Component.text)).toList =
        encoded ("/".intercalate (ds.map Component.text)).toList := by
    have texts : (ds.map encode).map (fun c => c.text.toList) =
        (ds.map fun c => c.text.toList).map encoded := by
      rw [List.map_map, List.map_map]
      exact List.map_congr_left fun c _ => text_encode c
    rw [toList_intercalate, toList_intercalate, encoded_intercalate, texts]
  refine eq_of_text ?_
  rw [spelled_raw]
  by_cases absolute : cs.head? = some .root
  · obtain ⟨rest, rfl⟩ := List.head?_eq_some_iff.mp absolute
    rw [List.map_cons, show encode .root = .root from rfl, ofComponents, ofComponents, String.toList_append, written,
      String.toList_append, encoded_append]
    rfl
  · have relative : (cs.map encode).head? ≠ some .root := by
      rw [List.head?_map]
      cases first : cs.head? with
      | none => simp
      | some c =>
        cases c with
        | root => exact absurd first absolute
        | _ => simp [encode]
    rw [ofComponents_of_relative relative, ofComponents_of_relative absolute]
    exact written cs

theorem raw_inj : p.raw = q.raw ↔ p = q := by
  refine ⟨fun same => ?_, congrArg _⟩
  have texts := encoded_inj.mp (congrArg (fun r : RawPath => (spell r.bytes).toList) same)
  exact eq_of_text texts

/-- The normal form of the bytes of a text has the bytes of its normal form. -/
theorem normalize_raw (p : Path) : p.raw.normalize = p.normalize.raw := by
  have components : p.raw.spelled.components = p.components.map encode := components_raw p
  rw [RawPath.normalize, Path.normalize, components, normalized_encode, ofComponents_encode,
    ofSpelled_spelled, Path.normalize]

theorem seenFrom_raw (root p : Path) :
    root.raw.spelled.seenFrom p.raw.spelled = (root.seenFrom p).raw.spelled := by
  have ofRoot : root.raw.spelled.components = root.components.map encode := components_raw root
  have ofPath : p.raw.spelled.components = p.components.map encode := components_raw p
  rw [Path.seenFrom, Path.seenFrom, ofRoot, ofPath, normalized_encode, normalized_encode,
    dropStart?_encode, ← ofComponents_encode]
  cases dropStart? (normalized p.components) (normalized root.components) with
  | none => rfl
  | some rest => rfl

theorem isAbsolute_raw (p : Path) : p.raw.isAbsolute = p.isAbsolute := by
  have root (c : Component) : encode c = .root ↔ c = .root := @encode_inj c .root
  rw [RawPath.isAbsolute, Bool.eq_iff_iff, ← root_mem_components, ← root_mem_components]
  change Component.root ∈ p.raw.components ↔ _
  rw [components_raw, List.mem_map]
  simp only [root, exists_eq_right]

theorem getLast?_encoded (text : List Char) :
    (encoded text).getLast? = some '/' ↔ text.getLast? = some '/' := by
  rcases List.eq_nil_or_concat' text with rfl | ⟨front, c, rfl⟩
  · rfl
  · rw [encoded_append, List.getLast?_concat]
    rcases encoded_singleton c with same | ⟨wide, filled, high⟩
    · rw [same, List.getLast?_concat]
    · rw [List.getLast?_append_of_ne_nil _ filled]
      refine iff_of_false (fun last => ?_) (fun last => ?_)
      · exact absurd (high _ (List.mem_of_getLast? last)) (by decide)
      · obtain rfl : c = '/' := Option.some.inj last
        exact absurd wide (by decide)

theorem join_raw (p q : Path) : (p.join q).raw = p.raw.join q.raw := by
  have absolute : q.raw.spelled.isAbsolute = q.isAbsolute := isAbsolute_raw q
  have empty : p.raw.spelled.text = "" ↔ p.text = "" := by
    rw [← String.toList_inj, ← String.toList_inj, spelled_raw]
    exact @encoded_inj p.text.toList []
  have slash : p.raw.spelled.text.toList.getLast? = some '/' ↔ p.text.toList.getLast? = some '/' :=
    getLast?_encoded _
  suffices texts : (p.join q).raw.spelled = p.raw.spelled.join q.raw.spelled by
    rw [RawPath.join, ← texts, ofSpelled_spelled]
  unfold Path.join
  simp only [absolute, empty, slash]
  refine eq_of_text ?_
  split
  · rfl
  split
  · rw [spelled_raw, String.toList_append, String.toList_append, encoded_append]
    rfl
  · rw [spelled_raw]
    simp only [String.toList_append, encoded_append]
    rfl

theorem decoded_raw (p : Path) : p.raw.decoded = Path.withSlashes p.text := by
  rw [RawPath.decoded, Path.raw, lossy_utf8, String.ofList_toList]

/-- What is shown of a text is what is shown of its bytes. -/
theorem relativeTo_raw (root p : Path) : root.raw.relativeTo p.raw = root.relativeTo p := by
  rw [RawPath.relativeTo, seenFrom_raw, ofSpelled_spelled, decoded_raw, Path.relativeTo]

theorem shown_raw (report : Report) (p : Path) :
    RawPath.shown (report.root.map Path.raw) p.raw = report.shown p := by
  unfold RawPath.shown Report.shown
  cases report.root with
  | none => exact decoded_raw p
  | some root => exact relativeTo_raw root p

end Encoding
end ImportAtlas.RawPaths
