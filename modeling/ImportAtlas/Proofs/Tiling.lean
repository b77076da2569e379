import Mathlib.Data.List.TakeWhile
import ImportAtlas.Token.Lexer
import ImportAtlas.Tree.Module

/-! Tokens lie side by side on their source. The tokens of a source and the gaps
between them make up the whole text in order, every token stands where its
characters stand, and all of them but the last have characters. What later proofs
need of this is that tokens never overlap and start and stop between characters. -/
namespace ImportAtlas.Tiling
open Text

/-- The tokens and the gaps before them make up a text that starts at a place.
The last token stands for the end of the source. -/
inductive Tiles : Position → List Char → List Token → Prop where
  | done {place : Position} {gap : List Char} (blank : ∀ c ∈ gap, isGap c = true) :
      Tiles place gap [.endOfSource (place.advance gap)]
  | token {place : Position} {gap taken text : List Char} {kind : Token.Kind}
      {tokens : List Token} (blank : ∀ c ∈ gap, isGap c = true) (filled : taken ≠ []) (inside : kind ≠ .eof)
      (more : Tiles ((place.advance gap).advance taken) text tokens) :
      Tiles place (gap ++ (taken ++ text))
        (⟨kind, String.ofList taken,
          ⟨place.advance gap, (place.advance gap).advance taken⟩⟩ :: tokens)

private theorem slash_ne_eof (before : List Token) (text : List Char) :
    (Token.slash before text).1 ≠ .eof := by
  unfold Token.slash
  split
  · simp
  split
  · simp
  split
  · split
    · simp
    · simp
  · simp

private theorem single?_ne_eof (found : Token.single? c = some kind) : kind ≠ .eof := by
  rintro rfl
  unfold Token.single? at found
  repeat' split at found
  all_goals simp at found

/-- No lexeme is the end of the source. -/
theorem lexeme_ne_eof (before : List Token) (c : Char) (rest : List Char) :
    (Token.lexeme before c rest).1 ≠ .eof := by
  unfold Token.lexeme
  split
  · rename_i found
    exact single?_ne_eof found
  split
  · simp
  split
  · simp
  split
  · exact slash_ne_eof _ _
  split
  · simp
  split
  · simp
  · simp

private theorem reserve_ne_eof (value : String) (inside : kind ≠ .eof) :
    Token.reserve kind value ≠ .eof := by
  unfold Token.reserve
  split
  · simp
  · exact inside

/-- Lexing adds tokens that tile what it reads to the tokens read before. -/
theorem tiles_scan (before : List Token) (place : Position) (text : List Char) :
    ∃ tokens, Token.scan before place text = before.reverse ++ tokens ∧
      Tiles place text tokens := by
  fun_induction Token.scan before place text with
  | case1 before place text here atEnd =>
    have whole := List.takeWhile_append_dropWhile (p := isGap) (l := text)
    rw [atEnd, List.append_nil] at whole
    refine ⟨[.endOfSource here], by simp, ?_⟩
    have tiled : Tiles place (text.takeWhile isGap) [.endOfSource here] :=
      .done fun _ => List.mem_takeWhile_imp
    rwa [whole] at tiled
  | case2 before place text here c rest shape found taken ih =>
    obtain ⟨tokens, scanned, tiled⟩ := ih
    refine ⟨Token.ofLexeme found.1 here taken :: tokens, by rw [scanned]; simp, ?_⟩
    have whole := List.takeWhile_append_dropWhile (p := isGap) (l := text)
    rw [shape, ← List.take_append_drop found.2 (c :: rest)] at whole
    have filled : taken ≠ [] := by
      have positive := Token.lexeme_pos before c rest
      intro empty
      have width := congrArg List.length empty
      simp only [taken, found, List.length_take, List.length_cons, List.length_nil] at width
      omega
    have inside := reserve_ne_eof (String.ofList taken) (lexeme_ne_eof before c rest)
    exact whole ▸ .token (fun c => List.mem_takeWhile_imp) filled inside tiled

/-- The tokens of a source tile it. -/
theorem tiles_ofSource (source : String) :
    Tiles .origin source.toList (Token.ofSource source) := by
  obtain ⟨tokens, scanned, tiled⟩ := tiles_scan [] .origin source.toList
  rw [Token.ofSource, scanned]
  exact tiled

/-- The number of bytes of a text. -/
def byteCount : List Char → Nat
  | [] => 0
  | c :: rest => c.utf8Size + byteCount rest

@[simp] theorem byteCount_append (first second : List Char) :
    byteCount (first ++ second) = byteCount first + byteCount second := by
  induction first with
  | nil => simp [byteCount]
  | cons c first ih => simp only [List.cons_append, byteCount, ih, Nat.add_assoc]

theorem byteCount_pos (filled : text ≠ []) : 0 < byteCount text := by
  cases text with
  | nil => exact absurd rfl filled
  | cons c rest =>
    have positive := c.utf8Size_pos
    simp only [byteCount]
    omega

theorem advance_append (place : Position) (first second : List Char) :
    place.advance (first ++ second) = (place.advance first).advance second :=
  List.foldl_append

/-- Moving over a text moves the offset by the bytes of the text. -/
@[simp] theorem offset_advance (place : Position) (text : List Char) :
    (place.advance text).offset = place.offset + byteCount text := by
  induction text generalizing place with
  | nil => rfl
  | cons c rest ih =>
    have step : (place.step c).offset = place.offset + c.utf8Size := by
      unfold Position.step
      split
      · rfl
      · rfl
    change ((place.step c).advance rest).offset = _
    rw [ih, step, byteCount, Nat.add_assoc]

/-- An offset between two characters of a text, or at one of its ends. -/
def IsBoundary (text : List Char) (offset : Nat) : Prop :=
  ∃ before after, text = before ++ after ∧ offset = byteCount before

/-- What is known of the tokens of a source, or of some of them: they stand in the
order of the source and do not overlap, they start and stop between characters,
and only the end of the source is empty. -/
structure Placed (source : List Char) (tokens : List Token) : Prop where
  apart : tokens.Pairwise fun a b => a.span.stop.offset ≤ b.span.start.offset
  starts : ∀ t ∈ tokens, IsBoundary source t.span.start.offset
  stops : ∀ t ∈ tokens, IsBoundary source t.span.stop.offset
  forward : ∀ t ∈ tokens, t.span.start.offset ≤ t.span.stop.offset
  filled : ∀ t ∈ tokens, t.isEof = false → t.span.start.offset < t.span.stop.offset

/-- Fewer tokens of a source are still placed. -/
theorem Placed.sublist (placed : Placed source tokens) (fewer : few.Sublist tokens) :
    Placed source few where
  apart := placed.apart.sublist fewer
  starts := fun t member => placed.starts t (fewer.mem member)
  stops := fun t member => placed.stops t (fewer.mem member)
  forward := fun t member => placed.forward t (fewer.mem member)
  filled := fun t member => placed.filled t (fewer.mem member)

private theorem Placed.cons (starts : IsBoundary source t.span.start.offset)
    (stops : IsBoundary source t.span.stop.offset)
    (forward : t.span.start.offset ≤ t.span.stop.offset)
    (filled : t.isEof = false → t.span.start.offset < t.span.stop.offset)
    (behind : ∀ u ∈ tokens, t.span.stop.offset ≤ u.span.start.offset)
    (placed : Placed source tokens) : Placed source (t :: tokens) where
  apart := List.pairwise_cons.mpr ⟨behind, placed.apart⟩
  starts := List.forall_mem_cons.mpr ⟨starts, placed.starts⟩
  stops := List.forall_mem_cons.mpr ⟨stops, placed.stops⟩
  forward := List.forall_mem_cons.mpr ⟨forward, placed.forward⟩
  filled := List.forall_mem_cons.mpr ⟨filled, placed.filled⟩

private theorem placed_nil (source : List Char) : Placed source [] := by
  constructor
  · exact .nil
  all_goals exact fun _ member => absurd member List.not_mem_nil

/-- Tokens that tile the rest of a source are placed on it, behind where the rest
starts. -/
theorem placed_of_tiles (tiled : Tiles place text tokens) (before : List Char)
    (here : place.offset = byteCount before) :
    Placed (before ++ text) tokens ∧ ∀ t ∈ tokens, place.offset ≤ t.span.start.offset := by
  induction tiled generalizing before with
  | @done place gap blank =>
    have atEnd : IsBoundary (before ++ gap) (place.advance gap).offset :=
      ⟨before ++ gap, [], by simp, by simp [here]⟩
    refine ⟨.cons atEnd atEnd (Nat.le_refl _) ?_ ?_ (placed_nil _), ?_⟩
    · simp [Token.endOfSource, Token.isEof]
    · exact fun _ member => absurd member List.not_mem_nil
    · simp [Token.endOfSource]
  | @token place gap taken text kind tokens blank filled inside more ih =>
    have width := byteCount_pos filled
    obtain ⟨placed, behind⟩ := ih (before ++ gap ++ taken) (by simp [here, Nat.add_assoc])
    rw [List.append_assoc, List.append_assoc] at placed
    simp only [offset_advance] at behind
    refine ⟨.cons ⟨before ++ gap, taken ++ text, by simp, by simp [here]⟩
      ⟨before ++ gap ++ taken, text, by simp, by simp [here, Nat.add_assoc]⟩ ?_ ?_ ?_ placed, ?_⟩
    · simp
    · simpa using fun _ => width
    · simpa using behind
    · simp only [List.forall_mem_cons, offset_advance]
      exact ⟨Nat.le_add_right .., fun t member => Nat.le_trans (by omega) (behind t member)⟩

/-- The tokens of a source are placed on it. -/
theorem placed_ofSource (source : String) : Placed source.toList (Token.ofSource source) :=
  (placed_of_tiles (tiles_ofSource source) [] rfl).1

/-- The tokens that tile a text are inner ones and, at its end, one that ends the
source. -/
theorem ends_of_tiles (tiled : Tiles place text tokens) :
    ∃ inner, tokens = inner ++ [Token.endOfSource (place.advance text)] ∧
      ∀ t ∈ inner, t.isEof = false := by
  induction tiled with
  | done => exact ⟨[], by simp, by simp⟩
  | @token place gap taken text kind tokens blank filled inside more ih =>
    obtain ⟨inner, same, notEnd⟩ := ih
    let t : Token := ⟨kind, String.ofList taken,
      ⟨place.advance gap, (place.advance gap).advance taken⟩⟩
    have whole : place.advance (gap ++ (taken ++ text)) =
        ((place.advance gap).advance taken).advance text := by
      rw [advance_append, advance_append]
    refine ⟨t :: inner, ?_, List.forall_mem_cons.mpr ⟨?_, notEnd⟩⟩
    · rw [same, whole]
      rfl
    · simpa [t, Token.isEof] using inside

/-- Of a source's tokens, reading leaves out the comments and nothing else. -/
theorem significant_eq_filter (source : String) :
    Module.significant (Token.ofSource source) =
      (Token.ofSource source).filter (·.kind != .comment) := by
  obtain ⟨inner, same, -⟩ := ends_of_tiles (tiles_ofSource source)
  unfold Module.significant
  rw [same, List.filter_append]
  simp [Token.endOfSource, Token.isEof]

/-- The end of the source ends the tokens that reading works on, and stands
nowhere else among them. -/
theorem ends_significant (source : String) :
    ∃ inner, Module.significant (Token.ofSource source) =
        inner ++ [Token.endOfSource (Position.origin.advance source.toList)] ∧
      ∀ t ∈ inner, t.isEof = false := by
  obtain ⟨inner, same, notEnd⟩ := ends_of_tiles (tiles_ofSource source)
  refine ⟨inner.filter (·.kind != .comment), ?_,
    fun t member => notEnd t (List.mem_filter.mp member).1⟩
  rw [significant_eq_filter, same, List.filter_append]
  rfl

theorem placed_significant (source : String) :
    Placed source.toList (Module.significant (Token.ofSource source)) := by
  rw [significant_eq_filter]
  exact (placed_ofSource source).sublist List.filter_sublist

/-- Every token that reading works on starts behind the ones before it, since only the
last one may be empty. -/
theorem starts_significant (source : String) :
    (Module.significant (Token.ofSource source)).Pairwise
      fun a b => a.span.start.offset < b.span.start.offset := by
  obtain ⟨inner, same, notEnd⟩ := ends_significant source
  have placed := placed_significant source
  rw [same] at placed ⊢
  have filled : ∀ t ∈ inner, t.span.start.offset < t.span.stop.offset := fun t member =>
    placed.filled t (List.mem_append_left _ member) (notEnd t member)
  obtain ⟨inside, -, last⟩ := List.pairwise_append.mp placed.apart
  refine List.pairwise_append.mpr ⟨?_, List.pairwise_singleton .., ?_⟩
  · refine inside.imp_of_mem ?_
    intro a b member _ apart
    exact Nat.lt_of_lt_of_le (filled a member) apart
  · intro a member b ends
    exact Nat.lt_of_lt_of_le (filled a member) (last a member b ends)

private theorem splitBytes?_append (before after : List Char) :
    Text.splitBytes? (byteCount before) (before ++ after) = some (before, after) := by
  induction before with
  | nil => cases after <;> rfl
  | cons c before ih =>
    have positive := c.utf8Size_pos
    rw [List.cons_append, byteCount, Text.splitBytes?, if_pos (Nat.le_add_right ..),
      Nat.add_sub_cancel_left, ih]
    · rfl
    · omega

/-- A span covers the characters between its two ends. -/
theorem slice?_eq_some {source : String} {span : Span} (before covered after : List Char)
    (whole : source.toList = before ++ (covered ++ after))
    (start : span.start.offset = byteCount before)
    (stop : span.stop.offset = byteCount before + byteCount covered) :
    span.slice? source = some (String.ofList covered) := by
  have length : span.length = byteCount covered := by
    rw [Span.length, start, stop]
    omega
  unfold Span.slice?
  rw [whole, start, splitBytes?_append]
  simp [stop, length, splitBytes?_append]

/-- A span that does not run backwards and whose ends lie between characters covers
a part of the source. -/
theorem slice?_isSome {source : String} {span : Span}
    (starts : IsBoundary source.toList span.start.offset)
    (stops : IsBoundary source.toList span.stop.offset)
    (forward : span.start.offset ≤ span.stop.offset) : (span.slice? source).isSome = true := by
  obtain ⟨before, after, whole, start⟩ := starts
  obtain ⟨upTo, rest, same, stop⟩ := stops
  -- The text before the start is a prefix of the text before the stop.
  obtain ⟨covered, rfl, rfl⟩ : ∃ covered, upTo = before ++ covered ∧ after = covered ++ rest := by
    rcases List.append_eq_append_iff.mp (whole.symm.trans same) with
      ⟨covered, first, second⟩ | ⟨covered, first, second⟩
    · exact ⟨covered, first, second⟩
    · have none : covered = [] := by
        by_contra filled
        have positive := byteCount_pos filled
        rw [start, stop, first, byteCount_append] at forward
        omega
      subst none
      exact ⟨[], by simpa using first.symm, by simpa using second.symm⟩
  rw [slice?_eq_some before covered rest whole start (by rw [stop, byteCount_append])]
  rfl

end ImportAtlas.Tiling
