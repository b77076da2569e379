import ImportAtlas.Proofs.Tiling

/-! Lexing loses nothing. A token is the part of the source that it covers, and what
the tokens leave out between them is white space. Put together in their order, the gaps
and the tokens are the source again, whatever the source is. -/
namespace ImportAtlas.Lossless
open Tiling

/-- The parts of a source that some tokens leave out, from a place on: one before each
token. -/
def gaps : Position → List Token → List Span
  | _, [] => []
  | place, t :: rest => ⟨place, t.span.start⟩ :: gaps t.span.stop rest

/-- What some tokens leave out of a source. -/
structure Separated (source : String) (place : Position) (tokens : List Token)
    (between : List String) : Prop where
  covered : (gaps place tokens).map (·.slice? source) = between.map some
  blank : ∀ gap ∈ between, ∀ c ∈ gap.toList, Text.isBlank c = true ∨ c = '\ufeff'

/-- The tokens and the texts before them, in their order. -/
def interleaved (between : List String) (tokens : List Token) : String :=
  String.join (List.zipWith (fun gap t => gap ++ t.value) between tokens)

/-- Some tokens hold all of a source but white space. -/
structure Faithful (source : String) (tokens : List Token) : Prop where
  /-- The end of the source is the last token and no other. -/
  ended : ∃ inner stop, tokens = inner ++ [.endOfSource stop] ∧
    stop.offset = source.utf8ByteSize ∧ ∀ t ∈ inner, t.isEof = false
  filled : ∀ t ∈ tokens, t.isEof = false → t.value ≠ ""
  exact : ∀ t ∈ tokens, t.span.slice? source = some t.value
  ordered : tokens.Pairwise fun a b => a.span.stop.offset ≤ b.span.start.offset
  restored : ∃ between, Separated source .origin tokens between ∧
    interleaved between tokens = source

theorem byteCount_toList (source : String) : byteCount source.toList = source.utf8ByteSize := by
  have size (text : List Char) : byteCount text = (String.ofList text).utf8ByteSize := by
    induction text with
    | nil => rfl
    | cons c rest ih =>
      rw [String.ofList_cons, String.utf8ByteSize_append, String.utf8ByteSize_singleton, ← ih,
        byteCount]
  rw [size, String.ofList_toList]

private theorem blank_of_isGap {gap : List Char} (blank : ∀ c ∈ gap, Text.isGap c = true) :
    ∀ c ∈ (String.ofList gap).toList, Text.isBlank c = true ∨ c = '\ufeff' := by
  rw [String.toList_ofList]
  intro c member
  simpa [Text.isGap] using blank c member

/-- Tokens that tile the rest of a source have the text they cover. -/
private theorem exact_of_tiles (tiled : Tiles place text tokens) (before : List Char)
    (whole : source.toList = before ++ text) (here : place.offset = byteCount before) :
    ∀ t ∈ tokens, t.span.slice? source = some t.value ∧ (t.isEof = false → t.value ≠ "") := by
  induction tiled generalizing before with
  | @done place gap blank =>
    intro t member
    obtain rfl := List.mem_singleton.mp member
    refine ⟨?_, fun inside => by cases inside⟩
    refine slice?_eq_some (before ++ gap) [] [] ?_ ?_ ?_
    · simp [whole]
    · simp [Token.endOfSource, here]
    · simp [Token.endOfSource, here, byteCount]
  | @token place gap taken text kind tokens blank filled inside more ih =>
    have later := ih (before ++ gap ++ taken) (by simp [whole])
      (by simp [here, Nat.add_assoc])
    refine List.forall_mem_cons.mpr ⟨⟨?_, fun _ => ?_⟩, later⟩
    · refine slice?_eq_some (before ++ gap) taken text ?_ ?_ ?_
      · simp [whole]
      · simp [here]
      · simp [here]
    · simpa using filled

/-- The gaps between tokens that tile the rest of a source are blank, and fill up the
tokens to that rest. -/
private theorem restored_of_tiles (tiled : Tiles place text tokens) (before : List Char)
    (whole : source.toList = before ++ text) (here : place.offset = byteCount before) :
    ∃ between, Separated source place tokens between ∧
      interleaved between tokens = String.ofList text := by
  induction tiled generalizing before with
  | @done place gap blank =>
    have first : (Span.mk place (place.advance gap)).slice? source = some (String.ofList gap) :=
      slice?_eq_some before gap [] (by simpa using whole) here (by simp [here])
    refine ⟨[String.ofList gap], ⟨?_, ?_⟩, ?_⟩
    · simp [gaps, Token.endOfSource, first]
    · exact List.forall_mem_singleton.mpr (blank_of_isGap blank)
    · simp [interleaved, Token.endOfSource]
  | @token place gap taken text kind tokens blank filled inside more ih =>
    have first : (Span.mk place (place.advance gap)).slice? source = some (String.ofList gap) :=
      slice?_eq_some before gap (taken ++ text) whole here (by simp [here])
    obtain ⟨between, separated, joined⟩ := ih (before ++ gap ++ taken)
      (by simp [whole]) (by simp [here, Nat.add_assoc])
    refine ⟨String.ofList gap :: between, ⟨?_, ?_⟩, ?_⟩
    · rw [gaps, List.map_cons, first, separated.covered]
      rfl
    · exact List.forall_mem_cons.mpr ⟨blank_of_isGap blank, separated.blank⟩
    · unfold interleaved at joined ⊢
      rw [List.zipWith_cons_cons, String.join_cons, joined, String.ofList_append,
        String.ofList_append, String.append_assoc]

/-- The value of a token is the part of the source that it covers. -/
theorem slice?_of_mem (source : String) (member : t ∈ Token.ofSource source) :
    t.span.slice? source = some t.value :=
  (exact_of_tiles (tiles_ofSource source) [] rfl rfl t member).1

/-- Lexing is lossless on every source. -/
theorem ofSource_faithful (source : String) : Faithful source (Token.ofSource source) := by
  have tiled := tiles_ofSource source
  obtain ⟨inner, same, notEnd⟩ := ends_of_tiles tiled
  have whole : source.toList = [] ++ source.toList := rfl
  obtain ⟨between, separated, joined⟩ := restored_of_tiles tiled [] whole rfl
  refine ⟨⟨inner, _, same, ?_, notEnd⟩, ?_, ?_, (placed_ofSource source).apart,
    between, separated, ?_⟩
  · simp [Position.origin, byteCount_toList]
  · intro t member
    exact (exact_of_tiles tiled [] rfl rfl t member).2
  · intro t member
    exact slice?_of_mem source member
  · rw [joined, String.ofList_toList]

end ImportAtlas.Lossless
