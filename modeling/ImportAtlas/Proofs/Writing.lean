import Mathlib.Data.List.TakeWhile
import ImportAtlas.Proofs.Extent

/-! Texts written from pieces. A piece is what a writer puts down in one go: a word,
a literal, a number or a punctuation mark. Pieces with white space between them are
lexed into one token each, whatever the white space is. -/
namespace ImportAtlas.Writing
open Extent

/-- A reserved word or an identifier. -/
structure Word where
  text : String
  shape : isWord text.toList = true

/-- An identifier that is not reserved. -/
structure Name extends Word where
  free : Token.keywords.contains text = false

/-- A terminated string or template literal with its quotes. -/
structure Literal where
  text : String
  shape : IsLiteral text.toList

/-- A number literal. -/
structure Numeral where
  text : String
  shape : IsNumeral text.toList

/-- A punctuation mark of one character. -/
inductive Mark where
  | leftBrace
  | rightBrace
  | leftParen
  | rightParen
  | leftBracket
  | rightBracket
  | comma
  /-- The second half of an arrow. -/
  | greater
  | dot
  | colon
  | equals
  | semicolon
  | star
  deriving DecidableEq

def Mark.char : Mark → Char
  | leftBrace => '{'
  | rightBrace => '}'
  | leftParen => '('
  | rightParen => ')'
  | leftBracket => '['
  | rightBracket => ']'
  | comma => ','
  | greater => '>'
  | dot => '.'
  | colon => ':'
  | equals => '='
  | semicolon => ';'
  | star => '*'

def Mark.kind : Mark → Token.Kind
  | leftBrace => .leftBrace
  | rightBrace => .rightBrace
  | leftParen => .leftParen
  | rightParen => .rightParen
  | leftBracket => .leftBracket
  | rightBracket => .rightBracket
  | comma => .comma
  | greater => .ambiguousGt
  | dot | colon | equals | semicolon | star => .operator

/-- What is written without white space inside it. -/
inductive Piece where
  | word (word : Word)
  | literal (literal : Literal)
  | numeral (numeral : Numeral)
  | mark (mark : Mark)

/-- The characters of a piece. -/
def Piece.text : Piece → String
  | word w => w.text
  | literal l => l.text
  | numeral n => n.text
  | mark m => String.ofList [m.char]

/-- The kind of the token that a piece is to become. -/
def Piece.kind : Piece → Token.Kind
  | word w => Token.reserve .identifier w.text
  | literal _ => .string
  | numeral _ => .number
  | mark m => m.kind

/-- The pieces are written in their order, each with white space after it. Only the
last piece and one before the second half of an arrow may go without. -/
inductive Written : List Piece → List Char → Prop where
  | nil : Written [] []
  | cons (blank : ∀ c ∈ gap, Text.isGap c = true)
      (apart : gap ≠ [] ∨ rest = [] ∨ rest.head? = some (.mark .greater))
      (more : Written rest text) : Written (p :: rest) (p.text.toList ++ (gap ++ text))

/-- The pieces with the same white space after each of them. -/
def spaced (gap : List Char) (pieces : List Piece) : List Char :=
  pieces.flatMap fun p => p.text.toList ++ gap

theorem written_spaced (blank : ∀ c ∈ gap, Text.isGap c = true) (filled : gap ≠ [])
    (pieces : List Piece) : Written pieces (spaced gap pieces) := by
  induction pieces with
  | nil => exact .nil
  | cons p pieces ih =>
    have whole := Written.cons (p := p) blank (.inl filled) ih
    rwa [← List.append_assoc] at whole

/-- The source is some pieces, with any white space between them. -/
def IsText (pieces : List Piece) (source : String) : Prop :=
  ∃ gap text, (∀ c ∈ gap, Text.isGap c = true) ∧ source.toList = gap ++ text ∧
    Written pieces text

/-- Any pieces have a source, with any white space one likes. -/
theorem isText_spaced (pieces : List Piece) (gap : List Char)
    (blank : ∀ c ∈ gap, Text.isGap c = true) (filled : gap ≠ []) :
    IsText pieces (String.ofList (spaced gap pieces)) :=
  ⟨[], _, by simp, String.toList_ofList, written_spaced blank filled pieces⟩

/-- Each token has the kind and the text of its piece. -/
inductive Shows : List Token → List Piece → Prop where
  | nil : Shows [] []
  | cons (kind : t.kind = p.kind) (value : t.value = p.text) (more : Shows run pieces) :
      Shows (t :: run) (p :: pieces)

private theorem reserve_of_ne (kind : Token.Kind) (other : kind ≠ .identifier) (value : String) :
    Token.reserve kind value = kind := by
  simp [Token.reserve, other]

private theorem isGap_of_startsIdentifier (starts : Lexeme.startsIdentifier c = true) :
    Text.isGap c = false := by
  cases gap : Text.isGap c with
  | false => rfl
  | true =>
    have refuted := refuted_of_isStop (p := Lexeme.startsIdentifier) (c := c)
      (by simp [isStop, gap]) (by decide +kernel)
    rw [refuted] at starts
    cases starts

/-- A mark is one lexeme. -/
private theorem lexeme_mark (m : Mark) (before : List Token) (blunt : Blunt after) :
    Token.lexeme before m.char after = (m.kind, 1) := by
  cases m with
  | dot | colon | equals | semicolon | star => exact lexeme_operator before (by decide) blunt
  | _ => rfl

private theorem isGap_of_isNumeral (shape : IsNumeral (c :: rest)) : Text.isGap c = false := by
  cases shape with
  | radix => decide
  | decimal digit => exact refuted_of_isDigit digit (by decide)
  | point => decide

theorem isGap_of_isLiteral (shape : IsLiteral (c :: rest)) : Text.isGap c = false := by
  cases shape with
  | quoted isQuote =>
    rcases isQuote with rfl | rfl
    · decide
    · decide
  | template => decide

/-- A text of a shape that is one lexeme, whatever character it starts with. -/
private theorem lexeme_shaped (shape : List Char → Prop) {text : String} {kind : Token.Kind}
    (shaped : shape text.toList) (filled : ¬shape [])
    (lexed : ∀ {c rest}, shape (c :: rest) → Text.isGap c = false ∧
      Token.lexeme before c (rest ++ after) = (kind, (c :: rest).length)) :
    ∃ c rest, text.toList = c :: rest ∧ Text.isGap c = false ∧
      Token.lexeme before c (rest ++ after) = (kind, (c :: rest).length) := by
  cases spelled : text.toList with
  | nil =>
    rw [spelled] at shaped
    exact absurd shaped filled
  | cons c rest =>
    rw [spelled] at shaped
    exact ⟨c, rest, rfl, lexed shaped⟩

private theorem isGap_of_isWord (shape : isWord (c :: rest) = true) : Text.isGap c = false := by
  simp only [isWord, Bool.and_eq_true] at shape
  exact isGap_of_startsIdentifier shape.1

/-- A piece is one lexeme if what follows does not go on with it. -/
theorem lexeme_piece (p : Piece) (before : List Token) (blunt : Blunt after) :
    ∃ c rest, p.text.toList = c :: rest ∧ Text.isGap c = false ∧
      (Token.lexeme before c (rest ++ after)).2 = (c :: rest).length ∧
      Token.reserve (Token.lexeme before c (rest ++ after)).1 p.text = p.kind := by
  cases p with
  | word w =>
    obtain ⟨c, rest, text, filled, lexed⟩ :=
      lexeme_shaped (isWord · = true) w.shape (by simp [isWord])
        fun shape => ⟨isGap_of_isWord shape, lexeme_word before shape blunt⟩
    refine ⟨c, rest, text, filled, ?_⟩
    rw [lexed]
    exact ⟨rfl, rfl⟩
  | literal l =>
    obtain ⟨c, rest, text, filled, lexed⟩ := lexeme_shaped IsLiteral l.shape (by rintro ⟨⟩)
      fun shape => ⟨isGap_of_isLiteral shape, lexeme_literal before shape after⟩
    refine ⟨c, rest, text, filled, ?_⟩
    rw [lexed]
    exact ⟨rfl, reserve_of_ne _ (by simp) _⟩
  | numeral n =>
    obtain ⟨c, rest, text, filled, lexed⟩ := lexeme_shaped IsNumeral n.shape (by rintro ⟨⟩)
      fun shape => ⟨isGap_of_isNumeral shape, lexeme_numeral before shape blunt⟩
    refine ⟨c, rest, text, filled, ?_⟩
    rw [lexed]
    exact ⟨rfl, reserve_of_ne _ (by simp) _⟩
  | mark m =>
    refine ⟨m.char, [], String.toList_ofList, ?_, ?_⟩
    · cases m with
      | _ => decide
    · rw [List.nil_append, lexeme_mark m before blunt]
      refine ⟨rfl, reserve_of_ne _ ?_ _⟩
      cases m with
      | _ => decide

theorem scan_gap (blank : ∀ c ∈ gap, Text.isGap c = true) (before : List Token) (place : Position) :
    Token.scan before place gap = (.endOfSource (place.advance gap) :: before).reverse := by
  have all : gap.dropWhile Text.isGap = [] := List.dropWhile_eq_nil_iff.mpr blank
  have whole : gap.takeWhile Text.isGap = gap := List.takeWhile_eq_self_iff.mpr blank
  rw [Token.scan, whole]
  split
  · rfl
  · rename_i shape
    rw [all] at shape
    cases shape

theorem scan_lexeme (blank : ∀ c ∈ gap, Text.isGap c = true) (filled : Text.isGap c = false)
    (before : List Token) (place : Position) (rest : List Char) :
    let found := Token.lexeme before c rest
    let taken := (c :: rest).take found.2
    Token.scan before place (gap ++ c :: rest) =
      Token.scan (.ofLexeme found.1 (place.advance gap) taken :: before)
        ((place.advance gap).advance taken) ((c :: rest).drop found.2) := by
  have taken : (gap ++ c :: rest).takeWhile Text.isGap = gap := by
    rw [List.takeWhile_append_of_pos blank, List.takeWhile_cons_of_neg (by simp [filled]),
      List.append_nil]
  have dropped : (gap ++ c :: rest).dropWhile Text.isGap = c :: rest := by
    rw [List.dropWhile_append_of_pos blank, List.dropWhile_cons_of_neg (by simp [filled])]
  rw [Token.scan, taken]
  split
  · rename_i shape
    rw [dropped] at shape
    cases shape
  · rename_i shape
    rw [dropped] at shape
    cases shape
    rfl

/-- White space, or nothing more to write, does not go on with a piece. -/
theorem Written.blunt (blank : ∀ c ∈ gap, Text.isGap c = true)
    (apart : gap ≠ [] ∨ rest = [] ∨ rest.head? = some (.mark .greater))
    (written : Written rest text) : Blunt (gap ++ text) := by
  obtain _ | ⟨d, gap⟩ := gap
  · cases written with
    | nil =>
      intro c head
      cases head
    | cons _ _ _ =>
      rcases apart with impossible | impossible | arrow
      · exact absurd rfl impossible
      · cases impossible
      · cases arrow
        intro c head
        cases head
        decide
  · intro c head
    cases head
    simp [isStop, blank d (List.mem_cons_self ..)]

/-- Every piece of a written text becomes one token, and there are no others. -/
theorem scan_written (written : Written pieces text) (gap : List Char)
    (blank : ∀ c ∈ gap, Text.isGap c = true) (before : List Token) (place : Position) :
    ∃ run stop, Token.scan before place (gap ++ text) =
      before.reverse ++ (run ++ [Token.endOfSource stop]) ∧ Shows run pieces := by
  induction written generalizing gap before place with
  | nil =>
    rw [List.append_nil, scan_gap blank]
    exact ⟨[], place.advance gap, by simp, .nil⟩
  | @cons between rest text p blankBetween apart written ih =>
    obtain ⟨c, more, spelled, filled, extent, kind⟩ :=
      lexeme_piece p before (written.blunt blankBetween apart)
    rw [spelled, List.cons_append, scan_lexeme blank filled]
    have taken : (c :: (more ++ (between ++ text))).take (c :: more).length = c :: more :=
      List.take_left
    have dropped : (c :: (more ++ (between ++ text))).drop (c :: more).length = between ++ text :=
      List.drop_left
    rw [extent, taken, dropped]
    generalize lexed : Token.ofLexeme _ (place.advance gap) (c :: more) = t
    obtain ⟨run, stop, scanned, shows⟩ := ih between blankBetween (t :: before) _
    refine ⟨t :: run, stop, by rw [scanned]; simp, .cons ?_ ?_ shows⟩
    · rw [← lexed, Token.ofLexeme, ← spelled, String.ofList_toList, kind]
    · rw [← lexed, Token.ofLexeme, ← spelled, String.ofList_toList]

/-- The token of a punctuation mark. -/
structure Marks (t : Token) (m : Mark) : Prop where
  kind : t.kind = m.kind
  value : t.value = String.ofList [m.char]

/-- The token of a name. -/
structure Names (t : Token) (name : Name) : Prop where
  kind : t.kind = .identifier
  value : t.value = name.text

/-- The token of a word. -/
structure Words (t : Token) (word : Word) : Prop where
  kind : t.kind = .identifier ∨ t.kind = .keyword
  value : t.value = word.text

theorem Shows.uncons (shows : Shows run (p :: pieces)) :
    ∃ t later, run = t :: later ∧ t.kind = p.kind ∧ t.value = p.text ∧ Shows later pieces := by
  cases shows with
  | cons kind value more => exact ⟨_, _, rfl, kind, value, more⟩

theorem Shows.eq_nil (shows : Shows [] pieces) : pieces = [] := by
  cases shows
  rfl

theorem Shows.split (shows : Shows run (first ++ second)) :
    ∃ before after, run = before ++ after ∧ Shows before first ∧ Shows after second := by
  induction first generalizing run with
  | nil => exact ⟨[], run, rfl, .nil, shows⟩
  | cons p first ih =>
    obtain ⟨t, later, rfl, kind, value, more⟩ := shows.uncons
    obtain ⟨before, after, rfl, showsFirst, showsSecond⟩ := ih more
    exact ⟨t :: before, after, rfl, .cons kind value showsFirst, showsSecond⟩

theorem Shows.mark {m : Mark} (shows : Shows run (.mark m :: pieces)) :
    ∃ t later, run = t :: later ∧ Marks t m ∧ Shows later pieces := by
  obtain ⟨t, later, same, kind, value, more⟩ := shows.uncons
  exact ⟨t, later, same, ⟨kind, value⟩, more⟩

/-- A mark at the end of a run. -/
theorem Shows.splitMark {m : Mark} (shows : Shows run (first ++ [Piece.mark m])) :
    ∃ before t, run = before ++ [t] ∧ Marks t m ∧ Shows before first := by
  obtain ⟨before, after, rfl, showsFirst, showsSecond⟩ := shows.split
  obtain ⟨t, later, rfl, marks, nothing⟩ := showsSecond.mark
  cases nothing
  exact ⟨before, t, rfl, marks, showsFirst⟩

theorem kind_name (name : Name) : (Piece.word name.toWord).kind = .identifier := by
  simp only [Piece.kind, Token.reserve, name.free]
  simp

theorem kind_word (word : Word) :
    (Piece.word word).kind = .identifier ∨ (Piece.word word).kind = .keyword := by
  simp only [Piece.kind, Token.reserve]
  split
  · exact .inr rfl
  · exact .inl rfl

theorem Shows.name {name : Name} (shows : Shows run (.word name.toWord :: pieces)) :
    ∃ t later, run = t :: later ∧ Names t name ∧ Shows later pieces := by
  obtain ⟨t, later, same, kind, value, more⟩ := shows.uncons
  exact ⟨t, later, same, ⟨kind.trans (kind_name name), value⟩, more⟩

theorem Shows.word {word : Word} (shows : Shows run (.word word :: pieces)) :
    ∃ t later, run = t :: later ∧ Words t word ∧ Shows later pieces := by
  obtain ⟨t, later, same, kind, value, more⟩ := shows.uncons
  exact ⟨t, later, same, ⟨kind ▸ kind_word word, value⟩, more⟩

end ImportAtlas.Writing