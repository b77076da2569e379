import ImportAtlas.Token.Basic
import ImportAtlas.Token.Literal

/-! From source text to tokens. Lexing is total: every text yields tokens that
end with the end-of-source token. A character that starts nothing becomes an
operator of its own, and an unterminated string or regular expression does not
reach past its line. -/

namespace ImportAtlas
namespace Token

/-- Whether a slash may open a regular expression, given the tokens before it,
the latest first. Comments are passed over, except that `=>` only counts when
nothing stands between it and the slash and nothing between its two halves. -/
def regexMayFollow (before : List Token) : Bool :=
  match before.find? (·.kind != .comment) with
  | none => true
  | some previous =>
    match previous.kind with
    | .operator => previous.value != "<" && !postfixOperators.contains previous.value
    | .leftBrace | .leftParen | .leftBracket | .comma => true
    | .keyword => !previous.endsExpression
    | .ambiguousGt =>
      match before[1]? with
      | some equals =>
        equals.isOperator "=" && equals.span.stop.offset == previous.span.start.offset
      | none => false
    | _ => false

/-- The kind and the extent of a lexeme that starts with a slash. -/
def slash (before : List Token) (text : List Char) : Kind × Nat :=
  if Lexeme.nextIs (· == '/') (text.drop 1) then (.comment, Lexeme.lineComment text)
  else if Lexeme.nextIs (· == '*') (text.drop 1) then
    (.comment, Lexeme.blockCommentRest (text.drop 2) + 2)
  else if regexMayFollow before then
    match Lexeme.regex? text with
    | some extent => (.regex, extent)
    | none => (.operator, Lexeme.operator text)
  else (.operator, Lexeme.operator text)

/-- The kind of a character that is always a token of its own. -/
def single? (c : Char) : Option Kind :=
  if c = '{' then some .leftBrace
  else if c = '}' then some .rightBrace
  else if c = '(' then some .leftParen
  else if c = ')' then some .rightParen
  else if c = '[' then some .leftBracket
  else if c = ']' then some .rightBracket
  else if c = ',' then some .comma
  else if c = '>' then some .ambiguousGt
  else none

/-- Whether a number starts with `c`: a digit, or a point before a digit. -/
def startsNumber (c : Char) (rest : List Char) : Bool :=
  (c == '.' && Lexeme.nextIs Lexeme.isDigit rest) || Lexeme.isDigit c

/-- The kind and the extent of the lexeme at the start of a text whose first
character is `c`. Reserved words still count as identifiers here. -/
def lexeme (before : List Token) (c : Char) (rest : List Char) : Kind × Nat :=
  match single? c with
  | some kind => (kind, 1)
  | none =>
    if c = '\x27' ∨ c = '\x22' then (.string, Lexeme.enclosed [.quoted c] rest + 1)
    else if c = '\x60' then (.string, Lexeme.enclosed [.template] rest + 1)
    else if c = '/' then slash before (c :: rest)
    else if startsNumber c rest then (.number, Lexeme.number (c :: rest))
    else if Lexeme.startsIdentifier c then
      (.identifier, Lexeme.run Lexeme.continuesIdentifier (c :: rest))
    else (.operator, Lexeme.operator (c :: rest))

/-- A lexeme that starts with a slash has at least one character. -/
theorem slash_pos (before : List Token) (rest : List Char) :
    0 < (slash before ('/' :: rest)).2 := by
  unfold slash
  split
  · exact Lexeme.run_cons_pos rest rfl
  split
  · exact Nat.succ_pos _
  split
  · split
    · rename_i extent found
      unfold Lexeme.regex? at found
      obtain ⟨body, _, rfl⟩ := Option.map_eq_some_iff.mp found
      simp only
      omega
    · exact Lexeme.operator_pos _
  · exact Lexeme.operator_pos _

/-- Every lexeme has at least one character. -/
theorem lexeme_pos (before : List Token) (c : Char) (rest : List Char) :
    0 < (lexeme before c rest).2 := by
  unfold lexeme
  split
  · exact Nat.succ_pos _
  split
  · exact Nat.succ_pos _
  split
  · exact Nat.succ_pos _
  split
  · rename_i opens
    subst opens
    exact slash_pos before rest
  split
  · rename_i starts
    exact Lexeme.number_pos (by simpa [startsNumber] using starts)
  split
  · rename_i starts
    exact Lexeme.run_cons_pos rest (by simp [Lexeme.continuesIdentifier, starts])
  · exact Lexeme.operator_pos _

/-- A reserved word is a keyword and not an identifier. -/
def reserve (kind : Kind) (value : String) : Kind :=
  if kind = .identifier ∧ keywords.contains value then .keyword else kind

/-- The token with the given characters, which starts at the given place. -/
def ofLexeme (kind : Kind) (place : Position) (text : List Char) : Token :=
  let value := String.ofList text
  ⟨reserve kind value, value, ⟨place, place.advance text⟩⟩

/-- Lexes the rest of a source. The tokens read so far stand latest first. Every
lexeme takes at least one character, so the rest gets shorter. -/
def scan (before : List Token) (place : Position) (text : List Char) : List Token :=
  let here := place.advance (text.takeWhile Text.isGap)
  match _shape : text.dropWhile Text.isGap with
  | [] => (endOfSource here :: before).reverse
  | c :: rest =>
    let found := lexeme before c rest
    let taken := (c :: rest).take found.2
    scan (ofLexeme found.1 here taken :: before) (here.advance taken) ((c :: rest).drop found.2)
termination_by text.length
decreasing_by
  have shorter := (List.dropWhile_suffix Text.isGap (l := text)).length_le
  have positive := lexeme_pos before c rest
  rw [_shape] at shorter
  simp only [List.length_drop, List.length_cons] at *
  omega

/-- The tokens of a source, comments included, with the end of the source last. -/
def ofSource (source : String) : List Token :=
  scan [] .origin source.toList

end Token
end ImportAtlas
