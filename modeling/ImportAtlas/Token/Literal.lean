import ImportAtlas.Text.Blank
import ImportAtlas.Text.Alphabetic
import ImportAtlas.Text.Numeric

/-! Extents of lexemes. Each function here takes the characters at the start of a
lexeme and says how many of them belong to it, so that a lexer only has to cut
its input there. -/

namespace ImportAtlas
namespace Lexeme

/-- How many leading characters satisfy a predicate. -/
def run (p : Char → Bool) (text : List Char) : Nat :=
  (text.takeWhile p).length

/-- A run that its first character belongs to is not empty. -/
theorem run_cons_pos {p : Char → Bool} {c : Char} (rest : List Char) (belongs : p c = true) :
    0 < run p (c :: rest) := by
  simp [run, belongs]

/-- Whether the text continues with a character that satisfies a predicate. -/
def nextIs (p : Char → Bool) : List Char → Bool
  | [] => false
  | c :: _ => p c

/-- An ASCII digit. -/
def isDigit (c : Char) : Bool :=
  '0' ≤ c && c ≤ '9'

/-- An ASCII letter or digit. -/
def isAlphanumeric (c : Char) : Bool :=
  isDigit c || ('a' ≤ c && c ≤ 'z') || ('A' ≤ c && c ≤ 'Z')

/-- A character that may start an identifier. -/
def startsIdentifier (c : Char) : Bool :=
  c == '_' || c == '$' || Text.isAlphabetic c

/-- A character that may continue an identifier. The two zero-width joiners are
among them. -/
def continuesIdentifier (c : Char) : Bool :=
  startsIdentifier c || Text.isNumeric c || c == '\u200c' || c == '\u200d'

/-! Strings and templates nest: a template holds substitutions, and a
substitution holds strings and templates again. The scan keeps the constructs
that are open, innermost first. -/

/-- A construct whose closing delimiter is still to come. -/
inductive Enclosure where
  /-- A string literal with its quote. -/
  | quoted (quote : Char)
  /-- A template literal. -/
  | template
  /-- A template's substitution with the number of braces open inside it. -/
  | substitution (braces : Nat)
  deriving DecidableEq, Repr

/-- How many characters it takes to close every open construct, or to reach a
place where the outermost one has to end. A line feed ends a string without
belonging to it; a backslash takes the next character with it, except that in a
string it does not take a line feed and in a substitution it is an ordinary
character. -/
def enclosed : List Enclosure → List Char → Nat
  | [], _ => 0
  | _, [] => 0
  | .quoted quote :: outer, c :: rest =>
    if c = '\\' then
      match rest with
      | [] => 1
      | d :: later =>
        if d = '\n' then
          if outer.isEmpty then 1 else enclosed outer later + 2
        else enclosed (.quoted quote :: outer) later + 2
    else if c = '\n' then
      if outer.isEmpty then 0 else enclosed outer rest + 1
    else if c = quote then enclosed outer rest + 1
    else enclosed (.quoted quote :: outer) rest + 1
  | .template :: outer, c :: rest =>
    if c = '\\' then
      match rest with
      | [] => 1
      | _ :: later => enclosed (.template :: outer) later + 2
    else if c = '\x60' then enclosed outer rest + 1
    else if c = '$' then
      match rest with
      | [] => 1
      | d :: later =>
        if d = '{' then enclosed (.substitution 0 :: .template :: outer) later + 2
        else enclosed (.template :: outer) (d :: later) + 1
    else enclosed (.template :: outer) rest + 1
  | .substitution braces :: outer, c :: rest =>
    if c = '{' then enclosed (.substitution (braces + 1) :: outer) rest + 1
    else if c = '}' then
      match braces with
      | 0 => enclosed outer rest + 1
      | depth + 1 => enclosed (.substitution depth :: outer) rest + 1
    else if c = '\x27' ∨ c = '\x22' then
      enclosed (.quoted c :: .substitution braces :: outer) rest + 1
    else if c = '\x60' then enclosed (.template :: .substitution braces :: outer) rest + 1
    else enclosed (.substitution braces :: outer) rest + 1

/-- The extent of a comment up to the end of its line. -/
def lineComment (text : List Char) : Nat :=
  run (· != '\n') text

/-- How many characters it takes to close a block comment that is open. -/
def blockCommentRest : List Char → Nat
  | [] => 0
  | c :: rest => if c = '*' ∧ nextIs (· == '/') rest then 2 else blockCommentRest rest + 1

/-- How many characters it takes to close a regular expression that is open, if
it closes on its line. A slash inside a class, or after a backslash, does not
close it. -/
def regexRest? (inClass escaped : Bool) : List Char → Option Nat
  | [] => none
  | c :: rest =>
    if c = '\n' ∨ c = '\r' then none
    else if escaped then (regexRest? inClass false rest).map (· + 1)
    else if c = '\\' then (regexRest? inClass true rest).map (· + 1)
    else if c = '[' then (regexRest? true false rest).map (· + 1)
    else if c = ']' then (regexRest? false false rest).map (· + 1)
    else if c = '/' ∧ inClass = false then some 1
    else (regexRest? inClass false rest).map (· + 1)

/-- The extent of a regular expression literal with its flags, given the
characters from its opening slash on. -/
def regex? (text : List Char) : Option Nat :=
  (regexRest? false false (text.drop 1)).map fun body =>
    body + 1 + run continuesIdentifier (text.drop (body + 1))

/-- A digit or a digit separator. -/
def isDigitOrSeparator (c : Char) : Bool :=
  isDigit c || c == '_'

/-- The letters that announce a radix after a leading zero. -/
def radixLetters : List Char :=
  ['x', 'X', 'o', 'O', 'b', 'B']

/-- Whether a number announces a radix. -/
def hasRadix : List Char → Bool
  | '0' :: letter :: _ => radixLetters.contains letter
  | _ => false

/-- The extent of the fraction of a number: a point, unless it is followed by
another one, and digits. -/
def fraction : List Char → Nat
  | '.' :: rest => if nextIs (· == '.') rest then 0 else run isDigitOrSeparator rest + 1
  | _ => 0

/-- The extent of a sign. -/
def sign : List Char → Nat
  | c :: _ => if c = '+' ∨ c = '-' then 1 else 0
  | [] => 0

/-- The extent of the exponent of a number. Without a digit there is no exponent. -/
def exponent : List Char → Nat
  | c :: rest =>
    if c = 'e' ∨ c = 'E' then
      let digits := rest.drop (sign rest)
      if nextIs isDigit digits then 1 + sign rest + run isDigitOrSeparator digits else 0
    else 0
  | [] => 0

/-- The extent of the mark of a big integer. -/
def bigMark : List Char → Nat
  | 'n' :: _ => 1
  | _ => 0

/-- The extent of a number. -/
def number (text : List Char) : Nat :=
  if hasRadix text then 2 + run (fun c => isAlphanumeric c || c == '_') (text.drop 2)
  else
    let whole := run isDigitOrSeparator text
    let withFraction := whole + fraction (text.drop whole)
    let withExponent := withFraction + exponent (text.drop withFraction)
    withExponent + bigMark (text.drop withExponent)

/-- A number that starts with a digit, or with a point before a digit, has at
least one character. -/
theorem number_pos {c : Char} {rest : List Char}
    (starts : (c = '.' ∧ nextIs isDigit rest = true) ∨ isDigit c = true) :
    0 < number (c :: rest) := by
  unfold number
  split
  · omega
  · rcases starts with ⟨point, digit⟩ | digit
    · subst point
      have noPoint : nextIs (· == '.') rest = false := by
        cases rest with
        | nil => rfl
        | cons d _ =>
          simp only [nextIs] at digit ⊢
          by_cases same : d = '.'
          · subst same; simp [isDigit] at digit
          · simpa using same
      have whole : run isDigitOrSeparator ('.' :: rest) = 0 := by
        simp [run, isDigitOrSeparator, isDigit]
      simp only [whole, List.drop_zero, fraction, noPoint]
      simp only [Bool.false_eq_true, ↓reduceIte]
      omega
    · have whole : 0 < run isDigitOrSeparator (c :: rest) :=
        run_cons_pos rest (by simp [isDigitOrSeparator, digit])
      simp only
      omega

/-- The operators, longest first. None starts with `>`, so that `>` is always a
token of its own, and `=>` is always `=` followed by `>`. -/
def operators : List String :=
  ["...", "===", "!==", "**=", "<<=", "&&=", "||=", "??=", "==", "!=", "<=", "+=", "-=", "*=",
   "/=", "%=", "&=", "|=", "^=", "&&", "||", "??", "?.", "++", "--", "**", "<<", "=", "+", "-",
   "*", "/", "%", "&", "|", "^", "!", "~", "?", ":", ";", ".", "<", "@", "#"]

/-- The extent of an operator: the first one in the list that the text starts
with, or a single character when there is none. Before a digit, `?.` is the
conditional operator and a fraction. -/
def operator (text : List Char) : Nat :=
  match operators.find? fun op => op.toList.isPrefixOf text with
  | some op => if op = "?." ∧ nextIs isDigit (text.drop 2) then 1 else op.length
  | none => 1

/-- An operator has at least one character. -/
theorem operator_pos (text : List Char) : 0 < operator text := by
  unfold operator
  split
  · rename_i op found
    have listed := List.mem_of_find?_eq_some found
    have all : ∀ op ∈ operators, 0 < op.length := by decide
    split
    · omega
    · exact all op listed
  · omega

end Lexeme
end ImportAtlas
