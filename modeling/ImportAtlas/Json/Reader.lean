import ImportAtlas.Number.Nearest
import ImportAtlas.Token.Literal

/-! Reading JSON texts into values of a known shape. A text is read from left to
right and the first problem ends the reading: the text may end too early, break
the rules of JSON, or hold a value of another shape than the one that is read.
Values nobody asks for are passed over and checked for form only. -/

namespace ImportAtlas
namespace Json

/-- Why a text cannot be read. -/
inductive Fault where
  /-- The text ends too early. -/
  | truncated
  /-- The text breaks the rules of JSON. -/
  | malformed
  /-- A value has another shape than the one that is read. -/
  | mismatched
  deriving DecidableEq, Repr, Inhabited

/-- The fault of a value that is itself read well but has the wrong shape. -/
def Fault.after : Except Fault α → Fault
  | .ok _ => .mismatched
  | .error fault => fault

/-- Reads a value at the start of a text and yields it with the rest. -/
abbrev Reader (α : Type) := List Char → Except Fault (α × List Char)

namespace Reader

/-- White space between the parts of a text. -/
def isSpace (c : Char) : Bool :=
  c == ' ' || c == '\n' || c == '\t' || c == '\r'

/-- A text without the white space that it starts with. -/
def skipSpace (text : List Char) : List Char :=
  text.dropWhile isSpace

/-- The rest of a word whose first letter has been read. -/
def word : List Char → Reader Unit
  | [], text => .ok ((), text)
  | _ :: _, [] => .error .truncated
  | c :: letters, d :: text => if c = d then word letters text else .error .malformed

/-- The value of a hexadecimal digit. -/
def hexDigit? (c : Char) : Option Nat :=
  if '0' ≤ c ∧ c ≤ '9' then some (c.toNat - '0'.toNat)
  else if 'a' ≤ c ∧ c ≤ 'f' then some (c.toNat - 'a'.toNat + 10)
  else if 'A' ≤ c ∧ c ≤ 'F' then some (c.toNat - 'A'.toNat + 10)
  else none

/-- The size of a text in bytes. -/
def byteSize (text : List Char) : Nat :=
  text.foldl (fun size c => size + c.utf8Size) 0

/-- Reads the four digits of an escaped code unit. With fewer than four bytes left
the text ends too early, whatever they are. -/
def codeUnit : Reader Nat
  | a :: b :: c :: d :: rest =>
    match hexDigit? a, hexDigit? b, hexDigit? c, hexDigit? d with
    | some a, some b, some c, some d => .ok (((a * 16 + b) * 16 + c) * 16 + d, rest)
    | _, _, _, _ => .error .malformed
  | short => .error (if byteSize short < 4 then .truncated else .malformed)

/-- Reads the second half of a surrogate pair and yields the character. -/
def pairWith (high : Nat) : Reader Char
  | [] => .error .truncated
  | [c] => .error (if c = '\\' then .truncated else .malformed)
  | c :: d :: rest =>
    if c = '\\' ∧ d = 'u' then do
      let (low, rest) ← codeUnit rest
      if low < 0xDC00 ∨ 0xDFFF < low then .error .malformed
      else .ok (Char.ofNat (0x10000 + (high - 0xD800) * 0x400 + (low - 0xDC00)), rest)
    else .error .malformed

/-- Reads the digits of an escaped character. A lone surrogate is no character. -/
def escapedUnit : Reader Char := fun text => do
  let (unit, rest) ← codeUnit text
  if 0xDC00 ≤ unit ∧ unit ≤ 0xDFFF then .error .malformed
  else if 0xD800 ≤ unit ∧ unit ≤ 0xDBFF then pairWith unit rest
  else .ok (Char.ofNat unit, rest)

/-- The character that a letter after a backslash stands for. -/
def simpleEscape? (c : Char) : Option Char :=
  if c = '\x22' ∨ c = '\\' ∨ c = '/' then some c
  else if c = 'b' then some '\x08'
  else if c = 'f' then some '\x0c'
  else if c = 'n' then some '\n'
  else if c = 'r' then some '\r'
  else if c = 't' then some '\t'
  else none

/-- Reads one character of a string, escaped or not. -/
def stringChar (c : Char) (rest : List Char) : Except Fault (Char × List Char) :=
  if c = '\\' then
    match rest with
    | [] => .error .truncated
    | d :: rest =>
      if d = 'u' then escapedUnit rest
      else
        match simpleEscape? d with
        | some plain => .ok (plain, rest)
        | none => .error .malformed
  else if c.toNat < 0x20 then .error .malformed
  else .ok (c, rest)

/-- Reads the rest of a string after its opening quote. -/
def stringBody (fuel : Nat) (read : List Char) : Reader String
  | [] => .error .truncated
  | c :: rest =>
    if c = '\x22' then .ok (String.ofList read.reverse, rest)
    else
      match fuel with
      | 0 => .error .malformed
      | fuel + 1 => do
        let (plain, rest) ← stringChar c rest
        stringBody fuel (plain :: read) rest

/-- Reads the rest of a string after its opening quote. -/
def stringRest : Reader String := fun text =>
  stringBody text.length [] text

/-- Passes over the rest of a string after its opening quote. Escaped code units
may be lone surrogates. -/
def skipString (fuel : Nat) : List Char → Except Fault (List Char)
  | [] => .error .truncated
  | c :: rest =>
    if c = '\x22' then .ok rest
    else
      match fuel with
      | 0 => .error .malformed
      | fuel + 1 =>
        if c = '\\' then
          match rest with
          | [] => .error .truncated
          | d :: rest =>
            if d = 'u' then do
              let (_, rest) ← codeUnit rest
              skipString fuel rest
            else if (simpleEscape? d).isSome then skipString fuel rest
            else .error .malformed
        else if c.toNat < 0x20 then .error .malformed
        else skipString fuel rest

/-- The parts of a number and the text after them. A fault says where its grammar
is broken: at the end of the text, or before some other character. -/
structure Numeral where
  digits : List Char
  fraction : List Char := []
  exponent : Int := 0

/-- The fault of a number that lacks a digit. -/
def missingDigit (text : List Char) : Fault :=
  if text.isEmpty then .truncated else .malformed

/-- Reads the whole part of a number. There is no zero before other digits. -/
def wholeDigits : Reader (List Char) := fun text =>
  let digits := text.takeWhile Lexeme.isDigit
  if digits.isEmpty then .error (missingDigit text)
  else if digits.head? = some '0' ∧ 1 < digits.length then .error .malformed
  else .ok (digits, text.dropWhile Lexeme.isDigit)

/-- Reads the digits of a fraction, if there is one. -/
def fractionDigits : Reader (List Char)
  | '.' :: text =>
    let digits := text.takeWhile Lexeme.isDigit
    let rest := text.dropWhile Lexeme.isDigit
    if digits.isEmpty then .error (missingDigit rest) else .ok (digits, rest)
  | text => .ok ([], text)

/-- The value of a run of decimal digits. -/
def decimalValue (digits : List Char) : Nat :=
  digits.foldl (fun value c => value * 10 + (c.toNat - '0'.toNat)) 0

/-- Reads the exponent of a number, if there is one. -/
def exponentValue : Reader Int
  | mark :: text =>
    if mark = 'e' ∨ mark = 'E' then
      let unsigned := text.drop (Lexeme.sign text)
      let digits := unsigned.takeWhile Lexeme.isDigit
      if digits.isEmpty then .error (missingDigit unsigned)
      else
        let value : Int := decimalValue digits
        .ok (if text.head? = some '-' then -value else value, unsigned.dropWhile Lexeme.isDigit)
    else .ok (0, mark :: text)
  | [] => .ok (0, [])

/-- Reads a number after its sign. -/
def numeral : Reader Numeral := fun text => do
  let (digits, text) ← wholeDigits text
  let (fraction, text) ← fractionDigits text
  let (exponent, text) ← exponentValue text
  return (⟨digits, fraction, exponent⟩, text)

/-- Appends decimal digits to a whole number while the result fits in 64 bits, and
yields it with the digits that are left. -/
def appendDigits (value : Nat) : List Char → Nat × List Char
  | [] => (value, [])
  | c :: digits =>
    let longer := value * 10 + (c.toNat - '0'.toNat)
    if longer < Nat.pow 2 64 then appendDigits longer digits else (value, c :: digits)

/-- Whether a number is too large for floating point. Only the digits that fit in 64
bits are kept. A further digit of the whole part counts as a zero, and one of the
fraction not at all. -/
def Numeral.isOutOfRange (n : Numeral) : Bool :=
  let (whole, larger) := appendDigits 0 n.digits
  let (significand, unused) := appendDigits whole n.fraction
  let places := n.fraction.length - unused.length
  Number.overflows significand (n.exponent + larger.length - places).toNat

/-- Passes over a number after its sign. Here a number that ends too early is not
told apart from one with a wrong character. -/
def skipNumber (text : List Char) : Except Fault (List Char) :=
  match numeral text with
  | .ok (_, rest) => .ok rest
  | .error _ => .error .malformed

/-- Passes over a word or a number, or the string after a quote. -/
def skipScalar (c : Char) (rest : List Char) : Except Fault (List Char) :=
  if c = 'n' then (word "ull".toList rest).map (·.2)
  else if c = 't' then (word "rue".toList rest).map (·.2)
  else if c = 'f' then (word "alse".toList rest).map (·.2)
  else if c = '-' then skipNumber rest
  else if Lexeme.isDigit c then skipNumber (c :: rest)
  else if c = '\x22' then skipString rest.length rest
  else .error .malformed

/-- What comes next in a value that is passed over. -/
inductive Await where
  /-- A value. -/
  | value
  /-- The first item of a list or object, or its end. -/
  | first
  /-- A comma, or the end of the list or object. -/
  | separator
  deriving DecidableEq, Repr

/-- Passes over the name of a field and its colon. -/
def skipKey (text : List Char) : Except Fault (List Char) :=
  match skipSpace text with
  | [] => .error .truncated
  | c :: rest =>
    if c = '\x22' then do
      let rest ← skipString rest.length rest
      match skipSpace rest with
      | [] => .error .truncated
      | d :: rest => if d = ':' then .ok rest else .error .malformed
    else .error .malformed

/-- Passes over a value. The closing brackets of the lists and objects around the
current place stand innermost first, so that nesting costs no recursion. -/
def skipNested (fuel : Nat) (await : Await) (closers : List Char) (text : List Char) :
    Except Fault (List Char) :=
  match fuel with
  | 0 => .error .malformed
  | fuel + 1 =>
    match await, closers, skipSpace text with
    | _, _, [] => .error .truncated
    | .value, _, c :: rest =>
      if c = '[' then skipNested fuel .first (']' :: closers) rest
      else if c = '{' then skipNested fuel .first ('}' :: closers) rest
      else do
        let rest ← skipScalar c rest
        if closers.isEmpty then .ok rest else skipNested fuel .separator closers rest
    | _, [], rest => .ok rest
    | _, closer :: outer, c :: rest =>
      if c = closer then
        if outer.isEmpty then .ok rest else skipNested fuel .separator outer rest
      else if await = .first ∨ c = ',' then do
        let start := if await = .first then c :: rest else rest
        let start ← if closer = '}' then skipKey start else .ok start
        skipNested fuel .value closers start
      else .error .malformed

/-- Passes over any value. -/
def ignored : Reader Unit := fun text => do
  let rest ← skipNested (2 * text.length + 2) .value [] text
  return ((), rest)

/-- The fault of a number in the place of another shape. -/
def numberFault (text : List Char) : Fault :=
  match numeral text with
  | .ok (n, _) => if n.isOutOfRange then .malformed else .mismatched
  | .error fault => fault

/-- The fault of a value that has another shape than the one that is read. Words,
numbers and strings are read to their end first. -/
def mismatch : List Char → Fault
  | [] => .truncated
  | c :: rest =>
    if c = 'n' then .after (word "ull".toList rest)
    else if c = 't' then .after (word "rue".toList rest)
    else if c = 'f' then .after (word "alse".toList rest)
    else if c = '-' then numberFault rest
    else if Lexeme.isDigit c then numberFault (c :: rest)
    else if c = '\x22' then .after (stringRest rest)
    else if c = '[' ∨ c = '{' then .mismatched
    else .malformed

/-- Reads a string. -/
def string : Reader String := fun text =>
  match skipSpace text with
  | '\x22' :: rest => stringRest rest
  | other => .error (mismatch other)

/-- Reads nothing but null. -/
def nothing : Reader Unit := fun text =>
  match skipSpace text with
  | 'n' :: rest => word "ull".toList rest
  | other => .error (mismatch other)

/-- Reads null as a missing value. -/
def optional (read : Reader α) : Reader (Option α) := fun text =>
  match skipSpace text with
  | 'n' :: rest => (word "ull".toList rest).map fun (_, rest) => (none, rest)
  | other => (read other).map fun (value, rest) => (some value, rest)

/-- Moves to the next item of a list. Yields nothing at the list's end, which is
not consumed. -/
def nextItem (isFirst : Bool) : Reader Bool := fun text =>
  match skipSpace text with
  | [] => .error .truncated
  | c :: rest =>
    if c = ']' then .ok (false, c :: rest)
    else if isFirst then .ok (true, c :: rest)
    else if c = ',' then
      match skipSpace rest with
      | [] => .error .truncated
      | d :: rest => if d = ']' then .error .malformed else .ok (true, d :: rest)
    else .error .malformed

/-- Consumes the end of a list. -/
def endList : Reader Unit := fun text =>
  match skipSpace text with
  | [] => .error .truncated
  | c :: rest => if c = ']' then .ok ((), rest) else .error .malformed

/-- Reads the items of a list. -/
def items (read : Reader α) (fuel : Nat) (isFirst : Bool) : Reader (List α) := fun text => do
  let (more, text) ← nextItem isFirst text
  match more, fuel with
  | false, _ => return ([], text)
  | true, 0 => .error .malformed
  | true, fuel + 1 =>
    let (item, text) ← read text
    let (others, text) ← items read fuel false text
    return (item :: others, text)

/-- Reads a list. -/
def list (read : Reader α) : Reader (List α) := fun text =>
  match skipSpace text with
  | '[' :: rest => do
    let (values, rest) ← items read rest.length true rest
    let (_, rest) ← endList rest
    return (values, rest)
  | other => .error (mismatch other)

/-- Moves to the next field of an object and reads its name. Yields nothing at the
object's end, which is not consumed. -/
def nextKey (isFirst : Bool) : Reader (Option String) := fun text =>
  match skipSpace text with
  | [] => .error .truncated
  | c :: rest =>
    if c = '}' then .ok (none, c :: rest)
    else if isFirst then key (c :: rest)
    else if c = ',' then
      match skipSpace rest with
      | [] => .error .truncated
      | rest => key rest
    else .error .malformed
where
  /-- Reads the name of a field. -/
  key : Reader (Option String)
    | '\x22' :: rest => (stringRest rest).map fun (name, rest) => (some name, rest)
    | _ => .error .malformed

/-- Consumes the colon between a name and its value. -/
def colon : Reader Unit := fun text =>
  match skipSpace text with
  | [] => .error .truncated
  | c :: rest => if c = ':' then .ok ((), rest) else .error .malformed

/-- Consumes the end of an object. -/
def endObject : Reader Unit := fun text =>
  match skipSpace text with
  | [] => .error .truncated
  | c :: rest => if c = '}' then .ok ((), rest) else .error .malformed

/-- Reads the fields of an object into a state. The value of a field is read by
the function that `field` gives for its name and the state so far. -/
def fields (field : σ → String → Reader σ) (fuel : Nat) (isFirst : Bool) (state : σ) :
    Reader σ := fun text => do
  let (name, text) ← nextKey isFirst text
  match name, fuel with
  | none, _ => return (state, text)
  | some _, 0 => .error .malformed
  | some name, fuel + 1 =>
    let (state, text) ← field state name text
    fields field fuel false state text

/-- Reads an object into a state. -/
def object (field : σ → String → Reader σ) (state : σ) : Reader σ := fun text =>
  match skipSpace text with
  | '{' :: rest => do
    let (state, rest) ← fields field rest.length true state rest
    let (_, rest) ← endObject rest
    return (state, rest)
  | other => .error (mismatch other)

/-- Reads a whole text. Nothing but white space may follow the value. -/
def whole (read : Reader α) (text : String) : Except Fault α := do
  let (value, rest) ← read text.toList
  if (skipSpace rest).isEmpty then return value else .error .malformed

end Reader
end Json
end ImportAtlas
