import ImportAtlas.Number.Nearest
import ImportAtlas.Token.Literal

/-! Values of number literals. A literal announces a radix or is a decimal; digit
separators and the mark of a big integer do not count. -/

namespace ImportAtlas
namespace Number

/-- The value of a digit in any radix up to sixteen. -/
def digitValue? (c : Char) : Option Nat :=
  if '0' ≤ c ∧ c ≤ '9' then some (c.toNat - '0'.toNat)
  else if 'a' ≤ c ∧ c ≤ 'f' then some (c.toNat - 'a'.toNat + 10)
  else if 'A' ≤ c ∧ c ≤ 'F' then some (c.toNat - 'A'.toNat + 10)
  else none

/-- Reads digits in a radix after a value read so far. -/
def digits? (radix : Nat) (value : Nat) : List Char → Option Nat
  | [] => some value
  | c :: rest =>
    match digitValue? c with
    | some digit => if digit < radix then digits? radix (value * radix + digit) rest else none
    | none => none

/-- Reads a whole number of 64 bits in a radix. A plus sign may stand in front;
without a digit there is no number. -/
def whole? (radix : Nat) (text : List Char) : Option Nat :=
  let body := if text.head? = some '+' then text.tail else text
  if body.isEmpty then none
  else (digits? radix 0 body).filter (· < Nat.pow 2 64)

/-- The radix that a literal announces in its first two characters. -/
def radix? : List Char → Option Nat
  | '0' :: letter :: _ =>
    if letter = 'x' ∨ letter = 'X' then some 16
    else if letter = 'o' ∨ letter = 'O' then some 8
    else if letter = 'b' ∨ letter = 'B' then some 2
    else none
  | _ => none

/-- The value of a run of decimal digits. -/
def decimalDigits (text : List Char) : Nat :=
  text.foldl (fun value c => value * 10 + (c.toNat - '0'.toNat)) 0

/-- Reads the exponent at the end of a decimal: nothing, or a mark with an
optional sign and at least one digit. -/
def exponent? : List Char → Option Int
  | [] => some 0
  | mark :: rest =>
    if mark = 'e' ∨ mark = 'E' then
      let digits := rest.drop (Lexeme.sign rest)
      if digits.isEmpty || !digits.all Lexeme.isDigit then none
      else
        let value : Int := decimalDigits digits
        some (if rest.head? = some '-' then -value else value)
    else none

/-- The letters of a text in lower case, as far as they are ASCII. -/
def lowered (text : List Char) : String :=
  String.ofList (text.map Char.toLower)

/-- Reads an unsigned decimal as the bits of the nearest floating-point number.
Digits may be missing before the point or after it, but not on both sides; the
names of infinity and of the undefined number count in any case. -/
def unsignedBits? (text : List Char) : Option Nat :=
  if lowered text = "inf" ∨ lowered text = "infinity" then some infinityBits
  else if lowered text = "nan" then some (infinityBits + Nat.pow 2 51)
  else
    let before := text.takeWhile Lexeme.isDigit
    let rest := text.dropWhile Lexeme.isDigit
    let (after, tail) :=
      match rest with
      | '.' :: fraction => (fraction.takeWhile Lexeme.isDigit, fraction.dropWhile Lexeme.isDigit)
      | _ => ([], rest)
    if before.isEmpty && after.isEmpty then none
    else (exponent? tail).map fun exponent =>
      decimalBits (decimalDigits (before ++ after)) (exponent - after.length)

/-- Reads a decimal with an optional sign as the bits of the nearest
floating-point number. -/
def decimalBits? (text : List Char) : Option Nat :=
  match text with
  | '-' :: rest => (unsignedBits? rest).map (Nat.pow 2 63 + ·)
  | '+' :: rest => unsignedBits? rest
  | _ => unsignedBits? text

/-- A literal without its digit separators and without the marks at its end. -/
def stripped (raw : String) : List Char :=
  ((raw.toList.filter (· != '_')).reverse.dropWhile (· == 'n')).reverse

/-- The bits of a literal's value, if it has one. -/
def bits? (raw : String) : Option Nat :=
  let text := stripped raw
  match radix? text with
  | some radix => (whole? radix (text.drop 2)).map fun n => decimalBits n 0
  | none => decimalBits? text

/-- The value of a literal, if it has one. -/
def value? (raw : String) : Option Float :=
  (bits? raw).map fun bits => Float.ofBits bits.toUInt64

end Number
end ImportAtlas
