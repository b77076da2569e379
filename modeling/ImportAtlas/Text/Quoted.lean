import ImportAtlas.Text.Unprintable

/-! Quoting in both directions: a text shown between double quotes with escapes,
and the content of a literal once its quotes are taken off. -/

namespace ImportAtlas
namespace Text

/-- The lower-case hexadecimal digits of a number. -/
def hexadecimal (n : Nat) : String :=
  String.ofList (Nat.toDigits 16 n)

/-- How one character is shown between double quotes. -/
def escaped (c : Char) : String :=
  if c = '\x00' then "\\0"
  else if c = '\t' then "\\t"
  else if c = '\r' then "\\r"
  else if c = '\n' then "\\n"
  else if c = '\\' then "\\\\"
  else if c = '\x22' then "\\\""
  else if isUnprintable c then "\\u\x7b" ++ hexadecimal c.toNat ++ "\x7d"
  else String.singleton c

/-- The text between double quotes, with escapes for quotes, backslashes and
characters that have no printed form. -/
def quoted (text : String) : String :=
  "\"" ++ String.join (text.toList.map escaped) ++ "\""

/-- The three characters that open a literal: single quote, double quote and
back quote. -/
def quotes : List Char :=
  ['\x27', '\x22', '\x60']

/-- The characters inside a literal. The opening quote is dropped, and the last
character too when it repeats that quote. Characters that do not start with a
quote are kept. -/
def inner : List Char → List Char
  | [] => []
  | quote :: body =>
    if quotes.contains quote then
      if body.getLast? = some quote then body.dropLast else body
    else quote :: body

/-- The content of a literal, without its quotes. -/
def unquoted (literal : String) : String :=
  String.ofList (inner literal.toList)

end Text
end ImportAtlas
