import ImportAtlas.Text.CharSet

/-! White space. The set is the Unicode property `White_Space`; a source may in
addition carry a byte order mark anywhere between two tokens. -/

namespace ImportAtlas
namespace Text

/-- The characters of Unicode property `White_Space`. -/
def blanks : CharSet := ⟨[
   (0x09, 0x0D), (0x20, 0x20), (0x85, 0x85), (0xA0, 0xA0), (0x1680, 0x1680), (0x2000, 0x200A),
   (0x2028, 0x2029), (0x202F, 0x202F), (0x205F, 0x205F), (0x3000, 0x3000)]⟩

/-- Whether a character is white space. -/
def isBlank (c : Char) : Bool :=
  blanks.contains c

/-- Whether a character separates tokens: white space or a byte order mark. -/
def isGap (c : Char) : Bool :=
  isBlank c || c == '\ufeff'

/-- The text without white space at its two ends. -/
def trimmed (text : String) : String :=
  String.ofList ((text.toList.dropWhile isBlank).reverse.dropWhile isBlank).reverse

end Text
end ImportAtlas
