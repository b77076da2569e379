/-! Lower case, as far as it decides whether a text is one of some ASCII words.
Besides the capital letters of ASCII only the Kelvin sign has an ASCII letter as
its lower case, so every other character stays as it is and matches no word. -/

namespace ImportAtlas
namespace Text

/-- The lower case of a character with an ASCII lower case. -/
def lower (c : Char) : Char :=
  if c = '\u212a' then 'k' else c.toLower

/-- A text with every character that has an ASCII lower case in that case. -/
def lowered (text : String) : String :=
  String.ofList (text.toList.map lower)

end Text
end ImportAtlas
