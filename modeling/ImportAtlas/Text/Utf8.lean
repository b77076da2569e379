/-! Texts and bytes. A text has one encoding in UTF-8, but not all bytes are the encoding of a
text. Bytes that are not are still shown as a text, in which a replacement character stands for
each part of them that cannot be decoded. -/

namespace ImportAtlas
namespace Text

/-- The encoding of some characters. -/
def utf8 (text : List Char) : List UInt8 :=
  text.flatMap String.utf8EncodeChar

/-- What the first byte of a character of more than one byte says about it. -/
structure Opening where
  /-- The bits of the character in the first byte. -/
  bits : Nat
  /-- The least second byte. -/
  least : Nat
  /-- The greatest second byte. -/
  greatest : Nat
  /-- How many bytes come after the second one. -/
  more : Nat

/-- The opening that a byte is. The range of the second byte leaves out what has a
shorter encoding, surrogates, and numbers that are too great for a character. -/
def opening? (byte : Nat) : Option Opening :=
  if byte < 0xC2 then none
  else if byte < 0xE0 then some ⟨byte % 32, 0x80, 0xBF, 0⟩
  else if byte = 0xE0 then some ⟨0, 0xA0, 0xBF, 1⟩
  else if byte = 0xED then some ⟨13, 0x80, 0x9F, 1⟩
  else if byte < 0xF0 then some ⟨byte % 16, 0x80, 0xBF, 1⟩
  else if byte = 0xF0 then some ⟨0, 0x90, 0xBF, 2⟩
  else if byte < 0xF4 then some ⟨byte % 8, 0x80, 0xBF, 2⟩
  else if byte = 0xF4 then some ⟨4, 0x80, 0x8F, 2⟩
  else none

/-- Whether a byte goes on with a character. -/
def continues (byte : UInt8) : Bool :=
  0x80 ≤ byte.toNat && byte.toNat ≤ 0xBF

/-- The bytes that go on with a character behind its first byte, as far as they do. -/
def Opening.taken (o : Opening) (bytes : List UInt8) : List UInt8 :=
  match bytes with
  | [] => []
  | second :: rest =>
    if o.least ≤ second.toNat ∧ second.toNat ≤ o.greatest then
      second :: (rest.take o.more).takeWhile continues
    else []

/-- The character of an opening and the bytes that go on with it, or the replacement
character if they break off. -/
def Opening.character (o : Opening) (taken : List UInt8) : Char :=
  if taken.length = o.more + 1 then
    Char.ofNat (taken.foldl (fun bits byte => bits * 64 + byte.toNat % 64) o.bits)
  else '\ufffd'

/-- The characters of some bytes. A byte that cannot start a character is replaced, and
so is a character that breaks off, together with the bytes that go on with it. -/
def lossy (bytes : List UInt8) : List Char :=
  match bytes with
  | [] => []
  | first :: rest =>
    if first.toNat < 0x80 then Char.ofNat first.toNat :: lossy rest
    else
      match opening? first.toNat with
      | none => '\ufffd' :: lossy rest
      | some o =>
        let taken := o.taken rest
        o.character taken :: lossy (rest.drop taken.length)
termination_by bytes.length
decreasing_by
  all_goals
    simp only [List.length_drop, List.length_cons]
    omega

end Text
end ImportAtlas
