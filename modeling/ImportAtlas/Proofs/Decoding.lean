import Mathlib.Data.List.TakeWhile
import ImportAtlas.Text.Utf8

/-! Bytes that encode a text are decoded to that text, each character from the bytes that it is
encoded by. -/
namespace ImportAtlas.Decoding
open Text

@[simp] theorem utf8_nil : utf8 [] = [] := rfl

@[simp] theorem utf8_append (first second : List Char) :
    utf8 (first ++ second) = utf8 first ++ utf8 second :=
  List.flatMap_append

theorem utf8_cons (c : Char) (text : List Char) :
    utf8 (c :: text) = String.utf8EncodeChar c ++ utf8 text :=
  List.flatMap_cons

theorem toNat_byte (n : Nat) : (UInt8.ofNat n).toNat = n % 256 :=
  UInt8.toNat_ofNat'

/-- Six bits of a character, as one of the bytes that go on with it. -/
def tail (n : Nat) : UInt8 :=
  UInt8.ofNat (n % 64 + 128)

theorem toNat_tail (n : Nat) : (tail n).toNat = n % 64 + 128 := by
  rw [tail, toNat_byte]
  omega

theorem continues_tail (n : Nat) : continues (tail n) = true := by
  rw [continues, toNat_tail]
  simp
  omega

/-- A first byte opens a character whose second byte it allows. -/
structure Opens (first second bits more : Nat) : Prop where
  high : 0x80 ≤ first ∧ first < 256
  range : ∃ least greatest, opening? first = some ⟨bits, least, greatest, more⟩ ∧
    least ≤ second ∧ second ≤ greatest

/-- A whole character at the start of some bytes is decoded. -/
theorem lossy_opening (first n : Nat) (others : List Nat)
    (opens : Opens first (n % 64 + 128) bits others.length) (rest : List UInt8) :
    lossy (UInt8.ofNat first :: (n :: others).map tail ++ rest) =
      Char.ofNat ((n :: others).foldl (fun bits n => bits * 64 + n % 64) bits) :: lossy rest := by
  obtain ⟨high, least, greatest, found, above, below⟩ := opens
  have taken : Opening.taken ⟨bits, least, greatest, others.length⟩
      ((n :: others).map tail ++ rest) = (n :: others).map tail := by
    have continuing : ∀ b ∈ others.map tail, continues b = true := by
      intro b member
      obtain ⟨m, -, rfl⟩ := List.mem_map.mp member
      exact continues_tail m
    have width : others.length = (others.map tail).length := (List.length_map tail).symm
    rw [List.map_cons, List.cons_append, Opening.taken, toNat_tail, if_pos ⟨above, below⟩]
    dsimp only
    rw [width, List.take_left, List.takeWhile_eq_self_iff.mpr continuing]
  have value : ((n :: others).map tail).foldl (fun bits b => bits * 64 + b.toNat % 64) bits =
      (n :: others).foldl (fun bits n => bits * 64 + n % 64) bits := by
    have low (n : Nat) : (n % 64 + 128) % 64 = n % 64 := by omega
    simp only [List.foldl_map, toNat_tail, low]
  have byte : (UInt8.ofNat first).toNat = first := by rw [toNat_byte]; omega
  rw [List.cons_append, lossy, byte, if_neg (by omega), found]
  dsimp only
  rw [taken, List.drop_left, Opening.character, if_pos (by simp), value]

theorem opens_two (least : 127 < v) (greatest : v ≤ 2047) :
    Opens (v / 64 % 32 + 192) (v % 64 + 128) (v / 64) 0 := by
  refine ⟨⟨by omega, by omega⟩, 0x80, 0xBF, ?_, by omega, by omega⟩
  rw [opening?, if_neg (by omega), if_pos (by omega), show (v / 64 % 32 + 192) % 32 = v / 64 by omega]

theorem opens_three (least : 2047 < v) (greatest : v ≤ 65535) (valid : v < 0xD800 ∨ 0xDFFF < v) :
    Opens (v / 4096 % 16 + 224) (v / 64 % 64 + 128) (v / 4096) 1 := by
  refine ⟨⟨by omega, by omega⟩, ?_⟩
  have bits : (v / 4096 % 16 + 224) % 16 = v / 4096 := by omega
  unfold opening?
  rw [if_neg (by omega), if_neg (by omega)]
  split_ifs with low surrogate
  · exact ⟨_, _, by rw [show v / 4096 = 0 by omega], by omega, by omega⟩
  · exact ⟨_, _, by rw [show v / 4096 = 13 by omega], by omega, by omega⟩
  · exact ⟨_, _, by rw [bits], by omega, by omega⟩
  all_goals omega

theorem opens_four (least : 65535 < v) (greatest : v < 0x110000) :
    Opens (v / 262144 % 8 + 240) (v / 4096 % 64 + 128) (v / 262144) 2 := by
  refine ⟨⟨by omega, by omega⟩, ?_⟩
  have bits : (v / 262144 % 8 + 240) % 8 = v / 262144 := by omega
  unfold opening?
  rw [if_neg (by omega), if_neg (by omega), if_neg (by omega), if_neg (by omega),
    if_neg (by omega)]
  split_ifs with low middle high
  · exact ⟨_, _, by rw [show v / 262144 = 0 by omega], by omega, by omega⟩
  · exact ⟨_, _, by rw [bits], by omega, by omega⟩
  · exact ⟨_, _, by rw [show v / 262144 = 4 by omega], by omega, by omega⟩
  all_goals omega

theorem lossy_encoded (c : Char) (rest : List UInt8) :
    lossy (String.utf8EncodeChar c ++ rest) = c :: lossy rest := by
  have valid : c.val.toNat < 0xD800 ∨ 0xDFFF < c.val.toNat ∧ c.val.toNat < 0x110000 := c.valid
  have back : Char.ofNat c.val.toNat = c := Char.ofNat_toNat c
  unfold String.utf8EncodeChar
  generalize c.val.toNat = v at valid back
  dsimp only
  split_ifs with one two three
  · have byte : (UInt8.ofNat v).toNat = v := by rw [toNat_byte]; omega
    rw [List.singleton_append, lossy, if_pos (by omega), byte, back]
  · have decoded := lossy_opening _ v [] (opens_two (by omega) two) rest
    have whole : v / 64 * 64 + v % 64 = v := by omega
    rw [List.foldl_cons, List.foldl_nil, whole, back] at decoded
    exact decoded
  · have decoded := lossy_opening _ (v / 64) [v] (opens_three (by omega) three (by omega)) rest
    have whole : (v / 4096 * 64 + v / 64 % 64) * 64 + v % 64 = v := by omega
    rw [List.foldl_cons, List.foldl_cons, List.foldl_nil, whole, back] at decoded
    exact decoded
  · have decoded := lossy_opening _ (v / 4096) [v / 64, v] (opens_four (by omega) (by omega)) rest
    have whole : ((v / 262144 * 64 + v / 4096 % 64) * 64 + v / 64 % 64) * 64 + v % 64 = v := by
      omega
    rw [List.foldl_cons, List.foldl_cons, List.foldl_cons, List.foldl_nil, whole, back] at decoded
    exact decoded

/-- Bytes that encode a text are decoded to that text. -/
theorem lossy_utf8 (text : List Char) : lossy (utf8 text) = text := by
  induction text with
  | nil => rw [utf8_nil, lossy]
  | cons c text ih => rw [utf8_cons, lossy_encoded, ih]

end ImportAtlas.Decoding
