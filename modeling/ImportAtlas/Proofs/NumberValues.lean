import Mathlib.Data.List.DropRight
import Mathlib.Data.Nat.Digits.Defs
import ImportAtlas.Number.Literal
import ImportAtlas.Proofs.Relexing

/-! Values of the numbers of a source. The characters that are lexed as a number and the texts
that have a value are described independently of each other. A decimal number always has a value.
A number with a radix has none when the digits behind the letter are missing, when one of them is
no digit of the radix, and when they denote a number of more than 64 bits. -/
namespace ImportAtlas.NumberValues
open Extent Lexeme Locality Number Relexing Token

/-- A number starts with the letter of a radix, and with these characters behind it. -/
inductive Announces : List Char → Nat → List Char → Prop where
  | hexadecimal (letter : c = 'x' ∨ c = 'X') : Announces ('0' :: c :: rest) 16 rest
  | octal (letter : c = 'o' ∨ c = 'O') : Announces ('0' :: c :: rest) 8 rest
  | binary (letter : c = 'b' ∨ c = 'B') : Announces ('0' :: c :: rest) 2 rest

/-- Characters without digit separators. -/
def unseparated (text : List Char) : List Char :=
  text.filter (· != '_')

/-- Characters without digit separators, and without the marks of a big integer at their end. -/
def cleaned (text : List Char) : List Char :=
  (unseparated text).rdropWhile (· == 'n')

/-- A character is the digit of a radix with the given value, in lower or upper case. -/
def IsDigitOf (radix : Nat) (c : Char) (value : Nat) : Prop :=
  value < radix ∧ (c = value.digitChar ∨ c = value.digitChar.toUpper)

/-- Some characters are the digits of a number, the most significant one first. -/
def Denotes (radix : Nat) (text : List Char) (n : Nat) : Prop :=
  ∃ digits, List.Forall₂ (IsDigitOf radix) text digits ∧ n = Nat.ofDigits radix digits.reverse

/-- There is no digit, a character that is none, or a number that 64 bits cannot hold. -/
def Unreadable (radix : Nat) (text : List Char) : Prop :=
  text = [] ∨ (∃ c ∈ text, ∀ value, ¬IsDigitOf radix c value) ∨
    ∃ n, Denotes radix text n ∧ Nat.pow 2 64 ≤ n

section Digits
variable {radix value n d : Nat} {c : Char} {text : List Char}

private theorem toNat_digitChar : ∀ k < 6, (Nat.digitChar (k + 10)).toNat = 97 + k := by
  decide

private theorem toNat_digitChar_toUpper :
    ∀ k < 6, (Nat.digitChar (k + 10)).toUpper.toNat = 65 + k := by
  decide

/-- A digit that is written in either case is read as itself. -/
private theorem digitValue?_digitChar :
    ∀ d < 16, digitValue? d.digitChar = some d ∧ digitValue? d.digitChar.toUpper = some d := by
  decide

private theorem toNat_le_toNat {a b : Char} : a ≤ b ↔ a.toNat ≤ b.toNat :=
  UInt32.le_iff_toNat_le

theorem digitValue?_eq_some : digitValue? c = some d ↔ IsDigitOf 16 c d := by
  constructor
  · intro read
    unfold digitValue? at read
    simp only [toNat_le_toNat] at read
    split_ifs at read with decimal lower upper
    · obtain ⟨from0, to9⟩ : 48 ≤ c.toNat ∧ c.toNat ≤ 57 := decimal
      obtain rfl : c.toNat - 48 = d := Option.some.inj read
      refine ⟨by omega, .inl (Char.toNat_inj.mp ?_)⟩
      rw [Nat.toNat_digitChar_of_lt_ten (by omega)]
      omega
    · obtain ⟨fromA, toF⟩ : 97 ≤ c.toNat ∧ c.toNat ≤ 102 := lower
      obtain rfl : c.toNat - 97 + 10 = d := Option.some.inj read
      refine ⟨by omega, .inl (Char.toNat_inj.mp ?_)⟩
      rw [toNat_digitChar _ (by omega)]
      omega
    · obtain ⟨fromA, toF⟩ : 65 ≤ c.toNat ∧ c.toNat ≤ 70 := upper
      obtain rfl : c.toNat - 65 + 10 = d := Option.some.inj read
      refine ⟨by omega, .inr (Char.toNat_inj.mp ?_)⟩
      rw [toNat_digitChar_toUpper _ (by omega)]
      omega
  · rintro ⟨small, rfl | rfl⟩
    · exact (digitValue?_digitChar d small).1
    · exact (digitValue?_digitChar d small).2

theorem isDigitOf_iff (few : radix ≤ 16) :
    IsDigitOf radix c d ↔ digitValue? c = some d ∧ d < radix := by
  rw [digitValue?_eq_some, IsDigitOf, IsDigitOf]
  constructor
  · exact fun ⟨small, written⟩ => ⟨⟨Nat.lt_of_lt_of_le small few, written⟩, small⟩
  · exact fun ⟨⟨_, written⟩, small⟩ => ⟨small, written⟩

/-- The next digit of a number joins what has been read of it. -/
private theorem ofDigits_next (radix value d : Nat) (digits : List Nat) :
    Nat.ofDigits radix ((d :: digits).reverse ++ [value]) =
      Nat.ofDigits radix (digits.reverse ++ [value * radix + d]) := by
  have joined : Nat.ofDigits radix [d, value] = value * radix + d := by
    rw [Nat.ofDigits_cons, Nat.ofDigits_singleton, Nat.mul_comm, Nat.add_comm]
  rw [List.reverse_cons, List.append_assoc, List.singleton_append, Nat.ofDigits_append, joined,
    Nat.ofDigits_append, Nat.ofDigits_singleton]

/-- Digits are read one after another, behind a value that has been read before them. -/
theorem digits?_eq_some (few : radix ≤ 16) :
    digits? radix value text = some n ↔
      ∃ digits, List.Forall₂ (IsDigitOf radix) text digits ∧
        n = Nat.ofDigits radix (digits.reverse ++ [value]) := by
  induction text generalizing value with
  | nil => simp [digits?, eq_comm]
  | cons c text ih =>
    rw [digits?]
    constructor
    · intro read
      split at read
      · rename_i d found
        split at read
        · rename_i small
          obtain ⟨digits, denotes, same⟩ := ih.mp read
          refine ⟨d :: digits, .cons ((isDigitOf_iff few).mpr ⟨found, small⟩) denotes, ?_⟩
          rw [ofDigits_next, same]
        · cases read
      · cases read
    · rintro ⟨_, denotes, same⟩
      obtain ⟨d, digits, isDigit, others, rfl⟩ := List.forall₂_cons_left_iff.mp denotes
      obtain ⟨found, small⟩ := (isDigitOf_iff few).mp isDigit
      rw [found]
      dsimp only
      rw [if_pos small, ih]
      exact ⟨digits, others, same.trans (ofDigits_next radix value d digits)⟩

theorem digits?_zero (few : radix ≤ 16) : digits? radix 0 text = some n ↔ Denotes radix text n := by
  rw [digits?_eq_some few, Denotes]
  refine exists_congr fun digits => and_congr Iff.rfl ?_
  rw [Nat.ofDigits_append, Nat.ofDigits_singleton, Nat.mul_zero, Nat.add_zero]

/-- Some characters are digits one by one if all of them are digits. -/
private theorem exists_forall₂_iff :
    (∃ digits, List.Forall₂ (IsDigitOf radix) text digits) ↔
      ∀ c ∈ text, ∃ d, IsDigitOf radix c d := by
  induction text with
  | nil => simp
  | cons c text ih =>
    rw [List.forall_mem_cons]
    constructor
    · rintro ⟨_, each⟩
      obtain ⟨d, digits, isDigit, others, rfl⟩ := List.forall₂_cons_left_iff.mp each
      exact ⟨⟨d, isDigit⟩, ih.mp ⟨digits, others⟩⟩
    · rintro ⟨⟨d, isDigit⟩, others⟩
      obtain ⟨digits, each⟩ := ih.mpr others
      exact ⟨d :: digits, .cons isDigit each⟩

theorem exists_denotes_iff :
    (∃ n, Denotes radix text n) ↔ ∀ c ∈ text, ∃ d, IsDigitOf radix c d := by
  rw [← exists_forall₂_iff]
  constructor
  · rintro ⟨_, digits, each, -⟩
    exact ⟨digits, each⟩
  · rintro ⟨digits, each⟩
    exact ⟨_, digits, each, rfl⟩

/-- A whole number has no value exactly where its characters are not readable. -/
theorem whole?_eq_none (few : radix ≤ 16) (unsigned : text.head? ≠ some '+') :
    whole? radix text = none ↔ Unreadable radix text := by
  rw [whole?, if_neg unsigned, Unreadable]
  by_cases empty : text = []
  · simp [empty]
  rw [if_neg (by simpa using empty), or_iff_right empty]
  cases read : digits? radix 0 text with
  | none =>
    have nothing : ¬∃ n, Denotes radix text n := by
      rintro ⟨n, denotes⟩
      rw [(digits?_zero few).mpr denotes] at read
      cases read
    refine iff_of_true rfl (.inl ?_)
    rw [exists_denotes_iff] at nothing
    push Not at nothing
    exact nothing
  | some n =>
    have denotes := (digits?_zero few).mp read
    have valid : ¬∃ c ∈ text, ∀ d, ¬IsDigitOf radix c d := by
      rintro ⟨c, member, none⟩
      obtain ⟨d, isDigit⟩ := exists_denotes_iff.mp ⟨n, denotes⟩ c member
      exact none d isDigit
    rw [or_iff_right valid, Option.filter_some, ite_eq_right_iff]
    constructor
    · intro refused
      refine ⟨n, denotes, Nat.le_of_not_lt fun small => ?_⟩
      cases refused (decide_eq_true small)
    · rintro ⟨m, denotesAlso, large⟩ small
      have again := (digits?_zero few).mpr denotesAlso
      obtain rfl : n = m := Option.some.inj (read.symm.trans again)
      exact absurd (of_decide_eq_true small) (Nat.not_lt_of_le large)

end Digits

/-! Cleaned numbers. -/

section Cleaning
variable {text whole frac expo mark : List Char} {c d : Char}

theorem rdropWhile_append {p : α → Bool} {front : List α} (kept : front.rdropWhile p = front)
    (back : List α) : (front ++ back).rdropWhile p = front ++ back.rdropWhile p := by
  induction back using List.reverseRecOn with
  | nil => rw [List.append_nil, List.rdropWhile_nil, List.append_nil, kept]
  | append_singleton back x ih =>
    rw [← List.append_assoc, List.rdropWhile_concat, List.rdropWhile_concat]
    split
    · exact ih
    · exact List.append_assoc ..

/-- Without its separators, a run of digits and separators holds digits. -/
theorem isDigit_of_mem (digits : ∀ c ∈ text, isDigitOrSeparator c = true) :
    ∀ c ∈ unseparated text, isDigit c = true := by
  intro c member
  obtain ⟨listed, notSeparator⟩ := List.mem_filter.mp member
  have either := digits c listed
  rw [isDigitOrSeparator, Bool.or_eq_true] at either
  exact either.resolve_right (by simpa using notSeparator)

theorem unseparated_digit (digit : isDigit d = true) (rest : List Char) :
    unseparated (d :: rest) = d :: unseparated rest := by
  have kept : (d == '_') = false := refuted_of_isDigit (p := (· == '_')) digit (by decide)
  exact List.filter_cons_of_pos (by simp [bne, kept])

/-- No digit is the mark of a big integer or the letter of a radix. -/
theorem unmarked_of_isDigit (digit : isDigit c = true) : c ∉ 'n' :: radixLetters := by
  have none := refuted_of_isDigit (p := ('n' :: radixLetters).contains) digit (by decide)
  simpa using none

/-- The parts of a decimal number without separators, up to the mark of a big integer: digits, a
point with digits, and an exponent, of which the first two are not both without a digit. -/
structure IsPlain (whole frac expo : List Char) : Prop where
  digits : ∀ c ∈ whole, isDigit c = true
  point : frac = [] ∨ ∃ digits, frac = '.' :: digits ∧ ∀ c ∈ digits, isDigit c = true
  marked : expo = [] ∨ ∃ e rest, expo = e :: rest ∧ (e = 'e' ∨ e = 'E')
  readable : (exponent? expo).isSome
  filled : whole ≠ [] ∨ ∃ d digits, frac = '.' :: d :: digits
  unmarked : ∀ c ∈ whole ++ (frac ++ expo), c ∉ 'n' :: radixLetters

theorem IsPlain.first (plain : IsPlain whole frac expo) :
    ∃ c rest, whole ++ (frac ++ expo) = c :: rest ∧ (isDigit c = true ∨ c = '.') := by
  cases whole with
  | cons c whole => exact ⟨c, _, rfl, .inl (plain.digits c List.mem_cons_self)⟩
  | nil =>
    obtain ⟨d, digits, rfl⟩ := plain.filled.resolve_left (fun filled => filled rfl)
    exact ⟨'.', _, rfl, .inr rfl⟩

/-- No digit comes right behind a run of digits that ends before the exponent. -/
private theorem split_digits (digits : ∀ c ∈ text, isDigit c = true)
    (ends : ∀ c ∈ expo.head?, isDigit c = false) :
    (text ++ expo).takeWhile isDigit = text ∧ (text ++ expo).dropWhile isDigit = expo := by
  rw [List.takeWhile_append_of_pos digits, List.dropWhile_append_of_pos digits]
  cases expo with
  | nil => exact ⟨List.append_nil text, rfl⟩
  | cons c expo =>
    have other := ends c rfl
    rw [List.takeWhile_cons_of_neg (by simp [other]), List.dropWhile_cons_of_neg (by simp [other])]
    exact ⟨List.append_nil text, rfl⟩

/-- The names of infinity and of the undefined number start like no number. -/
private theorem lowered_ne (first : isDigit c = true ∨ c = '.') (rest : List Char) :
    ∀ name ∈ ["inf", "infinity", "nan"], lowered (c :: rest) ≠ name := by
  have letters : ∀ name ∈ ["inf", "infinity", "nan"],
      name.toList.head? = some 'i' ∨ name.toList.head? = some 'n' := by decide
  have noLetter : (c.toLower == 'i' || c.toLower == 'n') = false := by
    rcases first with digit | rfl
    · exact refuted_of_isDigit
        (p := fun c => c.toLower == 'i' || c.toLower == 'n') digit (by decide)
    · decide
  rintro name listed rfl
  have head : (lowered (c :: rest)).toList.head? = some c.toLower := by
    rw [lowered, String.toList_ofList]
    rfl
  have letter := letters _ listed
  rw [head, Option.some.injEq, Option.some.injEq] at letter
  rcases letter with same | same
  all_goals
    rw [same] at noLetter
    cases noLetter

theorem unsignedBits?_isSome (plain : IsPlain whole frac expo) :
    (unsignedBits? (whole ++ (frac ++ expo))).isSome := by
  obtain ⟨c, rest, shape, first⟩ := plain.first
  have unnamed := lowered_ne first rest
  have ends : ∀ c ∈ expo.head?, isDigit c = false := by
    intro c head
    rcases plain.marked with rfl | ⟨e, more, rfl, rfl | rfl⟩
    · cases head
    · cases head
      rfl
    · cases head
      rfl
  rw [← shape] at unnamed
  unfold unsignedBits?
  rw [if_neg (not_or.mpr ⟨unnamed _ (by decide), unnamed _ (by decide)⟩),
    if_neg (unnamed _ (by decide))]
  rcases plain.point with rfl | ⟨digits, rfl, each⟩
  · have filled : whole ≠ [] := plain.filled.resolve_right fun ⟨_, _, same⟩ => nomatch same
    rw [List.nil_append, (split_digits plain.digits ends).1, (split_digits plain.digits ends).2]
    have readable := plain.readable
    rcases plain.marked with rfl | ⟨e, more, rfl, rfl | rfl⟩
    all_goals simpa [filled] using readable
  · have filled : ¬(whole = [] ∧ digits = []) := by
      rintro ⟨rfl, rfl⟩
      rcases plain.filled with none | ⟨d, digits, none⟩
      · exact none rfl
      · cases none
    have point : ∀ c ∈ ('.' :: (digits ++ expo)).head?, isDigit c = false := by
      intro c head
      cases head
      rfl
    rw [List.cons_append, (split_digits plain.digits point).1, (split_digits plain.digits point).2]
    simpa [(split_digits each ends).1, (split_digits each ends).2, filled] using plain.readable

/-- A decimal number without separators has a value. -/
theorem decimalBits?_isSome (plain : IsPlain whole frac expo) :
    (decimalBits? (whole ++ (frac ++ expo))).isSome := by
  obtain ⟨c, rest, shape, first⟩ := plain.first
  have unsigned :
      decimalBits? (whole ++ (frac ++ expo)) = unsignedBits? (whole ++ (frac ++ expo)) := by
    rw [shape]
    unfold decimalBits?
    split
    · rename_i same
      cases same
      rcases first with digit | point
      · cases digit
      · cases point
    · rename_i same
      cases same
      rcases first with digit | point
      · cases digit
      · cases point
    · rfl
  rw [unsigned]
  exact unsignedBits?_isSome plain

/-! The parts of a lexed number. -/

private theorem sign_of_isDigit (digit : isDigit d = true) (rest : List Char) :
    sign (d :: rest) = 0 := by
  have other : (d == '+' || d == '-') = false :=
    refuted_of_isDigit (p := fun d => d == '+' || d == '-') digit (by decide)
  exact if_neg (by simpa using other)

private theorem exponent?_isSome (letter : c = 'e' ∨ c = 'E') {rest : List Char}
    (digit : isDigit d = true) (digits : ∀ c ∈ text, isDigit c = true)
    (signed : rest.drop (sign rest) = d :: text) : (exponent? (c :: rest)).isSome := by
  rw [exponent?, if_pos letter, signed]
  have all : (d :: text).all isDigit = true := by simpa [digit] using digits
  simp [all]

/-- What is left of an exponent without separators. -/
private theorem exponent_cleaned (shape : IsExponent expo) :
    (unseparated expo = [] ∨
        ∃ e rest, unseparated expo = e :: rest ∧ (e = 'e' ∨ e = 'E')) ∧
      (exponent? (unseparated expo)).isSome ∧
      ∀ c ∈ unseparated expo, c ∉ 'n' :: radixLetters := by
  have letterKept {e : Char} (letter : e = 'e' ∨ e = 'E') (rest : List Char) :
      unseparated (e :: rest) = e :: unseparated rest := by
    rcases letter with rfl | rfl
    · rfl
    · rfl
  have letterPlain {e : Char} (letter : e = 'e' ∨ e = 'E') : e ∉ 'n' :: radixLetters := by
    rcases letter with rfl | rfl
    · decide
    · decide
  cases shape with
  | none => exact ⟨.inl rfl, rfl, List.forall_mem_nil _⟩
  | @unsigned e d text letter digit digits =>
    have each := isDigit_of_mem digits
    rw [letterKept letter, unseparated_digit digit]
    refine ⟨.inr ⟨e, _, rfl, letter⟩, ?_, ?_⟩
    · refine exponent?_isSome letter digit each ?_
      rw [sign_of_isDigit digit, List.drop_zero]
    · refine List.forall_mem_cons.mpr ⟨letterPlain letter, List.forall_mem_cons.mpr ⟨?_, ?_⟩⟩
      · exact unmarked_of_isDigit digit
      · exact fun c member => unmarked_of_isDigit (each c member)
  | @signed e s d text letter signs digit digits =>
    have each := isDigit_of_mem digits
    have signKept : unseparated (s :: d :: text) = s :: d :: unseparated text := by
      rw [← unseparated_digit digit]
      rcases signs with rfl | rfl
      · rfl
      · rfl
    rw [letterKept letter, signKept]
    refine ⟨.inr ⟨e, _, rfl, letter⟩, ?_, ?_⟩
    · refine exponent?_isSome letter digit each ?_
      rw [sign, if_pos signs]
      rfl
    · refine List.forall_mem_cons.mpr ⟨letterPlain letter, List.forall_mem_cons.mpr ⟨?_, ?_⟩⟩
      · rcases signs with rfl | rfl
        · decide
        · decide
      · refine List.forall_mem_cons.mpr ⟨unmarked_of_isDigit digit, ?_⟩
        exact fun c member => unmarked_of_isDigit (each c member)

private theorem fraction_cleaned (shape : IsFraction frac) :
    (unseparated frac = [] ∨ ∃ digits, unseparated frac = '.' :: digits ∧
        ∀ c ∈ digits, isDigit c = true) ∧
      ∀ c ∈ unseparated frac, c ∉ 'n' :: radixLetters := by
  cases shape with
  | none => exact ⟨.inl rfl, List.forall_mem_nil _⟩
  | @point text digits =>
    have point : unseparated ('.' :: text) = '.' :: unseparated text := rfl
    have each := isDigit_of_mem digits
    rw [point]
    refine ⟨.inr ⟨_, rfl, each⟩, List.forall_mem_cons.mpr ⟨by decide, ?_⟩⟩
    exact fun c member => unmarked_of_isDigit (each c member)

private theorem unseparated_append (first second : List Char) :
    unseparated (first ++ second) = unseparated first ++ unseparated second :=
  List.filter_append ..

/-- Where nothing but a mark at the end is the letter of the mark, the rest is kept. -/
theorem cleaned_append_mark (unmarked : 'n' ∉ unseparated text)
    (hasMark : mark = [] ∨ mark = ['n']) :
    cleaned (text ++ mark) = unseparated text := by
  have kept : (unseparated text).rdropWhile (· == 'n') = unseparated text := by
    refine List.rdropWhile_eq_self_iff.mpr fun some last => unmarked ?_
    exact beq_iff_eq.mp last ▸ List.getLast_mem some
  have gone : (unseparated mark).rdropWhile (· == 'n') = [] := by
    rcases hasMark with rfl | rfl
    · rfl
    · rfl
  rw [cleaned, unseparated_append, rdropWhile_append kept, gone, List.append_nil]

/-- The parts of a decimal number, which starts with a digit or with a point and a digit. -/
structure IsDecimal (whole frac expo mark : List Char) : Prop where
  digits : ∀ c ∈ whole, isDigitOrSeparator c = true
  hasFraction : IsFraction frac
  hasExponent : IsExponent expo
  hasMark : mark = [] ∨ mark = ['n']
  filled : unseparated whole ≠ [] ∨ ∃ d rest, unseparated frac = '.' :: d :: rest

/-- What is left of a decimal number without separators and without its mark. -/
theorem IsDecimal.cleaned (decimal : IsDecimal whole frac expo mark) :
    IsPlain (unseparated whole) (unseparated frac) (unseparated expo) ∧
      cleaned (whole ++ (frac ++ (expo ++ mark))) =
        unseparated whole ++ (unseparated frac ++ unseparated expo) := by
  have each := isDigit_of_mem decimal.digits
  obtain ⟨point, plainFraction⟩ := fraction_cleaned decimal.hasFraction
  obtain ⟨marked, readable, plainExponent⟩ := exponent_cleaned decimal.hasExponent
  have unmarked : ∀ c ∈ unseparated whole ++ (unseparated frac ++ unseparated expo),
      c ∉ 'n' :: radixLetters := by
    refine List.forall_mem_append.mpr ⟨fun c member => unmarked_of_isDigit (each c member), ?_⟩
    exact List.forall_mem_append.mpr ⟨plainFraction, plainExponent⟩
  refine ⟨⟨each, point, marked, readable, decimal.filled, unmarked⟩, ?_⟩
  rw [← unseparated_append, ← unseparated_append] at unmarked ⊢
  rw [← cleaned_append_mark (fun member => unmarked _ member List.mem_cons_self) decimal.hasMark,
    List.append_assoc, List.append_assoc]

/-- In a decimal number there is no letter of a radix. -/
theorem IsDecimal.not_letter (decimal : IsDecimal whole frac expo mark) :
    ∀ c ∈ whole ++ (frac ++ (expo ++ mark)), c ∉ radixLetters := by
  intro c member letter
  rw [← List.append_assoc frac, ← List.append_assoc] at member
  rcases List.mem_append.mp member with front | atEnd
  · have solid : (c != '_') = true := by
      rw [bne_iff_ne]
      rintro rfl
      exact absurd letter (by decide)
    have kept : c ∈ unseparated (whole ++ (frac ++ expo)) := List.mem_filter.mpr ⟨front, solid⟩
    rw [unseparated_append, unseparated_append] at kept
    exact decimal.cleaned.1.unmarked c kept (List.mem_cons_of_mem _ letter)
  · rcases decimal.hasMark with rfl | rfl
    · cases atEnd
    · obtain rfl := List.mem_singleton.mp atEnd
      exact absurd letter (by decide)

/-- A number without a radix is made of the parts of a decimal one. -/
theorem exists_isDecimal (shape : IsNumeral text) :
    (∃ c rest, text = '0' :: c :: rest ∧ c ∈ radixLetters ∧
        ∀ d ∈ rest, (isAlphanumeric d || d == '_') = true) ∨
      ∃ whole frac expo mark, text = whole ++ (frac ++ (expo ++ mark)) ∧
        IsDecimal whole frac expo mark := by
  cases shape with
  | @radix c rest letter digits =>
    exact .inl ⟨c, rest, rfl, List.contains_iff_mem.mp letter, digits⟩
  | @decimal d whole frac expo mark digit digits hasFraction hasExponent hasMark =>
    refine .inr ⟨d :: whole, frac, expo, mark, rfl, ?_, hasFraction, hasExponent, hasMark, ?_⟩
    · exact List.forall_mem_cons.mpr ⟨by simp [isDigitOrSeparator, digit], digits⟩
    · rw [unseparated_digit digit]
      exact .inl (List.cons_ne_nil d _)
  | @point d digits expo mark digit each hasExponent hasMark =>
    have fraction : IsFraction ('.' :: d :: digits) :=
      .point (List.forall_mem_cons.mpr ⟨by simp [isDigitOrSeparator, digit], each⟩)
    refine .inr ⟨[], '.' :: d :: digits, expo, mark, rfl, List.forall_mem_nil _, fraction,
      hasExponent, hasMark, .inr ⟨d, unseparated digits, ?_⟩⟩
    rw [← unseparated_digit digit]
    rfl

/-- A decimal number has no radix, and it has a value. -/
theorem value_of_plain (plain : IsPlain whole frac expo) :
    radix? (whole ++ (frac ++ expo)) = none ∧ (decimalBits? (whole ++ (frac ++ expo))).isSome := by
  refine ⟨?_, decimalBits?_isSome plain⟩
  have unmarked := plain.unmarked
  generalize whole ++ (frac ++ expo) = text at unmarked
  unfold radix?
  split
  · rename_i letter rest
    have other := unmarked letter (by simp)
    simp only [radixLetters, List.mem_cons, not_or] at other
    simp [other]
  · rfl

end Cleaning

/-! Numbers of a source. -/

section Tokens
variable {before : List Token} {c : Char} {text rest : List Char} {radix : Nat}

/-- A number of a source is a numeral. -/
theorem lexeme_isNumeral (number : (lexeme before c rest).1 = .number) :
    IsNumeral ((c :: rest).take (lexeme before c rest).2) := by
  unfold lexeme at number ⊢
  cases single : single? c with
  | some kind =>
    rw [single] at number
    subst number
    unfold single? at single
    split_ifs at single
    all_goals cases single
  | none =>
    simp only [single] at number ⊢
    split_ifs at number ⊢ with quote template slash starts
    · subst slash
      unfold Token.slash at number
      split_ifs at number
      split at number
      · cases number
      · cases number
    · exact isNumeral_take starts

theorem isNumeral_of_token {source : String} (member : t ∈ ofSource source)
    (number : t.kind = .number) : IsNumeral t.value.toList := by
  have inside : t.isEof = false := by
    rw [isEof, number]
    rfl
  obtain ⟨before, place, c, rest, -, rfl⟩ := cut_ofSource member inside
  have found : (lexeme before c rest).1 = .number := by
    rw [ofLexeme] at number
    dsimp only at number
    unfold reserve at number
    split at number
    · cases number
    · exact number
  rw [ofLexeme, String.toList_ofList]
  exact lexeme_isNumeral found

theorem announces_iff :
    Announces text radix rest ↔ radix? text = some radix ∧ rest = text.drop 2 := by
  constructor
  · intro announces
    cases announces with
    | hexadecimal letter | octal letter | binary letter =>
      rcases letter with rfl | rfl
      · exact ⟨rfl, rfl⟩
      · exact ⟨rfl, rfl⟩
  · rintro ⟨found, rfl⟩
    unfold radix? at found
    split at found
    · split_ifs at found with hexadecimal octal binary
      · cases found
        exact .hexadecimal hexadecimal
      · cases found
        exact .octal octal
      · cases found
        exact .binary binary
    · cases found

theorem radix?_of_letter (letter : c ∈ radixLetters) :
    ∃ radix ≤ 16, ∀ rest, radix? ('0' :: c :: rest) = some radix := by
  simp only [radixLetters, List.mem_cons, List.not_mem_nil, or_false] at letter
  rcases letter with rfl | rfl | rfl | rfl | rfl | rfl
  · exact ⟨16, by decide, fun _ => rfl⟩
  · exact ⟨16, by decide, fun _ => rfl⟩
  · exact ⟨8, by decide, fun _ => rfl⟩
  · exact ⟨8, by decide, fun _ => rfl⟩
  · exact ⟨2, by decide, fun _ => rfl⟩
  · exact ⟨2, by decide, fun _ => rfl⟩

/-- The letter of a radix stays where a number is cleaned. -/
theorem cleaned_of_letter (letter : c ∈ radixLetters) (rest : List Char) :
    cleaned ('0' :: c :: rest) = '0' :: c :: cleaned rest := by
  have separate : c ≠ '_' ∧ c ≠ 'n' := by
    constructor
    · rintro rfl
      exact absurd letter (by decide)
    · rintro rfl
      exact absurd letter (by decide)
  have solid : unseparated ['0', c] = ['0', c] := by simp [unseparated, separate.1]
  have unmarked : ['0', c].rdropWhile (· == 'n') = ['0', c] :=
    List.rdropWhile_concat_neg (· == 'n') ['0'] c (by simp [separate.2])
  change cleaned (['0', c] ++ rest) = ['0', c] ++ cleaned rest
  rw [cleaned, unseparated_append, solid, rdropWhile_append unmarked, cleaned]

/-- Letters, digits and separators that are cleaned start with no sign. -/
private theorem head_cleaned_ne (digits : ∀ d ∈ rest, (isAlphanumeric d || d == '_') = true) :
    (cleaned rest).head? ≠ some '+' := by
  intro sign
  have inside : '+' ∈ unseparated rest :=
    (List.rdropWhile_prefix _ _).subset (List.mem_of_head? sign)
  have refused := digits '+' (List.mem_of_mem_filter inside)
  revert refused
  decide

theorem stripped_eq (raw : String) : stripped raw = cleaned raw.toList :=
  rfl

/-- A number of a source has no value if and only if it starts with the letter of a radix and what
stands behind it, without separators and marks of a big integer, is not readable in this radix. -/
theorem value?_eq_none_iff {source : String} (member : t ∈ ofSource source)
    (number : t.kind = .number) :
    value? t.value = none ↔
      ∃ radix rest, Announces t.value.toList radix rest ∧ Unreadable radix (cleaned rest) := by
  have shape := isNumeral_of_token member number
  rw [value?, Option.map_eq_none_iff, bits?, stripped_eq]
  generalize t.value.toList = text at shape
  obtain ⟨c, rest, rfl, letter, digits⟩ | ⟨whole, frac, expo, mark, rfl, decimal⟩ :=
    exists_isDecimal shape
  · obtain ⟨radix, few, found⟩ := radix?_of_letter letter
    -- A sign would be accepted in front of the digits, but is no part of the number.
    have unsigned := head_cleaned_ne digits
    rw [cleaned_of_letter letter, found]
    dsimp only
    rw [Option.map_eq_none_iff, List.drop_succ_cons, List.drop_succ_cons, List.drop_zero,
      whole?_eq_none few unsigned]
    constructor
    · exact fun unreadable => ⟨radix, rest, announces_iff.mpr ⟨found rest, rfl⟩, unreadable⟩
    · rintro ⟨other, more, announces, unreadable⟩
      obtain ⟨same, behind⟩ := announces_iff.mp announces
      rw [found rest] at same
      obtain rfl := Option.some.inj same
      rw [behind] at unreadable
      exact unreadable
  · -- Neither side holds: a decimal number has a value and no letter of a radix.
    obtain ⟨plain, left⟩ := decimal.cleaned
    obtain ⟨noRadix, hasValue⟩ := value_of_plain plain
    rw [left, noRadix]
    refine iff_of_false (Option.isSome_iff_ne_none.mp hasValue) ?_
    rintro ⟨radix, rest, announces, -⟩
    have letters := decimal.not_letter
    generalize whole ++ (frac ++ (expo ++ mark)) = text at announces letters
    cases announces with
    | hexadecimal letter | octal letter | binary letter =>
      refine letters _ (List.mem_cons_of_mem _ List.mem_cons_self) ?_
      rcases letter with rfl | rfl
      · decide
      · decide

/-- A binary number with a digit that is not binary, and a decimal one with all its parts. -/
theorem value?_eq_none_iff_digits :
    (⟨.number, "0b12n", ⟨.origin, ⟨1, 5, 5⟩⟩⟩ ∈ ofSource "0b12n" ∧ value? "0b12n" = none) ∧
      ⟨.number, "1_.0_e+3n", ⟨.origin, ⟨1, 9, 9⟩⟩⟩ ∈ ofSource "1_.0_e+3n" ∧
        value? "1_.0_e+3n" ≠ none := by
  have binary : ⟨.number, "0b12n", ⟨.origin, ⟨1, 5, 5⟩⟩⟩ ∈ ofSource "0b12n" := by
    have alone : scan [] .origin ('0' :: "b12n".toList) = _ :=
      scan_alone (by decide) .origin rfl
    exact List.mem_of_mem_head? (congrArg List.head? alone)
  have decimal : ⟨.number, "1_.0_e+3n", ⟨.origin, ⟨1, 9, 9⟩⟩⟩ ∈ ofSource "1_.0_e+3n" := by
    have alone : scan [] .origin ('1' :: "_.0_e+3n".toList) = _ :=
      scan_alone (by decide) .origin rfl
    exact List.mem_of_mem_head? (congrArg List.head? alone)
  have noDigit : ∀ value, ¬IsDigitOf 2 '2' value := by
    intro value isDigit
    obtain ⟨read, small⟩ := (isDigitOf_iff (by decide)).mp isDigit
    obtain rfl : 2 = value := Option.some.inj read
    exact absurd small (Nat.lt_irrefl 2)
  refine ⟨⟨binary, ?_⟩, decimal, fun missing => ?_⟩
  · exact (value?_eq_none_iff binary rfl).mpr
      ⟨2, "12n".toList, .binary (.inl rfl), .inr (.inl ⟨'2', by decide, noDigit⟩)⟩
  · obtain ⟨radix, rest, announces, -⟩ := (value?_eq_none_iff decimal rfl).mp missing
    have undecided : radix? "1_.0_e+3n".toList = none := rfl
    have decided := (announces_iff.mp announces).1
    rw [undecided] at decided
    cases decided

end Tokens
end ImportAtlas.NumberValues
