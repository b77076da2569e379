import ImportAtlas.Token.Lexer

/-! The shapes of lexemes. Words, literals and numbers are described by what they
are made of, without the lexer. A lexeme of one of these shapes that is followed by
white space, or by the second half of an arrow, has exactly the extent of its
shape. -/
namespace ImportAtlas.Extent
open Lexeme Token

/-- A character that ends every lexeme but a literal: one between tokens, or the
second half of an arrow. -/
def isStop (c : Char) : Bool :=
  Text.isGap c || c == '>'

/-- What follows a lexeme does not go on with it. -/
def Blunt (after : List Char) : Prop :=
  ∀ c ∈ after.head?, isStop c = true

/-- The code points of the characters that end lexemes. -/
def stopCodes : List Nat :=
  Text.blanks.ranges.flatMap (fun r => List.range' r.1 (r.2 + 1 - r.1)) ++ [0xFEFF, 0x3E]

private theorem mem_stopCodes (stops : isStop c = true) : c.toNat ∈ stopCodes := by
  simp only [isStop, Text.isGap, Text.isBlank, CharSet.contains, Bool.or_eq_true,
    beq_iff_eq] at stops
  rcases stops with (blank | rfl) | rfl
  · obtain ⟨r, listed, low, high⟩ := (CharSet.covers_iff (by decide) _).mp blank
    refine List.mem_append_left _ (List.mem_flatMap.mpr ⟨r, listed, ?_⟩)
    exact List.mem_range'_1.mpr ⟨low, by omega⟩
  · decide
  · decide

/-- There are few characters that end lexemes, so what none of them satisfies is
found by trying them all. -/
theorem refuted_of_isStop {p : Char → Bool} (stops : isStop c = true)
    (none : ∀ n ∈ stopCodes, p (Char.ofNat n) = false) : p c = false := by
  have refuted := none c.toNat (mem_stopCodes stops)
  rwa [Char.ofNat_toNat] at refuted

theorem not_continuesIdentifier (stops : isStop c = true) : continuesIdentifier c = false :=
  refuted_of_isStop stops (by decide +kernel)

/-- The characters of some class and no others make up a run. -/
theorem run_append {p : Char → Bool} {text after : List Char} (all : ∀ c ∈ text, p c = true)
    (ends : ∀ c ∈ after.head?, p c = false) : run p (text ++ after) = text.length := by
  induction text with
  | nil =>
    cases after with
    | nil => rfl
    | cons c after => simp [run, ends c rfl]
  | cons c text ih =>
    have rest := ih fun d member => all d (List.mem_cons_of_mem c member)
    unfold run at rest
    rw [List.cons_append, run, List.takeWhile_cons_of_pos (all c (List.mem_cons_self ..)),
      List.length_cons, rest, List.length_cons]

/-- An identifier or a reserved word. -/
def isWord : List Char → Bool
  | [] => false
  | c :: rest => startsIdentifier c && rest.all continuesIdentifier

private theorem startsIdentifier_ne {c d : Char} (starts : startsIdentifier c = true)
    (other : startsIdentifier d = false) : c ≠ d := by
  rintro rfl
  rw [other] at starts
  cases starts

private theorem single?_of_startsIdentifier (starts : startsIdentifier c = true) : single? c = none := by
  have differs (d : Char) (other : startsIdentifier d = false) := startsIdentifier_ne starts other
  unfold single?
  rw [if_neg (differs _ (by decide)), if_neg (differs _ (by decide)),
    if_neg (differs _ (by decide)), if_neg (differs _ (by decide)),
    if_neg (differs _ (by decide)), if_neg (differs _ (by decide)),
    if_neg (differs _ (by decide)), if_neg (differs _ (by decide))]

/-- What no digit satisfies is found by trying them all. -/
theorem refuted_of_isDigit {p : Char → Bool} (digit : isDigit c = true)
    (none : ∀ n ∈ List.range' 48 10, p (Char.ofNat n) = false) : p c = false := by
  simp only [isDigit, Bool.and_eq_true, decide_eq_true_eq] at digit
  have low : 48 ≤ c.toNat := digit.1
  have high : c.toNat ≤ 57 := digit.2
  have refuted := none c.toNat (List.mem_range'_1.mpr ⟨low, by omega⟩)
  rwa [Char.ofNat_toNat] at refuted

private theorem not_isDigit_of_startsIdentifier (starts : startsIdentifier c = true) : isDigit c = false := by
  cases digit : isDigit c with
  | false => rfl
  | true =>
    rw [refuted_of_isDigit (p := startsIdentifier) digit (by decide)] at starts
    cases starts

theorem lexeme_word {c : Char} {rest : List Char} (before : List Token)
    (shape : isWord (c :: rest) = true) (blunt : Blunt after) :
    lexeme before c (rest ++ after) = (.identifier, (c :: rest).length) := by
  simp only [isWord, Bool.and_eq_true, List.all_eq_true] at shape
  obtain ⟨starts, continues⟩ := shape
  have differs (d : Char) (other : startsIdentifier d = false) := startsIdentifier_ne starts other
  have all : ∀ d ∈ c :: rest, continuesIdentifier d = true :=
    List.forall_mem_cons.mpr ⟨by simp [continuesIdentifier, starts], continues⟩
  have whole : run continuesIdentifier (c :: (rest ++ after)) = (c :: rest).length :=
    run_append all fun d head => not_continuesIdentifier (blunt d head)
  have notNumber : startsNumber c (rest ++ after) = false := by
    have notDot := differs '.' (by decide)
    simp [startsNumber, notDot, not_isDigit_of_startsIdentifier starts]
  simp only [lexeme, single?_of_startsIdentifier starts, differs '\x27' (by decide),
    differs '\x22' (by decide), differs '\x60' (by decide), differs '/' (by decide), notNumber,
    starts, whole, or_self, Bool.false_eq_true, ↓reduceIte]

/-- The rest of a string literal behind its opening quote. -/
inductive Quoted (quote : Char) : List Char → Prop where
  | close : Quoted quote [quote]
  | plain (inside : c ≠ quote) (unescaped : c ≠ '\\') (sameLine : c ≠ '\n')
      (more : Quoted quote rest) : Quoted quote (c :: rest)
  | escape (sameLine : c ≠ '\n') (more : Quoted quote rest) : Quoted quote ('\\' :: c :: rest)

mutual

/-- The rest of a template literal behind its opening quote. -/
inductive Template : List Char → Prop where
  | close : Template ['\x60']
  | plain (inside : c ≠ '\x60') (unescaped : c ≠ '\\')
      (free : c = '$' → rest.head? ≠ some '{') (more : Template rest) : Template (c :: rest)
  | escape (more : Template rest) : Template ('\\' :: c :: rest)
  | substitution (inner : Substitution 0 text) (more : Template rest) :
      Template ('$' :: '{' :: (text ++ rest))

/-- The rest of a substitution with some braces open inside it. -/
inductive Substitution : Nat → List Char → Prop where
  | close : Substitution 0 ['}']
  | closeInner (more : Substitution braces rest) : Substitution (braces + 1) ('}' :: rest)
  | openInner (more : Substitution (braces + 1) rest) : Substitution braces ('{' :: rest)
  | quoted (isQuote : c = '\x27' ∨ c = '\x22') (inner : Quoted c text)
      (more : Substitution braces rest) : Substitution braces (c :: (text ++ rest))
  | template (inner : Template text) (more : Substitution braces rest) :
      Substitution braces ('\x60' :: (text ++ rest))
  | plain (notOpen : c ≠ '{') (notClose : c ≠ '}') (notQuote : ¬(c = '\x27' ∨ c = '\x22'))
      (notTemplate : c ≠ '\x60') (more : Substitution braces rest) :
      Substitution braces (c :: rest)

end

/-- A terminated string or template literal. -/
inductive IsLiteral : List Char → Prop where
  | quoted (isQuote : c = '\x27' ∨ c = '\x22') (rest : Quoted c text) : IsLiteral (c :: text)
  | template (rest : Template text) : IsLiteral ('\x60' :: text)

theorem Quoted.getLast?_eq (shape : Quoted quote text) : text.getLast? = some quote := by
  induction shape with
  | close => rfl
  | plain _ _ _ _ ih => simp [List.getLast?_cons, ih]
  | escape _ _ ih => simp [List.getLast?_cons, ih]

theorem Template.getLast?_eq : Template text → text.getLast? = some '\x60'
  | .close => rfl
  | .plain _ _ _ more => by simp [List.getLast?_cons, more.getLast?_eq]
  | .escape more => by simp [List.getLast?_cons, more.getLast?_eq]
  | .substitution _ more => by simp [List.getLast?_cons, List.getLast?_append, more.getLast?_eq]

section Steps
variable (outer : List Enclosure) (rest : List Char)

private theorem enclosed_quoted_plain (unescaped : c ≠ '\\') (sameLine : c ≠ '\n') :
    enclosed (.quoted quote :: outer) (c :: rest) =
      (if c = quote then enclosed outer rest else enclosed (.quoted quote :: outer) rest) + 1 := by
  rw [enclosed.eq_def]
  simp only [unescaped, sameLine, ↓reduceIte]
  split
  · rfl
  · rfl

private theorem enclosed_quoted_escape (sameLine : c ≠ '\n') :
    enclosed (.quoted quote :: outer) ('\\' :: c :: rest) =
      enclosed (.quoted quote :: outer) rest + 2 := by
  rw [enclosed.eq_def]
  simp only [sameLine, ↓reduceIte]

private theorem enclosed_template_close :
    enclosed (.template :: outer) ('\x60' :: rest) = enclosed outer rest + 1 := by
  rw [enclosed.eq_def]
  rfl

private theorem enclosed_template_plain (inside : c ≠ '\x60') (unescaped : c ≠ '\\')
    (more : rest ≠ []) (free : c = '$' → rest.head? ≠ some '{') :
    enclosed (.template :: outer) (c :: rest) = enclosed (.template :: outer) rest + 1 := by
  rw [enclosed.eq_def]
  simp only [inside, unescaped, ↓reduceIte]
  split
  · rename_i dollar
    obtain _ | ⟨d, later⟩ := rest
    · exact absurd rfl more
    · have other : d ≠ '{' := fun brace => free dollar (by rw [brace]; rfl)
      simp only [other, ↓reduceIte]
  · rfl

private theorem enclosed_template_escape :
    enclosed (.template :: outer) ('\\' :: c :: rest) = enclosed (.template :: outer) rest + 2 := by
  rw [enclosed.eq_def]
  rfl

private theorem enclosed_template_substitution :
    enclosed (.template :: outer) ('$' :: '{' :: rest) =
      enclosed (.substitution 0 :: .template :: outer) rest + 2 := by
  rw [enclosed.eq_def]
  rfl

end Steps

/-- A quote closes its literal where the literal's text ends. -/
theorem enclosed_quoted (isQuote : c = '\x27' ∨ c = '\x22') (shape : Quoted c text)
    (outer : List Enclosure) (after : List Char) :
    enclosed (.quoted c :: outer) (text ++ after) = text.length + enclosed outer after := by
  have plainQuote : c ≠ '\\' ∧ c ≠ '\n' := by
    rcases isQuote with rfl | rfl
    · decide
    · decide
  induction shape with
  | close =>
    rw [List.singleton_append, enclosed_quoted_plain _ _ plainQuote.1 plainQuote.2, if_pos rfl,
      List.length_singleton, Nat.add_comm]
  | plain inside unescaped sameLine _ ih =>
    rw [List.cons_append, enclosed_quoted_plain _ _ unescaped sameLine, if_neg inside, ih,
      List.length_cons]
    omega
  | escape sameLine _ ih =>
    rw [List.cons_append, List.cons_append, enclosed_quoted_escape _ _ sameLine, ih,
      List.length_cons, List.length_cons]
    omega

theorem Template.ne_nil (shape : Template text) : text ≠ [] := by
  cases shape with
  | _ => simp

mutual

/-- A template ends where its text ends, whatever its substitutions hold. -/
theorem enclosed_template (outer : List Enclosure) (after : List Char) : Template text →
    enclosed (.template :: outer) (text ++ after) = text.length + enclosed outer after
  | .close => by
    rw [List.singleton_append, enclosed_template_close, List.length_singleton, Nat.add_comm]
  | .plain inside unescaped free more => by
    have ih := enclosed_template outer after more
    have filled := more.ne_nil
    rw [List.cons_append, enclosed_template_plain _ _ inside unescaped (by simp [filled]), ih,
      List.length_cons]
    · omega
    · intro dollar
      have free := free dollar
      rw [List.head?_eq_some_head filled] at free
      rw [List.head?_append, List.head?_eq_some_head filled]
      exact free
  | .escape more => by
    have ih := enclosed_template outer after more
    rw [List.cons_append, List.cons_append, enclosed_template_escape, ih, List.length_cons,
      List.length_cons]
    omega
  | .substitution inner more => by
    have ih := enclosed_template outer after more
    have first (later : List Char) := enclosed_substitution (.template :: outer) later inner
    rw [List.cons_append, List.cons_append, List.append_assoc, enclosed_template_substitution, first,
      ih, List.length_cons, List.length_cons, List.length_append]
    omega

theorem enclosed_substitution (outer : List Enclosure) (after : List Char) :
    Substitution braces text →
      enclosed (.substitution braces :: outer) (text ++ after) = text.length + enclosed outer after
  | .close => by
    simp [enclosed, Nat.add_comm]
  | .closeInner more => by
    have ih := enclosed_substitution outer after more
    simp [enclosed, ih]
    omega
  | .openInner more => by
    have ih := enclosed_substitution outer after more
    simp [enclosed, ih]
    omega
  | .quoted isQuote inner more => by
    have ih := enclosed_substitution outer after more
    have first (later : List Char) :=
      enclosed_quoted isQuote inner (.substitution braces :: outer) later
    have notBrace : ∀ c : Char, c = '\x27' ∨ c = '\x22' → c ≠ '{' ∧ c ≠ '}' := by
      rintro c (rfl | rfl)
      · decide
      · decide
    obtain ⟨notOpen, notClose⟩ := notBrace _ isQuote
    simp only [List.cons_append, enclosed, notOpen, notClose, isQuote, ↓reduceIte, List.append_assoc,
      first, ih, List.length_cons, List.length_append]
    omega
  | .template inner more => by
    have ih := enclosed_substitution outer after more
    have first (later : List Char) :=
      enclosed_template (.substitution braces :: outer) later inner
    simp [enclosed, first, ih]
    omega
  | .plain notOpen notClose notQuote notTemplate more => by
    have ih := enclosed_substitution outer after more
    simp only [List.cons_append, enclosed, notOpen, notClose, notQuote, notTemplate, ↓reduceIte, ih,
      List.length_cons]
    omega

end

/-- A literal is one lexeme, whatever follows it. -/
theorem lexeme_literal {c : Char} {rest : List Char} (before : List Token)
    (shape : IsLiteral (c :: rest)) (after : List Char) :
    lexeme before c (rest ++ after) = (.string, (c :: rest).length) := by
  cases shape with
  | quoted isQuote shape =>
    have extent := enclosed_quoted isQuote shape [] after
    have none : single? c = none := by
      rcases isQuote with rfl | rfl
      · decide
      · decide
    simp only [lexeme, none, isQuote, ↓reduceIte, extent, enclosed, List.length_cons, Nat.add_zero]
  | template shape =>
    have extent := enclosed_template [] after shape
    have none : single? '\x60' = none := by decide
    have notQuote : ¬('\x60' = '\x27' ∨ '\x60' = '\x22') := by decide
    simp only [lexeme, none, notQuote, ↓reduceIte, extent, enclosed, List.length_cons, Nat.add_zero]

/-- The fraction of a number, if it has one. -/
inductive IsFraction : List Char → Prop where
  | none : IsFraction []
  | point (digits : ∀ c ∈ text, isDigitOrSeparator c = true) : IsFraction ('.' :: text)

/-- The exponent of a number, if it has one. -/
inductive IsExponent : List Char → Prop where
  | none : IsExponent []
  | unsigned (letter : e = 'e' ∨ e = 'E') (digit : isDigit d = true)
      (digits : ∀ c ∈ text, isDigitOrSeparator c = true) : IsExponent (e :: d :: text)
  | signed (letter : e = 'e' ∨ e = 'E') (signs : s = '+' ∨ s = '-') (digit : isDigit d = true)
      (digits : ∀ c ∈ text, isDigitOrSeparator c = true) : IsExponent (e :: s :: d :: text)

/-- A number literal: one with a radix, or a decimal one that starts with a digit or
with a point and a digit. -/
inductive IsNumeral : List Char → Prop where
  | radix (letter : radixLetters.contains c = true)
      (digits : ∀ c ∈ text, (isAlphanumeric c || c == '_') = true) : IsNumeral ('0' :: c :: text)
  | decimal (digit : isDigit d = true) (digits : ∀ c ∈ whole, isDigitOrSeparator c = true)
      (hasFraction : IsFraction frac) (hasExponent : IsExponent expo)
      (hasMark : mark = [] ∨ mark = ['n']) :
      IsNumeral (d :: (whole ++ (frac ++ (expo ++ mark))))
  | point (digit : isDigit d = true) (digits : ∀ c ∈ text, isDigitOrSeparator c = true)
      (hasExponent : IsExponent expo) (hasMark : mark = [] ∨ mark = ['n']) :
      IsNumeral ('.' :: d :: (text ++ (expo ++ mark)))

/-- The next character, if there is one, does not satisfy a predicate. -/
def Without (p : Char → Bool) (text : List Char) : Prop :=
  ∀ c ∈ text.head?, p c = false

theorem Without.mono {p q : Char → Bool} (ends : Without q text)
    (weaker : ∀ c, q c = false → p c = false) : Without p text :=
  fun c head => weaker c (ends c head)

theorem Without.nextIs {p : Char → Bool} (ends : Without p text) : nextIs p text = false := by
  cases text with
  | nil => rfl
  | cons c rest => exact ends c rfl

/-- The characters that numbers and operators may go on with. -/
def isPart (c : Char) : Bool :=
  isDigitOrSeparator c || isAlphanumeric c || radixLetters.contains c ||
    (c == '0' || c == '.' || c == '+' || c == '-' || c == 'e' || c == 'E' || c == 'n') ||
    (c == '=' || c == '*')

/-- What ends a lexeme is not a part of a number or an operator. -/
theorem Blunt.without {p : Char → Bool} (blunt : Blunt after)
    (part : ∀ c, isPart c = false → p c = false) : Without p after := by
  have none : Without isPart after := fun c head =>
    refuted_of_isStop (blunt c head) (by decide +kernel)
  exact none.mono part

private theorem refuted_of_isDigitOrSeparator {p : Char → Bool} (digit : isDigitOrSeparator c = true)
    (none : ∀ n ∈ 95 :: List.range' 48 10, p (Char.ofNat n) = false) : p c = false := by
  simp only [isDigitOrSeparator, Bool.or_eq_true, beq_iff_eq] at digit
  rcases digit with digit | rfl
  · exact refuted_of_isDigit digit fun n member => none n (List.mem_cons_of_mem 95 member)
  · exact none 95 (List.mem_cons_self ..)

/-- Some digits, and what comes after them. -/
theorem without_digits {p : Char → Bool} (digits : ∀ c ∈ text, isDigitOrSeparator c = true)
    (none : ∀ n ∈ 95 :: List.range' 48 10, p (Char.ofNat n) = false) (ends : Without p after) :
    Without p (text ++ after) := by
  cases text with
  | nil => exact ends
  | cons d text =>
    intro c head
    obtain rfl : d = c := by simpa using head
    exact refuted_of_isDigitOrSeparator (digits d (List.mem_cons_self ..)) none

private theorem bigMark_append (hasMark : mark = [] ∨ mark = ['n']) (ends : Without (· == 'n') after) :
    bigMark (mark ++ after) = mark.length := by
  rcases hasMark with rfl | rfl
  · obtain _ | ⟨c, rest⟩ := after
    · rfl
    · have other : c ≠ 'n' := by simpa using ends c rfl
      unfold bigMark
      split
      · rename_i same
        exact absurd (List.cons.inj same).1 other
      · rfl
  · rfl

private theorem fraction_append (hasFraction : IsFraction frac)
    (ends : Without (fun c => isDigitOrSeparator c || c == '.') after) :
    fraction (frac ++ after) = frac.length := by
  cases hasFraction with
  | none =>
    obtain _ | ⟨c, rest⟩ := after
    · rfl
    · have other : c ≠ '.' := by
        have refuted := ends c rfl
        simp only [Bool.or_eq_false_iff, beq_eq_false_iff_ne] at refuted
        exact refuted.2
      unfold fraction
      split
      · rename_i same
        exact absurd (List.cons.inj same).1 other
      · rfl
  | @point text digits =>
    have extent : run isDigitOrSeparator (text ++ after) = text.length := by
      refine run_append digits fun c head => ?_
      have refuted := ends c head
      simp only [Bool.or_eq_false_iff] at refuted
      exact refuted.1
    have noPoint : nextIs (· == '.') (text ++ after) = false := by
      refine (without_digits digits (by decide) (ends.mono fun c refuted => ?_)).nextIs
      simp only [Bool.or_eq_false_iff] at refuted
      exact refuted.2
    simp only [List.cons_append, fraction, noPoint, extent, Bool.false_eq_true, ↓reduceIte,
      List.length_cons]

private theorem exponent_append (hasExponent : IsExponent expo)
    (ends : Without (fun c => isDigitOrSeparator c || c == 'e' || c == 'E') after) :
    exponent (expo ++ after) = expo.length := by
  have behind : Without isDigitOrSeparator after := ends.mono fun c refuted => by
    simp only [Bool.or_eq_false_iff] at refuted
    exact refuted.1.1
  have digitsOf {d : Char} {text : List Char} (digit : isDigit d = true)
      (digits : ∀ c ∈ text, isDigitOrSeparator c = true) :
      run isDigitOrSeparator (d :: (text ++ after)) = text.length + 1 :=
    run_append (List.forall_mem_cons.mpr ⟨by simp [isDigitOrSeparator, digit], digits⟩) behind
  cases hasExponent with
  | none =>
    obtain _ | ⟨c, rest⟩ := after
    · rfl
    · have refuted := ends c rfl
      simp only [Bool.or_eq_false_iff, beq_eq_false_iff_ne] at refuted
      simp [exponent, refuted.1.2, refuted.2]
  | @unsigned e d text letter digit digits =>
    have unsigned : sign (d :: (text ++ after)) = 0 := by
      have plus := refuted_of_isDigit (p := (· == '+')) digit (by decide)
      have minus := refuted_of_isDigit (p := (· == '-')) digit (by decide)
      simp only [beq_eq_false_iff_ne] at plus minus
      simp [sign, plus, minus]
    simp only [List.cons_append, exponent, letter, ↓reduceIte, unsigned, List.drop_zero,
      Lexeme.nextIs, digit, digitsOf digit digits, List.length_cons]
    omega
  | @signed e sign d text letter signs digit digits =>
    simp only [List.cons_append, exponent, letter, ↓reduceIte, Lexeme.sign, signs,
      List.drop_succ_cons, List.drop_zero, Lexeme.nextIs, digit, digitsOf digit digits,
      List.length_cons]
    omega

/-- What the parts of a number behind its digits do not start with. -/
private theorem without_mark {p : Char → Bool} (hasMark : mark = [] ∨ mark = ['n']) (blunt : Blunt after)
    (refuted : p 'n' = false) (part : ∀ c, isPart c = false → p c = false) :
    Without p (mark ++ after) := by
  rcases hasMark with rfl | rfl
  · exact blunt.without part
  · intro c head
    obtain rfl : 'n' = c := by simpa using head
    exact refuted

private theorem without_exponent {p : Char → Bool} (hasExponent : IsExponent expo)
    (refuted : p 'e' = false ∧ p 'E' = false) (ends : Without p after) :
    Without p (expo ++ after) := by
  have letters : ∀ e : Char, e = 'e' ∨ e = 'E' → p e = false := by
    rintro e (rfl | rfl)
    · exact refuted.1
    · exact refuted.2
  cases hasExponent with
  | none => exact ends
  | @unsigned e d text letter _ _ =>
    intro c head
    obtain rfl : e = c := by simpa using head
    exact letters e letter
  | @signed e s d text letter _ _ _ =>
    intro c head
    obtain rfl : e = c := by simpa using head
    exact letters e letter

private theorem without_fraction {p : Char → Bool} (hasFraction : IsFraction frac)
    (refuted : p '.' = false) (ends : Without p after) : Without p (frac ++ after) := by
  cases hasFraction with
  | none => exact ends
  | point _ =>
    intro c head
    obtain rfl : '.' = c := by simpa using head
    exact refuted

/-- The parts of a decimal number add up to its extent. -/
private theorem number_decimal (notRadix : hasRadix (digits ++ (frac ++ (expo ++ (mark ++ after)))) = false)
    (all : ∀ c ∈ digits, isDigitOrSeparator c = true) (hasFraction : IsFraction frac)
    (hasExponent : IsExponent expo) (hasMark : mark = [] ∨ mark = ['n']) (blunt : Blunt after) :
    number (digits ++ (frac ++ (expo ++ (mark ++ after)))) =
      (digits ++ (frac ++ (expo ++ mark))).length := by
  have behindMark := bigMark_append hasMark (blunt.without (p := (· == 'n')) (by grind [isPart]))
  have behindExponent := exponent_append hasExponent
    (without_mark hasMark blunt (by decide) (by grind [isPart]))
  have behindFraction := fraction_append hasFraction
    (without_exponent hasExponent (by decide) (without_mark hasMark blunt (by decide) (by grind [isPart])))
  have wholeExtent := run_append (p := isDigitOrSeparator) all
    (without_fraction hasFraction (by decide) (without_exponent hasExponent (by decide)
      (without_mark hasMark blunt (by decide) (by grind [isPart]))))
  unfold number
  rw [if_neg (by simp [notRadix])]
  simp only [wholeExtent, List.drop_left, behindFraction]
  rw [← List.length_append, ← List.append_assoc digits, List.drop_left, behindExponent,
    ← List.length_append, ← List.append_assoc (digits ++ frac), List.drop_left, behindMark]
  simp only [List.length_append]
  omega

private theorem hasRadix_cons (ends : Without radixLetters.contains rest) : hasRadix (c :: rest) = false := by
  unfold hasRadix
  split
  · rename_i letter more same
    exact ends letter (by rw [(List.cons.inj same).2]; rfl)
  · rfl

/-- A numeral has its own extent in front of a character that ends it. -/
theorem number_numeral (shape : IsNumeral text) (blunt : Blunt after) :
    number (text ++ after) = text.length := by
  cases shape with
  | @radix c text letter digits =>
    have extent : run (fun c => isAlphanumeric c || c == '_') (text ++ after) = text.length :=
      run_append digits (blunt.without (by grind [isPart, isDigitOrSeparator]))
    have announces : hasRadix ('0' :: c :: (text ++ after)) = true := letter
    simp only [List.cons_append, number, announces, ↓reduceIte, List.drop_succ_cons,
      List.drop_zero, extent, List.length_cons]
    omega
  | @decimal d whole frac expo mark digit digits hasFraction hasExponent hasMark =>
    have notRadix : hasRadix (d :: (whole ++ (frac ++ (expo ++ (mark ++ after))))) = false := by
      refine hasRadix_cons (without_digits digits (by decide) ?_)
      exact without_fraction hasFraction (by decide) (without_exponent hasExponent (by decide)
        (without_mark hasMark blunt (by decide) (by grind [isPart])))
    have extent : number ((d :: whole) ++ (frac ++ (expo ++ (mark ++ after)))) = _ :=
      number_decimal notRadix
        (List.forall_mem_cons.mpr ⟨by simp [isDigitOrSeparator, digit], digits⟩)
        hasFraction hasExponent hasMark blunt
    simpa [List.append_assoc] using extent
  | @point d text expo mark digit digits hasExponent hasMark =>
    have hasFraction : IsFraction ('.' :: d :: text) :=
      .point (List.forall_mem_cons.mpr ⟨by simp [isDigitOrSeparator, digit], digits⟩)
    have extent : number ([] ++ (('.' :: d :: text) ++ (expo ++ (mark ++ after)))) = _ :=
      number_decimal rfl (by simp) hasFraction hasExponent hasMark blunt
    simpa [List.append_assoc] using extent

theorem lexeme_numeral {c : Char} {rest : List Char} (before : List Token)
    (shape : IsNumeral (c :: rest)) (blunt : Blunt after) :
    lexeme before c (rest ++ after) = (.number, (c :: rest).length) := by
  have extent := number_numeral shape blunt
  rw [List.cons_append] at extent
  have digitPasses {d : Char} (digit : isDigit d = true) :
      single? d = none ∧ ¬(d = '\x27' ∨ d = '\x22') ∧ d ≠ '\x60' ∧ d ≠ '/' := by
    have none := refuted_of_isDigit (p := fun d => (single? d).isSome) digit (by decide)
    have differs := refuted_of_isDigit
      (p := fun d => d == '\x27' || d == '\x22' || d == '\x60' || d == '/') digit (by decide)
    simp only [Bool.or_eq_false_iff, beq_eq_false_iff_ne] at differs
    obtain ⟨⟨⟨single, double⟩, back⟩, slash⟩ := differs
    exact ⟨by simpa using none, by simp [single, double], back, slash⟩
  have passes : (single? c = none ∧ ¬(c = '\x27' ∨ c = '\x22') ∧ c ≠ '\x60' ∧ c ≠ '/') ∧
      startsNumber c (rest ++ after) = true := by
    cases shape with
    | radix letter digits => exact ⟨digitPasses rfl, rfl⟩
    | decimal digit _ _ _ _ => exact ⟨digitPasses digit, by simp [startsNumber, digit]⟩
    | point digit _ _ _ => exact ⟨by decide, by simp [startsNumber, Lexeme.nextIs, digit]⟩
  obtain ⟨⟨none, notQuote, notBack, notSlash⟩, starts⟩ := passes
  simp only [lexeme, none, notQuote, notBack, notSlash, starts, extent, ↓reduceIte]

/-- The operators that stand between the parts of an expression or a statement. -/
def plainOperators : List Char :=
  ['.', ':', '=', ';', '*']

private theorem operator_plain (listed : c ∈ plainOperators) (blunt : Blunt after) :
    operator (c :: after) = 1 := by
  have ends : Without (fun d => d == '.' || d == '=' || d == '*') after :=
    blunt.without (by grind [isPart])
  obtain _ | ⟨d, rest⟩ := after
  · have all : plainOperators.all (operator [·] == 1) = true := by decide +kernel
    exact beq_iff_eq.mp (List.all_eq_true.mp all c listed)
  · have refuted := ends d rfl
    simp only [Bool.or_eq_false_iff, beq_eq_false_iff_ne] at refuted
    obtain ⟨⟨notDot, notEquals⟩, notStar⟩ := refuted
    simp only [plainOperators, List.mem_cons, List.not_mem_nil, or_false] at listed
    rcases listed with rfl | rfl | rfl | rfl | rfl
    all_goals
      simp [operator, operators, List.isPrefixOf, notDot.symm, notEquals.symm, notStar.symm]
      rfl

theorem lexeme_operator (before : List Token) (listed : c ∈ plainOperators) (blunt : Blunt after) :
    lexeme before c after = (.operator, 1) := by
  have all : plainOperators.all (fun c => decide (single? c = none ∧
      ¬(c = '\x27' ∨ c = '\x22') ∧ c ≠ '\x60' ∧ c ≠ '/' ∧ isDigit c = false ∧
      startsIdentifier c = false)) = true := by decide +kernel
  obtain ⟨none, notQuote, notBack, notSlash, notDigit, notWord⟩ :=
    of_decide_eq_true (List.all_eq_true.mp all c listed)
  have digits : Without isDigit after := blunt.without (by grind [isPart, isDigitOrSeparator])
  have notNumber : startsNumber c after = false := by
    simp [startsNumber, notDigit, digits.nextIs]
  simp only [lexeme, none, notQuote, notBack, notSlash, notNumber, notWord,
    operator_plain listed blunt, Bool.false_eq_true, ↓reduceIte]

end ImportAtlas.Extent