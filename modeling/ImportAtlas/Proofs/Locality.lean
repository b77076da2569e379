import Mathlib.Data.List.TakeWhile
import ImportAtlas.Proofs.Extent

/-! How far lexing looks ahead. Where a lexeme ends is decided before the next token: what
stands behind the first character of a gap takes no part in the lexemes in front of it. Words,
numbers and operators always end at a gap. Literals, comments and regular expressions may go
past it, but one that does not would not do so with another text behind the gap. -/
namespace ImportAtlas.Locality
open Extent Lexeme Token

section Blunt
variable {after : List Char}

theorem run_append_of_without {p : Char → Bool} (ends : Without p after) (text : List Char) :
    run p (text ++ after) = run p text := by
  induction text with
  | nil =>
    cases after with
    | nil => rfl
    | cons c after => simp [run, ends c rfl]
  | cons c text ih =>
    unfold run at ih ⊢
    by_cases belongs : p c = true
    · simp [belongs, ih]
    · simp [belongs]

theorem run_le (p : Char → Bool) (text : List Char) : run p text ≤ text.length :=
  (List.takeWhile_prefix p).length_le

/-- A run takes what satisfies its predicate. -/
theorem take_run (p : Char → Bool) (text : List Char) :
    text.take (run p text) = text.takeWhile p :=
  (List.prefix_iff_eq_take.mp (List.takeWhile_prefix p)).symm

theorem exists_of_nextIs {p : Char → Bool} (next : nextIs p text = true) :
    ∃ c rest, text = c :: rest ∧ p c = true := by
  cases text with
  | nil => cases next
  | cons c rest => exact ⟨c, rest, rfl, next⟩

theorem nextIs_append_of_without {p : Char → Bool} (ends : Without p after) (text : List Char) :
    nextIs p (text ++ after) = nextIs p text := by
  cases text with
  | nil => exact ends.nextIs
  | cons c text => rfl

theorem drop_append_of_le {n : Nat} {text : List Char} (inside : n ≤ text.length) :
    (text ++ after).drop n = text.drop n ++ after :=
  List.drop_append_of_le_length inside

private theorem hasRadix_eq (text : List Char) :
    hasRadix text = (nextIs (· == '0') text && nextIs radixLetters.contains (text.drop 1)) := by
  match text with
  | [] => rfl
  | [c] => simp [hasRadix, nextIs]
  | c :: d :: text =>
    by_cases zero : c = '0'
    · subst zero
      rfl
    · simp [hasRadix, nextIs, zero]

private theorem two_le_of_hasRadix (radix : hasRadix text = true) : 2 ≤ text.length := by
  rcases text with _ | ⟨c, _ | ⟨d, text⟩⟩
  · cases radix
  · simp [hasRadix] at radix
  · simp

theorem hasRadix_append (blunt : Blunt after) (text : List Char) :
    hasRadix (text ++ after) = hasRadix text := by
  have zero : Without (· == '0') after := blunt.without (by grind [isPart])
  have letter : Without radixLetters.contains after := blunt.without (by grind [isPart])
  rw [hasRadix_eq, hasRadix_eq, nextIs_append_of_without zero]
  cases text with
  | nil => rfl
  | cons c text => rw [List.cons_append, List.drop_one, List.drop_one, List.tail_cons,
      List.tail_cons, nextIs_append_of_without letter]

private theorem fraction_le (text : List Char) : fraction text ≤ text.length := by
  unfold fraction
  split
  · rename_i rest
    have inner := run_le isDigitOrSeparator rest
    split
    · omega
    · rw [List.length_cons]
      omega
  · omega

private theorem fraction_append (blunt : Blunt after) (text : List Char) :
    fraction (text ++ after) = fraction text := by
  have digits : Without isDigitOrSeparator after := blunt.without (by grind [isPart])
  have points : Without (· == '.') after := blunt.without (by grind [isPart])
  cases text with
  | nil =>
    cases after with
    | nil => rfl
    | cons c after =>
      have other : c ≠ '.' := by simpa using points c rfl
      simp [fraction, other]
  | cons c text =>
    by_cases point : c = '.'
    · subst point
      rw [List.cons_append, fraction, fraction, nextIs_append_of_without points,
        run_append_of_without digits]
    · simp [fraction, point]

private theorem sign_le (text : List Char) : sign text ≤ text.length := by
  cases text with
  | nil => exact Nat.le_refl _
  | cons c text =>
    rw [sign, List.length_cons]
    split
    · omega
    · omega

private theorem sign_append (blunt : Blunt after) (text : List Char) :
    sign (text ++ after) = sign text := by
  have signs : Without (fun c => c == '+' || c == '-') after := blunt.without (by grind [isPart])
  cases text with
  | nil =>
    cases after with
    | nil => rfl
    | cons c after =>
      have other : ¬(c = '+' ∨ c = '-') := by simpa using signs c rfl
      simp [sign, other]
  | cons c text => rfl

private theorem exponent_le (text : List Char) : exponent text ≤ text.length := by
  cases text with
  | nil => exact Nat.le_refl _
  | cons c text =>
    have signed := sign_le text
    have digits := run_le isDigitOrSeparator (text.drop (sign text))
    rw [List.length_drop] at digits
    simp only [exponent, List.length_cons]
    split
    · split
      · omega
      · omega
    · omega

private theorem exponent_append (blunt : Blunt after) (text : List Char) :
    exponent (text ++ after) = exponent text := by
  have digits : Without isDigitOrSeparator after := blunt.without (by grind [isPart])
  have digit : Without isDigit after := blunt.without (by grind [isPart, isDigitOrSeparator])
  have letters : Without (fun c => c == 'e' || c == 'E') after := blunt.without (by grind [isPart])
  cases text with
  | nil =>
    cases after with
    | nil => rfl
    | cons c after =>
      have other : ¬(c = 'e' ∨ c = 'E') := by simpa using letters c rfl
      simp [exponent, other]
  | cons c text =>
    simp only [List.cons_append, exponent, sign_append blunt, drop_append_of_le (sign_le text),
      nextIs_append_of_without digit, run_append_of_without digits]

private theorem bigMark_le (text : List Char) : bigMark text ≤ text.length := by
  unfold bigMark
  split
  · simp
  · exact Nat.zero_le _

private theorem bigMark_append (blunt : Blunt after) (text : List Char) :
    bigMark (text ++ after) = bigMark text := by
  have mark : Without (· == 'n') after := blunt.without (by grind [isPart])
  cases text with
  | nil =>
    cases after with
    | nil => rfl
    | cons c after =>
      have other : c ≠ 'n' := by simpa using mark c rfl
      simp [bigMark, other]
  | cons c text =>
    by_cases marks : c = 'n'
    · subst marks
      rfl
    · simp [bigMark, marks]

/-- A number ends at a gap or before it. -/
theorem number_append (blunt : Blunt after) (text : List Char) :
    number (text ++ after) = number text := by
  have digits : Without isDigitOrSeparator after := blunt.without (by grind [isPart])
  have letters : Without (fun c => isAlphanumeric c || c == '_') after :=
    blunt.without (by grind [isPart, isDigitOrSeparator])
  have whole := run_le isDigitOrSeparator text
  have withFraction : run isDigitOrSeparator text +
      fraction (text.drop (run isDigitOrSeparator text)) ≤ text.length := by
    have part := fraction_le (text.drop (run isDigitOrSeparator text))
    rw [List.length_drop] at part
    omega
  have withExponent : run isDigitOrSeparator text +
      fraction (text.drop (run isDigitOrSeparator text)) +
      exponent (text.drop (run isDigitOrSeparator text +
        fraction (text.drop (run isDigitOrSeparator text)))) ≤ text.length := by
    have part := exponent_le (text.drop (run isDigitOrSeparator text +
      fraction (text.drop (run isDigitOrSeparator text))))
    rw [List.length_drop] at part
    omega
  unfold number
  rw [hasRadix_append blunt]
  by_cases radix : hasRadix text = true
  · rw [if_pos radix, if_pos radix, drop_append_of_le (two_le_of_hasRadix radix),
      run_append_of_without letters]
  · rw [if_neg radix, if_neg radix]
    simp only [run_append_of_without digits, drop_append_of_le whole, fraction_append blunt,
      drop_append_of_le withFraction, exponent_append blunt, drop_append_of_le withExponent,
      bigMark_append blunt]

private theorem isPrefixOf_append {op : List Char} (blunt : Blunt after) (solid : ∀ c ∈ op, isStop c = false)
    (text : List Char) : op.isPrefixOf (text ++ after) = op.isPrefixOf text := by
  induction op generalizing text with
  | nil => simp
  | cons c op ih =>
    obtain ⟨first, later⟩ := List.forall_mem_cons.mp solid
    cases text with
    | nil =>
      cases after with
      | nil => rfl
      | cons d after =>
        have other : c ≠ d := by
          rintro rfl
          simp [blunt c rfl] at first
        simp [List.isPrefixOf, other]
    | cons d text => simp [List.isPrefixOf, ih later]

/-- No operator has a character in it that ends lexemes. -/
theorem not_isStop_of_operator : ∀ op ∈ operators, ∀ c ∈ op.toList, isStop c = false := by
  have all : operators.all (·.toList.all fun c => !isStop c) = true := by decide +kernel
  simpa only [List.all_eq_true, Bool.not_eq_true'] using all

/-- An operator ends at a gap or before it. -/
theorem operator_append (blunt : Blunt after) (text : List Char) :
    operator (text ++ after) = operator text := by
  have digit : Without isDigit after :=
    blunt.without (by grind [isPart, isDigitOrSeparator])
  have sameFound : (operators.find? fun op => op.toList.isPrefixOf (text ++ after)) =
      operators.find? fun op => op.toList.isPrefixOf text := by
    rw [← List.head?_filter, ← List.head?_filter]
    refine congrArg List.head? (List.filter_congr ?_)
    intro op listed
    exact isPrefixOf_append blunt (not_isStop_of_operator op listed) text
  unfold operator
  rw [sameFound]
  split
  · rename_i op found
    by_cases mark : op = "?."
    · have begins := List.find?_some found
      subst mark
      have long : 2 ≤ text.length := (List.isPrefixOf_iff_prefix.mp begins).length_le
      rw [drop_append_of_le long, nextIs_append_of_without digit]
    · simp [mark]
  · rfl

end Blunt

section Gap
variable {g : Char} {tail tail' : List Char}

/-- A run that ends within a text does not see what is behind the next character. -/
theorem run_local {p : Char → Bool} {text : List Char} (inside : run p (text ++ g :: tail) ≤ text.length) :
    run p (text ++ g :: tail') = run p (text ++ g :: tail) := by
  induction text with
  | nil =>
    by_cases belongs : p g = true
    · simp [run, belongs] at inside
    · simp [run, belongs]
  | cons c text ih =>
    unfold run at ih inside ⊢
    by_cases belongs : p c = true
    · simp only [List.cons_append, List.takeWhile_cons_of_pos belongs, List.length_cons] at inside ⊢
      rw [ih (by omega)]
    · simp [belongs]

theorem blockCommentRest_local {text : List Char}
    (inside : blockCommentRest (text ++ g :: tail) ≤ text.length) :
    blockCommentRest (text ++ g :: tail') = blockCommentRest (text ++ g :: tail) := by
  induction text with
  | nil =>
    rw [List.nil_append, blockCommentRest] at inside
    split at inside
    · simp at inside
    · simp at inside
  | cons c text ih =>
    have next : nextIs (· == '/') (text ++ g :: tail') = nextIs (· == '/') (text ++ g :: tail) := by
      cases text with
      | _ => rfl
    simp only [List.cons_append, blockCommentRest, next, List.length_cons] at inside ⊢
    split
    · rfl
    · rename_i open'
      rw [if_neg open'] at inside
      rw [ih (by omega)]

/-- The first character of a regular expression closes it, or leaves it to the characters behind
it to do so. What it does depends on nothing behind it. -/
theorem regexRest?_cons {inClass escaped : Bool} {c : Char} {text : List Char}
    (found : regexRest? inClass escaped (c :: text) = some extent) :
    (c = '/' ∧ extent = 1 ∧ ∀ text, regexRest? inClass escaped (c :: text) = some 1) ∨
      ∃ inClass' escaped' more, regexRest? inClass' escaped' text = some more ∧ extent = more + 1 ∧
        c ≠ '\n' ∧ ∀ text, regexRest? inClass escaped (c :: text) =
          (regexRest? inClass' escaped' text).map (· + 1) := by
  have further {inClass' escaped' : Bool} (sameLine : ¬(c = '\n' ∨ c = '\r'))
      (found : (regexRest? inClass' escaped' text).map (· + 1) = some extent)
      (same : ∀ text, regexRest? inClass escaped (c :: text) =
        (regexRest? inClass' escaped' text).map (· + 1)) :
      ∃ inClass' escaped' more, regexRest? inClass' escaped' text = some more ∧
        extent = more + 1 ∧ c ≠ '\n' ∧ ∀ text, regexRest? inClass escaped (c :: text) =
          (regexRest? inClass' escaped' text).map (· + 1) := by
    obtain ⟨more, inner, rfl⟩ := Option.map_eq_some_iff.mp found
    exact ⟨inClass', escaped', more, inner, rfl, fun newline => sameLine (.inl newline), same⟩
  rw [regexRest?] at found
  split_ifs at found with newline escaped backslash opens closes slash
  · exact .inr (further newline found fun text => by simp [regexRest?, *])
  · exact .inr (further newline found fun text => by simp [regexRest?, *])
  · exact .inr (further newline found fun text => by simp [regexRest?, *])
  · exact .inr (further newline found fun text => by simp [regexRest?, *])
  · cases found
    exact .inl ⟨slash.1, rfl, fun text => by simp [regexRest?, *]⟩
  · exact .inr (further newline found fun text => by simp [regexRest?, *])

theorem regexRest?_pos {inClass escaped : Bool} {text : List Char}
    (found : regexRest? inClass escaped text = some extent) : 0 < extent := by
  cases text with
  | nil => cases found
  | cons c text =>
    obtain ⟨-, rfl, -⟩ | ⟨_, _, more, -, rfl, -⟩ := regexRest?_cons found
    · exact Nat.one_pos
    · exact Nat.succ_pos more

theorem regexRest?_local {inClass escaped : Bool} {text : List Char}
    (found : regexRest? inClass escaped (text ++ g :: tail) = some extent)
    (inside : extent ≤ text.length) :
    regexRest? inClass escaped (text ++ g :: tail') = some extent := by
  induction text generalizing inClass escaped extent with
  | nil => exact absurd (regexRest?_pos found) (Nat.not_lt.mpr inside)
  | cons c text ih =>
    obtain ⟨-, rfl, closes⟩ | ⟨_, _, more, inner, rfl, -, goesOn⟩ := regexRest?_cons found
    · exact closes _
    · rw [List.cons_append, goesOn, ih inner (Nat.le_of_succ_le_succ inside)]
      rfl

/-- One turn of the scan for what closes some constructs: how many characters it takes, and
what is still to be closed behind them. It looks at one character and the next. -/
def turn : List Enclosure → Char → Option Char → Nat × List Enclosure
  | [], _, _ => (0, [])
  | .quoted quote :: outer, c, next =>
    if c = '\\' then
      match next with
      | none => (1, [])
      | some d =>
        if d = '\n' then if outer.isEmpty then (1, []) else (2, outer)
        else (2, .quoted quote :: outer)
    else if c = '\n' then if outer.isEmpty then (0, []) else (1, outer)
    else if c = quote then (1, outer)
    else (1, .quoted quote :: outer)
  | .template :: outer, c, next =>
    if c = '\\' then
      match next with
      | none => (1, [])
      | some _ => (2, .template :: outer)
    else if c = '\x60' then (1, outer)
    else if c = '$' then
      match next with
      | none => (1, [])
      | some d =>
        if d = '{' then (2, .substitution 0 :: .template :: outer) else (1, .template :: outer)
    else (1, .template :: outer)
  | .substitution braces :: outer, c, _ =>
    if c = '{' then (1, .substitution (braces + 1) :: outer)
    else if c = '}' then
      match braces with
      | 0 => (1, outer)
      | depth + 1 => (1, .substitution depth :: outer)
    else if c = '\x27' ∨ c = '\x22' then (1, .quoted c :: .substitution braces :: outer)
    else if c = '\x60' then (1, .template :: .substitution braces :: outer)
    else (1, .substitution braces :: outer)

/-- The scan takes one turn after the other. -/
theorem enclosed_turn (unclosed : List Enclosure) (c : Char) (rest : List Char) :
    enclosed unclosed (c :: rest) = enclosed (turn unclosed c rest.head?).2
      ((c :: rest).drop (turn unclosed c rest.head?).1) + (turn unclosed c rest.head?).1 := by
  have nothing (text : List Char) : enclosed [] text = 0 := by rw [enclosed]
  rw [enclosed.eq_def]
  cases unclosed with
  | nil => simp [turn, nothing]
  | cons top outer =>
    cases top with
    | quoted quote =>
      cases rest with
      | nil => simp only [turn]; split_ifs <;> simp_all
      | cons d rest => simp only [turn]; split_ifs <;> simp_all
    | template =>
      cases rest with
      | nil => simp only [turn]; split_ifs <;> simp_all
      | cons d rest => simp only [turn]; split_ifs <;> simp_all
    | substitution braces =>
      cases braces with
      | _ => simp only [turn]; split_ifs <;> simp_all

/-- A turn that takes nothing ends the scan, whatever comes next. -/
theorem turn_of_none {unclosed : List Enclosure} {c : Char} (none : (turn unclosed c next).1 = 0)
    (next' : Option Char) : turn unclosed c next' = (0, []) := by
  cases unclosed with
  | nil => rfl
  | cons top outer =>
    cases top with
    | quoted quote =>
      -- Only the end of its line stops a string without being taken.
      have lineEnd : c = '\n' ∧ outer = [] := by
        cases next with
        | none => grind [turn]
        | some d => grind [turn]
      obtain ⟨rfl, rfl⟩ := lineEnd
      simp [turn]
    | template =>
      cases next with
      | none => grind [turn]
      | some d => grind [turn]
    | substitution braces =>
      cases braces with
      | _ => grind [turn]

/-- A turn takes the character, and the next one if there is one. -/
theorem turn_le (unclosed : List Enclosure) (c : Char) (rest : List Char) :
    (turn unclosed c rest.head?).1 ≤ rest.length + 1 := by
  cases unclosed with
  | nil => exact Nat.zero_le _
  | cons top outer =>
    cases rest with
    | nil =>
      cases top with
      | quoted quote => grind [turn]
      | template => grind [turn]
      | substitution braces =>
        cases braces with
        | _ => grind [turn]
    | cons d rest =>
      cases top with
      | quoted quote => grind [turn]
      | template => grind [turn]
      | substitution braces =>
        cases braces with
        | _ => grind [turn]

/-- What holds of a text behind a turn, and so in front of it, holds of every text. -/
theorem turn_induction {motive : List Enclosure → List Char → Prop}
    (closed : ∀ text, motive [] text) (done : ∀ unclosed, motive unclosed [])
    (turn : ∀ unclosed c rest, motive (turn unclosed c rest.head?).2
      ((c :: rest).drop (turn unclosed c rest.head?).1) → motive unclosed (c :: rest))
    (unclosed : List Enclosure) (text : List Char) : motive unclosed text := by
  cases text with
  | nil => exact done unclosed
  | cons c rest =>
    refine turn unclosed c rest ?_
    rcases turning : Locality.turn unclosed c rest.head? with ⟨taken, later⟩
    cases taken with
    | zero =>
      have ended := turn_of_none (congrArg Prod.fst turning) rest.head?
      rw [turning] at ended
      cases ended
      exact closed _
    | succ taken => exact turn_induction closed done turn later (rest.drop taken)
termination_by text.length
decreasing_by
  rw [List.length_drop, List.length_cons]
  omega

/-- A scan that ends within a text does not see what is behind the next character. -/
theorem enclosed_local (unclosed : List Enclosure) (text : List Char)
    (inside : enclosed unclosed (text ++ g :: tail) ≤ text.length) :
    enclosed unclosed (text ++ g :: tail') = enclosed unclosed (text ++ g :: tail) := by
  cases text with
  | nil =>
    rw [List.nil_append, enclosed_turn] at inside
    have none : (turn unclosed g tail.head?).1 = 0 :=
      Nat.eq_zero_of_add_eq_zero_left (Nat.le_zero.mp inside)
    rw [List.nil_append, List.nil_append, enclosed_turn, enclosed_turn _ _ tail,
      turn_of_none none, turn_of_none none, enclosed, enclosed]
  | cons c rest =>
    have sameNext : (rest ++ g :: tail').head? = (rest ++ g :: tail).head? := by
      cases rest with
      | _ => rfl
    rw [List.cons_append, enclosed_turn] at inside ⊢
    rw [List.cons_append, enclosed_turn _ c (rest ++ g :: tail), sameNext]
    generalize turning : turn unclosed c (rest ++ g :: tail).head? = turned at inside ⊢
    obtain ⟨taken, later⟩ := turned
    cases taken with
    | zero =>
      have ended := turn_of_none (congrArg Prod.fst turning) (rest ++ g :: tail).head?
      rw [turning] at ended
      cases ended
      rw [enclosed, enclosed]
    | succ taken =>
      simp only [List.drop_succ_cons, List.length_cons] at inside ⊢
      rw [List.drop_append_of_le_length (by omega)] at inside ⊢
      rw [List.drop_append_of_le_length (by omega)]
      have shorter : (rest.drop taken).length < rest.length + 1 := by
        rw [List.length_drop]
        omega
      rw [enclosed_local later (rest.drop taken) (by rw [List.length_drop]; omega)]
termination_by text.length

variable {before : List Token} {c : Char} {rest : List Char}

theorem regex?_local (stops : isStop g = true) (found : regex? (c :: (rest ++ g :: tail)) = some extent)
    (inside : extent ≤ (c :: rest).length) : regex? (c :: (rest ++ g :: tail')) = some extent := by
  have flags (tail : List Char) : Without continuesIdentifier (g :: tail) := by
    simpa [Without] using not_continuesIdentifier stops
  obtain ⟨body, closes, rfl⟩ := Option.map_eq_some_iff.mp found
  rw [List.length_cons] at inside
  have short : body ≤ rest.length := by omega
  rw [regex?, List.drop_one, List.tail_cons, regexRest?_local closes short, Option.map_some,
    List.drop_succ_cons, List.drop_succ_cons, drop_append_of_le short, drop_append_of_le short,
    run_append_of_without (flags _), run_append_of_without (flags _)]

/-- A comment or a regular expression that ends in front of a gap ends there whatever is
behind the gap. A slash alone may be joined by another one there. -/
theorem slash_local (stops : isStop g = true)
    (inside : (slash before (c :: (rest ++ g :: tail))).2 ≤ (c :: rest).length)
    (other : (slash before (c :: (rest ++ g :: tail))).1 ≠ .operator) :
    slash before (c :: (rest ++ g :: tail')) = slash before (c :: (rest ++ g :: tail)) := by
  have second (p : Char → Bool) : nextIs p (rest ++ g :: tail') = nextIs p (rest ++ g :: tail) := by
    cases rest with
    | _ => rfl
  simp only [slash, List.drop_succ_cons, List.drop_zero] at inside other ⊢
  rw [second, second]
  split_ifs at inside other ⊢ with line block may
  · have extent : lineComment ((c :: rest) ++ g :: tail') = lineComment ((c :: rest) ++ g :: tail) :=
      run_local inside
    exact congrArg (Kind.comment, ·) extent
  · cases rest with
    | nil => simp at inside
    | cons d rest =>
      simp only [List.cons_append, List.drop_succ_cons, List.drop_zero, List.length_cons] at inside ⊢
      have short : blockCommentRest (rest ++ g :: tail) ≤ rest.length := by omega
      rw [blockCommentRest_local short]
  · cases found : regex? (c :: (rest ++ g :: tail)) with
    | none => simp [found] at other
    | some extent =>
      rw [found] at inside
      rw [regex?_local stops found inside]
  · exact absurd rfl other

/-- A lexeme that ends in front of a gap ends there whatever is behind the gap, unless it is
an operator that starts with a slash. -/
theorem lexeme_local (stops : isStop g = true)
    (inside : (lexeme before c (rest ++ g :: tail)).2 ≤ (c :: rest).length)
    (other : c = '/' → (lexeme before c (rest ++ g :: tail)).1 ≠ .operator) :
    lexeme before c (rest ++ g :: tail') = lexeme before c (rest ++ g :: tail) := by
  have blunt (tail : List Char) : Blunt (g :: tail) := by simpa [Blunt] using stops
  have same (f : List Char → Nat)
      (ends : ∀ {after}, Blunt after → ∀ text, f (text ++ after) = f text) :
      f (c :: (rest ++ g :: tail')) = f (c :: (rest ++ g :: tail)) :=
    (ends (blunt tail') (c :: rest)).trans (ends (blunt tail) (c :: rest)).symm
  have starts : startsNumber c (rest ++ g :: tail') = startsNumber c (rest ++ g :: tail) := by
    cases rest with
    | _ => rfl
  have word {after : List Char} (blunt : Blunt after) (text : List Char) :
      run continuesIdentifier (text ++ after) = run continuesIdentifier text :=
    run_append_of_without (fun c head => not_continuesIdentifier (blunt c head)) text
  unfold lexeme at inside other ⊢
  rw [starts]
  cases single : single? c with
  | some kind => rfl
  | none =>
    simp only [single] at inside other ⊢
    split_ifs at inside other ⊢ with quote template slash number identifier
    · rw [enclosed_local _ _ (Nat.le_of_succ_le_succ inside)]
    · rw [enclosed_local _ _ (Nat.le_of_succ_le_succ inside)]
    · exact slash_local stops inside (other slash)
    · rw [same Lexeme.number number_append]
    · rw [same (run continuesIdentifier) word]
    · rw [same operator operator_append]

end Gap

/-! No lexeme is longer than the text that it starts. -/

section Bounds
variable {before : List Token} {c : Char} {rest text : List Char}

theorem number_le (text : List Char) : number text ≤ text.length := by
  unfold number
  split
  · rename_i radix
    have announced := two_le_of_hasRadix radix
    have digits := run_le (fun c => isAlphanumeric c || c == '_') (text.drop 2)
    rw [List.length_drop] at digits
    omega
  · dsimp only
    have whole := run_le isDigitOrSeparator text
    generalize run isDigitOrSeparator text = n at whole ⊢
    have frac := fraction_le (text.drop n)
    rw [List.length_drop] at frac
    generalize fraction (text.drop n) = m at frac ⊢
    have expo := exponent_le (text.drop (n + m))
    rw [List.length_drop] at expo
    generalize exponent (text.drop (n + m)) = k at expo ⊢
    have mark := bigMark_le (text.drop (n + m + k))
    rw [List.length_drop] at mark
    omega

theorem operator_le (c : Char) (rest : List Char) : operator (c :: rest) ≤ rest.length + 1 := by
  unfold operator
  split
  · rename_i op found
    have begins := List.find?_some found
    have short := (List.isPrefixOf_iff_prefix.mp begins).length_le
    rw [String.length_toList, List.length_cons] at short
    split
    · omega
    · exact short
  · omega

/-- What an operator takes is one character, or one of the operators. -/
theorem take_operator_cases (c : Char) (rest : List Char) :
    (c :: rest).take (operator (c :: rest)) = [c] ∨
      ∃ op ∈ operators, (c :: rest).take (operator (c :: rest)) = op.toList := by
  unfold operator
  split
  · rename_i op found
    split
    · exact .inl rfl
    · have isFront := List.find?_some found
      have begins := List.isPrefixOf_iff_prefix.mp isFront
      refine .inr ⟨op, List.mem_of_find?_eq_some found, ?_⟩
      rw [← String.length_toList, ← List.prefix_iff_eq_take.mp begins]
  · exact .inl rfl

theorem blockCommentRest_le (text : List Char) : blockCommentRest text ≤ text.length := by
  induction text with
  | nil => exact Nat.le_refl _
  | cons c rest ih =>
    rw [blockCommentRest, List.length_cons]
    split
    · rename_i closes
      obtain ⟨d, rest, rfl, -⟩ := exists_of_nextIs closes.2
      simp
    · omega

theorem regexRest?_le {inClass escaped : Bool} (found : regexRest? inClass escaped text = some extent) :
    extent ≤ text.length := by
  induction text generalizing inClass escaped extent with
  | nil => cases found
  | cons c text ih =>
    rw [List.length_cons]
    obtain ⟨-, rfl, -⟩ | ⟨_, _, more, inner, rfl, -⟩ := regexRest?_cons found
    · exact Nat.le_add_left ..
    · exact Nat.succ_le_succ (ih inner)

theorem regex?_le (found : regex? (c :: rest) = some extent) : extent ≤ rest.length + 1 := by
  obtain ⟨body, closes, rfl⟩ := Option.map_eq_some_iff.mp found
  have short : body ≤ rest.length := regexRest?_le closes
  have flags := run_le continuesIdentifier ((c :: rest).drop (body + 1))
  rw [List.length_drop, List.length_cons] at flags
  omega

theorem enclosed_le (unclosed : List Enclosure) (text : List Char) :
    enclosed unclosed text ≤ text.length := by
  induction unclosed, text using turn_induction with
  | closed text => simp [enclosed]
  | done unclosed =>
    cases unclosed with
    | _ => simp [enclosed]
  | turn unclosed c rest ih =>
    have short := turn_le unclosed c rest
    rw [List.length_drop, List.length_cons] at ih
    rw [enclosed_turn, List.length_cons]
    omega

theorem slash_le (before : List Token) (rest : List Char) :
    (slash before ('/' :: rest)).2 ≤ rest.length + 1 := by
  have operators := operator_le '/' rest
  unfold slash
  split
  · exact run_le _ _
  split
  · rename_i block
    obtain ⟨d, rest, rfl, -⟩ := exists_of_nextIs block
    exact Nat.succ_le_succ (Nat.succ_le_succ (blockCommentRest_le rest))
  split
  · split
    · rename_i found
      exact regex?_le found
    · exact operators
  · exact operators

/-- No lexeme is longer than the text that it starts. -/
theorem lexeme_le (before : List Token) (c : Char) (rest : List Char) :
    (lexeme before c rest).2 ≤ rest.length + 1 := by
  unfold lexeme
  split
  · exact Nat.le_add_left ..
  split
  · exact Nat.succ_le_succ (enclosed_le _ rest)
  split
  · exact Nat.succ_le_succ (enclosed_le _ rest)
  split
  · rename_i slash
    subst slash
    exact slash_le before rest
  split
  · exact number_le (c :: rest)
  split
  · exact run_le _ (c :: rest)
  · exact operator_le c rest

end Bounds

section Cut
variable {before : List Token} {place : Position} {text : List Char}

/-- A token is cut off a text, behind some tokens and at some place. -/
def IsCut (t : Token) : Prop :=
  ∃ before place c rest, Text.isGap c = false ∧
    t = ofLexeme (lexeme before c rest).1 place ((c :: rest).take (lexeme before c rest).2)

/-- Scanning adds tokens that are cut off its text, up to the end of the source. -/
theorem cut_scan (known : ∀ t ∈ before, t.isEof = false → IsCut t) :
    ∀ t ∈ scan before place text, t.isEof = false → IsCut t := by
  fun_induction scan before place text with
  | case1 before place text here atEnd =>
    simp only [List.mem_reverse, List.forall_mem_cons]
    exact ⟨fun inside => by simp [endOfSource, isEof] at inside, known⟩
  | case2 before place text here c rest shape found taken ih =>
    have filled : Text.isGap c = false := by
      have first := List.head?_dropWhile_not Text.isGap text
      rw [shape] at first
      simpa using first
    exact ih (List.forall_mem_cons.mpr ⟨fun _ => ⟨before, here, c, rest, filled, rfl⟩, known⟩)

/-- Every token of a source but its end is cut off a text. -/
theorem cut_ofSource {source : String} (member : t ∈ ofSource source) (inside : t.isEof = false) :
    IsCut t :=
  cut_scan (List.forall_mem_nil _) t member inside

end Cut
end ImportAtlas.Locality
