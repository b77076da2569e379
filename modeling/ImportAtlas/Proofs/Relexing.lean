import ImportAtlas.Proofs.Trivia

/-! Tokens lexed once more. Where a lexeme ends is decided with the characters behind it and the
tokens in front of it in view. Cut off from both, its characters are still one lexeme of the same
kind, whether it is terminated or not. -/
namespace ImportAtlas.Relexing
open Extent Lexeme Locality Text Token Trivia

section Taken
variable {before : List Token} {c : Char} {rest text : List Char}

theorem nextIs_take {p : Char → Bool} (n : Nat) (none : nextIs p text = false) :
    nextIs p (text.take n) = false := by
  cases n with
  | zero => rfl
  | succ n =>
    cases text with
    | nil => rfl
    | cons c text => exact none

theorem run_take (p : Char → Bool) (text : List Char) :
    run p (text.take (run p text)) = run p text := by
  have all : (text.takeWhile p).takeWhile p = text.takeWhile p :=
    List.takeWhile_eq_self_iff.mpr fun _ => List.mem_takeWhile_imp
  rw [take_run, run, all, run]

/-- An operator alone has its own extent, and no regular expression starts with it. -/
private theorem operator_alone : ∀ op ∈ operators,
    operator op.toList = op.toList.length ∧ regex? op.toList = none := by
  decide +kernel

theorem operator_take (c : Char) (rest : List Char) :
    operator ((c :: rest).take (operator (c :: rest))) = operator (c :: rest) := by
  have taken : ((c :: rest).take (operator (c :: rest))).length = operator (c :: rest) :=
    List.length_take_of_le (operator_le c rest)
  obtain same | ⟨op, listed, same⟩ := take_operator_cases c rest
  · rw [same] at taken ⊢
    have short := operator_le c []
    have positive := operator_pos [c]
    rw [List.length_nil] at short
    rw [List.length_singleton] at taken
    omega
  · rw [same] at taken ⊢
    rw [(operator_alone op listed).1, taken]

/-- No regular expression starts with what an operator takes. -/
theorem regex?_operator (c : Char) (rest : List Char) :
    regex? ((c :: rest).take (operator (c :: rest))) = none := by
  obtain same | ⟨op, listed, same⟩ := take_operator_cases c rest
  · rw [same]
    rfl
  · rw [same]
    exact (operator_alone op listed).2

theorem enclosed_take (unclosed : List Enclosure) (text : List Char) :
    enclosed unclosed (text.take (enclosed unclosed text)) = enclosed unclosed text := by
  have nothing (unclosed : List Enclosure) : enclosed unclosed [] = 0 := by
    cases unclosed with
    | _ => simp [enclosed]
  induction unclosed, text using turn_induction with
  | closed text => simp [enclosed]
  | done unclosed => rw [List.take_nil]
  | turn unclosed c rest ih =>
    rw [enclosed_turn]
    rcases turning : turn unclosed c rest.head? with ⟨n, later⟩
    rw [turning] at ih
    dsimp only at ih ⊢
    obtain _ | n := n
    · have ended := turn_of_none (congrArg Prod.fst turning) rest.head?
      rw [turning] at ended
      cases ended
      simp [enclosed, nothing]
    · rw [List.drop_succ_cons] at ih ⊢
      rw [← Nat.add_assoc, List.take_succ_cons, enclosed_turn]
      obtain empty | more := Nat.eq_zero_or_pos (enclosed later (rest.drop n) + n)
      · -- The one character that is taken is taken without the next one as well.
        obtain ⟨inner, rfl⟩ := Nat.add_eq_zero_iff.mp empty
        have short := turn_le unclosed c []
        have positive : (turn unclosed c none).1 ≠ 0 := by
          intro none
          have ended := turn_of_none none rest.head?
          rw [turning] at ended
          cases ended
        rw [inner, List.take_zero, List.head?_nil]
        rw [List.length_nil, List.head?_nil] at short
        have one : (turn unclosed c none).1 = 1 := by omega
        rw [one, List.drop_succ_cons, List.drop_nil, nothing]
      · rw [List.head?_take, if_neg more.ne', turning]
        dsimp only
        rw [List.drop_succ_cons, List.drop_take, Nat.add_sub_cancel, ih, Nat.add_assoc]

theorem blockCommentRest_take (text : List Char) :
    blockCommentRest (text.take (blockCommentRest text)) = blockCommentRest text := by
  induction text with
  | nil => rfl
  | cons c rest ih =>
    rw [blockCommentRest]
    split
    · rename_i closes
      obtain ⟨rfl, next⟩ := closes
      obtain ⟨d, rest, rfl, slash⟩ := exists_of_nextIs next
      obtain rfl := beq_iff_eq.mp slash
      rfl
    · rename_i goes
      have still : ¬(c = '*' ∧ nextIs (· == '/') (rest.take (blockCommentRest rest)) = true) := by
        rintro ⟨star, slash⟩
        have none : nextIs (· == '/') rest = false := Bool.eq_false_iff.mpr fun some => goes ⟨star, some⟩
        rw [nextIs_take _ none] at slash
        cases slash
      rw [List.take_succ_cons, blockCommentRest, if_neg still, ih]

theorem regexRest?_take {inClass escaped : Bool} {n : Nat}
    (found : regexRest? inClass escaped text = some extent) (within : extent ≤ n) :
    regexRest? inClass escaped (text.take n) = some extent := by
  induction text generalizing inClass escaped extent n with
  | nil => cases found
  | cons c text ih =>
    have positive := regexRest?_pos found
    obtain _ | n := n
    · omega
    rw [List.take_succ_cons]
    obtain ⟨-, rfl, closes⟩ | ⟨_, _, more, inner, rfl, -, goesOn⟩ := regexRest?_cons found
    · exact closes _
    · rw [goesOn, ih inner (Nat.le_of_succ_le_succ within)]
      rfl

theorem regex?_take (found : regex? (c :: rest) = some extent) :
    regex? ((c :: rest).take extent) = some extent := by
  obtain ⟨body, closes, rfl⟩ := Option.map_eq_some_iff.mp found
  have closes : regexRest? false false rest = some body := closes
  have sum : body + 1 + run continuesIdentifier (rest.drop body) =
      body + run continuesIdentifier (rest.drop body) + 1 := by omega
  rw [List.drop_succ_cons, sum, List.take_succ_cons, regex?, List.drop_one, List.tail_cons,
    regexRest?_take closes (Nat.le_add_right ..), Option.map_some, List.drop_succ_cons,
    List.drop_take, Nat.add_sub_cancel_left, run_take, ← sum]

/-- A slash that opens no comment is lexed as a regular expression or as an operator. -/
private theorem slash_cases {kind : Kind} {extent : Nat} (noLine : nextIs (· == '/') rest = false)
    (noBlock : nextIs (· == '*') rest = false) (found : slash before ('/' :: rest) = (kind, extent)) :
    kind = .regex ∧ regex? ('/' :: rest) = some extent ∨
      kind = .operator ∧ operator ('/' :: rest) = extent := by
  simp only [slash, List.drop_succ_cons, List.drop_zero, noLine, noBlock, Bool.false_eq_true,
    ↓reduceIte] at found
  split at found
  · split at found
    · rename_i closes
      cases found
      exact .inl ⟨rfl, closes⟩
    · cases found
      exact .inr ⟨rfl, rfl⟩
  · cases found
    exact .inr ⟨rfl, rfl⟩

private theorem slash_take_line {kind : Kind} {extent : Nat} (line : nextIs (· == '/') rest = true)
    (found : slash before ('/' :: rest) = (kind, extent + 1)) :
    slash [] ('/' :: rest.take extent) = (kind, extent + 1) := by
  obtain ⟨d, rest, rfl, isSlash⟩ := exists_of_nextIs line
  obtain rfl := beq_iff_eq.mp isSlash
  have extents : (Kind.comment, run (· != '\n') ('/' :: '/' :: rest)) = (kind, extent + 1) := found
  obtain ⟨rfl, width⟩ := Prod.mk.inj extents
  have long : 2 ≤ run (· != '\n') ('/' :: '/' :: rest) := by simp [run]
  obtain _ | extent := extent
  · omega
  have same := run_take (· != '\n') ('/' :: '/' :: rest)
  rw [width] at same
  exact congrArg (Kind.comment, ·) same

private theorem slash_take_block {kind : Kind} {extent : Nat} (block : nextIs (· == '*') rest = true)
    (found : slash before ('/' :: rest) = (kind, extent + 1)) :
    slash [] ('/' :: rest.take extent) = (kind, extent + 1) := by
  obtain ⟨d, rest, rfl, isStar⟩ := exists_of_nextIs block
  obtain rfl := beq_iff_eq.mp isStar
  have extents : (Kind.comment, blockCommentRest rest + 2) = (kind, extent + 1) := found
  obtain ⟨rfl, width⟩ := Prod.mk.inj extents
  obtain rfl : blockCommentRest rest + 1 = extent := by omega
  exact congrArg (Kind.comment, · + 2) (blockCommentRest_take rest)

/-- What starts with a slash is the same where nothing is in front of it and behind it. A slash
that divides closes no regular expression, so that it does not matter that one may start there. -/
theorem slash_take {kind : Kind} {extent : Nat}
    (found : slash before ('/' :: rest) = (kind, extent + 1)) :
    slash [] ('/' :: rest.take extent) = (kind, extent + 1) := by
  cases line : nextIs (· == '/') rest with
  | true => exact slash_take_line line found
  | false =>
    cases block : nextIs (· == '*') rest with
    | true => exact slash_take_block block found
    | false =>
      have may : regexMayFollow [] = true := rfl
      simp only [slash, List.drop_succ_cons, List.drop_zero, nextIs_take extent line,
        nextIs_take extent block, may, Bool.false_eq_true, ↓reduceIte]
      obtain ⟨rfl, closes⟩ | ⟨rfl, width⟩ := slash_cases line block found
      · have same := regex?_take closes
        rw [List.take_succ_cons] at same
        rw [same]
      · have closesNot := regex?_operator '/' rest
        have same := operator_take '/' rest
        rw [width, List.take_succ_cons] at closesNot same
        rw [closesNot, same]

end Taken

/-! The characters of a number are those of a numeral. -/

section Numerals
variable {c : Char} {rest : List Char}

private theorem run_all (p : Char → Bool) (text : List Char) : ∀ c ∈ text.take (run p text), p c = true := by
  rw [take_run]
  exact fun _ => List.mem_takeWhile_imp

theorem isFraction_take (text : List Char) : IsFraction (text.take (fraction text)) := by
  unfold fraction
  split
  · split
    · exact .none
    · exact .point (run_all _ _)
  · exact .none

/-- A run of digits that starts with one takes it and the digits behind it. -/
private theorem run_digits {d : Char} (digit : isDigit d = true) (text : List Char) :
    run isDigitOrSeparator (d :: text) = run isDigitOrSeparator text + 1 := by
  have belongs : isDigitOrSeparator d = true := by simp [isDigitOrSeparator, digit]
  simp [run, belongs]

theorem isExponent_take (text : List Char) : IsExponent (text.take (exponent text)) := by
  unfold exponent
  split
  · rename_i e rest
    split
    · rename_i letter
      dsimp only
      split
      · rename_i digit
        obtain _ | ⟨s, rest⟩ := rest
        · cases digit
        by_cases signs : s = '+' ∨ s = '-'
        · have one : sign (s :: rest) = 1 := if_pos signs
          rw [one, List.drop_succ_cons, List.drop_zero] at digit ⊢
          obtain ⟨d, more, rfl, digit⟩ := exists_of_nextIs digit
          rw [run_digits digit, Nat.add_comm, List.take_succ_cons, List.take_succ_cons,
            List.take_succ_cons]
          exact .signed letter signs digit (run_all _ _)
        · have none : sign (s :: rest) = 0 := if_neg signs
          rw [none, List.drop_zero] at digit ⊢
          rw [run_digits digit, Nat.add_zero, Nat.add_comm, List.take_succ_cons,
            List.take_succ_cons]
          exact .unsigned letter digit (run_all _ _)
      · exact .none
    · exact .none
  · exact .none

private theorem bigMark_take (text : List Char) :
    text.take (bigMark text) = [] ∨ text.take (bigMark text) = ['n'] := by
  unfold bigMark
  split
  · exact .inr rfl
  · exact .inl rfl

/-- The characters of a number are a numeral. -/
theorem isNumeral_take (starts : startsNumber c rest = true) :
    IsNumeral ((c :: rest).take (number (c :: rest))) := by
  unfold number
  split
  · rename_i radix
    unfold hasRadix at radix
    split at radix
    · rename_i letter more same
      rw [same, Nat.add_comm, List.take_succ_cons, List.take_succ_cons]
      exact .radix radix (run_all _ more)
    · cases radix
  · dsimp only
    rw [List.take_add, List.take_add, List.take_add, List.append_assoc, List.append_assoc]
    rw [startsNumber, Bool.or_eq_true, Bool.and_eq_true, beq_iff_eq] at starts
    rcases starts with ⟨rfl, digit⟩ | digit
    · obtain ⟨d, more, rfl, digit⟩ := exists_of_nextIs digit
      have nothing : run isDigitOrSeparator ('.' :: d :: more) = 0 := rfl
      have noPoint : (d == '.') = false :=
        refuted_of_isDigit (p := (· == '.')) digit (by decide)
      have part : fraction ('.' :: d :: more) = run isDigitOrSeparator more + 1 + 1 := by
        rw [fraction, nextIs, noPoint, run_digits digit]
        rfl
      rw [nothing, List.take_zero, List.nil_append, List.drop_zero, part, List.take_succ_cons,
        List.take_succ_cons]
      exact .point digit (run_all _ more) (isExponent_take _) (bigMark_take _)
    · rw [run_digits digit, List.take_succ_cons]
      exact .decimal digit (run_all _ rest) (isFraction_take _) (isExponent_take _) (bigMark_take _)

theorem startsNumber_of_isNumeral (shape : IsNumeral (c :: rest)) : startsNumber c rest = true := by
  cases shape with
  | radix _ _ => rfl
  | decimal digit _ _ _ _ => simp [startsNumber, digit]
  | point digit _ _ _ => simp [startsNumber, nextIs, digit]

/-- A number that is cut off from what is behind it is the same number. -/
theorem number_take {extent : Nat} (starts : startsNumber c rest = true)
    (width : number (c :: rest) = extent + 1) :
    startsNumber c (rest.take extent) = true ∧ number (c :: rest.take extent) = extent + 1 := by
  have shape := isNumeral_take starts
  have blunt : Blunt [] := fun c head => by cases head
  have whole := number_numeral shape blunt
  rw [List.append_nil, List.length_take_of_le (number_le _), width, List.take_succ_cons] at whole
  rw [width, List.take_succ_cons] at shape
  exact ⟨startsNumber_of_isNumeral shape, whole⟩

end Numerals

section Tokens
variable {before : List Token} {c : Char} {rest : List Char}

theorem startsNumber_take (n : Nat) (starts : ¬startsNumber c rest = true) :
    ¬startsNumber c (rest.take n) = true := by
  rw [Bool.not_eq_true, startsNumber, Bool.or_eq_false_iff, Bool.and_eq_false_iff] at starts ⊢
  exact ⟨starts.1.imp_right (nextIs_take n), starts.2⟩

/-- A lexeme that is cut off from what is around it is the same lexeme. -/
theorem lexeme_take {kind : Kind} {extent : Nat}
    (found : lexeme before c rest = (kind, extent + 1)) :
    lexeme [] c (rest.take extent) = (kind, extent + 1) := by
  unfold lexeme at found ⊢
  cases single : single? c with
  | some kind =>
    rw [single] at found
    exact found
  | none =>
    simp only [single] at found ⊢
    split_ifs at found with quote template slash starts word
    · obtain ⟨rfl, width⟩ := Prod.mk.inj found
      obtain rfl : enclosed [.quoted c] rest = extent := Nat.succ.inj width
      rw [if_pos quote, enclosed_take]
    · obtain ⟨rfl, width⟩ := Prod.mk.inj found
      obtain rfl : enclosed [.template] rest = extent := Nat.succ.inj width
      rw [if_neg quote, if_pos template, enclosed_take]
    · subst slash
      rw [if_neg quote, if_neg template, if_pos rfl, slash_take found]
    · obtain ⟨rfl, width⟩ := Prod.mk.inj found
      obtain ⟨still, same⟩ := number_take starts width
      rw [if_neg quote, if_neg template, if_neg slash, if_pos still, same]
    · obtain ⟨rfl, width⟩ := Prod.mk.inj found
      have same := run_take continuesIdentifier (c :: rest)
      rw [width, List.take_succ_cons] at same
      rw [if_neg quote, if_neg template, if_neg slash, if_neg (startsNumber_take extent starts),
        if_pos word, same]
    · obtain ⟨rfl, width⟩ := Prod.mk.inj found
      have same := operator_take c rest
      rw [width, List.take_succ_cons] at same
      rw [if_neg quote, if_neg template, if_neg slash, if_neg (startsNumber_take extent starts),
        if_neg word, same]

/-- A lexeme and nothing else is lexed as one token. -/
theorem scan_alone {kind : Kind} (filled : isGap c = false) (place : Position)
    (found : lexeme [] c rest = (kind, (c :: rest).length)) :
    scan [] place (c :: rest) =
      [ofLexeme kind place (c :: rest), endOfSource (place.advance (c :: rest))] := by
  have next : scan [] place ([] ++ c :: rest) = _ :=
    scan_first (List.forall_mem_nil _) filled found
  rw [List.nil_append, List.take_length, List.drop_length,
    Writing.scan_gap (List.forall_mem_nil _)] at next
  exact next

/-- Every token but the end of a source, lexed alone, is one token of the same kind and with the
same characters. -/
theorem lexed_alone {source : String} (member : t ∈ ofSource source) (inside : t.isEof = false) :
    let stop := Position.origin.advance t.value.toList
    ofSource t.value = [⟨t.kind, t.value, ⟨.origin, stop⟩⟩, endOfSource stop] := by
  obtain ⟨before, place, c, rest, filled, rfl⟩ := cut_ofSource member inside
  rcases found : lexeme before c rest with ⟨kind, extent⟩
  obtain _ | extent := extent
  · exact absurd (extent_pos found) (Nat.lt_irrefl 0)
  have short := lexeme_le before c rest
  rw [found] at short
  have alone := lexeme_take found
  have width : (c :: rest.take extent).length = extent + 1 := by
    rw [List.length_cons, List.length_take_of_le (Nat.le_of_succ_le_succ short)]
  have scanned := scan_alone filled .origin (width.symm ▸ alone)
  rw [List.take_succ_cons, ofSource, ofLexeme, String.toList_ofList]
  exact scanned

/-- A slash that divides and a string that is not terminated, each lexed alone. -/
theorem lexed_alone_slash :
    (⟨.operator, "/", ⟨⟨1, 2, 2⟩, ⟨1, 3, 3⟩⟩⟩ ∈ ofSource "a / b / 'c" ∧
      ofSource "/" = [⟨.operator, "/", ⟨.origin, ⟨1, 1, 1⟩⟩⟩, endOfSource ⟨1, 1, 1⟩]) ∧
    (⟨.string, "'c", ⟨⟨1, 8, 8⟩, ⟨1, 10, 10⟩⟩⟩ ∈ ofSource "a / b / 'c" ∧
      ofSource "'c" = [⟨.string, "'c", ⟨.origin, ⟨1, 2, 2⟩⟩⟩, endOfSource ⟨1, 2, 2⟩]) := by
  have slash : ⟨.operator, "/", ⟨⟨1, 2, 2⟩, ⟨1, 3, 3⟩⟩⟩ ∈ ofSource "a / b / 'c" := by
    decide +kernel
  have string : ⟨.string, "'c", ⟨⟨1, 8, 8⟩, ⟨1, 10, 10⟩⟩⟩ ∈ ofSource "a / b / 'c" := by
    decide +kernel
  exact ⟨⟨slash, lexed_alone slash rfl⟩, ⟨string, lexed_alone string rfl⟩⟩

end Tokens
end ImportAtlas.Relexing
