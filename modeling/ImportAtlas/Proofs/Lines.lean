import ImportAtlas.Proofs.Trivia

/-! Lines and tokens. Only a template literal and a block comment go over the end of a line
that is not theirs to end: every other lexeme is the same in front of a line feed as at the end
of a source. So what is lexed up to the end of a line stays as it is whatever is written on the
lines behind it, if and only if the line does not end inside one of these two. -/
namespace ImportAtlas.Lines
open Extent Lexeme Locality Lossless Text Tiling Token Trivia Writing

section Open
variable {unclosed outer : List Enclosure} {c d : Char} {rest text after tail : List Char}

/-- The constructs that are still open where a text ends. A backslash or a dollar at the very
end waits for the character behind it and closes nothing. -/
def stillOpen (unclosed : List Enclosure) (text : List Char) : List Enclosure :=
  match text with
  | [] => unclosed
  | c :: rest =>
    if rest = [] ∧ (c = '\\' ∨ c = '$') then unclosed
    else
      match turn unclosed c rest.head? with
      | (0, later) => later
      | (taken + 1, later) => stillOpen later (rest.drop taken)
termination_by text.length

/-- A template literal or a block comment that is not closed. -/
def IsOpen (text : List Char) : Prop :=
  (∃ rest, text = '\x60' :: rest ∧ stillOpen [.template] rest ≠ []) ∨
    (∃ rest, text = '/' :: '*' :: rest ∧ ¬['*', '/'] <:+: rest)

theorem stillOpen_nil (text : List Char) : stillOpen [] text = [] := by
  rw [stillOpen.eq_def]
  cases text with
  | nil => rfl
  | cons c rest => simp [turn]

/-- What is still open is found turn by turn. -/
theorem stillOpen_turn (going : ¬(rest = [] ∧ (c = '\\' ∨ c = '$'))) :
    stillOpen unclosed (c :: rest) = stillOpen (turn unclosed c rest.head?).2
      ((c :: rest).drop (turn unclosed c rest.head?).1) := by
  rw [stillOpen, if_neg going]
  split
  · rename_i later turning
    have ended := turn_of_none (congrArg Prod.fst turning) rest.head?
    rw [turning] at ended ⊢
    cases ended
    exact (stillOpen_nil _).symm
  · rename_i taken later turning
    rw [turning]
    rfl

/-- Only a backslash and a dollar look at the next character. -/
theorem turn_next (notBackslash : c ≠ '\\') (notDollar : c ≠ '$') (unclosed : List Enclosure)
    (next next' : Option Char) : turn unclosed c next = turn unclosed c next' := by
  cases unclosed with
  | nil => rfl
  | cons top outer =>
    cases top with
    | quoted quote => simp [turn, notBackslash]
    | template => simp [turn, notBackslash, notDollar]
    | substitution braces =>
      cases braces with
      | _ => rfl

/-- A turn in front of the end of a text is the same whatever is behind the text. -/
theorem turn_append (going : ¬(rest = [] ∧ (c = '\\' ∨ c = '$'))) (unclosed : List Enclosure)
    (after : List Char) : turn unclosed c (rest ++ after).head? = turn unclosed c rest.head? := by
  cases rest with
  | cons d rest => rfl
  | nil =>
    have plain : c ≠ '\\' ∧ c ≠ '$' := by simpa using going
    exact turn_next plain.1 plain.2 unclosed _ _

private theorem enclosed_nil (text : List Char) : enclosed [] text = 0 := by
  rw [enclosed]

/-- Constructs that a text closes are closed there whatever is behind it. -/
theorem enclosed_append_of_closed (unclosed : List Enclosure) (text : List Char)
    (closed : stillOpen unclosed text = []) (after : List Char) :
    enclosed unclosed (text ++ after) = enclosed unclosed text := by
  induction unclosed, text using turn_induction with
  | closed text => rw [enclosed_nil, enclosed_nil]
  | done unclosed =>
    rw [stillOpen] at closed
    rw [closed, enclosed_nil, enclosed_nil]
  | turn unclosed c rest ih =>
    by_cases waits : rest = [] ∧ (c = '\\' ∨ c = '$')
    · rw [stillOpen, if_pos waits] at closed
      rw [closed, enclosed_nil, enclosed_nil]
    · rw [stillOpen_turn waits] at closed
      rw [List.cons_append, enclosed_turn, turn_append waits, ← List.cons_append,
        List.drop_append_of_le_length (turn_le unclosed c rest), ih closed, ← enclosed_turn]

/-- The outermost construct that is open is a template. -/
def InTemplate (unclosed : List Enclosure) : Prop :=
  unclosed.getLast? = some .template

theorem inTemplate_singleton : InTemplate [.template] :=
  rfl

/-- Inside a template a turn takes something, and the template is the outermost construct until
it is closed. -/
theorem turn_inTemplate (within : InTemplate unclosed) (c : Char) (next : Option Char) :
    0 < (turn unclosed c next).1 ∧
      ((turn unclosed c next).2 = [] ∨ InTemplate (turn unclosed c next).2) := by
  cases unclosed with
  | nil => cases within
  | cons top outer =>
    unfold InTemplate at within ⊢
    cases top with
    | quoted quote => cases next <;> grind [turn]
    | template => cases next <;> grind [turn]
    | substitution braces => cases braces <;> grind [turn]

/-- A backslash or a dollar takes the character behind it, or leaves the template open. -/
theorem turn_waiting (within : InTemplate unclosed) (waits : c = '\\' ∨ c = '$') (d : Char) :
    1 < (turn unclosed c (some d)).1 ∨ InTemplate (turn unclosed c (some d)).2 := by
  cases unclosed with
  | nil => cases within
  | cons top outer =>
    unfold InTemplate at within ⊢
    cases top with
    | quoted quote => grind [turn]
    | template => grind [turn]
    | substitution braces => cases braces <;> grind [turn]

private theorem enclosed_pos (within : InTemplate unclosed) (d : Char) (tail : List Char) :
    0 < enclosed unclosed (d :: tail) := by
  have taken := (turn_inTemplate within d tail.head?).1
  rw [enclosed_turn]
  omega

/-- A backslash or a dollar inside a template is never the last character that the template
takes, if there is one behind it. -/
private theorem enclosed_waiting (within : InTemplate unclosed) (waits : c = '\\' ∨ c = '$')
    (d : Char) (tail : List Char) : 2 ≤ enclosed unclosed (c :: d :: tail) := by
  have taken := (turn_inTemplate within c (some d)).1
  rw [enclosed_turn, List.head?_cons]
  rcases turn_waiting within waits d with two | inner
  · omega
  · obtain one | two := Nat.eq_or_lt_of_le taken
    · have next := enclosed_pos inner d tail
      rw [← one, List.drop_succ_cons, List.drop_zero]
      omega
    · omega

/-- A template that a text does not close takes all of it, and at least one character more if
there is one. -/
theorem enclosed_of_open (within : InTemplate unclosed) (open' : stillOpen unclosed text ≠ [])
    (after : List Char) :
    text.length + min 1 after.length ≤ enclosed unclosed (text ++ after) := by
  induction unclosed, text using turn_induction with
  | closed text => cases within
  | done unclosed =>
    cases after with
    | nil => exact Nat.zero_le _
    | cons d tail =>
      have taken := enclosed_pos within d tail
      rw [List.nil_append, List.length_nil, List.length_cons]
      omega
  | turn unclosed c rest ih =>
    by_cases waits : rest = [] ∧ (c = '\\' ∨ c = '$')
    · obtain ⟨rfl, waits⟩ := waits
      cases after with
      | nil => exact enclosed_pos within c []
      | cons d tail =>
        have taken := enclosed_waiting within waits d tail
        rw [List.singleton_append, List.length_singleton, List.length_cons]
        omega
    · rw [stillOpen_turn waits] at open'
      have short := turn_le unclosed c rest
      rw [List.cons_append, enclosed_turn, turn_append waits]
      rcases (turn_inTemplate within c rest.head?).2 with none | inner
      · rw [none, stillOpen_nil] at open'
        exact absurd rfl open'
      · have more := ih inner open'
        rw [List.length_drop] at more
        rw [← List.cons_append, List.drop_append_of_le_length short]
        rw [List.length_cons] at more ⊢
        omega

end Open

section Line
variable {before : List Token} {c : Char} {rest text tail after : List Char}

/-- A turn closes a string or goes on with it. -/
private theorem turn_quoted (quote c : Char) (next : Option Char) :
    (turn [.quoted quote] c next).2 = [] ∨ (turn [.quoted quote] c next).2 = [.quoted quote] := by
  cases next with
  | _ => grind [turn]

/-- A string ends in front of a line feed as it does at the end of a source. -/
theorem enclosed_line (quote : Char) (text tail : List Char) :
    enclosed [.quoted quote] (text ++ '\n' :: tail) = enclosed [.quoted quote] text := by
  suffices all : ∀ unclosed, unclosed = [] ∨ unclosed = [.quoted quote] →
      enclosed unclosed (text ++ '\n' :: tail) = enclosed unclosed text from all _ (.inr rfl)
  intro unclosed
  induction unclosed, text using turn_induction with
  | closed text =>
    intro _
    rw [enclosed_nil, enclosed_nil]
  | done unclosed =>
    rintro (rfl | rfl)
    · rw [enclosed_nil, enclosed_nil]
    · rw [List.nil_append, enclosed_turn]
      simp [turn, enclosed]
  | turn unclosed c rest ih =>
    rintro (rfl | rfl)
    · rw [enclosed_nil, enclosed_nil]
    · have same : turn [.quoted quote] c (rest ++ '\n' :: tail).head? =
          turn [.quoted quote] c rest.head? := by
        cases rest with
        | nil => grind [turn]
        | cons d rest => rfl
      rw [List.cons_append, enclosed_turn, same, ← List.cons_append,
        List.drop_append_of_le_length (turn_le _ c rest), ih (turn_quoted quote c _), ← enclosed_turn]

/-- A regular expression closes on its line or not at all. -/
theorem regexRest?_line (inClass escaped : Bool) (text tail : List Char) :
    regexRest? inClass escaped (text ++ '\n' :: tail) = regexRest? inClass escaped text := by
  induction text generalizing inClass escaped with
  | nil => simp [regexRest?]
  | cons c text ih => simp only [List.cons_append, regexRest?, ih]

theorem blunt_line (tail : List Char) : Blunt ('\n' :: tail) := by
  intro c head
  cases head
  decide

theorem regex?_line (c : Char) (rest tail : List Char) :
    regex? (c :: (rest ++ '\n' :: tail)) = regex? (c :: rest) := by
  have flags : Without continuesIdentifier ('\n' :: tail) :=
    fun c head => not_continuesIdentifier (blunt_line tail c head)
  unfold regex?
  rw [List.drop_one, List.drop_one, List.tail_cons, List.tail_cons, regexRest?_line]
  cases found : regexRest? false false rest with
  | none => rfl
  | some body =>
    rw [Option.map_some, Option.map_some, List.drop_succ_cons, List.drop_succ_cons,
      drop_append_of_le (regexRest?_le found), run_append_of_without flags]

private theorem prefix_iff : ['*', '/'] <+: c :: rest ↔ c = '*' ∧ nextIs (· == '/') rest = true := by
  cases rest with
  | nil => simp [nextIs, List.cons_prefix_cons]
  | cons d rest =>
    simp only [List.cons_prefix_cons, List.nil_prefix, and_true, nextIs, beq_iff_eq]
    exact and_congr eq_comm eq_comm

/-- A block comment that a text closes is closed there whatever is behind it. -/
theorem blockCommentRest_of_closed (closed : ['*', '/'] <:+: text) (after : List Char) :
    blockCommentRest (text ++ after) = blockCommentRest text := by
  induction text with
  | nil => simp at closed
  | cons c rest ih =>
    rw [List.infix_cons_iff, prefix_iff] at closed
    rw [List.cons_append, blockCommentRest, blockCommentRest]
    cases rest with
    | nil => simp [nextIs] at closed
    | cons d rest =>
      have same : nextIs (· == '/') (d :: rest ++ after) = nextIs (· == '/') (d :: rest) := rfl
      rw [same]
      split
      · rfl
      · rename_i goes
        rw [ih (closed.resolve_left goes)]

/-- What closes a block comment is the end of it. -/
theorem closed_take (closed : ['*', '/'] <:+: text) :
    ['*', '/'] <:+: text.take (blockCommentRest text) := by
  induction text with
  | nil => simp at closed
  | cons c rest ih =>
    rw [List.infix_cons_iff, prefix_iff] at closed
    rw [blockCommentRest]
    split
    · rename_i closes
      have front : ['*', '/'] <+: (c :: rest).take 2 :=
        List.prefix_take_iff.mpr ⟨prefix_iff.mpr closes, Nat.le_refl 2⟩
      exact front.isInfix
    · rename_i goes
      rw [List.take_succ_cons]
      exact List.infix_cons (ih (closed.resolve_left goes))

/-- A block comment that a text does not close takes all of it, and at least one character more
if there is one that does not join a star at its end. -/
theorem blockCommentRest_of_open (open' : ¬['*', '/'] <:+: text)
    (apart : Without (· == '/') after) :
    text.length + min 1 after.length ≤ blockCommentRest (text ++ after) := by
  induction text with
  | nil =>
    cases after with
    | nil => exact Nat.zero_le _
    | cons d tail =>
      rw [List.nil_append, blockCommentRest, List.length_nil, List.length_cons]
      split
      · omega
      · omega
  | cons c rest ih =>
    rw [List.infix_cons_iff, prefix_iff, not_or] at open'
    have goes : ¬(c = '*' ∧ nextIs (· == '/') (rest ++ after) = true) := by
      cases rest with
      | nil => simp [apart.nextIs]
      | cons d rest => exact open'.1
    rw [List.cons_append, blockCommentRest, if_neg goes, List.length_cons]
    have more := ih open'.2
    omega

theorem slash_line (closed : ¬IsOpen ('/' :: rest)) (tail : List Char) :
    slash before ('/' :: (rest ++ '\n' :: tail)) = slash before ('/' :: rest) := by
  have apart : Without (· == '/') ('\n' :: tail) := by simp [Without]
  have star : Without (· == '*') ('\n' :: tail) := by simp [Without]
  have more : Without (· != '\n') ('\n' :: tail) := by simp [Without]
  have line : lineComment ('/' :: (rest ++ '\n' :: tail)) = lineComment ('/' :: rest) :=
    run_append_of_without more ('/' :: rest)
  have operators : operator ('/' :: (rest ++ '\n' :: tail)) = operator ('/' :: rest) :=
    operator_append (blunt_line tail) ('/' :: rest)
  simp only [slash, List.drop_succ_cons, List.drop_zero, nextIs_append_of_without apart,
    nextIs_append_of_without star, line, operators, regex?_line]
  split
  · rfl
  split
  · rename_i block
    obtain ⟨d, rest, rfl, star⟩ := exists_of_nextIs block
    obtain rfl := beq_iff_eq.mp star
    have closes : ['*', '/'] <:+: rest := by
      by_contra never
      exact closed (.inr ⟨rest, rfl, never⟩)
    simp [blockCommentRest_of_closed closes]
  · rfl

/-- A lexeme that is no open template or block comment is the same in front of a line feed as at
the end of a source. -/
theorem lexeme_line (closed : ¬IsOpen (c :: rest)) (tail : List Char) :
    lexeme before c (rest ++ '\n' :: tail) = lexeme before c rest := by
  have blunt := blunt_line tail
  have digit : Without isDigit ('\n' :: tail) :=
    fun c head => by cases head; decide
  have starts : startsNumber c (rest ++ '\n' :: tail) = startsNumber c rest := by
    simp only [startsNumber, nextIs_append_of_without digit]
  have word : run continuesIdentifier (c :: rest ++ '\n' :: tail) =
      run continuesIdentifier (c :: rest) :=
    run_append_of_without (fun c head => not_continuesIdentifier (blunt c head)) (c :: rest)
  have numbers := number_append blunt (c :: rest)
  have operators := operator_append blunt (c :: rest)
  rw [List.cons_append] at word numbers operators
  unfold lexeme
  rw [starts, word, numbers, operators, enclosed_line]
  split
  · rfl
  split
  · rfl
  split
  · rename_i template
    subst template
    have closes : stillOpen [.template] rest = [] := by
      by_contra never
      exact closed (.inl ⟨rest, rfl, never⟩)
    rw [enclosed_append_of_closed _ _ closes]
  split
  · rename_i isSlash
    subst isSlash
    exact slash_line closed tail
  · rfl

private theorem lexeme_template (before : List Token) (rest : List Char) :
    lexeme before '\x60' rest = (.string, enclosed [.template] rest + 1) :=
  rfl

private theorem lexeme_blockComment (before : List Token) (rest : List Char) :
    lexeme before '/' ('*' :: rest) = (.comment, blockCommentRest rest + 2) :=
  rfl

/-- An open template or block comment takes the whole text, and at least one character more if
there is one that does not join a star at its end. -/
theorem lexeme_open (open' : IsOpen (c :: rest)) (apart : Without (· == '/') after) :
    rest.length + 1 + min 1 after.length ≤ (lexeme before c (rest ++ after)).2 := by
  rcases open' with ⟨_, same, open'⟩ | ⟨body, same, open'⟩
  · obtain ⟨rfl, rfl⟩ := List.cons.inj same
    have taken := enclosed_of_open inTemplate_singleton open' after
    rw [lexeme_template]
    dsimp only
    omega
  · obtain ⟨rfl, rfl⟩ := List.cons.inj same
    have taken := blockCommentRest_of_open open' apart
    rw [List.cons_append, lexeme_blockComment, List.length_cons]
    dsimp only
    omega

/-- A token that is open takes the whole text. -/
theorem isOpen_of_token {kind : Kind} {extent : Nat} (found : lexeme before c rest = (kind, extent))
    (open' : IsOpen ((c :: rest).take extent)) : IsOpen (c :: rest) := by
  obtain _ | n := extent
  · exact absurd (extent_pos found) (Nat.lt_irrefl 0)
  rw [List.take_succ_cons] at open'
  rcases open' with ⟨taken, same, open'⟩ | ⟨body, same, open'⟩
  · obtain ⟨rfl, rfl⟩ := List.cons.inj same
    have all := enclosed_of_open inTemplate_singleton open' (rest.drop n)
    obtain rfl : enclosed [.template] rest = n := Nat.succ.inj (congrArg Prod.snd found)
    have short := enclosed_le [.template] rest
    rw [List.take_append_drop, List.length_take, List.length_drop] at all
    rw [List.take_of_length_le (by omega)] at open'
    exact .inl ⟨rest, rfl, open'⟩
  · obtain ⟨rfl, front⟩ := List.cons.inj same
    obtain _ | ⟨d, rest⟩ := rest
    · simp at front
    obtain _ | n := n
    · simp at front
    obtain ⟨rfl, rfl⟩ := List.cons.inj front
    obtain rfl : blockCommentRest rest = n :=
      Nat.succ.inj (Nat.succ.inj (congrArg Prod.snd found))
    exact .inr ⟨rest, rfl, fun closed => open' (closed_take closed)⟩

end Line

section Scan
variable {before tokens : List Token} {place stop : Position}

/-- The last of some tokens is a template literal or a block comment that is not closed. -/
def LastOpen (tokens : List Token) : Prop :=
  ∃ t ∈ tokens.getLast?, IsOpen t.value.toList

/-- A source ends inside a template literal or a block comment: its last token in front of the
end is one that is not closed. -/
def EndsInside (source : String) : Prop :=
  LastOpen (Token.ofSource source).dropLast

private theorem lastOpen_cons (closed : ¬IsOpen t.value.toList) :
    LastOpen (t :: tokens) ↔ LastOpen tokens := by
  unfold LastOpen
  cases tokens with
  | nil => simp [closed]
  | cons u tokens => rw [List.getLast?_cons_cons]

/-- A token that is open goes on behind a line feed. -/
private theorem scan_open (blank : ∀ c ∈ gap, isGap c = true) (filled : isGap c = false)
    (open' : IsOpen (c :: rest)) (spelled : t.value.toList = c :: rest) (tail : List Char) :
    ¬(before.reverse ++ [t]) <+: scan before place ((gap ++ c :: rest) ++ '\n' :: tail) := by
  intro kept
  have apart : Without (· == '/') ('\n' :: tail) := by simp [Without]
  have longer := @lexeme_open before c rest _ open' apart
  have short := lexeme_le before c (rest ++ '\n' :: tail)
  rcases found : lexeme before c (rest ++ '\n' :: tail) with ⟨kind, extent⟩
  rw [found] at longer short
  rw [List.append_assoc, List.cons_append, scan_first blank filled found] at kept
  obtain ⟨later, scanned, -⟩ := tiles_scan _ _ _
  rw [scanned, List.reverse_cons, List.append_assoc, List.prefix_append_right_inj] at kept
  obtain ⟨same, -⟩ := List.cons_prefix_cons.mp kept
  have width := congrArg List.length spelled
  rw [same, ofLexeme, String.toList_ofList, List.length_take, List.length_cons,
    List.length_cons] at width
  rw [List.length_cons] at longer
  dsimp only at longer short
  omega

/-- An open token is the last one: it has all characters of the text behind the gap. -/
private theorem last_of_open (blank : ∀ c ∈ gap, isGap c = true) (filled : isGap c = false)
    (open' : IsOpen (c :: rest))
    (scanned : scan before place (gap ++ c :: rest) =
      before.reverse ++ (tokens ++ [.endOfSource stop])) :
    ∃ t, tokens = [t] ∧ t.value.toList = c :: rest := by
  have all := @lexeme_open before c rest [] open' (by simp [Without])
  have short := lexeme_le before c rest
  rcases found : lexeme before c rest with ⟨kind, extent⟩
  rw [List.append_nil, found] at all
  rw [found] at short
  obtain rfl : extent = (c :: rest).length := Nat.le_antisymm short all
  rw [scan_first blank filled found, List.take_length, List.drop_length,
    scan_gap (List.forall_mem_nil _), List.reverse_cons, List.reverse_cons, List.append_assoc,
    List.append_cancel_left_eq] at scanned
  obtain ⟨same, -⟩ := List.append_inj' scanned rfl
  exact ⟨_, same.symm, String.toList_ofList⟩

/-- A lexeme that is not open is the next token in front of a line feed as well. -/
private theorem scan_closed (blank : ∀ c ∈ gap, isGap c = true) (filled : isGap c = false)
    (closed : ¬IsOpen (c :: rest)) {kind : Kind} (found : lexeme before c rest = (kind, extent))
    (tail : List Char) :
    scan before place ((gap ++ c :: rest) ++ '\n' :: tail) =
      scan (ofLexeme kind (place.advance gap) ((c :: rest).take extent) :: before)
        ((place.advance gap).advance ((c :: rest).take extent))
        ((c :: rest).drop extent ++ '\n' :: tail) := by
  have short := lexeme_le before c rest
  rw [found] at short
  rw [List.append_assoc, List.cons_append,
    scan_first blank filled ((lexeme_line closed tail).trans found), ← List.cons_append,
    List.take_append_of_le_length short, List.drop_append_of_le_length short]

/-- What is lexed up to the end of a line stays as it is whatever is behind the line, and what
is behind it is lexed from the start of the next line, if the last token is closed. If it is
not, it goes on. -/
theorem scan_line (text tail : List Char)
    (scanned : scan before place text = before.reverse ++ (tokens ++ [.endOfSource stop])) :
    (¬LastOpen tokens → scan before place (text ++ '\n' :: tail) =
      scan (tokens.reverse ++ before) (place.advance (text ++ ['\n'])) tail) ∧
    (LastOpen tokens →
      ¬(before.reverse ++ tokens) <+: scan before place (text ++ '\n' :: tail)) := by
  -- One token after the other, by the length of the text behind it.
  induction size : text.length using Nat.strong_induction_on
    generalizing text before tokens place with
  | _ n ih =>
    subst size
    obtain ⟨blank, isBlank, rfl | ⟨c, rest, filled, rfl⟩⟩ := exists_gap text
    · rw [scan_gap isBlank, List.reverse_cons, List.append_cancel_left_eq] at scanned
      have nothing : [] ++ [endOfSource (place.advance text)] = tokens ++ [endOfSource stop] :=
        scanned
      obtain ⟨rfl, -⟩ := List.append_inj' nothing rfl
      have lineFeed : isGap '\n' = true := by decide
      have skipped := scan_skip (List.forall_mem_append.mpr
        ⟨isBlank, List.forall_mem_singleton.mpr lineFeed⟩) before place tail
      rw [List.append_assoc, List.singleton_append] at skipped
      exact ⟨fun _ => skipped, fun last => by simp [LastOpen] at last⟩
    · by_cases open' : IsOpen (c :: rest)
      · obtain ⟨t, rfl, spelled⟩ := last_of_open isBlank filled open' scanned
        exact ⟨fun closed => absurd ⟨t, rfl, spelled ▸ open'⟩ closed,
          fun _ => scan_open isBlank filled open' spelled tail⟩
      · rcases found : lexeme before c rest with ⟨kind, extent⟩
        rw [scan_closed isBlank filled open' found]
        rw [scan_first isBlank filled found] at scanned
        obtain ⟨later, shape, scannedLater, tiled⟩ := scan_split scanned
        obtain ⟨inner, rfl, -⟩ := ends_of_tiles tiled
        rw [← List.cons_append] at shape
        obtain ⟨rfl, ends⟩ := List.append_inj' shape rfl
        rw [← ends] at scannedLater
        have closed : ¬IsOpen (ofLexeme kind (place.advance blank)
            ((c :: rest).take extent)).value.toList := by
          intro isOpen
          rw [ofLexeme, String.toList_ofList] at isOpen
          exact open' (isOpen_of_token found isOpen)
        have shorter : ((c :: rest).drop extent).length < (blank ++ c :: rest).length := by
          have positive := extent_pos found
          simp only [List.length_drop, List.length_append, List.length_cons]
          omega
        obtain ⟨goesOn, breaksOff⟩ := ih _ shorter _ scannedLater rfl
        rw [lastOpen_cons closed]
        refine ⟨fun last => ?_, fun last => ?_⟩
        · rw [goesOn last, List.reverse_cons, List.append_assoc, List.singleton_append,
            ← advance_append, ← advance_append, List.append_assoc, ← List.append_assoc _ _ ['\n'],
            List.take_append_drop]
        · have broken := breaksOff last
          rwa [List.reverse_cons, List.append_assoc, List.singleton_append] at broken

end Scan

section OneLine
variable {before : List Token} {c : Char} {rest text : List Char}

/-- A string between quotes does not take a line feed. -/
theorem enclosed_oneLine (quote : Char) (text : List Char) :
    '\n' ∉ text.take (enclosed [.quoted quote] text) := by
  suffices all : ∀ unclosed, unclosed = [] ∨ unclosed = [.quoted quote] →
      '\n' ∉ text.take (enclosed unclosed text) from all _ (.inr rfl)
  intro unclosed
  induction unclosed, text using turn_induction with
  | closed text => simp [enclosed_nil]
  | done unclosed => simp
  | turn unclosed c rest ih =>
    rintro (rfl | rfl)
    · simp [enclosed_nil]
    · have plain : '\n' ∉ (c :: rest).take (turn [.quoted quote] c rest.head?).1 := by
        cases rest with
        | nil => grind [turn]
        | cons d rest => grind [turn]
      rw [enclosed_turn, Nat.add_comm, List.take_add, List.mem_append, not_or]
      exact ⟨plain, ih (turn_quoted quote c _)⟩

theorem regexRest?_oneLine {inClass escaped : Bool}
    (found : regexRest? inClass escaped text = some extent) : '\n' ∉ text.take extent := by
  induction text generalizing inClass escaped extent with
  | nil => cases found
  | cons c text ih =>
    obtain ⟨rfl, rfl, -⟩ | ⟨_, _, more, inner, rfl, sameLine, -⟩ := regexRest?_cons found
    · simp
    · rw [List.take_succ_cons, List.mem_cons, not_or]
      exact ⟨sameLine.symm, ih inner⟩

/-- A regular expression does not take a line feed. -/
theorem regex?_oneLine (found : regex? ('/' :: rest) = some extent) :
    '\n' ∉ ('/' :: rest).take extent := by
  obtain ⟨body, closes, rfl⟩ := Option.map_eq_some_iff.mp found
  have closes : regexRest? false false rest = some body := closes
  rw [List.take_add, List.take_succ_cons, List.mem_append, List.mem_cons, not_or, not_or]
  refine ⟨⟨by decide, regexRest?_oneLine closes⟩, fun member => ?_⟩
  have flag : continuesIdentifier '\n' = true := by
    rw [take_run] at member
    exact List.mem_takeWhile_imp member
  exact absurd flag (by decide)

/-- An operator does not take a line feed. -/
theorem operator_oneLine (inside : c ≠ '\n') (rest : List Char) :
    '\n' ∉ (c :: rest).take (operator (c :: rest)) := by
  obtain same | ⟨op, listed, same⟩ := take_operator_cases c rest
  · rw [same]
    simpa using inside.symm
  · rw [same]
    exact fun member => absurd (not_isStop_of_operator op listed _ member) (by decide)

private theorem single?_kind {kind : Kind} (found : single? c = some kind) :
    kind ≠ .string ∧ kind ≠ .regex ∧ kind ≠ .operator := by
  unfold single? at found
  split_ifs at found
  all_goals
    cases found
    decide

/-- A kind whose lexemes end with their line, if they are not templates. -/
def EndsWithLine (kind : Kind) : Prop :=
  kind = .string ∨ kind = .regex ∨ kind = .operator

private theorem slash_oneLine (kind : EndsWithLine (slash before ('/' :: rest)).1) :
    '\n' ∉ ('/' :: rest).take (slash before ('/' :: rest)).2 := by
  have operators := operator_oneLine (by decide : '/' ≠ '\n') rest
  unfold slash at kind ⊢
  split_ifs at kind ⊢ with line block may
  · simp [EndsWithLine] at kind
  · simp [EndsWithLine] at kind
  · split
    · rename_i found
      exact regex?_oneLine found
    · exact operators
  · exact operators

/-- No string between quotes, no regular expression and no operator takes a line feed, whether it
is terminated or not. -/
theorem lexeme_oneLine (filled : isGap c = false) (notTemplate : c ≠ '\x60')
    (kind : EndsWithLine (lexeme before c rest).1) :
    '\n' ∉ (c :: rest).take (lexeme before c rest).2 := by
  have inside : c ≠ '\n' := by
    rintro rfl
    exact absurd filled (by decide)
  unfold lexeme at kind ⊢
  cases single : single? c with
  | some found =>
    obtain ⟨notString, notRegex, notOperator⟩ := single?_kind single
    rw [single] at kind
    rcases kind with isString | isRegex | isOperator
    · exact absurd isString notString
    · exact absurd isRegex notRegex
    · exact absurd isOperator notOperator
  | none =>
    simp only [single] at kind ⊢
    split_ifs at kind ⊢ with quote slash number word
    · rw [List.take_succ_cons, List.mem_cons, not_or]
      exact ⟨inside.symm, enclosed_oneLine c rest⟩
    · subst slash
      exact slash_oneLine kind
    · simp [EndsWithLine] at kind
    · simp [EndsWithLine] at kind
    · exact operator_oneLine inside rest

private theorem endsWithLine_of_reserve {value : String} (kind : EndsWithLine (reserve found value)) :
    EndsWithLine found := by
  unfold reserve at kind
  split at kind
  · simp [EndsWithLine] at kind
  · exact kind

/-- No string between quotes, regular expression or operator of a source goes over the end of its
line. -/
theorem token_oneLine {source : String} (member : t ∈ ofSource source)
    (kind : EndsWithLine t.kind) (notTemplate : t.value.toList.head? ≠ some '\x60') :
    '\n' ∉ t.value.toList := by
  have notEnd : t.isEof = false := by
    unfold isEof
    rcases kind with same | same | same
    all_goals rw [same]; rfl
  obtain ⟨before, place, c, rest, filled, rfl⟩ := cut_ofSource member notEnd
  have shown : (ofLexeme (lexeme before c rest).1 place
      ((c :: rest).take (lexeme before c rest).2)).value.toList =
      (c :: rest).take (lexeme before c rest).2 := String.toList_ofList
  rw [shown] at notTemplate ⊢
  refine lexeme_oneLine filled ?_ (endsWithLine_of_reserve kind)
  rintro rfl
  rw [List.head?_take, if_neg (lexeme_pos before '\x60' rest).ne'] at notTemplate
  exact notTemplate rfl

end OneLine

/-- What is written on later lines changes none of the tokens of a source if and only if the source
does not end inside a template literal or a block comment. What is on the later lines is then lexed
from their start. No string between quotes, regular expression or operator of the source goes over
the end of its line, terminated or not. -/
theorem later_lines_apart (a b : String) :
    ((ofSource a).dropLast <+: ofSource (a ++ "\n" ++ b) ↔ ¬EndsInside a) ∧
    (¬EndsInside a → ofSource (a ++ "\n" ++ b) =
      scan (ofSource a).dropLast.reverse (Position.origin.advance (a.toList ++ ['\n'])) b.toList) ∧
    ∀ t ∈ ofSource a, EndsWithLine t.kind → t.value.toList.head? ≠ some '\x60' →
      '\n' ∉ t.value.toList := by
  obtain ⟨tokens, lexed, -⟩ := ends_of_tiles (tiles_ofSource a)
  have whole : (a ++ "\n" ++ b).toList = a.toList ++ '\n' :: b.toList := by
    simp [String.toList_append]
  obtain ⟨goesOn, breaksOff⟩ := @scan_line [] tokens .origin _ a.toList b.toList lexed
  unfold EndsInside
  rw [lexed, List.dropLast_concat, ofSource, whole]
  rw [List.append_nil] at goesOn
  refine ⟨⟨fun kept last => breaksOff last kept, fun closed => ?_⟩, goesOn, fun t member kind => ?_⟩
  · obtain ⟨later, scanned, -⟩ := tiles_scan tokens.reverse
      (Position.origin.advance (a.toList ++ ['\n'])) b.toList
    rw [goesOn closed, scanned, List.reverse_reverse]
    exact List.prefix_append tokens later
  · exact token_oneLine (lexed ▸ member) kind

/-- A string that is not terminated stays as it is when its closing quote is on the next line; a
template does not. -/
theorem later_lines_apart_quote :
    (¬EndsInside "s = 'ab" ∧ (ofSource "s = 'ab").dropLast <+: ofSource ("s = 'ab" ++ "\n" ++ "c'")) ∧
      (∃ t ∈ ofSource "s = 'ab", t.value = "'ab" ∧ '\n' ∉ t.value.toList) ∧
      EndsInside "s = \x60ab" := by
  obtain ⟨kept, -, oneLine⟩ := later_lines_apart "s = 'ab" "c'"
  have stays : (ofSource "s = 'ab").dropLast <+: ofSource ("s = 'ab" ++ "\n" ++ "c'") := by
    decide +kernel
  have goesOn : ¬(ofSource "s = \x60ab").dropLast <+: ofSource ("s = \x60ab" ++ "\n" ++ "c\x60") := by
    decide +kernel
  have member : ⟨.string, "'ab", ⟨⟨1, 4, 4⟩, ⟨1, 7, 7⟩⟩⟩ ∈ ofSource "s = 'ab" := by decide +kernel
  refine ⟨⟨kept.mp stays, stays⟩, ⟨_, member, rfl, oneLine _ member (.inl rfl) (by decide)⟩, ?_⟩
  by_contra closed
  exact goesOn ((later_lines_apart _ _).1.mpr closed)

end ImportAtlas.Lines
