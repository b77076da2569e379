import Mathlib.Data.List.Forall2
import ImportAtlas.Proofs.Locality
import ImportAtlas.Proofs.Lossless
import ImportAtlas.Proofs.Writing

/-! Comments between tokens. A comment that is put into a gap leaves the tokens around it as
they are, wherever no slash divides: what is in front of the gap does not see the comment, and
what is behind it passes the comment over when it looks back. The one exception is an arrow,
which opens a regular expression only if no comment stands between the two. -/
namespace ImportAtlas

namespace Token

/-- A token without its place. -/
def unplaced (t : Token) : Token :=
  ⟨t.kind, t.value, default⟩

/-- Whether a token divides: it starts with a slash and is neither a comment nor a regular
expression. -/
def isDivision (t : Token) : Bool :=
  t.isOperator "/" || t.isOperator "/="

end Token

namespace Trivia
open Extent Lexeme Locality Lossless Text Tiling Token Writing

/-! Scanning up to a gap. -/

section Cut
variable {before tokens : List Token} {place : Position} {g : Char} {tail : List Char}

/-- A text is a gap, or has one in front of its first lexeme. -/
theorem exists_gap (text : List Char) : ∃ gap, (∀ c ∈ gap, isGap c = true) ∧
    (text = gap ∨ ∃ c rest, isGap c = false ∧ text = gap ++ c :: rest) := by
  refine ⟨text.takeWhile isGap, fun c => List.mem_takeWhile_imp, ?_⟩
  have whole := List.takeWhile_append_dropWhile (p := isGap) (l := text)
  cases shape : text.dropWhile isGap with
  | nil => exact .inl (by rw [shape, List.append_nil] at whole; exact whole.symm)
  | cons c rest =>
    have filled : isGap c = false := by
      have first := List.head?_dropWhile_not isGap text
      rw [shape] at first
      simpa using first
    exact .inr ⟨c, rest, filled, by rw [← shape, whole]⟩

/-- A gap only moves the place. -/
theorem scan_skip (blank : ∀ c ∈ gap, isGap c = true) (before : List Token) (place : Position)
    (text : List Char) : scan before place (gap ++ text) = scan before (place.advance gap) text := by
  obtain ⟨more, blankMore, rfl | ⟨c, rest, filled, rfl⟩⟩ := exists_gap text
  · rw [scan_gap (List.forall_mem_append.mpr ⟨blank, blankMore⟩), scan_gap blankMore,
      advance_append]
  · rw [← List.append_assoc, scan_lexeme (List.forall_mem_append.mpr ⟨blank, blankMore⟩) filled,
      scan_lexeme blankMore filled, advance_append]

/-- The first of the gaps between tokens that tile a text starts where one says, and all
others behind the start of the text. -/
theorem start_of_gap (tiled : Tiles place text tokens) (member : u ∈ gaps first tokens) :
    u.start = first ∨ place.offset ≤ u.start.offset := by
  induction tiled generalizing first with
  | done =>
    rw [List.mem_singleton.mp member]
    exact .inl rfl
  | @token place gap taken text kind tokens blank filled inside more ih =>
    have behind : place.offset ≤ ((place.advance gap).advance taken).offset := by
      rw [offset_advance, offset_advance]
      omega
    rcases List.mem_cons.mp member with rfl | later
    · exact .inl rfl
    · rcases ih later with same | further
      · exact .inr (by rwa [same])
      · exact .inr (Nat.le_trans behind further)

theorem byteCount_take_add_drop (n : Nat) (text : List Char) :
    byteCount (text.take n) + byteCount (text.drop n) = byteCount text := by
  rw [← byteCount_append, List.take_append_drop]

/-- As many bytes as a text has or fewer are as many characters or fewer. -/
theorem le_length_of_byteCount_take {n : Nat} {text rest : List Char} (more : rest ≠ [])
    (inside : byteCount ((text ++ rest).take n) ≤ byteCount text) : n ≤ text.length := by
  by_contra longer
  have behind : n - text.length ≠ 0 := by omega
  have filled : rest.take (n - text.length) ≠ [] := by simp [more, behind]
  have positive := byteCount_pos filled
  rw [List.take_append, List.take_of_length_le (by omega), byteCount_append] at inside
  omega

/-- A slash that is an operator divides. -/
theorem isDivision_ofLexeme (place : Position) (isOperator : (lexeme before '/' rest).1 = .operator) :
    (ofLexeme (lexeme before '/' rest).1 place
      (('/' :: rest).take (lexeme before '/' rest).2)).isDivision = true := by
  have lexed : lexeme before '/' rest = (.operator, operator ('/' :: rest)) := by
    change slash before ('/' :: rest) = _
    change (slash before ('/' :: rest)).1 = _ at isOperator
    unfold slash at isOperator ⊢
    split_ifs at isOperator ⊢ with line block may
    · cases found : regex? ('/' :: rest) with
      | none => rfl
      | some extent => simp [found] at isOperator
    · rfl
  rw [lexed]
  cases rest with
  | nil => rfl
  | cons d rest =>
    by_cases equals : d = '='
    · subst equals
      have extent : operator ('/' :: '=' :: rest) = 2 := by
        simp [operator, operators, List.isPrefixOf]
        rfl
      rw [extent]
      rfl
    · have extent : operator ('/' :: d :: rest) = 1 := by
        simp [operator, operators, List.isPrefixOf, Ne.symm equals]
        rfl
      rw [extent]
      rfl

theorem extent_pos {kind : Kind} (lexed : lexeme before c rest = (kind, extent)) : 0 < extent := by
  have positive := lexeme_pos before c rest
  rwa [lexed] at positive

/-- A lexeme behind a gap is the next token. -/
theorem scan_first (blank : ∀ c ∈ gap, isGap c = true) (filled : isGap c = false)
    {kind : Kind} (lexed : lexeme before c rest = (kind, extent)) :
    scan before place (gap ++ c :: rest) =
      scan (ofLexeme kind (place.advance gap) ((c :: rest).take extent) :: before)
        ((place.advance gap).advance ((c :: rest).take extent)) ((c :: rest).drop extent) := by
  have next := scan_lexeme blank filled before place rest
  rwa [lexed] at next

/-- The latest token is the first of those that a scan adds to the ones before. -/
theorem scan_split (scanned : scan (t :: before) place text = before.reverse ++ tokens) :
    ∃ later, tokens = t :: later ∧ scan (t :: before) place text = (t :: before).reverse ++ later ∧
      Tiles place text later := by
  obtain ⟨later, scannedLater, tiled⟩ := tiles_scan (t :: before) place text
  refine ⟨later, ?_, scannedLater, tiled⟩
  simpa using scanned.symm.trans scannedLater

/-- A gap does not start inside white space: all gaps but the first one start behind the
first token. -/
private theorem eq_nil_of_gap (gap : isGap g = true) (blank : ∀ c ∈ text, isGap c = true)
    (scanned : scan before place (text ++ g :: tail) = before.reverse ++ tokens)
    (member : u ∈ gaps place tokens) (start : u.start.offset = place.offset + byteCount text) :
    text = [] := by
  by_contra filled
  have width := byteCount_pos filled
  have widthGap := byteCount_pos (List.cons_ne_nil g [])
  have skipped := scan_skip (List.forall_mem_append.mpr ⟨blank, List.forall_mem_singleton.mpr gap⟩)
    before place tail
  rw [List.append_assoc, List.singleton_append, scanned] at skipped
  obtain ⟨tokens', scanned', tiled⟩ := tiles_scan before (place.advance (text ++ [g])) tail
  obtain rfl := List.append_cancel_left (skipped.trans scanned')
  rcases start_of_gap tiled member with first | behind
  · rw [first] at start
    omega
  · rw [offset_advance, byteCount_append] at behind
    omega

/-- A lexeme that ends in front of a gap is the next token whatever is behind the first character
of the gap, if it is not a slash that divides. -/
theorem scan_local (gap : isGap g = true) (blank : ∀ c ∈ white, isGap c = true)
    (filled : isGap c = false) {kind : Kind}
    (found : lexeme before c (rest ++ g :: tail) = (kind, extent))
    (short : extent ≤ (c :: rest).length)
    (undivided : (ofLexeme kind (place.advance white) ((c :: rest).take extent)).isDivision = false)
    (tail' : List Char) :
    scan before place ((white ++ c :: rest) ++ g :: tail') =
      scan (ofLexeme kind (place.advance white) ((c :: rest).take extent) :: before)
        ((place.advance white).advance ((c :: rest).take extent))
        ((c :: rest).drop extent ++ g :: tail') := by
  have taken (tail : List Char) : (c :: (rest ++ g :: tail)).take extent = (c :: rest).take extent := by
    rw [← List.cons_append, List.take_append_of_le_length short]
  have stays : lexeme before c (rest ++ g :: tail') = (kind, extent) := by
    rw [← found]
    refine lexeme_local (by simp [isStop, gap]) (by rw [found]; exact short) ?_
    rintro rfl isOperator
    have divides := isDivision_ofLexeme (place.advance white) isOperator
    rw [found, taken, undivided] at divides
    cases divides
  rw [List.append_assoc, List.cons_append, scan_first blank filled stays, taken, ← List.cons_append,
    List.drop_append_of_le_length short]

/-- A token in front of a gap is not longer than the text up to the gap. -/
private theorem short_of_gap (tiled : Tiles ((place.advance white).advance
      ((c :: (rest ++ g :: tail)).take extent)) text later)
    (member : u ∈ gaps ((place.advance white).advance ((c :: (rest ++ g :: tail)).take extent)) later)
    (start : u.start.offset = place.offset + byteCount (white ++ c :: rest)) :
    extent ≤ (c :: rest).length := by
  have behind : ((place.advance white).advance ((c :: (rest ++ g :: tail)).take extent)).offset ≤
      u.start.offset := by
    rcases start_of_gap tiled member with same | behind
    · rw [same]
    · exact behind
  rw [start, offset_advance, offset_advance, byteCount_append] at behind
  refine le_length_of_byteCount_take (List.cons_ne_nil g tail) ?_
  rw [List.cons_append]
  omega

/-- What is lexed in front of a gap is lexed there whatever is behind the first character of
the gap, if no slash divides. -/
theorem scan_cut (gap : isGap g = true) (text : List Char) {before tokens : List Token} {place : Position}
    (scanned : scan before place (text ++ g :: tail) = before.reverse ++ tokens)
    (cut : ∃ u ∈ gaps place tokens, u.start.offset = place.offset + byteCount text)
    (undivided : ∀ t ∈ tokens, t.isDivision = false) :
    ∃ (first : List Token) (place' : Position), place'.offset = place.offset + byteCount text ∧
      (∀ t ∈ first, t.span.stop.offset ≤ place'.offset) ∧
      ∀ tail', scan before place (text ++ g :: tail') =
        scan (first.reverse ++ before) place' (g :: tail') := by
  induction size : text.length using Nat.strong_induction_on generalizing text before tokens place with
  | _ n ih =>
    subst size
    obtain ⟨u, member, start⟩ := cut
    obtain ⟨blank, isBlank, same | ⟨c, rest, filled, same⟩⟩ := exists_gap text
    · subst same
      obtain rfl := eq_nil_of_gap gap isBlank scanned member start
      exact ⟨[], place, rfl, by simp, fun _ => rfl⟩
    · subst same
      rcases found : lexeme before c (rest ++ g :: tail) with ⟨kind, extent⟩
      have positive := extent_pos found
      have scannedNext := scanned
      rw [List.append_assoc, List.cons_append, scan_first isBlank filled found] at scannedNext
      obtain ⟨later, rfl, -, tiled⟩ := scan_split scannedNext
      obtain ⟨first, undividedLater⟩ := List.forall_mem_cons.mp undivided
      rcases List.mem_cons.mp member with rfl | memberLater
      · have width := byteCount_pos (List.append_ne_nil_of_right_ne_nil blank (List.cons_ne_nil c rest))
        exact absurd start (Nat.ne_of_lt (Nat.lt_add_of_pos_right width))
      have short : extent ≤ (c :: rest).length := short_of_gap tiled memberLater start
      rw [← List.cons_append, List.take_append_of_le_length short] at first memberLater
      have next := scan_local gap isBlank filled found short first
      obtain ⟨later', same, scannedLater, -⟩ := scan_split ((next tail).symm.trans scanned)
      obtain rfl := (List.cons.inj same).2
      have sum := byteCount_take_add_drop extent (c :: rest)
      have shorter : ((c :: rest).drop extent).length < (blank ++ c :: rest).length := by
        simp only [List.length_drop, List.length_append, List.length_cons]
        omega
      have startLater : u.start.offset =
          ((place.advance blank).advance ((c :: rest).take extent)).offset +
            byteCount ((c :: rest).drop extent) := by
        rw [start, offset_advance, offset_advance, byteCount_append]
        omega
      obtain ⟨run, place', offset, stops, same⟩ := ih _ shorter _ scannedLater
        ⟨u, memberLater, startLater⟩ undividedLater rfl
      rw [← startLater, start] at offset
      refine ⟨ofLexeme kind (place.advance blank) ((c :: rest).take extent) :: run, place', offset,
        List.forall_mem_cons.mpr ⟨?_, stops⟩, ?_⟩
      · rw [offset, ← start, startLater]
        exact Nat.le_add_right _ _
      · intro tail'
        rw [next, same tail', List.reverse_cons, List.append_assoc, List.singleton_append]

/-- A gap between tokens that tile a text is white space of the text. -/
theorem blank_of_gap (tiled : Tiles place text tokens) (member : u ∈ gaps place tokens) :
    ∃ front blank rest, text = front ++ (blank ++ rest) ∧ (∀ c ∈ blank, isGap c = true) ∧
      u.start.offset = place.offset + byteCount front ∧
      u.stop.offset = u.start.offset + byteCount blank := by
  induction tiled with
  | @done place gap blank =>
    obtain rfl := List.mem_singleton.mp member
    exact ⟨[], gap, [], by simp, blank, rfl, by simp [endOfSource]⟩
  | @token place gap taken text kind tokens blank filled inside more ih =>
    rcases List.mem_cons.mp member with rfl | later
    · exact ⟨[], gap, taken ++ text, rfl, blank, rfl, by simp⟩
    · obtain ⟨front, blank', rest, rfl, isBlank, start, stop⟩ := ih later
      refine ⟨gap ++ (taken ++ front), blank', rest, by simp, isBlank, ?_, stop⟩
      rw [start, offset_advance, offset_advance, byteCount_append, byteCount_append]
      omega

/-- Text that reaches into a gap ends with white space of the gap. -/
theorem split_of_gap {first second : List Char} (tiled : Tiles place (first ++ second) tokens)
    (member : u ∈ gaps place tokens) (behind : u.start.offset < place.offset + byteCount first)
    (inside : place.offset + byteCount first ≤ u.stop.offset) :
    ∃ front g blank, first = front ++ g :: blank ∧ (∀ c ∈ g :: blank, isGap c = true) ∧
      u.start.offset = place.offset + byteCount front := by
  obtain ⟨front, blank, rest, whole, isBlank, start, stop⟩ := blank_of_gap tiled member
  obtain ⟨between, rfl, both⟩ : ∃ between, first = front ++ between ∧ between ++ second = blank ++ rest := by
    rcases List.append_eq_append_iff.mp whole with ⟨between, rfl, _⟩ | ⟨between, rfl, both⟩
    · rw [byteCount_append] at start
      omega
    · exact ⟨between, rfl, both.symm⟩
  rw [byteCount_append] at behind inside
  have within : between <+: blank := by
    rcases List.append_eq_append_iff.mp both with ⟨more, rfl, _⟩ | ⟨more, rfl, _⟩
    · exact List.prefix_append ..
    · have nothing : more = [] := by
        by_contra some
        have width := byteCount_pos some
        rw [byteCount_append] at inside
        omega
      simp [nothing]
  cases between with
  | nil =>
    simp only [byteCount] at behind
    omega
  | cons g more => exact ⟨front, g, more, rfl, fun c member => isBlank c (within.mem member), start⟩

end Cut

/-! Scanning behind a comment. -/

section Behind
variable {earlier later later' : List Token} {comment : Token} {n : Nat}

/-- Whether a slash opens a regular expression behind a token that does not end an arrow. -/
def admits : Option Token → Bool
  | none => true
  | some t =>
    match t.kind with
    | .operator => t.value != "<" && !postfixOperators.contains t.value
    | .leftBrace | .leftParen | .leftBracket | .comma => true
    | .keyword => !t.endsExpression
    | _ => false

/-- Whether the latest tokens are an arrow. -/
def endsArrow : List Token → Bool
  | greater :: equals :: _ =>
    greater.kind == .ambiguousGt &&
      (equals.isOperator "=" && equals.span.stop.offset == greater.span.start.offset)
  | _ => false

/-- An arrow ends with the latest token, which is then not a comment. -/
private theorem find?_of_endsArrow (arrow : endsArrow before = true) :
    ∃ greater, before.find? (·.kind != .comment) = some greater ∧ greater.kind = .ambiguousGt := by
  rcases before with _ | ⟨greater, _ | ⟨equals, rest⟩⟩
  · cases arrow
  · cases arrow
  · simp only [endsArrow, Bool.and_eq_true, beq_iff_eq] at arrow
    exact ⟨greater, List.find?_cons_of_pos (by simp [arrow.1]), arrow.1⟩

/-- A slash opens a regular expression behind an arrow, and elsewhere that is decided by the
latest token that is not a comment. -/
theorem regexMayFollow_eq (before : List Token) :
    regexMayFollow before =
      (admits (before.find? (·.kind != .comment)) || endsArrow before) := by
  unfold regexMayFollow
  cases found : before.find? (·.kind != .comment) with
  | none => rfl
  | some previous =>
    by_cases greater : previous.kind = .ambiguousGt
    · simp only [greater, admits, Bool.false_or]
      rcases before with _ | ⟨t, _ | ⟨equals, rest⟩⟩
      · cases found
      · rfl
      · by_cases first : t.kind = .comment
        · -- Behind a comment, an operator would be the latest token instead.
          have other : equals.isOperator "=" = false := by
            by_contra operator
            have kind : equals.kind = .operator := by simp_all [Token.isOperator]
            rw [List.find?_cons_of_neg (by simp [first]), List.find?_cons_of_pos (by simp [kind])]
              at found
            cases found
            simp [kind] at greater
          simp [endsArrow, first, other]
        · rw [List.find?_cons_of_pos (by simpa using first)] at found
          cases found
          simp [endsArrow, greater]
    · have none : endsArrow before = false := by
        by_contra arrow
        obtain ⟨t, latest, isGreater⟩ := find?_of_endsArrow (Bool.of_not_eq_false arrow)
        obtain rfl := Option.some.inj (found.symm.trans latest)
        exact greater isGreater
      rw [none, Bool.or_false, admits]
      cases kind : previous.kind with
      | ambiguousGt => exact absurd kind greater
      | _ => simp only [kind]

/-- A token with the same text as another one, some bytes behind it. -/
structure Moved (n : Nat) (t t' : Token) : Prop where
  kind : t'.kind = t.kind
  value : t'.value = t.value
  start : t'.span.start.offset = t.span.start.offset + n
  stop : t'.span.stop.offset = t.span.stop.offset + n

/-- The same lexeme behind the same gap, some bytes further on. -/
theorem moved_ofLexeme {place place' : Position} (offset : place'.offset = place.offset + n)
    (blank : List Char) (kind : Kind) (taken : List Char) :
    Moved n (ofLexeme kind (place.advance blank) taken) (ofLexeme kind (place'.advance blank) taken) := by
  refine ⟨rfl, rfl, ?_, ?_⟩
  · simp only [ofLexeme, offset_advance, offset]
    omega
  · simp only [ofLexeme, offset_advance, offset]
    omega

/-- Tokens that stop in front of a place stop in front of every later one. -/
private theorem apart_advance {place : Position} (apart : ∀ u ∈ earlier, u.span.stop.offset < place.offset)
    (text : List Char) : ∀ u ∈ earlier, u.span.stop.offset < (place.advance text).offset := by
  intro u member
  have before := apart u member
  rw [offset_advance]
  omega

private theorem admits_find? (isComment : comment.kind = .comment)
    (moved : List.Forall₂ (Moved n) later later') (earlier : List Token) :
    admits ((later' ++ comment :: earlier).find? (·.kind != .comment)) =
      admits ((later ++ earlier).find? (·.kind != .comment)) := by
  induction moved with
  | nil => rw [List.nil_append, List.nil_append, List.find?_cons_of_neg (by simp [isComment])]
  | @cons t t' later later' first _ ih =>
    rw [List.cons_append, List.cons_append, List.find?_cons, List.find?_cons, first.kind]
    split
    · simp only [admits, endsExpression, first.kind, first.value]
    · exact ih

/-- A comment further back does not matter to a slash, if the tokens on its two sides do not
touch. -/
theorem regexMayFollow_moved (isComment : comment.kind = .comment)
    (moved : List.Forall₂ (Moved n) later later') (some : later ≠ [])
    (apart : ∀ t ∈ later, ∀ u ∈ earlier, u.span.stop.offset < t.span.start.offset) :
    regexMayFollow (later' ++ comment :: earlier) = regexMayFollow (later ++ earlier) := by
  have sameArrow : endsArrow (later' ++ comment :: earlier) = endsArrow (later ++ earlier) := by
    cases moved with
    | nil => exact absurd rfl some
    | @cons t t' later later' first more =>
      cases more with
      | nil =>
        have parted : endsArrow (t :: earlier) = false := by
          cases earlier with
          | nil => rfl
          | cons u earlier =>
            have gap := apart t List.mem_cons_self u List.mem_cons_self
            simp [endsArrow, Nat.ne_of_lt gap]
        rw [List.singleton_append, List.singleton_append, parted]
        simp [endsArrow, Token.isOperator, isComment]
      | cons second _ =>
        have shifted (i j : Nat) : (i + n == j + n) = (i == j) := by
          rw [Bool.eq_iff_iff]
          simp
        simp [endsArrow, Token.isOperator, first.kind, first.start, second.kind, second.value,
          second.stop, shifted]
  rw [regexMayFollow_eq, regexMayFollow_eq, admits_find? isComment moved earlier, sameArrow]

/-- Earlier tokens matter to a lexeme only for the question what a slash is. -/
theorem lexeme_congr {before before' : List Token} (same : regexMayFollow before' = regexMayFollow before)
    (c : Char) (rest : List Char) : lexeme before' c rest = lexeme before c rest := by
  simp only [lexeme, slash, same]

/-- A text is lexed alike behind the same tokens with and without a comment among them. -/
theorem scan_moved (isComment : comment.kind = .comment) (text : List Char) {place place' : Position}
    (moved : List.Forall₂ (Moved n) later later') (some : later ≠ [])
    (apart : ∀ u ∈ earlier, u.span.stop.offset < place.offset)
    (behind : ∀ t ∈ later, ∀ u ∈ earlier, u.span.stop.offset < t.span.start.offset)
    (offset : place'.offset = place.offset + n)
    (scanned : scan (later ++ earlier) place text = (later ++ earlier).reverse ++ tokens) :
    ∃ tokens', scan (later' ++ comment :: earlier) place' text =
        (later' ++ comment :: earlier).reverse ++ tokens' ∧
      tokens'.map unplaced = tokens.map unplaced := by
  induction size : text.length using Nat.strong_induction_on
    generalizing text later later' tokens place place' with
  | _ n ih =>
    subst size
    obtain ⟨blank, isBlank, same | ⟨c, rest, filled, same⟩⟩ := exists_gap text
    · subst same
      rw [scan_gap isBlank, List.reverse_cons] at scanned
      obtain rfl := List.append_cancel_left scanned
      rw [scan_gap isBlank, List.reverse_cons]
      exact ⟨_, rfl, rfl⟩
    · subst same
      rcases found : lexeme (later ++ earlier) c rest with ⟨kind, extent⟩
      have found' := lexeme_congr (regexMayFollow_moved isComment moved some behind) c rest
      rw [found] at found'
      rw [scan_first isBlank filled found] at scanned
      rw [scan_first isBlank filled found']
      obtain ⟨tokens, rfl, scanned, -⟩ := scan_split scanned
      have next := moved_ofLexeme offset blank kind ((c :: rest).take extent)
      have shorter : ((c :: rest).drop extent).length < (blank ++ c :: rest).length := by
        have positive := extent_pos found
        simp only [List.length_drop, List.length_append, List.length_cons]
        omega
      have first := apart_advance apart blank
      obtain ⟨tokens', scanned', same⟩ := ih _ shorter _ (.cons next moved) (List.cons_ne_nil _ _)
        (apart_advance first _) (List.forall_mem_cons.mpr ⟨first, behind⟩) next.stop scanned rfl
      refine ⟨ofLexeme kind (place'.advance blank) ((c :: rest).take extent) :: tokens', ?_, ?_⟩
      · refine scanned'.trans ?_
        rw [List.cons_append, List.reverse_cons, List.append_assoc]
        rfl
      · rw [List.map_cons, List.map_cons, same]
        rfl

private theorem regexMayFollow_comment (isComment : comment.kind = .comment) (earlier : List Token) :
    regexMayFollow (comment :: earlier) = admits (earlier.find? (·.kind != .comment)) := by
  have seen := admits_find? isComment (.nil (R := Moved 0)) earlier
  rw [List.nil_append, List.nil_append] at seen
  have noArrow : endsArrow (comment :: earlier) = false := by
    cases earlier with
    | nil => rfl
    | cons u earlier => simp [endsArrow, isComment]
  rw [regexMayFollow_eq, seen, noArrow, Bool.or_false]

private theorem not_admits_of_endsArrow (arrow : endsArrow earlier = true) :
    admits (earlier.find? (·.kind != .comment)) = false := by
  obtain ⟨greater, latest, isGreater⟩ := find?_of_endsArrow arrow
  simp [latest, admits, isGreater]

/-- A slash starts a comment whatever is in front of it, or else a regular expression or an
operator. -/
private theorem lexeme_slash (rest : List Char) :
    (∀ before before', (lexeme before '/' rest).1 = .comment ∧
      lexeme before' '/' rest = lexeme before '/' rest) ∨
    ∀ before, (lexeme before '/' rest).1 =
      if regexMayFollow before && (regex? ('/' :: rest)).isSome then .regex else .operator := by
  have isSlash (before : List Token) : lexeme before '/' rest = slash before ('/' :: rest) := rfl
  simp only [isSlash, slash]
  split_ifs with line block
  · exact .inl fun _ _ => ⟨rfl, rfl⟩
  · exact .inl fun _ _ => ⟨rfl, rfl⟩
  · refine .inr fun before => ?_
    cases regexMayFollow before with
    | false => rfl
    | true =>
      cases regex? ('/' :: rest) with
      | _ => rfl

/-- A regular expression starts with a slash. -/
private theorem slash_of_regex {before : List Token} (isRegex : (lexeme before c rest).1 = .regex) :
    c = '/' := by
  by_contra other
  unfold lexeme at isRegex
  cases single : single? c with
  | some kind =>
    simp only [single] at isRegex
    subst isRegex
    unfold single? at single
    split_ifs at single
    all_goals cases single
  | none =>
    simp only [single, if_neg other] at isRegex
    split_ifs at isRegex

/-- A comment changes the next lexeme only if that is a regular expression behind an arrow. -/
theorem lexeme_comment (isComment : comment.kind = .comment)
    (undivided : c = '/' → (lexeme earlier c rest).1 ≠ .operator)
    (shown : ¬(endsArrow earlier = true ∧ (lexeme earlier c rest).1 = .regex)) :
    lexeme (comment :: earlier) c rest = lexeme earlier c rest := by
  by_cases arrow : endsArrow earlier = true
  · by_cases isSlash : c = '/'
    · subst isSlash
      rcases lexeme_slash rest with isComment | either
      · exact (isComment earlier (comment :: earlier)).2
      · have operator := undivided rfl
        rw [either earlier] at operator shown
        grind
    · simp only [lexeme, isSlash]
      rfl
  · refine lexeme_congr ?_ c rest
    rw [regexMayFollow_comment isComment, regexMayFollow_eq, (Bool.not_eq_true _).mp arrow,
      Bool.or_false]

/-- Between an arrow and a regular expression, a comment makes its slash an operator. -/
theorem lexeme_comment_arrow (isComment : comment.kind = .comment) (arrow : endsArrow earlier = true)
    (isRegex : (lexeme earlier c rest).1 = .regex) :
    (lexeme (comment :: earlier) c rest).1 = .operator := by
  obtain rfl := slash_of_regex isRegex
  have mayNot := regexMayFollow_comment isComment earlier
  rw [not_admits_of_endsArrow arrow] at mayNot
  rcases lexeme_slash rest with isComment | either
  · rw [(isComment earlier earlier).1] at isRegex
    cases isRegex
  · rw [either, mayNot]
    rfl

/-- Reserved words are not regular expressions. -/
private theorem reserve_eq_regex (kind : Kind) (value : String) :
    reserve kind value = .regex ↔ kind = .regex := by
  unfold reserve
  split
  · rename_i word
    simp [word.1]
  · rfl

/-- A comment between an arrow and a regular expression is followed by an operator. -/
private theorem scan_comment_arrow (isComment : comment.kind = .comment)
    (arrow : endsArrow earlier = true) (isRegex : (lexeme earlier c rest).1 = .regex)
    (blank : ∀ c ∈ white, isGap c = true) (filled : isGap c = false) (place' : Position) :
    ∃ tokens', scan (comment :: earlier) place' (white ++ c :: rest) =
        earlier.reverse ++ comment :: tokens' ∧
      tokens'.head?.map Token.kind = some .operator := by
  have isOperator := lexeme_comment_arrow isComment arrow isRegex
  rcases found : lexeme (comment :: earlier) c rest with ⟨kind, extent⟩
  rw [found] at isOperator
  obtain rfl : kind = .operator := isOperator
  obtain ⟨tokens', scanned, -⟩ :=
    tiles_scan (comment :: earlier) place' (white ++ c :: rest)
  have next := scanned
  rw [scan_first blank filled found] at next
  obtain ⟨later, rfl, -⟩ := scan_split next
  refine ⟨ofLexeme .operator (place'.advance white) ((c :: rest).take extent) :: later, ?_, rfl⟩
  exact scanned.trans (by simp)

/-- Behind a comment that does not change the next lexeme, the tokens are the same. -/
private theorem scan_comment_same (isComment : comment.kind = .comment) {place place' : Position}
    (apart : ∀ u ∈ earlier, u.span.stop.offset < place.offset)
    (offset : place'.offset = place.offset + n)
    (blank : ∀ c ∈ white, isGap c = true) (filled : isGap c = false)
    (same : lexeme (comment :: earlier) c rest = lexeme earlier c rest)
    (scanned : scan earlier place (white ++ c :: rest) = earlier.reverse ++ tokens) :
    ∃ tokens', scan (comment :: earlier) place' (white ++ c :: rest) =
        earlier.reverse ++ comment :: tokens' ∧
      tokens'.map unplaced = tokens.map unplaced := by
  rcases found : lexeme earlier c rest with ⟨kind, extent⟩
  rw [found] at same
  rw [scan_first blank filled found] at scanned
  obtain ⟨tokens, rfl, scanned, -⟩ := scan_split scanned
  have next := moved_ofLexeme offset white kind ((c :: rest).take extent)
  have behind := apart_advance apart white
  obtain ⟨tokens', scanned', same'⟩ := scan_moved isComment ((c :: rest).drop extent)
    (.cons next .nil) (List.cons_ne_nil _ _) (apart_advance behind _)
    (List.forall_mem_singleton.mpr behind) next.stop scanned
  refine ⟨ofLexeme kind (place'.advance white) ((c :: rest).take extent) :: tokens',
    (scan_first blank filled same).trans (scanned'.trans (by simp)), ?_⟩
  rw [List.map_cons, List.map_cons, same']
  rfl

/-- What is lexed behind a comment is what is lexed there without the comment, up to a regular
expression that is the body of an arrow. -/
theorem scan_comment (isComment : comment.kind = .comment) (text : List Char) {place place' : Position}
    (apart : ∀ u ∈ earlier, u.span.stop.offset < place.offset)
    (offset : place'.offset = place.offset + n)
    (scanned : scan earlier place text = earlier.reverse ++ tokens)
    (undivided : ∀ t ∈ tokens, t.isDivision = false) :
    ∃ tokens', scan (comment :: earlier) place' text = earlier.reverse ++ comment :: tokens' ∧
      (¬(endsArrow earlier = true ∧ tokens.head?.map Token.kind = some .regex) →
        tokens'.map unplaced = tokens.map unplaced) ∧
      (endsArrow earlier = true ∧ tokens.head?.map Token.kind = some .regex →
        tokens'.head?.map Token.kind = some .operator) := by
  obtain ⟨white, blank, same | ⟨c, rest, filled, same⟩⟩ := exists_gap text
  · subst same
    rw [scan_gap blank, List.reverse_cons] at scanned
    obtain rfl := List.append_cancel_left scanned
    refine ⟨[endOfSource (place'.advance text)], ?_, fun _ => rfl, ?_⟩
    · rw [scan_gap blank]
      simp
    · rintro ⟨-, isRegex⟩
      cases isRegex
  · subst same
    rcases found : lexeme earlier c rest with ⟨kind, extent⟩
    have next := scanned
    rw [scan_first blank filled found] at next
    obtain ⟨tokens, rfl, -⟩ := scan_split next
    have notDivision : c = '/' → (lexeme earlier c rest).1 ≠ .operator := by
      rintro rfl isOperator
      have divides := isDivision_ofLexeme (place.advance white) isOperator
      rw [found, undivided _ List.mem_cons_self] at divides
      cases divides
    by_cases hidden : endsArrow earlier = true ∧ kind = .regex
    · obtain ⟨arrow, rfl⟩ := hidden
      obtain ⟨tokens', scanned', operator⟩ := scan_comment_arrow isComment arrow
        (congrArg Prod.fst found) blank filled place'
      exact ⟨tokens', scanned', fun shown => absurd ⟨arrow, rfl⟩ shown, fun _ => operator⟩
    · have same := lexeme_comment isComment notDivision (by rwa [found])
      obtain ⟨tokens', scanned', same⟩ :=
        scan_comment_same isComment apart offset blank filled same scanned
      refine ⟨tokens', scanned', fun _ => same, ?_⟩
      rintro ⟨arrow, isRegex⟩
      exact absurd ⟨arrow, (reserve_eq_regex _ _).mp (Option.some.inj isRegex)⟩ hidden

end Behind

/-- White space of a gap between tokens is directly in front of an offset. -/
def InGap (tokens : List Token) (offset : Nat) : Prop :=
  ∃ u ∈ gaps .origin tokens, u.start.offset < offset ∧ offset ≤ u.stop.offset

/-- An offset lies between an arrow and a regular expression that follows it. -/
def BehindArrow (tokens : List Token) (offset : Nat) : Prop :=
  ∃ before equals greater regex after,
    tokens = before ++ equals :: greater :: regex :: after ∧
    equals.isOperator "=" = true ∧ greater.kind = .ambiguousGt ∧
    equals.span.stop.offset = greater.span.start.offset ∧ regex.kind = .regex ∧
    greater.span.stop.offset < offset ∧ offset ≤ regex.span.start.offset

/-- Behind white space of a gap, the tokens in front of it are the same whatever follows. -/
private theorem exists_front (a b : String)
    (undivided : ∀ t ∈ Token.ofSource (a ++ b), t.isDivision = false)
    (inGap : InGap (Token.ofSource (a ++ b)) a.utf8ByteSize) :
    ∃ (first : List Token) (place : Position), place.offset = a.utf8ByteSize ∧
      (∀ t ∈ first, t.span.stop.offset < place.offset) ∧
      ∀ c : String, Token.ofSource (a ++ c) = scan first.reverse place c.toList := by
  obtain ⟨u, member, behind, inside⟩ := inGap
  have tiled := tiles_ofSource (a ++ b)
  rw [String.toList_append] at tiled
  rw [← byteCount_toList] at behind inside ⊢
  obtain ⟨front, g, blank, whole, isBlank, start⟩ := split_of_gap tiled member
    (by simpa [Position.origin] using behind) (by simpa [Position.origin] using inside)
  have gap := (List.forall_mem_cons.mp isBlank).1
  have source (c : String) :
      Token.ofSource (a ++ c) = scan [] .origin (front ++ g :: (blank ++ c.toList)) := by
    rw [Token.ofSource, String.toList_append, whole, List.append_assoc, List.cons_append]
  obtain ⟨first, place, offset, stops, same⟩ :=
    scan_cut gap front (source b).symm ⟨u, member, start⟩ undivided
  refine ⟨first, place.advance (g :: blank), ?_, ?_, fun c => ?_⟩
  · rw [offset_advance, offset, whole, byteCount_append]
    simp [Position.origin]
  · intro t member
    have stop := stops t member
    have width := byteCount_pos (List.cons_ne_nil g blank)
    rw [offset_advance]
    omega
  · rw [source, same, List.append_nil, ← List.cons_append, scan_skip isBlank]

/-- An offset parts tokens into those that stop in front of it and those that start at it or
behind. -/
structure Parted (offset : Nat) (first second : List Token) : Prop where
  front : ∀ t ∈ first, t.span.stop.offset < offset
  back : ∀ t ∈ second, offset ≤ t.span.start.offset

/-- The tokens are the same in front of a comment, and behind it up to a regular expression that
is the body of an arrow. -/
private theorem exists_parts (a b : String)
    (undivided : ∀ t ∈ Token.ofSource (a ++ b), t.isDivision = false)
    (inGap : InGap (Token.ofSource (a ++ b)) a.utf8ByteSize) :
    ∃ first tokens comment tokens', Token.ofSource (a ++ b) = first ++ tokens ∧
      Token.ofSource (a ++ ("/**/ " ++ b)) = first ++ comment :: tokens' ∧
      comment.kind = .comment ∧ Parted a.utf8ByteSize first tokens ∧
      (¬(endsArrow first.reverse = true ∧ tokens.head?.map Token.kind = some .regex) →
        tokens'.map unplaced = tokens.map unplaced) ∧
      (endsArrow first.reverse = true ∧ tokens.head?.map Token.kind = some .regex →
        tokens'.head?.map Token.kind = some .operator) := by
  obtain ⟨first, place, offset, stops, source⟩ := exists_front a b undivided inGap
  let comment := ofLexeme .comment place ['/', '*', '*', '/']
  have isComment : comment.kind = .comment := rfl
  let place' := (place.advance ['/', '*', '*', '/']).advance [' ']
  have commented : Token.ofSource (a ++ ("/**/ " ++ b)) =
      scan (comment :: first.reverse) place' b.toList := by
    have found : lexeme first.reverse '/' ('*' :: '*' :: '/' :: ' ' :: b.toList) = (.comment, 4) := rfl
    have inserted : ("/**/ " ++ b).toList =
        [] ++ '/' :: '*' :: '*' :: '/' :: ([' '] ++ b.toList) := by simp [String.toList_append]
    have space : ∀ c ∈ [' '], Text.isGap c = true := List.forall_mem_singleton.mpr (by decide)
    rw [source, inserted]
    exact (scan_first (List.forall_mem_nil _) (by decide) found).trans (scan_skip space _ _ b.toList)
  have further : place'.offset = place.offset + 5 := by
    rw [offset_advance, offset_advance]
    rfl
  obtain ⟨tokens, scanned, tiled⟩ := tiles_scan first.reverse place b.toList
  have plain : Token.ofSource (a ++ b) = first ++ tokens := by
    rw [source, scanned, List.reverse_reverse]
  obtain ⟨tokens', scanned', shown, hidden⟩ := scan_comment isComment b.toList
    (fun u member => stops u (List.mem_reverse.mp member)) further scanned
    fun t member => undivided t (plain ▸ List.mem_append_right _ member)
  refine ⟨first, tokens, comment, tokens', plain, ?_, isComment, ⟨offset ▸ stops, ?_⟩, shown, hidden⟩
  · rw [commented, scanned', List.reverse_reverse]
  · rw [← offset]
    exact (placed_of_tiles tiled a.toList (by rw [byteCount_toList, offset])).2

/-- There is one way to part the tokens of a source at an offset. -/
private theorem Parted.unique {first second first' second' : List Token} {offset : Nat}
    (placed : Placed source (first ++ second)) (parted : Parted offset first second)
    (parted' : Parted offset first' second') (whole : first ++ second = first' ++ second') :
    first = first' ∧ second = second' := by
  let inFront (t : Token) : Bool := t.span.stop.offset < offset
  have late {t : Token} (member : t ∈ first ++ second) (start : offset ≤ t.span.start.offset) :
      inFront t = false := by
    have forward := placed.forward t member
    exact decide_eq_false (by omega)
  have chosen := congrArg (List.filter inFront) whole
  have first_eq : first = first' := by
    rwa [List.filter_append, List.filter_append,
      List.filter_eq_self.mpr fun t member => decide_eq_true (parted.front t member),
      List.filter_eq_self.mpr fun t member => decide_eq_true (parted'.front t member),
      List.filter_eq_nil_iff.mpr fun t member => Bool.eq_false_iff.mp
        (late (List.mem_append_right _ member) (parted.back t member)),
      List.filter_eq_nil_iff.mpr fun t member => Bool.eq_false_iff.mp
        (late (whole ▸ List.mem_append_right _ member) (parted'.back t member)),
      List.append_nil, List.append_nil] at chosen
  exact ⟨first_eq, List.append_cancel_left (first_eq ▸ whole)⟩

/-- An offset between an arrow and a regular expression parts the tokens there. -/
private theorem parted_of_arrow {before after : List Token} {equals greater regex : Token}
    {offset : Nat} (placed : Placed source (before ++ equals :: greater :: regex :: after))
    (ends : greater.span.stop.offset < offset) (starts : offset ≤ regex.span.start.offset) :
    Parted offset (before ++ [equals, greater]) (regex :: after) := by
  obtain ⟨-, inner, crossing⟩ := List.pairwise_append.mp placed.apart
  obtain ⟨fromEquals, inner⟩ := List.pairwise_cons.mp inner
  obtain ⟨-, inner⟩ := List.pairwise_cons.mp inner
  obtain ⟨fromRegex, -⟩ := List.pairwise_cons.mp inner
  have greaterForward := placed.forward greater (by simp)
  have regexForward := placed.forward regex (by simp)
  refine ⟨List.forall_mem_append.mpr ⟨fun t member => ?_, ?_⟩,
    List.forall_mem_cons.mpr ⟨starts, fun t member => ?_⟩⟩
  · have stop := crossing t member greater (by simp)
    omega
  · have stop := fromEquals greater (by simp)
    simp only [List.forall_mem_cons]
    exact ⟨by omega, ends, by simp⟩
  · have start := fromRegex t member
    omega

/-- An offset is behind an arrow if the tokens that stop in front of it end with one, and the
first of the others is a regular expression. -/
private theorem behindArrow_iff {first tokens : List Token} {offset : Nat}
    (placed : Placed source (first ++ tokens)) (parted : Parted offset first tokens) :
    BehindArrow (first ++ tokens) offset ↔
      endsArrow first.reverse = true ∧ tokens.head?.map Token.kind = some .regex := by
  constructor
  · rintro ⟨before, equals, greater, regex, after, whole, isEquals, isGreater, touch, isRegex,
      ends, starts⟩
    have parted' := parted_of_arrow (whole ▸ placed) ends starts
    obtain ⟨rfl, rfl⟩ := parted.unique placed parted' (by rw [whole]; simp)
    refine ⟨?_, congrArg some isRegex⟩
    simp [endsArrow, isEquals, isGreater, touch]
  · rintro ⟨arrow, isRegex⟩
    rcases tokens with _ | ⟨regex, after⟩
    · cases isRegex
    · rcases shape : first.reverse with _ | ⟨greater, _ | ⟨equals, before⟩⟩
      all_goals rw [shape] at arrow
      · cases arrow
      · cases arrow
      · simp only [endsArrow, Bool.and_eq_true, beq_iff_eq] at arrow
        obtain ⟨isGreater, isEquals, touch⟩ := arrow
        obtain rfl := List.reverse_eq_iff.mp shape
        exact ⟨before.reverse, equals, greater, regex, after, by simp, isEquals, isGreater, touch,
          Option.some.inj isRegex, parted.front greater (by simp), parted.back regex (by simp)⟩

/-- A comment in a gap of a source without divisions leaves all other tokens as they are,
unless it stands between an arrow and a regular expression. -/
theorem comment_passed_over (a b : String)
    (undivided : ∀ t ∈ Token.ofSource (a ++ b), t.isDivision = false)
    (inGap : InGap (Token.ofSource (a ++ b)) a.utf8ByteSize) :
    (Module.significant (Token.ofSource (a ++ "/**/ " ++ b))).map unplaced =
        (Module.significant (Token.ofSource (a ++ b))).map unplaced ↔
      ¬BehindArrow (Token.ofSource (a ++ b)) a.utf8ByteSize := by
  obtain ⟨first, tokens, comment, tokens', plain, commented, isComment, parted, shown, hidden⟩ :=
    exists_parts a b undivided inGap
  have placed := placed_ofSource (a ++ b)
  rw [plain] at placed
  have filtered (tokens : List Token) : (tokens.filter (·.kind != .comment)).map unplaced =
      (tokens.map unplaced).filter (·.kind != .comment) := by
    rw [List.filter_map]
    rfl
  rw [significant_eq_filter, significant_eq_filter, String.append_assoc, plain, commented,
    behindArrow_iff placed parted, List.filter_append, List.filter_append,
    List.filter_cons_of_neg (by simp [isComment]), List.map_append, List.map_append,
    List.append_cancel_left_eq]
  constructor
  · -- Behind an arrow, an operator stands where the regular expression was.
    intro same behindArrow
    have operator := hidden behindArrow
    obtain ⟨-, regex⟩ := behindArrow
    cases tokens with
    | nil => cases regex
    | cons t tokens =>
      cases tokens' with
      | nil => cases operator
      | cons t' tokens' =>
        have isRegex : t.kind = .regex := Option.some.inj regex
        have isOperator : t'.kind = .operator := Option.some.inj operator
        rw [List.filter_cons_of_pos (by simp [isOperator]),
          List.filter_cons_of_pos (by simp [isRegex])] at same
        have kinds : t'.unplaced.kind = t.unplaced.kind :=
          congrArg Token.kind (List.cons.inj same).1
        change t'.kind = t.kind at kinds
        rw [isRegex, isOperator] at kinds
        cases kinds
  · intro apart
    rw [filtered, filtered, shown apart]

/-- A comment is passed over in front of a regular expression that is assigned, and not in front
of one that is the body of an arrow. -/
theorem comment_passed_over_body :
    (Module.significant (Token.ofSource "s = /**/ /x/")).map unplaced =
        (Module.significant (Token.ofSource "s = /x/")).map unplaced ∧
      (Module.significant (Token.ofSource "s => /**/ /x/")).map unplaced ≠
        (Module.significant (Token.ofSource "s => /x/")).map unplaced := by
  constructor
  · refine (comment_passed_over "s = " "/x/" (by decide +kernel) ?_).mpr ?_
    · unfold InGap
      decide +kernel
    · rintro ⟨before, equals, greater, regex, after, whole, -, isGreater, -⟩
      have noGreater : ∀ t ∈ Token.ofSource "s = /x/", t.kind ≠ .ambiguousGt := by decide +kernel
      exact noGreater greater (whole ▸ by simp) isGreater
  · let word (kind : Kind) (value : String) (start stop : Nat) : Token :=
      ⟨kind, value, ⟨1, start, start⟩, ⟨1, stop, stop⟩⟩
    have lexed : Token.ofSource "s => /x/" = [word .identifier "s" 0 1] ++
        word .operator "=" 2 3 :: word .ambiguousGt ">" 3 4 :: word .regex "/x/" 5 8 ::
          [word .eof "" 8 8] := by decide +kernel
    refine (comment_passed_over "s => " "/x/" (by decide +kernel) ?_).not.mpr (not_not.mpr ?_)
    · unfold InGap
      decide +kernel
    · exact ⟨_, _, _, _, _, lexed, rfl, rfl, rfl, rfl, by decide, by decide⟩

end Trivia
end ImportAtlas
