import Mathlib.Data.List.DropRight
import ImportAtlas.Proofs.Tiling

/-! Coordinates are true. The lexer moves a place forward over one lexeme after another and
never looks back; still every place it gives to a token is the one that counting the source
from its first character would give. Any two places are therefore ordered by their offsets
as they are by their lines and columns. -/
namespace ImportAtlas.Coordinates
open Tiling

/-- A place is where a text ends: its offset counts the bytes of the text, its line the line
feeds from one on, and its column the characters behind the last line feed. -/
structure Ends (before : String) (p : Position) : Prop where
  offset : p.offset = before.utf8ByteSize
  line : p.line = 1 + before.toList.count '\n'
  column : p.column = (before.toList.rtakeWhile (· != '\n')).length

/-- A place lies between two characters of a source, or at one of its ends, and is where
the part of the source before it ends. -/
def IsTrue (source : String) (p : Position) : Prop :=
  ∃ before after, source = before ++ after ∧ Ends before p

/-- The places where some tokens start and stop. -/
def places (tokens : List Token) : List Position :=
  tokens.flatMap fun t => [t.span.start, t.span.stop]

/-- Places in the order in which a reader meets them: by line, and within a line by column. -/
def readingOrder : Position → Position → Ordering :=
  compareLex (compareOn Position.line) (compareOn Position.column)

/-! Counting. -/

/-- One more character moves a place as it moves the end of a text. -/
private theorem Ends.step (ends : Ends (String.ofList before) p) (c : Char) :
    Ends (String.ofList (before ++ [c])) (p.step c) := by
  have width : (String.ofList (before ++ [c])).utf8ByteSize = p.offset + c.utf8Size := by
    rw [String.ofList_append, String.utf8ByteSize_append, ← ends.offset]
    exact congrArg _ (String.utf8ByteSize_singleton (c := c))
  have line := ends.line
  have column := ends.column
  rw [String.toList_ofList] at line column
  by_cases feed : c = '\n'
  · subst feed
    constructor
    · simpa [Position.step] using width.symm
    · simp [Position.step, line, Nat.add_assoc]
    · simp [Position.step]
  · constructor
    · simpa [Position.step, feed] using width.symm
    · simp [Position.step, feed, line]
    · simp [Position.step, feed, column]

/-- Moving over a whole text from the origin leads to where the text ends. -/
theorem ends_advance (text : List Char) :
    Ends (String.ofList text) (Position.origin.advance text) := by
  induction text using List.reverseRecOn with
  | nil => exact ⟨rfl, rfl, rfl⟩
  | append_singleton before c ih =>
    rw [advance_append]
    exact ih.step c

/-- The places of tokens that tile a text are reached by moving over a part of it. -/
theorem reached_of_tiles (tiled : Tiles place text tokens) :
    ∀ p ∈ places tokens, ∃ before, before <+: text ∧ p = place.advance before := by
  induction tiled with
  | @done place gap blank =>
    intro p member
    refine ⟨gap, List.prefix_rfl, ?_⟩
    simpa [places, Token.endOfSource] using member
  | @token place gap taken text kind tokens blank filled inside more ih =>
    intro p member
    have cases : p = place.advance gap ∨ p = (place.advance gap).advance taken ∨
        p ∈ places tokens := by
      simpa [places] using member
    rcases cases with rfl | rfl | later
    · exact ⟨gap, List.prefix_append .., rfl⟩
    · exact ⟨gap ++ taken, ⟨text, List.append_assoc ..⟩, (advance_append ..).symm⟩
    · obtain ⟨before, ⟨after, rfl⟩, rfl⟩ := ih p later
      refine ⟨gap ++ (taken ++ before), ⟨after, by simp⟩, ?_⟩
      rw [advance_append, advance_append]

/-! Order. -/

/-- A place comes before another one, in bytes as well as in lines and columns. -/
structure Earlier (p q : Position) : Prop where
  offset : p.offset < q.offset
  reading : p.line < q.line ∨ p.line = q.line ∧ p.column < q.column

theorem Earlier.trans (first : Earlier p q) (second : Earlier q r) : Earlier p r where
  offset := Nat.lt_trans first.offset second.offset
  reading := by
    have := first.reading
    have := second.reading
    omega

/-- Moving over a character leads to a later place. -/
theorem earlier_step (p : Position) (c : Char) : Earlier p (p.step c) := by
  have width := c.utf8Size_pos
  unfold Position.step
  split
  · exact ⟨by simpa using width, .inl (Nat.lt_succ_self _)⟩
  · exact ⟨by simpa using width, .inr ⟨rfl, Nat.lt_succ_self _⟩⟩

/-- Moving over any text but the empty one leads to a later place. -/
theorem earlier_advance (p : Position) (filled : text ≠ []) : Earlier p (p.advance text) := by
  induction text generalizing p with
  | nil => exact absurd rfl filled
  | cons c rest ih =>
    by_cases last : rest = []
    · subst last
      exact earlier_step p c
    · exact (earlier_step p c).trans (ih (p.step c) last)

theorem Earlier.compare (earlier : Earlier p q) :
    p.compare q = .lt ∧ readingOrder p q = .lt := by
  refine ⟨Nat.compare_eq_lt.mpr earlier.offset, ?_⟩
  rcases earlier.reading with line | ⟨line, column⟩
  · simp [readingOrder, compareLex, compareOn, Nat.compare_eq_lt.mpr line]
  · simp [readingOrder, compareLex, compareOn, line, Nat.compare_eq_lt.mpr column]

theorem Earlier.compare_swap (earlier : Earlier p q) :
    q.compare p = .gt ∧ readingOrder q p = .gt := by
  refine ⟨Nat.compare_eq_gt.mpr earlier.offset, ?_⟩
  rcases earlier.reading with line | ⟨line, column⟩
  · simp [readingOrder, compareLex, compareOn, Nat.compare_eq_gt.mpr line]
  · simp [readingOrder, compareLex, compareOn, line, Nat.compare_eq_gt.mpr column]

/-- Of two places on one text, the one with less text before it is the earlier one. -/
private theorem compare_of_shorter (shorter : before <+: upTo) (p : Position) :
    (p.advance before).compare (p.advance upTo) =
        readingOrder (p.advance before) (p.advance upTo) ∧
      (p.advance upTo).compare (p.advance before) =
        readingOrder (p.advance upTo) (p.advance before) := by
  obtain ⟨more, rfl⟩ := shorter
  rw [advance_append]
  by_cases same : more = []
  · subst same
    simp [Position.advance, Position.compare, readingOrder, compareLex, compareOn]
  · have earlier := earlier_advance (p.advance before) same
    rw [earlier.compare.1, earlier.compare.2, earlier.compare_swap.1, earlier.compare_swap.2]
    exact ⟨rfl, rfl⟩

/-- The places of a source's tokens are the true ones, and their offsets order them as
their lines and columns do. -/
theorem places_true (source : String) :
    ∀ p ∈ places (Token.ofSource source), IsTrue source p ∧
      ∀ q ∈ places (Token.ofSource source), p.compare q = readingOrder p q := by
  have reached := reached_of_tiles (tiles_ofSource source)
  intro p member
  obtain ⟨before, inSource, rfl⟩ := reached p member
  refine ⟨?_, fun q other => ?_⟩
  · obtain ⟨after, whole⟩ := inSource
    refine ⟨String.ofList before, String.ofList after, ?_, ends_advance before⟩
    rw [← String.ofList_append, whole, String.ofList_toList]
  · obtain ⟨upTo, alsoInSource, rfl⟩ := reached q other
    rcases List.prefix_or_prefix_of_prefix inSource alsoInSource with shorter | longer
    · exact (compare_of_shorter shorter _).1
    · exact (compare_of_shorter longer _).2

/-- A line feed behind a character of two bytes: the second line starts at the third byte. -/
theorem places_true_second_line :
    let stop : Position := ⟨1, 1, 2⟩
    let start : Position := ⟨2, 0, 3⟩
    IsTrue "é\nx" stop ∧ IsTrue "é\nx" start ∧ stop.compare start = readingOrder stop start := by
  intro stop start
  have stops : stop ∈ places (Token.ofSource "é\nx") := by decide +kernel
  have starts : start ∈ places (Token.ofSource "é\nx") := by decide +kernel
  obtain ⟨here, ordered⟩ := places_true "é\nx" stop stops
  exact ⟨here, (places_true "é\nx" start starts).1, ordered start starts⟩

end ImportAtlas.Coordinates
