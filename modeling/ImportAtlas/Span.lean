/-! Source coordinates. A position counts lines from one, columns in characters
from zero and offsets in bytes of UTF-8 from zero; a span is the half-open range
between two positions. -/

namespace ImportAtlas

/-- A single point of a source. -/
structure Position where
  line : Nat
  column : Nat
  offset : Nat
  deriving DecidableEq, Repr

namespace Position

/-- The position before the first character of a source. -/
def origin : Position := ⟨1, 0, 0⟩

instance : Inhabited Position := ⟨origin⟩

/-- The position after one more character. A line feed starts the next line. -/
def step (p : Position) (c : Char) : Position :=
  if c = '\n' then ⟨p.line + 1, 0, p.offset + c.utf8Size⟩
  else ⟨p.line, p.column + 1, p.offset + c.utf8Size⟩

/-- The position after some more characters. -/
def advance (p : Position) (text : List Char) : Position :=
  text.foldl step p

/-- Positions are ordered by their offset alone. -/
protected def compare (p q : Position) : Ordering :=
  Ord.compare p.offset q.offset

instance : Ord Position := ⟨Position.compare⟩

/-- The later of two positions; of two equally late ones, the second. -/
def latest (p q : Position) : Position :=
  if q.offset < p.offset then p else q

/-- The earlier of two positions; of two equally early ones, the first. -/
def earliest (p q : Position) : Position :=
  if q.offset < p.offset then q else p

/-- A position as `line:column`. -/
def text (p : Position) : String :=
  toString p.line ++ ":" ++ toString p.column

end Position

/-- A half-open range of a source. -/
structure Span where
  start : Position := .origin
  stop : Position := .origin
  deriving DecidableEq, Repr, Inhabited

namespace Span

/-- From where the first span starts to where the last one stops. -/
def between (first last : Span) : Span :=
  ⟨first.start, last.stop⟩

/-- The number of bytes covered. A span that runs backwards covers none. -/
def length (s : Span) : Nat :=
  s.stop.offset - s.start.offset

/-- Whether a span covers no byte. -/
def isEmpty (s : Span) : Bool :=
  s.length == 0

/-- Whether the other span lies entirely inside this one. -/
def contains (outer inner : Span) : Bool :=
  outer.start.offset ≤ inner.start.offset && inner.stop.offset ≤ outer.stop.offset

/-- A span as `line:column-line:column`. -/
def text (s : Span) : String :=
  s.start.text ++ "-" ++ s.stop.text

end Span

namespace Text

/-- Splits a text after a number of bytes, if that is a character boundary of it. -/
def splitBytes? : Nat → List Char → Option (List Char × List Char)
  | 0, text => some ([], text)
  | _, [] => none
  | n, c :: rest =>
    if c.utf8Size ≤ n then
      (splitBytes? (n - c.utf8Size) rest).map fun (before, after) => (c :: before, after)
    else none

end Text

namespace Span

/-- The text a span covers, if both its ends are character boundaries of the
source and do not run backwards. -/
def slice? (s : Span) (source : String) : Option String := do
  let (_, after) ← Text.splitBytes? s.start.offset source.toList
  if s.stop.offset < s.start.offset then none
  let (covered, _) ← Text.splitBytes? s.length after
  return String.ofList covered

end Span
end ImportAtlas
