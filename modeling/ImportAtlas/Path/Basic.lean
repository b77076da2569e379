/-! File paths. A path is a text; slashes divide it into components. Two paths
with the same components name the same place and still print as they were
written, so comparison goes by components and never by text. -/

namespace ImportAtlas

/-- A path as it was written. -/
structure Path where
  text : String
  deriving DecidableEq, Repr, Inhabited

namespace Path

/-- One step of a path. -/
inductive Component where
  /-- The root directory. -/
  | root
  /-- The current directory. -/
  | current
  /-- The directory above. -/
  | parent
  /-- An entry of a directory. -/
  | name (text : String)
  deriving DecidableEq, Repr, Inhabited

/-- What a path names. Paths that are spelled differently may name one place. -/
abbrev Place : Type :=
  List Component

/-- The pieces of a text between its slashes, the empty ones included. -/
def pieces : List Char → List (List Char)
  | [] => [[]]
  | c :: rest =>
    if c = '/' then [] :: pieces rest
    else
      match pieces rest with
      | piece :: others => (c :: piece) :: others
      | [] => [[c]]

/-- The component that a piece stands for. An empty piece stands for none, and a
single point for none unless it starts the path. -/
def component? (piece : List Char) : Option Component :=
  if piece = [] ∨ piece = ['.'] then none
  else if piece = ['.', '.'] then some .parent
  else some (.name (String.ofList piece))

/-- What stands before the first ordinary component: the root of an absolute path,
and the current directory if the path is written that way. -/
def start (text : List Char) : List Component :=
  if text.head? = some '/' then [.root]
  else if (pieces text).head? = some ['.'] then [.current]
  else []

/-- The components of a path. Repeated slashes, a slash at the end, and points
after the start do not count. -/
def components (p : Path) : List Component :=
  start p.text.toList ++ (pieces p.text.toList).filterMap component?

/-- The names of the entries on a path. -/
def names (p : Path) : List String :=
  p.components.filterMap fun
    | .name text => some text
    | _ => none

/-- Whether two paths have the same components. -/
def same (p q : Path) : Bool :=
  p.components == q.components

/-- Whether a path starts at the root. -/
def isAbsolute (p : Path) : Bool :=
  p.text.toList.head? == some '/'

namespace Component

/-- The text of a component. -/
def text : Component → String
  | root => "/"
  | current => "."
  | parent => ".."
  | name text => text

/-- The place of a component among those of other kinds. -/
def rank : Component → Nat
  | root => 0
  | current => 1
  | parent => 2
  | name _ => 3

/-- Components are ordered by kind and then by their text. -/
def compare (a b : Component) : Ordering :=
  (Ord.compare a.rank b.rank).then (Ord.compare a.text b.text)

end Component

/-- Lists are ordered by their first difference, and a shorter list comes before
the longer ones that it starts. -/
def compareLists (f : α → α → Ordering) : List α → List α → Ordering
  | [], [] => .eq
  | [], _ :: _ => .lt
  | _ :: _, [] => .gt
  | a :: as, b :: bs => (f a b).then (compareLists f as bs)

/-- Paths are ordered component by component. -/
protected def compare (p q : Path) : Ordering :=
  compareLists Component.compare p.components q.components

/-- Whether a path does not come after another one. -/
def le (p q : Path) : Bool :=
  (Path.compare p q).isLE

/-- The path with the given components. -/
def ofComponents (components : List Component) : Path :=
  match components with
  | .root :: rest => ⟨"/" ++ "/".intercalate (rest.map Component.text)⟩
  | _ => ⟨"/".intercalate (components.map Component.text)⟩

/-- A path continued by another one. An absolute continuation stands for itself. -/
def join (p q : Path) : Path :=
  if q.isAbsolute then q
  else if p.text = "" ∨ p.text.toList.getLast? = some '/' then ⟨p.text ++ q.text⟩
  else ⟨p.text ++ "/" ++ q.text⟩

/-- A path with a text added to its last component. -/
def addSuffix (p : Path) (suffix : String) : Path :=
  ⟨p.text ++ suffix⟩

/-- The path of the directory that a path lies in. The root and the empty path lie
in none. -/
def parent? (p : Path) : Option Path :=
  match p.components.getLast? with
  | none => none
  | some .root => none
  | some _ => some (ofComponents p.components.dropLast)

/-- The name at the end of a path. -/
def fileName? (p : Path) : Option String :=
  match p.components.getLast? with
  | some (.name text) => some text
  | _ => none

/-- What stands after the last point of a name, unless that point starts it. -/
def nameExtension? (name : List Char) : Option (List Char) :=
  let after := (name.reverse.takeWhile (· != '.')).reverse
  if after.length + 1 < name.length then some after else none

/-- The extension of the name at the end of a path. -/
def extension? (p : Path) : Option String := do
  let name ← p.fileName?
  let extension ← nameExtension? name.toList
  return String.ofList extension

/-- The name at the end of a path, or the whole path if there is none. -/
def label (p : Path) : String :=
  p.fileName?.getD p.text

/-- The entries that the system visits on its way along a path, in which a point
stands for the directory itself. A slash at the end asks for a directory. -/
def segments (p : Path) : List String :=
  let parts := pieces p.text.toList
  let kept := (parts.filter (· ≠ [])).map String.ofList
  if parts.getLast? = some [] ∧ kept ≠ [] then kept ++ ["."] else kept

end Path
end ImportAtlas
