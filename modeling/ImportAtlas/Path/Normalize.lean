import ImportAtlas.Path.Basic

/-! Normal forms of paths. A normalized path has no `.`, and `..` only at its
start where there is nothing to go up from; the file system is not asked. -/

namespace ImportAtlas
namespace Path

/-- Adds a component to a normalized path, which is given with its last component
first. -/
def extend (above : List Component) : Component → List Component
  | .current => above
  | .parent =>
    match above with
    | .name _ :: higher => higher
    | .root :: _ => above
    | _ => .parent :: above
  | component => component :: above

/-- The components of the normal form. -/
def normalized (components : List Component) : List Component :=
  (components.foldl extend []).reverse

/-- The normal form of a path. -/
def normalize (p : Path) : Path :=
  ofComponents (normalized p.components)

/-- What is left of a list after another one that it starts with. -/
def dropStart? [DecidableEq α] : List α → List α → Option (List α)
  | rest, [] => some rest
  | [], _ :: _ => none
  | a :: as, b :: bs => if a = b then dropStart? as bs else none

/-- Backslashes as slashes. -/
def withSlashes (text : String) : String :=
  String.ofList (text.toList.map fun c => if c = '\\' then '/' else c)

/-- The normal form of a path as seen from a root: what it adds to the root where it
lies below it. -/
def seenFrom (root p : Path) : Path :=
  let full := normalized p.components
  ofComponents ((dropStart? full (normalized root.components)).getD full)

/-- How a path is shown in a project: relative to the project's root where it lies
below it. Of a path that is a text nothing has to be decoded. -/
def relativeTo (root p : Path) : String :=
  withSlashes (root.seenFrom p).text

end Path
end ImportAtlas
