import ImportAtlas.Graph.Components

/-! Import cycles. A strongly connected component is a cycle if it has more than one
file, or a file that imports itself. A cycle is listed from its smallest path on along
its imports. -/

namespace ImportAtlas

/-- The files of a cycle. -/
structure Cycle where
  files : List Path
  deriving DecidableEq, Repr, Inhabited

namespace Cycle

/-- Texts joined by arrows, from the first back to the first. -/
def arrows (texts : List String) : String :=
  " -> ".intercalate (texts ++ texts.head?.toList)

/-- The cycle as the paths of its files, from the first back to the first. -/
def path (c : Cycle) : String :=
  arrows (c.files.map Path.text)

end Cycle

namespace FileGraph

/-- The path of a number. -/
def pathOf (g : FileGraph) (i : Nat) : Path :=
  g.files[i]?.getD ⟨""⟩

/-- The member of a group with the smallest path. -/
def smallest? (g : FileGraph) : List Nat → Option Nat
  | [] => none
  | i :: rest =>
    match smallest? g rest with
    | none => some i
    | some j => if (g.pathOf i).le (g.pathOf j) then some i else some j

/-- Follows imports inside a group: each step takes the first import that has not
been used. Yields the numbers on the way and those that are left. -/
def trail (g : FileGraph) (current : Nat) (unused : List Nat) : List Nat × List Nat :=
  match _found :
      (g.store.orderedNeighbors .outgoing current).find? fun j => unused.contains j with
  | some next =>
    let later := trail g next (unused.erase next)
    (next :: later.1, later.2)
  | none => ([], unused)
termination_by unused.length
decreasing_by
  have member : next ∈ unused := by
    have := List.find?_some _found
    simpa using this
  rw [List.length_erase_of_mem member]
  have := List.length_pos_of_mem member
  omega

/-- The order in which the members of a group are listed: from the smallest path
along the imports, and then what that leaves out by path. -/
def cycleOrder (g : FileGraph) (members : List Nat) : List Nat :=
  match g.smallest? members with
  | none => []
  | some first =>
    let walked := g.trail first (members.erase first)
    first :: walked.1 ++ walked.2.mergeSort fun i j => (g.pathOf i).le (g.pathOf j)

/-- Whether a component is a cycle. -/
def isCycle (g : FileGraph) (members : List Nat) : Bool :=
  members.length > 1 || members.head?.any fun i => g.store.containsEdge i i

/-- The cycles of a graph, by the paths of their files, from the components that some
algorithms find. -/
def cyclesBy (g : FileGraph) (algorithms : GraphAlgorithms) : List Cycle :=
  (((algorithms.components g.store).filter g.isCycle).map fun members =>
    (⟨g.pathsOf (g.cycleOrder members)⟩ : Cycle)).mergeSort
    fun a b => (Path.compareLists Path.compare a.files b.files).isLE

/-- Whether some chain of imports leads back to where it started, as some algorithms
tell. -/
def hasCyclesBy (g : FileGraph) (algorithms : GraphAlgorithms) : Bool :=
  algorithms.isCyclic g.store

/-- The cycles of a graph. -/
def cycles (g : FileGraph) : List Cycle :=
  g.cyclesBy .bySearch

/-- Whether a graph has cycles. -/
def hasCycles (g : FileGraph) : Bool :=
  g.hasCyclesBy .bySearch

end FileGraph
end ImportAtlas
