import ImportAtlas.Graph.Store
import ImportAtlas.Path.Basic

/-! Graphs of files and their imports. Files are numbered in the order in which
they are first mentioned, and a table has the number of every place. What a file
imports is answered in the order in which the imports were first added. -/

namespace ImportAtlas

/-- A graph of files. An edge goes from the number of a file to the number of a
file that it imports. -/
structure FileGraph where
  store : Store Path := {}
  /-- The numbers of the files. Files are told apart by the components of their
  paths. -/
  numbers : Path.Place → Option Nat := fun _ => none
  deriving Inhabited

namespace FileGraph

/-- The files by their numbers. -/
def files (g : FileGraph) : List Path :=
  g.store.nodes

/-- The imports, the latest one first. -/
def edges (g : FileGraph) : List (Nat × Nat) :=
  g.store.edges

/-- The number of a file. -/
def indexOf? (g : FileGraph) (p : Path) : Option Nat :=
  g.numbers p.components

/-- Whether a file has been mentioned. -/
def contains (g : FileGraph) (p : Path) : Bool :=
  (g.indexOf? p).isSome

/-- The graph with a file, and the number of that file. -/
def addFile (g : FileGraph) (p : Path) : FileGraph × Nat :=
  match g.indexOf? p with
  | some i => (g, i)
  | none =>
    let added := g.store.addNode p
    ({ store := added.1
       numbers := fun place => if place = p.components then some added.2 else g.numbers place },
      added.2)

/-- The graph with an edge between two numbers. -/
def addEdge (g : FileGraph) (edge : Nat × Nat) : FileGraph :=
  { g with store := g.store.updateEdge edge }

/-- The graph with an import, and with its two files. -/
def addImport (g : FileGraph) (source target : Path) : FileGraph :=
  let first := g.addFile source
  let second := first.1.addFile target
  second.1.addEdge (first.2, second.2)

/-- The files with the given numbers. -/
def pathsOf (g : FileGraph) (numbers : List Nat) : List Path :=
  numbers.filterMap (g.files[·]?)

/-- The files beside a file in one direction, by the earliest import first. -/
def beside (g : FileGraph) (direction : Direction) (p : Path) : List Path :=
  match g.indexOf? p with
  | some i => g.pathsOf (g.store.orderedNeighbors direction i)
  | none => []

/-- The files that a file imports. -/
def importsOf (g : FileGraph) (p : Path) : List Path :=
  g.beside .outgoing p

/-- The files that import a file. -/
def importersOf (g : FileGraph) (p : Path) : List Path :=
  g.beside .incoming p

/-- The files that no file imports. -/
def roots (g : FileGraph) : List Path :=
  g.pathsOf ((List.range g.files.length).filter fun i => (g.store.neighbors .incoming i).isEmpty)

end FileGraph
end ImportAtlas
