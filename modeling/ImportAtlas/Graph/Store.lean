/-! Directed graphs as a library of graphs keeps them, with the behaviour that everything else
relies on. A node that is added gets the next number and keeps it. An edge that is there is not
added again. The neighbors of a node come by the latest edge first. -/

namespace ImportAtlas

/-- The two ways along an edge. -/
inductive Direction where
  | outgoing
  | incoming
  deriving DecidableEq, Repr, Inhabited

namespace Direction

/-- The end of an edge that the way starts at. -/
def near : Direction → α × α → α
  | outgoing, edge => edge.1
  | incoming, edge => edge.2

/-- The end of an edge that the way leads to. -/
def far : Direction → α × α → α
  | outgoing, edge => edge.2
  | incoming, edge => edge.1

/-- The edge between two ends that a way passes in turn. -/
def edge : Direction → α → α → α × α
  | outgoing, a, b => (a, b)
  | incoming, a, b => (b, a)

variable {direction : Direction}

@[simp] theorem near_edge (a b : α) : direction.near (direction.edge a b) = a := by
  cases direction with
  | _ => rfl

@[simp] theorem far_edge (a b : α) : direction.far (direction.edge a b) = b := by
  cases direction with
  | _ => rfl

theorem edge_near_far (e : α × α) : direction.edge (direction.near e) (direction.far e) = e := by
  cases direction with
  | _ => rfl

end Direction

/-- Nodes, and edges between their numbers. -/
structure Store (α : Type) where
  nodes : List α := []
  /-- The edges, the latest one first. -/
  edges : List (Nat × Nat) := []
  deriving Inhabited

namespace Store
variable {α : Type}

/-- The store with one more node, and the number of that node. -/
def addNode (s : Store α) (node : α) : Store α × Nat :=
  ({ s with nodes := s.nodes ++ [node] }, s.nodes.length)

/-- The store with an edge, which is added unless it is there. -/
def updateEdge (s : Store α) (edge : Nat × Nat) : Store α :=
  if s.edges.contains edge then s else { s with edges := edge :: s.edges }

/-- Whether an edge leads from one number to another. -/
def containsEdge (s : Store α) (i j : Nat) : Bool :=
  s.edges.contains (i, j)

/-- The neighbors of a node in one direction, by the latest edge first. -/
def neighbors (s : Store α) (direction : Direction) (i : Nat) : List Nat :=
  (s.edges.filter (direction.near · == i)).map direction.far

/-- The neighbors of a node in one direction, by the earliest edge first. -/
def orderedNeighbors (s : Store α) (direction : Direction) (i : Nat) : List Nat :=
  (s.neighbors direction i).reverse

end Store
end ImportAtlas
