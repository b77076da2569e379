import ImportAtlas.Graph.Reach

/-! What is left to a library of graph algorithms: the strongly connected components
of a graph, and whether the graph has a directed cycle. The answers of the algorithms
here are those of any others that keep to these two descriptions. -/

namespace ImportAtlas

/-- Answers about stores of paths. -/
structure GraphAlgorithms where
  /-- The strongly connected components, each once, in any order. -/
  components : Store Path → List (List Nat)
  /-- Whether some edges lead from a number back to it. -/
  isCyclic : Store Path → Bool

namespace Store
variable {α : Type}

/-- The numbers that one or more edges lead to from a number, which may be among
them. -/
def descendants (s : Store α) (i : Nat) : List Nat :=
  s.search [] (s.orderedNeighbors .outgoing i)

/-- A number with the numbers that it reaches. -/
abbrev Reaching := Nat × List Nat

/-- Whether two numbers reach each other. -/
def Reaching.meets (a b : Reaching) : Bool :=
  a.2.contains b.1 && b.2.contains a.1

/-- The numbers that reach a number and are reached by it. -/
def mates (a : Reaching) (others : List Reaching) : List Reaching :=
  others.filter a.meets

/-- The other numbers. -/
def strangers (a : Reaching) (others : List Reaching) : List Reaching :=
  others.filter fun b => !a.meets b

/-- Divides numbers into groups of those that reach each other. -/
def groups (numbers : List Reaching) : List (List Nat) :=
  match numbers with
  | [] => []
  | a :: others => (a.1 :: (mates a others).map (·.1)) :: groups (strangers a others)
termination_by numbers.length
decreasing_by
  exact Nat.lt_succ_of_le (List.length_filter_le ..)

/-- The groups of nodes that reach each other. Every node reaches itself without an
edge. -/
def components (s : Store α) : List (List Nat) :=
  groups ((List.range s.nodes.length).map fun i => (i, i :: s.descendants i))

/-- Whether one can go on from some edge and come back to it. -/
def isCyclic (s : Store α) : Bool :=
  s.edges.any fun e => e.1 == e.2 || (s.descendants e.2).contains e.1

end Store

/-- Answers by what the search meets. -/
def GraphAlgorithms.bySearch : GraphAlgorithms :=
  ⟨Store.components, Store.isCyclic⟩

end ImportAtlas
