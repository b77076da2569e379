import ImportAtlas.Graph.Basic

/-! Files reached by chains of imports. The search goes depth first, and takes the
imports of a file in the order in which they were added. -/

namespace ImportAtlas
namespace Store
variable {α : Type}

/-- The edges that leave numbers which have not been met. -/
def untaken (s : Store α) (met : List Nat) : List (Nat × Nat) :=
  s.edges.filter fun e => !met.contains e.1

theorem length_orderedNeighbors_add_length_untaken (s : Store α) (unmet : i ∉ met) :
    (s.orderedNeighbors .outgoing i).length + (s.untaken (i :: met)).length =
      (s.untaken met).length := by
  rw [orderedNeighbors, List.length_reverse, neighbors, List.length_map, untaken, untaken]
  induction s.edges with
  | nil => rfl
  | cons e edges ih =>
    by_cases leaves : e.1 = i
    · have free : e.1 ∉ met := leaves ▸ unmet
      simp [Direction.near, leaves, unmet] at ih ⊢
      omega
    · by_cases known : e.1 ∈ met
      · simpa [Direction.near, leaves, known] using ih
      · simp [Direction.near, leaves, known] at ih ⊢
        omega

/-- The numbers that a search meets, in the order in which it meets them. The
search starts with some numbers on its stack and avoids those already met. A number
counts as met when it is taken from the stack, and so may be on it more than once. -/
def search (s : Store α) (met : List Nat) (stack : List Nat) : List Nat :=
  match stack with
  | [] => []
  | i :: stack =>
    if met.contains i then search s met stack
    else i :: search s (i :: met) (s.orderedNeighbors .outgoing i ++ stack)
termination_by (s.untaken met).length + stack.length
decreasing_by
  · simp only [List.length_cons]
    omega
  · rename_i unknown
    have unmet : i ∉ met := by simpa using unknown
    have fewer := length_orderedNeighbors_add_length_untaken s unmet
    simp only [List.length_append, List.length_cons]
    omega

end Store

namespace FileGraph

/-- The other files that a file imports, directly or through other files, in the
order of the search. -/
def reachableFrom (g : FileGraph) (p : Path) : List Path :=
  match g.indexOf? p with
  | some i => g.pathsOf (g.store.search [i] (g.store.orderedNeighbors .outgoing i))
  | none => []

end FileGraph
end ImportAtlas
