/-! Tables from texts to values, kept in the order of their keys. -/

namespace ImportAtlas

/-- A table. Each key stands once, and the keys ascend. -/
structure Table (α : Type) where
  entries : List (String × α) := []
  deriving DecidableEq, Repr, Inhabited

namespace Table

theorem lookup_cons (k key : String) (value : α) (rest : List (String × α)) :
    ((k, value) :: rest).lookup key = if key = k then some value else rest.lookup key := by
  by_cases same : key = k
  · rw [if_pos same, same, List.lookup_cons_self]
  · rw [if_neg same, List.lookup_cons, beq_false_of_ne same]

/-- In entries with distinct keys a lookup finds whatever stands there. -/
theorem mem_iff_lookup {entries : List (String × α)} (distinct : (entries.map Prod.fst).Nodup)
    {key : String} {value : α} : (key, value) ∈ entries ↔ entries.lookup key = some value := by
  induction entries with
  | nil => simp
  | cons entry rest ih =>
    obtain ⟨first, other⟩ := entry
    obtain ⟨apart, later⟩ := List.nodup_cons.mp distinct
    rw [List.mem_cons, ih later, lookup_cons]
    by_cases same : key = first
    · subst same
      have missed : rest.lookup key ≠ some value := fun found => by
        have member := List.mem_map_of_mem (f := Prod.fst) ((ih later).mpr found)
        exact apart member
      simp [missed, eq_comm]
    · simp [same]

/-- Changes the value under a key in ascending entries, or puts in a new one. -/
def alterEntries (key : String) (f : Option α → α) : List (String × α) → List (String × α)
  | [] => [(key, f none)]
  | (k, value) :: rest =>
    if key = k then (k, f (some value)) :: rest
    else if key < k then (key, f none) :: (k, value) :: rest
    else (k, value) :: alterEntries key f rest

/-- The table with the value under a key changed. -/
def alter (t : Table α) (key : String) (f : Option α → α) : Table α :=
  ⟨alterEntries key f t.entries⟩

/-- The table with a value under a key. An earlier value there is replaced. -/
def insert (t : Table α) (key : String) (value : α) : Table α :=
  t.alter key fun _ => value

/-- The value under a key. -/
def get? (t : Table α) (key : String) : Option α :=
  t.entries.lookup key

/-- Whether a key has a value. -/
def contains (t : Table α) (key : String) : Bool :=
  (t.get? key).isSome

/-- How many keys there are. -/
def size (t : Table α) : Nat :=
  t.entries.length

/-- Whether there are no keys. -/
def isEmpty (t : Table α) : Bool :=
  t.entries.isEmpty

/-- The table of some entries. Of several values under one key the last stays. -/
def ofList (entries : List (String × α)) : Table α :=
  entries.foldl (fun t (key, value) => t.insert key value) {}

end Table
end ImportAtlas
