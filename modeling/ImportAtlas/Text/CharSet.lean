/-! Sets of characters given by ranges of code points. The tables of character
classes are values of this type, so that membership is computed in one place. -/

namespace ImportAtlas

/-- A set of characters as inclusive code point ranges. The ranges are disjoint
and stand in ascending order. -/
structure CharSet where
  ranges : List (Nat × Nat)

namespace CharSet

/-- Whether a code point lies in one of some ascending ranges. The search ends at
the first range that starts above it. -/
def covers : List (Nat × Nat) → Nat → Bool
  | [], _ => false
  | (low, high) :: later, n => if n < low then false else n ≤ high || covers later n

/-- Whether the set holds the character. -/
def contains (set : CharSet) (c : Char) : Bool :=
  covers set.ranges c.toNat

/-- In ascending ranges, the code points covered are those inside some range. -/
theorem covers_iff {ranges : List (Nat × Nat)}
    (ascending : ranges.Pairwise fun a b => a.1 ≤ b.1) (n : Nat) :
    covers ranges n = true ↔ ∃ r ∈ ranges, r.1 ≤ n ∧ n ≤ r.2 := by
  induction ranges with
  | nil => simp [covers]
  | cons r later ih =>
    obtain ⟨low, high⟩ := r
    have rest := (List.pairwise_cons.mp ascending).2
    have above := (List.pairwise_cons.mp ascending).1
    simp only [covers]
    split
    · rename_i below
      simp only [List.mem_cons, Bool.false_eq_true, false_iff]
      rintro ⟨r, rfl | mem, inside⟩
      · omega
      · have := above r mem
        simp only at this
        omega
    · simp only [Bool.or_eq_true, decide_eq_true_eq, ih rest, List.mem_cons,
        exists_eq_or_imp]
      have : low ≤ n := by omega
      simp [this]

end CharSet
end ImportAtlas
