/-!
# Sets of characters

A set of characters is given by closed intervals of code points, as the tables
of the Unicode properties are.
-/

namespace ScriptFront.Text

/-- Whether the code point of `c` lies in one of the intervals. -/
def inIntervals (intervals : List (Nat × Nat)) (c : Char) : Bool :=
  intervals.any fun i => decide (i.1 ≤ c.toNat) && decide (c.toNat ≤ i.2)

/-- A character is in a table where one of its intervals goes around it. -/
theorem inIntervals_iff {intervals : List (Nat × Nat)} {c : Char} :
    inIntervals intervals c = true ↔ ∃ i ∈ intervals, i.1 ≤ c.toNat ∧ c.toNat ≤ i.2 := by
  simp [inIntervals]

end ScriptFront.Text
