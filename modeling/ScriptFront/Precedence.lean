/-!
# Precedence

How tightly an operator holds its operands. An expression is read at a
precedence: it ends before the first operator that does not bind more tightly.
-/

namespace ScriptFront

/-- The levels of precedence, the weakest first. -/
inductive Precedence
  | lowest
  /-- `==` and `!=`. -/
  | equals
  /-- `<` and `>`. -/
  | lessGreater
  /-- `+` and `-`. -/
  | sum
  /-- `*` and `/`. -/
  | product
  /-- An operator before its operand. -/
  | prefixOp
  /-- The application of a function. -/
  | call
  deriving DecidableEq, Inhabited

namespace Precedence

/-- The levels, the weakest first. -/
def all : List Precedence := [lowest, equals, lessGreater, sum, product, prefixOp, call]

/-- The list of levels is complete. -/
theorem mem_all (p : Precedence) : p ∈ all := by cases p <;> decide

/-- The place of a level among all of them. -/
def rank : Precedence → Nat
  | lowest => 0
  | equals => 1
  | lessGreater => 2
  | sum => 3
  | product => 4
  | prefixOp => 5
  | call => 6

/-- Two levels with the same place are the same. -/
theorem rank_inj {p q : Precedence} : p.rank = q.rank ↔ p = q := by
  cases p <;> cases q <;> decide

instance : LT Precedence := ⟨fun p q => p.rank < q.rank⟩

instance : LE Precedence := ⟨fun p q => p.rank ≤ q.rank⟩

instance : DecidableLT Precedence := fun p q => inferInstanceAs (Decidable (p.rank < q.rank))

instance : DecidableLE Precedence := fun p q => inferInstanceAs (Decidable (p.rank ≤ q.rank))

theorem lt_iff {p q : Precedence} : p < q ↔ p.rank < q.rank := Iff.rfl

theorem le_iff {p q : Precedence} : p ≤ q ↔ p.rank ≤ q.rank := Iff.rfl

end Precedence

end ScriptFront
