/-!
# Numerals

The integers that a program may write: a nonempty row of decimal digits, whose
value fits into 64 bits with a sign. Leading zeros are allowed.
-/

namespace ScriptFront.Numeral

/-- The greatest integer that a program may write. -/
def limit : Nat := Nat.pow 2 63 - 1

/-- The value of a row of decimal digits, the most significant first. -/
def ofDigits (digits : List Char) : Nat :=
  digits.foldl (fun n d => 10 * n + (d.toNat - '0'.toNat)) 0

/-- The integer that `literal` writes. -/
def value? (literal : String) : Option Nat :=
  let digits := literal.toList
  if digits ≠ [] ∧ digits.all Char.isDigit ∧ ofDigits digits ≤ limit then
    some (ofDigits digits)
  else none

/-- What a literal writes is the value of a row of digits, and not above the
    limit. -/
theorem value?_eq_some {literal : String} {n : Nat} (h : value? literal = some n) :
    (literal.toList ≠ [] ∧ literal.toList.all Char.isDigit) ∧ ofDigits literal.toList = n ∧
      n ≤ limit := by
  rw [value?] at h
  split at h
  next hd =>
    cases h
    exact ⟨⟨hd.1, hd.2.1⟩, rfl, hd.2.2⟩
  next => cases h

/-- A row of digits writes its value, unless that is above the limit. -/
theorem value?_of_digits {literal : String} (hne : literal.toList ≠ [])
    (hd : literal.toList.all Char.isDigit) :
    value? literal =
      if ofDigits literal.toList ≤ limit then some (ofDigits literal.toList) else none := by
  simp [value?, hne, hd]

example : value? "0009223372036854775807" = some 9223372036854775807 := by decide +kernel

example : value? "9223372036854775808" = none := by decide +kernel

end ScriptFront.Numeral
