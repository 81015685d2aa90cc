/-!
# Elapsed time

A duration is shown in the greatest unit of which it has at least one, from
nanoseconds to seconds, with as many decimal places as it needs.
-/

namespace ScriptFront.Elapsed

/-- The last `places` decimal digits of `n`. -/
def lastDigits : (places : Nat) → (n : Nat) → List Char
  | 0, _ => []
  | k + 1, n => lastDigits k (n / 10) ++ [Nat.digitChar (n % 10)]

/-- The nanoseconds in the unit of time that is shown with up to `places`
    decimal places. -/
def unit (places : Nat) : Nat := Nat.pow 10 places

/-- The number of these units in `n` nanoseconds, with decimal places up to the
    last one that is not zero. -/
def decimal (places n : Nat) : String :=
  let fraction := ((lastDigits places n).reverse.dropWhile (· == '0')).reverse
  let point := if fraction.isEmpty then "" else "."
  toString (n / unit places) ++ point ++ String.ofList fraction

/-- How a duration is shown. -/
def text (nanoseconds : Nat) : String :=
  if unit 9 ≤ nanoseconds then decimal 9 nanoseconds ++ "s"
  else if unit 6 ≤ nanoseconds then decimal 6 nanoseconds ++ "ms"
  else if unit 3 ≤ nanoseconds then decimal 3 nanoseconds ++ "µs"
  else decimal 0 nanoseconds ++ "ns"

end ScriptFront.Elapsed
