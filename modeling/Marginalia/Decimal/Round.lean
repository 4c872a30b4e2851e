import Marginalia.Decimal.Binary

/-!
# Rounding to decimal places

A double is rounded to a number of decimal places from its exact value, a half going to the even
neighbour, and the result is the double nearest to that decimal.

## Main definitions

* `Decimal.roundDiv` — a quotient rounded to the nearest whole number.
* `Decimal.roundPlaces` — a double rounded to decimal places.
-/

namespace Marginalia.Decimal

/-- The quotient `num / den` rounded to the nearest whole number, a half to the even one. -/
def roundDiv (num den : Nat) : Nat :=
  let down := num / den
  let twice := 2 * (num % den)
  if twice < den then down
  else if den < twice then down + 1
  else if down % 2 = 0 then down else down + 1

/-- A double rounded to a number of decimal places. -/
def roundPlaces (places : Nat) (x : Float) : Float :=
  match read x with
  | .finite ⟨negative, m, e⟩ =>
    let digits := roundDiv (m * Nat.pow 2 e.toNat * Nat.pow 10 places) (Nat.pow 2 (-e).toNat)
    ofDigits negative digits (-places)
  | _ => x

end Marginalia.Decimal
