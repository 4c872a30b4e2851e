/-!
# Doubles as exact numbers

A finite double is a whole number of units, the unit being a power of two.  Everything that is
written about a double is computed from this exact value.

## Main definitions

* `Decimal.Exact` — a sign, a mantissa and the exponent of the unit.
* `Decimal.Reading`, `Decimal.read` — the exact value of a double, or what it is instead.
* `Decimal.Reading.order?` — which of two readings is the smaller one.
* `Decimal.ofDigits` — the double nearest to a decimal number.
-/

namespace Marginalia.Decimal

/-- The number `± mantissa · 2 ^ exponent`. -/
structure Exact where
  negative : Bool
  mantissa : Nat
  exponent : Int
deriving Repr, DecidableEq

/-- What a double stands for. -/
inductive Reading where
  | finite (value : Exact)
  | infinite (negative : Bool)
  | notANumber
deriving Repr, DecidableEq

/-- Reads the sign, the exponent and the fraction off the bits of a double. -/
def read (x : Float) : Reading :=
  let bits := x.toBits.toNat
  let negative := decide (Nat.pow 2 63 ≤ bits)
  let biased : Nat := bits / Nat.pow 2 52 % Nat.pow 2 11
  let fraction := bits % Nat.pow 2 52
  if biased = 2047 then
    if fraction = 0 then .infinite negative else .notANumber
  else if biased = 0 then .finite ⟨negative, fraction, -1074⟩
  else .finite ⟨negative, fraction + Nat.pow 2 52, (biased : Int) - 1075⟩

/-- A whole number as an exact value. -/
def Exact.ofInt (n : Int) : Exact := ⟨decide (n < 0), n.natAbs, 0⟩

/-- How many units of `2 ^ exponent` an exact value is, where the exponent is at most its own. -/
def Exact.units (x : Exact) (exponent : Int) : Int :=
  let size : Int := x.mantissa * Int.pow 2 (x.exponent - exponent).toNat
  if x.negative then -size else size

/-- How two exact values compare, both being counted in the smaller one of their units. -/
def Exact.order (x y : Exact) : Ordering :=
  let exponent := min x.exponent y.exponent
  compare (x.units exponent) (y.units exponent)

/-- How two readings compare; what is not a number compares with nothing. -/
def Reading.order? : Reading → Reading → Option Ordering
  | .notANumber, _ | _, .notANumber => none
  | .finite x, .finite y => some (x.order y)
  | .infinite a, .infinite b => some (compare (!a) (!b))
  | .finite _, .infinite b => some (if b then .gt else .lt)
  | .infinite a, .finite _ => some (if a then .lt else .gt)

/-- The double nearest to `± digits · 10 ^ exponent`. -/
def ofDigits (negative : Bool) (digits : Nat) (exponent : Int) : Float :=
  let x := Float.ofScientific digits (decide (exponent < 0)) exponent.natAbs
  if negative then -x else x

end Marginalia.Decimal
