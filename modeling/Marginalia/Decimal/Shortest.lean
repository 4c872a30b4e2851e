import Marginalia.Decimal.Binary

/-!
# The shortest decimal that reads back

Every decimal number in a certain interval around a double reads back as that double.  The text of
a double uses the coarsest power of ten of which some multiple lies in the interval; of the two
multiples next to the double the nearer one is taken, and of two equally near ones the even one.

## Main definitions

* `Decimal.Scale` — a power of ten measured in quarters of the unit of a double.
* `Decimal.shortest` — the digits and the exponent of the shortest decimal.
* `Decimal.Layout`, `Decimal.write` — the text of a double.
-/

namespace Marginalia.Decimal

/-- Twice-halved units of a double compared with a power of ten: a multiple `c` of the power is at
most `x` quarters of the unit exactly when `c * power ≤ x * quarter`. -/
structure Scale where
  power : Nat
  quarter : Nat
deriving Repr, DecidableEq

/-- The scale of `10 ^ k` against the quarters of the unit `2 ^ e`. -/
def scaleOf (k e : Int) : Scale :=
  let q := e - 2
  ⟨Nat.pow 10 k.toNat * Nat.pow 2 (-q).toNat, Nat.pow 2 q.toNat * Nat.pow 10 (-k).toNat⟩

/-- The multiple of `10 ^ k` that reads back as `m · 2 ^ e` and is nearest to it, if some multiple
reads back. -/
def multiple? (m : Nat) (e k : Int) : Option Nat :=
  let scale := scaleOf k e
  let value := 4 * m * scale.quarter
  let narrow := decide (m = Nat.pow 2 52) && decide (-1074 < e)
  let low := (if narrow then 4 * m - 1 else 4 * m - 2) * scale.quarter
  let high := (4 * m + 2) * scale.quarter
  let inside (c : Nat) : Bool :=
    if m % 2 = 0 then decide (low ≤ c * scale.power) && decide (c * scale.power ≤ high)
    else decide (low < c * scale.power) && decide (c * scale.power < high)
  let down := value / scale.power
  let up := down + 1
  match inside down, inside up with
  | true, false => some down
  | false, true => some up
  | false, false => none
  | true, true =>
    let below := value - down * scale.power
    let above := up * scale.power - value
    if below < above then some down
    else if above < below then some up
    else some (if down % 2 = 0 then down else up)

/-- Whether `10 ^ k` is at most `m · 2 ^ e`. -/
def reaches (m : Nat) (e k : Int) : Bool :=
  let scale := scaleOf k e
  decide (scale.power ≤ 4 * m * scale.quarter)

/-- Powers of ten from the largest that a double reaches down to one finer than any double. -/
def exponents : List Int := (List.range 660).map fun (i : Nat) => 310 - (i : Int)

/-- The digits and the exponent of the shortest decimal that reads back as `m · 2 ^ e`, where `m`
is not zero. -/
def shortest (m : Nat) (e : Int) : Nat × Int :=
  let below := exponents.dropWhile fun k => !reaches m e k
  match below.findSome? fun k => (multiple? m e k).map fun c => (c, k) with
  | some result => result
  | none => (m, e)

/-- The decimal digits of a number without the zeros at the end, and how many zeros there were. -/
def withoutZeros (n : Nat) : List Char × Nat :=
  let digits := (Nat.toDigits 10 n).reverse
  let kept := digits.dropWhile (· == '0')
  (kept.reverse, digits.length - kept.length)

/-- How doubles are laid out. -/
structure Layout where
  /-- The smallest exponent of the leading digit that is written without an exponent. -/
  plainFrom : Int
  /-- The smallest exponent above these. -/
  plainBelow : Int
  /-- The least number of digits of an exponent. -/
  exponentDigits : Nat
  infinity : String
  notANumber : String
deriving Repr, DecidableEq

/-- An exponent with its sign and at least the required number of digits. -/
def Layout.exponent (layout : Layout) (k : Int) : List Char :=
  let digits := Nat.toDigits 10 k.natAbs
  let sign := if k < 0 then '-' else '+'
  'e' :: sign :: List.replicate (layout.exponentDigits - digits.length) '0' ++ digits

/-- Lays out the digits `digits`, of which the first has the exponent `lead`. -/
def Layout.digits (layout : Layout) (digits : List Char) (lead : Int) : List Char :=
  if layout.plainFrom ≤ lead ∧ lead < layout.plainBelow then
    if lead < 0 then
      ['0', '.'] ++ List.replicate (lead.natAbs - 1) '0' ++ digits
    else
      let whole := lead.toNat + 1
      let padded := digits ++ List.replicate (whole - digits.length) '0'
      let fraction := digits.drop whole
      padded.take whole ++ ['.'] ++ (if fraction.isEmpty then ['0'] else fraction)
  else
    let tail := digits.drop 1
    digits.take 1 ++ (if tail.isEmpty then [] else '.' :: tail) ++ layout.exponent lead

/-- The text of a double. -/
def write (layout : Layout) (x : Float) : String :=
  let signed (negative : Bool) (text : List Char) : String :=
    String.ofList (if negative then '-' :: text else text)
  match read x with
  | .notANumber => layout.notANumber
  | .infinite negative => signed negative layout.infinity.toList
  | .finite ⟨negative, 0, _⟩ => signed negative ['0', '.', '0']
  | .finite ⟨negative, m, e⟩ =>
    let (n, k) := shortest m e
    let (digits, zeros) := withoutZeros n
    signed negative (layout.digits digits (k + zeros + digits.length - 1))

end Marginalia.Decimal
