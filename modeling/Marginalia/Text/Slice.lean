/-!
# Slices with signed bounds

A slice is taken between two bounds that may be negative or too large.  A negative bound counts
from the end, and a bound outside the list is moved to the nearer end.  A single item has a signed
index, too; but it must be there.  Of the indices without an item, those that do not fit into 64
bits are told apart.

## Main definitions

* `Text.clampBound` — a signed bound as an index into a list of a given length.
* `Text.slice` — the part of a list between two signed bounds.
* `Text.signedIndex` — a signed index as an index into a list of a given length.
-/

namespace Marginalia.Text

/-- A signed bound as an index into a list of length `n`: negative bounds count from the end, and
the result lies between `0` and `n`. -/
def clampBound (n : Nat) (bound : Int) : Nat :=
  let index := if bound < 0 then bound + n else bound
  min index.toNat n

/-- The part of a list between two signed bounds; empty when they are out of order. -/
def slice {α : Type} (xs : List α) (start stop : Int) : List α :=
  let lo := clampBound xs.length start
  let hi := clampBound xs.length stop
  (xs.drop lo).take (hi - lo)

/-- The part of a list before a signed bound. -/
def sliceTo {α : Type} (xs : List α) (stop : Int) : List α :=
  xs.take (clampBound xs.length stop)

/-- Why there is no item at a signed index. -/
inductive IndexFault where
  | outOfRange
  /-- The index does not fit into 64 bits. -/
  | tooLarge
deriving Repr, DecidableEq

/-- The wording of a fault, for a collection of a kind. -/
def IndexFault.message (kind : String) : IndexFault → String
  | .outOfRange => kind ++ " index out of range"
  | .tooLarge => "cannot fit 'int' into an index-sized integer"

/-- A signed index as an index into a list of length `n`; a negative one counts from the end. -/
def signedIndex (n : Nat) (index : Int) : Except IndexFault Nat :=
  let fromStart := if index < 0 then index + n else index
  if 0 ≤ fromStart ∧ fromStart < n then .ok fromStart.toNat
  else if index < -Int.pow 2 63 ∨ Int.pow 2 63 ≤ index then .error .tooLarge
  else .error .outOfRange

/-- A bound inside the list stands for itself. -/
theorem clampBound_of_le {n m : Nat} (h : m ≤ n) : clampBound n m = m := by
  simp [clampBound, Int.not_lt.mpr (Int.natCast_nonneg m), h]

end Marginalia.Text
