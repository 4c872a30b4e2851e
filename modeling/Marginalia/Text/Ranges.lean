/-!
# Tables of character ranges

A property of characters is given as a table of closed ranges of code points.  The tables list
their ranges in increasing order, so that a scan may stop at the first range above the character.

## Main definitions

* `Text.Ranges` — a table.
* `Text.inRanges` — whether a character lies in one of the ranges of a table.
-/

namespace Marginalia.Text

/-- Closed ranges of code points, in increasing order. -/
abbrev Ranges := List (Nat × Nat)

/-- Whether the code point `n` lies in one of the ranges. -/
def codeInRanges : Ranges → Nat → Bool
  | [], _ => false
  | (lo, hi) :: rest, n => decide (lo ≤ n) && (decide (n ≤ hi) || codeInRanges rest n)

/-- Whether the character lies in one of the ranges. -/
def inRanges (table : Ranges) (c : Char) : Bool := codeInRanges table c.toNat

end Marginalia.Text
