import Marginalia.Text.Blank

/-!
# Decimal digits

The characters that stand for one decimal digit in some script, and the numbers written with them.
A table of such digits starts each range with a zero, so the value of a digit is its distance from
there, modulo ten.

## Main definitions

* `Text.isDigit` — membership.
* `Text.digitValue?` — the value of a digit.
* `Text.integer?` — the whole number that a text denotes.
* `Text.digitLimit` — how many digits a number is read or written with.
-/

namespace Marginalia.Text

/-- Decimal digits of every script. -/
def digitRanges : Ranges := [
  (0x30, 0x39), (0x660, 0x669), (0x6f0, 0x6f9), (0x7c0, 0x7c9), (0x966, 0x96f), (0x9e6, 0x9ef),
  (0xa66, 0xa6f), (0xae6, 0xaef), (0xb66, 0xb6f), (0xbe6, 0xbef), (0xc66, 0xc6f), (0xce6, 0xcef),
  (0xd66, 0xd6f), (0xde6, 0xdef), (0xe50, 0xe59), (0xed0, 0xed9), (0xf20, 0xf29),
  (0x1040, 0x1049), (0x1090, 0x1099), (0x17e0, 0x17e9), (0x1810, 0x1819), (0x1946, 0x194f),
  (0x19d0, 0x19d9), (0x1a80, 0x1a89), (0x1a90, 0x1a99), (0x1b50, 0x1b59), (0x1bb0, 0x1bb9),
  (0x1c40, 0x1c49), (0x1c50, 0x1c59), (0xa620, 0xa629), (0xa8d0, 0xa8d9), (0xa900, 0xa909),
  (0xa9d0, 0xa9d9), (0xa9f0, 0xa9f9), (0xaa50, 0xaa59), (0xabf0, 0xabf9), (0xff10, 0xff19),
  (0x104a0, 0x104a9), (0x10d30, 0x10d39), (0x11066, 0x1106f), (0x110f0, 0x110f9),
  (0x11136, 0x1113f), (0x111d0, 0x111d9), (0x112f0, 0x112f9), (0x11450, 0x11459),
  (0x114d0, 0x114d9), (0x11650, 0x11659), (0x116c0, 0x116c9), (0x11730, 0x11739),
  (0x118e0, 0x118e9), (0x11950, 0x11959), (0x11c50, 0x11c59), (0x11d50, 0x11d59),
  (0x11da0, 0x11da9), (0x16a60, 0x16a69), (0x16ac0, 0x16ac9), (0x16b50, 0x16b59),
  (0x1d7ce, 0x1d7ff), (0x1e140, 0x1e149), (0x1e2f0, 0x1e2f9), (0x1e950, 0x1e959),
  (0x1fbf0, 0x1fbf9)]

/-- Whether a character is a decimal digit of some script. -/
def isDigit (c : Char) : Bool := inRanges digitRanges c

/-- The value of a decimal digit. -/
def digitValue? (c : Char) : Option Nat :=
  (digitRanges.find? fun (lo, hi) => decide (lo ≤ c.toNat) && decide (c.toNat ≤ hi)).map
    fun (lo, _) => (c.toNat - lo) % 10

/-- The largest number of decimal digits with which a whole number is read or written. -/
def digitLimit : Nat := 4300

/-- Whether a character may surround a number. -/
def surroundsNumber (c : Char) : Bool :=
  [' ', '\t', '\n', '\x0b', '\x0c', '\r'].contains c || (decide (127 ≤ c.toNat) && isBlank c)

/-- The values of a list of digits, with single underscores between them. -/
def digitValues? : List Char → Option (List Nat)
  | [] => none
  | [c] => (digitValue? c).map ([·])
  | c :: '_' :: cs => do return (← digitValue? c) :: (← digitValues? cs)
  | c :: cs => do return (← digitValue? c) :: (← digitValues? cs)

/-- The number that a list of digits denotes, if there are at most `limit` of them. -/
def natural? (limit : Nat) (cs : List Char) : Option Nat :=
  (digitValues? cs).bind fun values =>
    if values.length ≤ limit then some (values.foldl (fun n d => 10 * n + d) 0) else none

/-- The whole number that a text denotes, with blanks around it and at most `limit` digits. -/
def integer? (limit : Nat) (cs : List Char) : Option Int :=
  let inner := (((cs.dropWhile surroundsNumber).reverse).dropWhile surroundsNumber).reverse
  match inner with
  | '-' :: digits => (natural? limit digits).map fun n => -(n : Int)
  | '+' :: digits => (natural? limit digits).map Int.ofNat
  | digits => (natural? limit digits).map Int.ofNat

end Marginalia.Text
