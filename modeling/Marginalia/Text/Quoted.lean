import Marginalia.Text.Printable

/-!
# Quoted texts

Messages show a text between quotes, with everything escaped that would not be seen.  The quote is
the single one, unless the text holds a single quote and no double quote.

## Main definitions

* `Text.hexPadded` — a number in lower-case hexadecimal digits, padded with zeros.
* `Text.quoted` — a text between quotes.
-/

namespace Marginalia.Text

/-- A number in lower-case hexadecimal digits, padded with zeros to a width. -/
def hexPadded (width n : Nat) : List Char :=
  let digits := Nat.toDigits 16 n
  List.replicate (width - digits.length) '0' ++ digits

/-- How one character stands between the quotes `quote`. -/
def quoteChar (quote c : Char) : List Char :=
  if c == quote || c == '\\' then ['\\', c]
  else if c == '\n' then ['\\', 'n']
  else if c == '\r' then ['\\', 'r']
  else if c == '\t' then ['\\', 't']
  else if isPrintable c then [c]
  else if c.toNat < 0x100 then ['\\', 'x'] ++ hexPadded 2 c.toNat
  else if c.toNat < 0x10000 then ['\\', 'u'] ++ hexPadded 4 c.toNat
  else ['\\', 'U'] ++ hexPadded 8 c.toNat

/-- The quote a text is shown with. -/
def quoteFor (text : List Char) : Char :=
  if text.contains '\'' && !text.contains '"' then '"' else '\''

/-- A text between quotes, with its invisible characters escaped. -/
def quoted (text : String) : String :=
  let quote := quoteFor text.toList
  String.ofList (quote :: text.toList.flatMap (quoteChar quote) ++ [quote])

end Marginalia.Text
