import Marginalia.Text.Ranges

/-!
# Blank characters

The whitespace of every script, together with the four ASCII separators U+001C to U+001F.

## Main definitions

* `Text.isBlank` — membership.
* `Text.dropBlankEnd`, `Text.trimBlank` — a text without its surrounding blanks.
* `Text.allBlank` — whether nothing but blanks is left.
-/

namespace Marginalia.Text

/-- Whitespace characters. -/
def blankRanges : Ranges := [
  (0x9, 0xd), (0x1c, 0x20), (0x85, 0x85), (0xa0, 0xa0), (0x1680, 0x1680), (0x2000, 0x200a),
  (0x2028, 0x2029), (0x202f, 0x202f), (0x205f, 0x205f), (0x3000, 0x3000)]

/-- Whether a character is whitespace. -/
def isBlank (c : Char) : Bool := inRanges blankRanges c

/-- Drops the characters at the end of a text that satisfy `p`. -/
def dropEndWhile (p : Char → Bool) (text : List Char) : List Char :=
  (text.reverse.dropWhile p).reverse

/-- A text without the blanks at its end. -/
def dropBlankEnd (text : List Char) : List Char := dropEndWhile isBlank text

/-- A text without the blanks around it. -/
def trimBlank (text : List Char) : List Char := dropBlankEnd (text.dropWhile isBlank)

/-- Whether a text holds nothing but blanks. -/
def allBlank (text : List Char) : Bool := text.all isBlank

end Marginalia.Text
