/-!
# Capital forms within ASCII

Names of settings are compared without regard to case, and all of them are ASCII.  So only the
characters whose capital form is made of ASCII letters matter: besides `a` to `z` these are a few
letters (`ı`, `ſ`, `ß`) and the Latin ligatures.  Every other character is left alone, and a text
that holds one is equal to no name.

## Main definitions

* `Text.capital` — the capital form of one character.
* `Text.capitals` — the capital form of a text.
-/

namespace Marginalia.Text

/-- Characters outside ASCII whose capital form is ASCII. -/
def capitalForms : List (Char × List Char) := [
  ('ß', ['S', 'S']), ('ı', ['I']), ('ſ', ['S']),
  ('ﬀ', ['F', 'F']), ('ﬁ', ['F', 'I']), ('ﬂ', ['F', 'L']),
  ('ﬃ', ['F', 'F', 'I']), ('ﬄ', ['F', 'F', 'L']), ('ﬅ', ['S', 'T']), ('ﬆ', ['S', 'T'])]

/-- The capital form of a character, if it is ASCII, and otherwise the character itself. -/
def capital (c : Char) : List Char :=
  match capitalForms.lookup c with
  | some form => form
  | none => [c.toUpper]

/-- The capital form of a text, as far as it is ASCII. -/
def capitals (text : List Char) : List Char := text.flatMap capital

end Marginalia.Text
