import Marginalia.Pattern.Match

/-!
# Searching and replacing

The first match of a pattern in a text is the one at the leftmost place, and there the preferred
one.  Replacing goes on behind each match; after a match of the empty text the next match must be
longer or lie further on.

## Main definitions

* `Pattern.Found` — a match with the text around it.
* `Pattern.find?` — the first match.
* `Pattern.replaceAll` — the text with every match replaced.
-/

namespace Marginalia.Pattern

/-- A match in a text. -/
structure Found where
  /-- The text before the match, from where the search began. -/
  before : List Char
  /-- The matched text. -/
  matched : List Char
  /-- The place after the match. -/
  after : Spot
deriving Repr, DecidableEq

namespace Found

/-- The text captured under a name, if that part took part in the match. -/
def captured? (f : Found) (name : String) : Option (List Char) := f.after.captured? (.name name)

/-- The text captured under a name; empty if that part took no part in the match. -/
def captured (f : Found) (name : String) : List Char := (f.captured? name).getD []

end Found

/-- The end of the preferred match that begins at a place.  With `advance` set, matches of the empty
text do not count. -/
def matchAt (p : Pattern) (advance : Bool) (s : Spot) : Option Spot :=
  (p.run (fun t => if advance && t.index == s.index then none else some t) s).filter fun t =>
    decide (s.index ≤ t.index)

/-- The first match from the place `s` on, which the given text follows.  With `advance` set, the
empty text at the place itself does not count. -/
def findFrom (p : Pattern) (advance : Bool) (s : Spot) : List Char → Option Found
  | [] => (matchAt p advance s).map fun t => ⟨[], s.textTo t, t⟩
  | c :: cs =>
    match matchAt p advance s with
    | some t => some ⟨[], s.textTo t, t⟩
    | none => (findFrom p false (s.step c cs) cs).map fun f => { f with before := c :: f.before }

/-- The first match in a text. -/
def find? (p : Pattern) (text : List Char) : Option Found :=
  findFrom p false (Spot.atStart text) text

/-- Replaces the matches from the place `s` on, of which there are at most `bound`. -/
def replaceFrom (p : Pattern) (value : Found → List Char) : Nat → Bool → Spot → List Char
  | 0, _, s => s.rest
  | bound + 1, advance, s =>
    match findFrom p advance s s.rest with
    | none => s.rest
    | some f =>
      f.before ++ value f ++
        replaceFrom p value bound f.matched.isEmpty { f.after with captures := [] }

/-- The text with every match replaced by its value. -/
def replaceAll (p : Pattern) (value : Found → List Char) (text : List Char) : List Char :=
  replaceFrom p value (2 * text.length + 2) false (Spot.atStart text)

/-- The text with every match deleted. -/
def eraseAll (p : Pattern) (text : List Char) : List Char := p.replaceAll (fun _ => []) text

end Marginalia.Pattern
