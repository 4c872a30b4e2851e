import Marginalia.Pattern.Basic

/-!
# Places in a text

A place lies between two characters of a text, or at one of its ends.  It knows the text on both
sides, so a search can go forth and back from it, and what was captured on the way to it.

## Main definitions

* `Pattern.Spot` — a place in a text.
* `Pattern.Spot.step`, `Pattern.Spot.skip`, `Pattern.Spot.back` — the places around it.
* `Pattern.Spot.reach` — the places that a run of characters may reach.
* `Pattern.Spot.again?` — the place behind the repetition of a captured text.
* `Pattern.Anchor.holds` — whether a place satisfies a condition.
-/

namespace Marginalia.Pattern

/-- A place in a text. -/
structure Spot where
  /-- The text before the place, the nearest character first. -/
  before : List Char
  /-- The text after the place. -/
  rest : List Char
  /-- How many characters stand before the place. -/
  index : Nat
  /-- The parts captured on the way, the latest first. -/
  captures : List (Label × List Char)
deriving Repr, DecidableEq

namespace Spot

/-- The place before a text. -/
def atStart (text : List Char) : Spot := ⟨[], text, 0, []⟩

/-- The last text captured under a label. -/
def captured? (s : Spot) (label : Label) : Option (List Char) := s.captures.lookup label

/-- The text from the place `s` up to the later place `t`. -/
def textTo (s t : Spot) : List Char := s.rest.take (t.index - s.index)

/-- The place behind the character `c`, which the text `cs` follows. -/
def step (s : Spot) (c : Char) (cs : List Char) : Spot :=
  { s with before := c :: s.before, rest := cs, index := s.index + 1 }

/-- The place after the next `n` characters. -/
def skip (s : Spot) : Nat → Spot
  | 0 => s
  | n + 1 =>
    match s.rest with
    | [] => s
    | c :: cs => (s.step c cs).skip n

/-- The place before the last `n` characters. -/
def back (s : Spot) : Nat → Spot
  | 0 => s
  | n + 1 =>
    match s.before with
    | [] => s
    | c :: cs => { s with before := cs, rest := c :: s.rest, index := s.index - 1 }.back n

/-- The places behind 0, 1, 2, … characters of a class, the farthest first, in front of the places
already found.  The text `cs` follows the place `s`, and at most `room` characters are taken. -/
def along (set : CharClass) (room : Option Nat) (found : List Spot) (s : Spot) :
    List Char → List Spot
  | [] => s :: found
  | c :: cs =>
    if set.has c && room != some 0 then along set (room.map (· - 1)) (s :: found) (s.step c cs) cs
    else s :: found

/-- The places that a run of at least `least` and at most `most` characters of a class may reach,
the farthest first. -/
def reach (s : Spot) (set : CharClass) (least : Nat) (most : Option Nat) : List Spot :=
  let found := along set most [] s s.rest
  found.take (found.length - least)

/-- Whether the next character satisfies `p`. -/
def sees (s : Spot) (p : Char → Bool) : Bool :=
  match s.rest with
  | c :: _ => p c
  | [] => false

/-- Whether the last character satisfies `p`. -/
def leaves (s : Spot) (p : Char → Bool) : Bool :=
  match s.before with
  | c :: _ => p c
  | [] => false

/-- Whether a text starts with another, up to the case of letters if any are given. -/
def startsLike (letters : Option Text.Alphabet) : List Char → List Char → Bool
  | [], _ => true
  | _ :: _, [] => false
  | c :: cs, d :: ds =>
    (match letters with
      | some a => a.lower c == a.lower d
      | none => c == d) && startsLike letters cs ds

/-- The place behind the text captured under a label, if that text follows once more. -/
def again? (s : Spot) (label : Label) (letters : Option Text.Alphabet) : Option Spot :=
  match s.captured? label with
  | some part => if startsLike letters part s.rest then some (s.skip part.length) else none
  | none => none

end Spot

/-- Whether a character belongs to words. -/
def isWordChar : Text.Alphabet → Char → Bool
  | .ascii, c => c.isAlphanum || c == '_'
  | .full, c => Text.isWord c

/-- Whether exactly one of the two characters around a place is a word character. -/
def Spot.atWordEdge (s : Spot) (letters : Text.Alphabet) : Bool :=
  s.leaves (isWordChar letters) != s.sees (isWordChar letters)

/-- Whether a place satisfies a condition. -/
def Anchor.holds : Anchor → Spot → Bool
  | .textStart, s => s.before == []
  | .lineStart, s => s.before == [] || s.leaves (· == '\n')
  | .lastLineEnd, s => s.rest == [] || s.rest == ['\n']
  | .lineEnd, s => s.rest == [] || s.sees (· == '\n')
  | .textEnd, s => s.rest == []
  | .wordEdge letters, s => s.atWordEdge letters
  | .notWordEdge letters, s => !s.atWordEdge letters

end Marginalia.Pattern
