import Marginalia.Text.Blank
import Marginalia.Text.Case
import Marginalia.Text.Digit
import Marginalia.Text.Word

/-!
# Patterns

A pattern describes a set of texts together with an order of preference: of two alternatives the
left one is tried first, and a repetition takes as many rounds as it can or as few, as its manner
says.  Runs of characters of one class are the repetitions that matter most, and have a form of
their own.

## Main definitions

* `Pattern.CharClass` — a set of characters, given by ranges and categories.
* `Pattern.Anchor` — a condition on a place in a text.
* `Pattern.Label` — the name of a captured part.
* `Pattern.Manner` — how a repetition chooses its number of rounds.
* `Pattern` — the patterns themselves.
-/

namespace Marginalia

namespace Pattern

/-! ## Sets of characters -/

/-- A named set of characters. -/
inductive Category where
  | blank
  | word
  | digit
deriving Repr, DecidableEq

/-- Membership in a category. -/
def Category.has : Category → Char → Bool
  | .blank, c => Text.isBlank c
  | .word, c => Text.isWord c
  | .digit, c => Text.isDigit c

/-- One part of a class of characters. -/
inductive ClassItem where
  /-- One character. -/
  | char (c : Char)
  /-- The characters from `lo` to `hi`. -/
  | range (lo hi : Char)
  /-- The characters of a category, or all others. -/
  | category (kind : Category) (negated : Bool)
  /-- The characters that are equal, up to case, to one from `lo` to `hi`. -/
  | anyCase (letters : Text.Alphabet) (lo hi : Char)
deriving Repr, DecidableEq

/-- Membership in a part of a class. -/
def ClassItem.has : ClassItem → Char → Bool
  | .char d, c => c == d
  | .range lo hi, c => decide (lo ≤ c) && decide (c ≤ hi)
  | .category kind negated, c => kind.has c != negated
  | .anyCase letters lo hi, c =>
    (c :: letters.kin c).any fun d => decide (lo ≤ d) && decide (d ≤ hi)

/-- A set of characters: those of some item, or those of none. -/
structure CharClass where
  negated : Bool
  items : List ClassItem
deriving Repr, DecidableEq

/-- Membership in a class. -/
def CharClass.has (set : CharClass) (c : Char) : Bool := set.items.any (·.has c) != set.negated

/-! ## Places and labels -/

/-- A condition on a place in a text. -/
inductive Anchor where
  /-- At the start of the text. -/
  | textStart
  /-- At the start of a line. -/
  | lineStart
  /-- At the end of the text, or before a line break that ends it. -/
  | lastLineEnd
  /-- At the end of a line. -/
  | lineEnd
  /-- At the very end of the text. -/
  | textEnd
  /-- Between a word character and a place without one. -/
  | wordEdge (letters : Text.Alphabet)
  /-- Anywhere else. -/
  | notWordEdge (letters : Text.Alphabet)
deriving Repr, DecidableEq

/-- The name of a captured part: its number, or a name of its own. -/
inductive Label where
  | number (n : Nat)
  | name (s : String)
deriving Repr, DecidableEq

/-- How a repetition chooses its number of rounds. -/
inductive Manner where
  /-- As many as possible, and fewer if the rest asks for it. -/
  | greedy
  /-- As few as possible, and more if the rest asks for it. -/
  | lazy
  /-- As many as possible, whatever the rest asks for. -/
  | possessive
  /-- The same, but going on from the mark of the round that failed. -/
  | marked
deriving Repr, DecidableEq

end Pattern

/-! ## Patterns -/

/-- A pattern over texts. -/
inductive Pattern where
  /-- The empty text. -/
  | empty
  /-- One character of a class. -/
  | one (set : Pattern.CharClass)
  /-- Nothing, at a place that satisfies a condition. -/
  | anchor (place : Pattern.Anchor)
  /-- One pattern after the other. -/
  | seq (first second : Pattern)
  /-- Either pattern, the left one preferred. -/
  | alt (left right : Pattern)
  /-- A pattern whose text is remembered. -/
  | capture (label : Pattern.Label) (body : Pattern)
  /-- Between `least` and `most` characters of a class. -/
  | span (set : Pattern.CharClass) (least : Nat) (most : Option Nat) (manner : Pattern.Manner)
  /-- Between `least` and `most` rounds of a pattern. -/
  | iterate (body : Pattern) (least : Nat) (most : Option Nat) (manner : Pattern.Manner)
  /-- Nothing, at a place where a pattern matches from `back` characters before it, or at any other
  place. -/
  | look (positive : Bool) (back : Nat) (body : Pattern)
  /-- A pattern in its preferred way only, without going back into it. -/
  | atomic (body : Pattern)
  /-- The text remembered under a label, once more; if letters are given, up to their case. -/
  | again (label : Pattern.Label) (letters : Option Text.Alphabet)
  /-- One pattern if a text is remembered under a label, and otherwise the other. -/
  | given (label : Pattern.Label) (yes no : Pattern)
deriving Repr, DecidableEq

namespace Pattern

/-! ## Short forms -/

/-- One given character. -/
def char (c : Char) : Pattern := .one ⟨false, [.char c]⟩

/-- A given text. -/
def chars : List Char → Pattern
  | [] => .empty
  | [c] => char c
  | c :: cs => .seq (char c) (chars cs)

/-- A given text. -/
def text (s : String) : Pattern := chars s.toList

/-- One of the given characters. -/
def oneOf (cs : List Char) : Pattern := .one ⟨false, cs.map .char⟩

/-- Any character but the given ones. -/
def noneOf (cs : List Char) : Pattern := .one ⟨true, cs.map .char⟩

/-- Any character but a line break. -/
def notNewline : Pattern := noneOf ['\n']

/-- Any character at all. -/
def anyChar : Pattern := .one ⟨true, []⟩

/-- A blank character. -/
def blank : Pattern := .one ⟨false, [.category .blank false]⟩

/-- A character that is not blank. -/
def notBlank : Pattern := .one ⟨false, [.category .blank true]⟩

/-- Patterns one after the other. -/
def all : List Pattern → Pattern
  | [] => .empty
  | [p] => p
  | p :: ps => .seq p (all ps)

/-- One of several patterns, the earlier ones preferred; with none given, the empty text. -/
def first : List Pattern → Pattern
  | [] => .empty
  | [p] => p
  | p :: ps => .alt p (first ps)

/-- Between `least` and `most` rounds of a pattern; of a class, a run of its characters. -/
def rounds (least : Nat) (most : Option Nat) (manner : Manner) : Pattern → Pattern
  | .one set => .span set least most manner
  | p => .iterate p least most manner

/-- Any number of rounds, as many as possible. -/
def many (p : Pattern) : Pattern := rounds 0 none .greedy p

/-- At least one round, as many as possible. -/
def some₁ (p : Pattern) : Pattern := rounds 1 none .greedy p

/-- A pattern or nothing, the pattern preferred. -/
def optional (p : Pattern) : Pattern := .alt p .empty

/-- A pattern remembered under a name. -/
def named (s : String) (p : Pattern) : Pattern := .capture (.name s) p

end Pattern

end Marginalia
