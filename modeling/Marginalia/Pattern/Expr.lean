import Marginalia.Pattern.Basic
import Marginalia.Pattern.Fault

/-!
# Patterns as they are written

A written pattern leaves open what flags decide: whether case matters, what a dot and the ends of
lines are, and which letters count.  Given the flags, it denotes a pattern, unless it looks back by
a width that is not fixed.

Alternatives that start alike share their start, and alternatives of one character each are one set
of characters.

## Main definitions

* `Pattern.Flag` — the flags.
* `Pattern.Expr` — a pattern as it is written.
* `Pattern.Expr.width` — how many characters it may take.
* `Pattern.Expr.alternatives` — a choice between sequences.
* `Pattern.Expr.pattern` — the pattern that it denotes.
-/

namespace Marginalia.Pattern

/-! ## Flags -/

/-- A flag of a pattern. -/
inductive Flag where
  /-- Only letters of ASCII count. -/
  | ascii
  /-- The letters of every script count. -/
  | everyScript
  /-- Case does not matter. -/
  | anyCase
  /-- Lines have ends of their own. -/
  | lines
  /-- A dot stands for line breaks too. -/
  | dotAll
  /-- Blanks and remarks in the pattern do not count. -/
  | spaced
  /-- Nothing is repeated. -/
  | template
  /-- The letters are those of the place; no pattern may have this flag. -/
  | locale
deriving Repr, DecidableEq

namespace Flag

/-- The flag that a letter stands for. -/
def ofLetter? : Char → Option Flag
  | 'a' => some .ascii
  | 'u' => some .everyScript
  | 'i' => some .anyCase
  | 'm' => some .lines
  | 's' => some .dotAll
  | 'x' => some .spaced
  | 't' => some .template
  | 'L' => some .locale
  | _ => none

/-- Whether a flag says which letters count. -/
def choosesLetters : Flag → Bool
  | .ascii | .everyScript | .locale => true
  | _ => false

/-- The flags in a part of a pattern, where some are turned on and others off. -/
def within (flags on off : List Flag) : List Flag :=
  let kept := if on.any choosesLetters then flags.filter (!·.choosesLetters) else flags
  (kept ++ on).filter fun flag => !off.contains flag

/-- The letters that count under some flags. -/
def alphabet (flags : List Flag) : Text.Alphabet :=
  if flags.contains .ascii then .ascii else .full

end Flag

/-! ## Sets of characters under flags -/

/-- The parts of a class that make up a category within ASCII. -/
def Category.asciiItems : Category → List ClassItem
  | .blank => [.range '\t' '\r', .char ' ']
  | .word => [.range '0' '9', .range 'A' 'Z', .char '_', .range 'a' 'z']
  | .digit => [.range '0' '9']

/-- The parts of a class that make up the rest of a category within ASCII. -/
def Category.asciiRest : Category → List ClassItem
  | .blank => [.range '\x00' '\x08', .range '\x0e' '\x1f', .range '!' (Char.ofNat 0x10ffff)]
  | .word =>
    [.range '\x00' '/', .range ':' '@', .range '[' '^', .char '\x60',
      .range '\x7b' (Char.ofNat 0x10ffff)]
  | .digit => [.range '\x00' '/', .range ':' (Char.ofNat 0x10ffff)]

namespace ClassItem

/-- Whether a part of a class holds characters with more than one form. -/
def cased (letters : Text.Alphabet) : ClassItem → Bool
  | .char c => letters.casedWithin c c
  | .range lo hi => letters.casedWithin lo hi
  | _ => false

/-- A part of a class with all forms of its characters. -/
def withForms (letters : Text.Alphabet) : ClassItem → ClassItem
  | .char c => .anyCase letters c c
  | .range lo hi => .anyCase letters lo hi
  | item => item

/-- A part of a class with the letters that count. -/
def withLetters : Text.Alphabet → ClassItem → List ClassItem
  | .ascii, .category kind false => kind.asciiItems
  | .ascii, .category kind true => kind.asciiRest
  | _, item => [item]

end ClassItem

/-- A class under flags.  If case does not matter, all forms are added as soon as one character has
several. -/
def CharClass.under (flags : List Flag) (set : CharClass) : CharClass :=
  let letters := Flag.alphabet flags
  let items :=
    if flags.contains .anyCase && set.items.any (·.cased letters) then
      set.items.map (·.withForms letters)
    else set.items
  ⟨set.negated, items.flatMap (·.withLetters letters)⟩

/-- A condition on a place under flags. -/
def Anchor.under (flags : List Flag) : Anchor → Anchor
  | .lineStart => if flags.contains .lines then .lineStart else .textStart
  | .lineEnd => if flags.contains .lines then .lineEnd else .lastLineEnd
  | .wordEdge _ => .wordEdge (Flag.alphabet flags)
  | .notWordEdge _ => .notWordEdge (Flag.alphabet flags)
  | place => place

/-! ## Written patterns -/

/-- A pattern as it is written. -/
inductive Expr where
  | empty
  | char (c : Char)
  | notChar (c : Char)
  /-- The dot. -/
  | any
  | set (negated : Bool) (items : List ClassItem)
  | anchor (place : Anchor)
  | seq (first second : Expr)
  /-- A choice; if `right` is a choice too, its alternatives are further ones of this choice. -/
  | choice (left right : Expr)
  | capture (number : Nat) (body : Expr)
  /-- A part for which flags are turned on and off. -/
  | scope (on off : List Flag) (body : Expr)
  | repeated (body : Expr) (least : Nat) (most : Option Nat) (manner : Manner)
  | look (positive ahead : Bool) (body : Expr)
  | atomic (body : Expr)
  | again (number : Nat)
  | given (number : Nat) (yes no : Expr)
deriving Repr, DecidableEq

namespace Expr

/-- Written patterns one after the other. -/
def all : List Expr → Expr
  | [] => .empty
  | [e] => e
  | e :: es => .seq e (all es)

/-! ### Alternatives -/

/-- Whether a written pattern is one step, so that it may be shared between alternatives. -/
def isStep : Expr → Bool
  | .char _ | .notChar _ | .any | .set .. | .anchor _ | .again _ => true
  | _ => false

/-- The steps that a sequence and some others start with in common, and what is left of each. -/
def shareStart : List Expr → List (List Expr) → List Expr × List (List Expr)
  | [], others => ([], [] :: others)
  | e :: es, others =>
    if e.isStep && others.all (·.head? == some e) then
      let (shared, rests) := shareStart es (others.map List.tail)
      (e :: shared, rests)
    else ([], (e :: es) :: others)

/-- The parts of the set that a sequence of one character stands for. -/
def setItems? : List Expr → Option (List ClassItem)
  | [.char c] => some [.char c]
  | [.set false items] => some items
  | _ => none

/-- A choice between sequences.  A last sequence that is a choice itself is set apart by an empty
text. -/
def choose : List (List Expr) → Expr
  | [] => .empty
  | [[.choice left right]] => .seq .empty (.choice left right)
  | [es] => all es
  | es :: rest => .choice (all es) (choose rest)

/-- The sequence that stands for a choice between sequences. -/
def alternatives : List (List Expr) → List Expr
  | [] => []
  | [es] => es
  | es :: others =>
    let (shared, rests) := shareStart es others
    let choice := match rests.mapM setItems? with
      | some items => .set false items.flatten.eraseDups
      | none => choose rests
    shared ++ [choice]

/-! ### Widths -/

/-- How many characters a pattern may take. -/
structure Width where
  least : Nat
  most : Nat
deriving Repr, DecidableEq

namespace Width

/-- Widths are counted up to here. -/
def limit : Nat := Nat.pow 2 64

/-- A width within the limit. -/
def upTo (least most : Nat) : Width := ⟨min least limit, min most limit⟩

/-- One width after the other. -/
def add (v w : Width) : Width := upTo (v.least + w.least) (v.most + w.most)

/-- Either width. -/
def either (v w : Width) : Width := ⟨min v.least w.least, max v.most w.most⟩

/-- The width of several rounds. -/
def times (w : Width) (least : Nat) (most : Option Nat) : Width :=
  let upper := match most with
    | some m => w.most * m
    | none => if w.most == 0 then 0 else limit
  upTo (w.least * least) upper

end Width

/-- The width of a written pattern, where the widths of the captured parts are known. -/
def width (known : Nat → Width) : Expr → Width
  | .empty | .anchor _ | .look .. => ⟨0, 0⟩
  | .char _ | .notChar _ | .any | .set .. => ⟨1, 1⟩
  | .seq p q => (p.width known).add (q.width known)
  | .choice p q => (p.width known).either (q.width known)
  | .capture _ p | .scope _ _ p | .atomic p => p.width known
  | .repeated p least most _ => (p.width known).times least most
  | .again number => known number
  | .given _ yes no => (yes.width known).either (no.width known)

/-! ### Meaning -/

/-- The widest look back. -/
def lookBackLimit : Nat := Nat.pow 2 32 - 1

/-- The kind of a repetition. -/
def kindOfRepeat : Manner → String
  | .greedy => "MAX_REPEAT"
  | .lazy => "MIN_REPEAT"
  | .possessive | .marked => "POSSESSIVE_REPEAT"

/-- How far a look goes back. -/
def lookBack (ahead : Bool) (w : Width) : Except Fault Nat :=
  if ahead then .ok 0
  else if lookBackLimit < w.least then .error (.overall .excessiveWidth)
  else if w.least != w.most then .error (.overall .varyingWidth)
  else .ok w.least

/-- The pattern that a written pattern denotes under flags. -/
def pattern (known : Nat → Width) : List Flag → Expr → Except Fault Pattern
  | _, .empty => return .empty
  | flags, .char c => return .one (CharClass.under flags ⟨false, [.char c]⟩)
  | flags, .notChar c => return .one (CharClass.under flags ⟨true, [.char c]⟩)
  | flags, .any => return if flags.contains .dotAll then anyChar else notNewline
  | flags, .set negated items => return .one (CharClass.under flags ⟨negated, items⟩)
  | flags, .anchor place => return .anchor (place.under flags)
  | flags, .seq p q => return .seq (← p.pattern known flags) (← q.pattern known flags)
  | flags, .choice p q => return .alt (← p.pattern known flags) (← q.pattern known flags)
  | flags, .capture number p => return .capture (.number number) (← p.pattern known flags)
  | flags, .scope on off p => p.pattern known (Flag.within flags on off)
  | flags, .repeated p least most manner => do
    if flags.contains .template then
      throw (.overall (.repeatInTemplate (kindOfRepeat manner)))
    return rounds least most manner (← p.pattern known flags)
  | flags, .look positive ahead p => do
    let back ← lookBack ahead (p.width known)
    return .look positive back (← p.pattern known flags)
  | flags, .atomic p => return .atomic (← p.pattern known flags)
  | flags, .again number =>
    let letters := if flags.contains .anyCase then some (Flag.alphabet flags) else none
    return .again (.number number) letters
  | flags, .given number yes no =>
    return .given (.number number) (← yes.pattern known flags) (← no.pattern known flags)

end Expr

end Marginalia.Pattern
