import Marginalia.Pattern.Group

/-!
# Reading patterns

A pattern is a choice between sequences of items, each of which may be repeated.

    pattern  ::= sequence ('|' sequence)*
    sequence ::= (item quantifier?)*
    item     ::= character | '.' | '^' | '$' | escape | set | '(' group ')'

A group that is neither captured nor given flags is no item of its own: a quantifier behind it
repeats all its items, and otherwise they belong to the sequence around it.

## Main definitions

* `Pattern.Item` — an item of a sequence.
* `Pattern.readBounds`, `Pattern.repeatLast` — quantifiers.
* `Pattern.readAlternatives`, `Pattern.readSequence`, `Pattern.readGroup` — the grammar.
* `Pattern.parse` — the pattern of a text, or its first fault.
-/

namespace Marginalia.Pattern

open Reader

/-! ## Quantifiers -/

/-- The largest number of rounds that may be asked for. -/
def roundLimit : Nat := 4294967295

/-- The number of rounds that a list of digits denotes. -/
def boundOf (digits : List Char) : Reader Nat := do
  if Text.digitLimit < digits.length then throw (.refused (.digits digits.length))
  else
    let bound := numberOf 10 digits
    if roundLimit ≤ bound then throw (.refused .rounds) else return bound

/-- The bounds behind an opening brace; `none` if what follows is no pair of bounds. -/
def readBounds (fuel : Nat) : Reader (Option (Nat × Option Nat)) := do
  let start ← position
  let lo ← takeWhile Char.isDigit fuel
  let hi ← if (← accept ',') then takeWhile Char.isDigit fuel else pure lo
  if !(← accept '}') then return none
  else
    let least ← boundOf lo
    if hi.isEmpty then return some (least, none)
    else
      let most ← boundOf hi
      if most < least then fail .leastAboveMost start
      else return some (least, some most)

/-- What a quantifier may follow. -/
inductive Repeatable where
  | yes
  | anchor
  | repeated
deriving Repr, DecidableEq

/-- An item of a sequence, with its parts, and whether a quantifier may follow it. -/
structure Item where
  parts : List Expr
  repeatable : Repeatable
deriving Repr, DecidableEq

/-- An item of one part that a quantifier may follow. -/
def Item.of (e : Expr) : Item := ⟨[e], .yes⟩

/-- The sequence of some items, which are given latest first. -/
def Item.sequence (items : List Item) : List Expr := items.reverse.flatMap Item.parts

/-- Applies a quantifier, which starts at `start`, to the last of the items. -/
def repeatLast (start least : Nat) (most : Option Nat) : List Item → Reader (List Item)
  | [] => fail .nothingToRepeat start
  | ⟨_, .anchor⟩ :: _ => fail .nothingToRepeat start
  | ⟨_, .repeated⟩ :: _ => fail .multipleRepeat start
  | ⟨parts, .yes⟩ :: items => do
    let repeated (manner : Manner) : List Item :=
      ⟨[.repeated (Expr.all parts) least most manner], .repeated⟩ :: items
    if (← accept '?') then return repeated .lazy
    else if (← accept '+') then return repeated .possessive
    else return repeated .greedy

/-! ## Sequences and alternatives -/

/-- An escape outside a set, of which the token was just taken. -/
def readEscape (c : Char) : Reader Item := do
  match anchorEscape? c, categoryEscape? c, controlEscape? c, hexWidth? c with
  | some place, _, _, _ => return ⟨[.anchor place], .anchor⟩
  | none, some item, _, _ => return .of (.set false [item])
  | none, none, some control, _ => return .of (.char control)
  | none, none, none, some width => return .of (.char (← hexEscape c width))
  | none, none, none, none =>
    if c == 'N' then return .of (.char (← nameEscape))
    else if c == '0' then
      let more ← takeWhile isOctal 2
      return .of (.char (← octalChar ('0' :: more)))
    else if c.isDigit then return .of (← digitEscape c)
    else return .of (.char (← plainEscape c))

/-- How a sequence is read. -/
structure Mode where
  /-- Blanks and remarks do not count. -/
  spaced : Bool
  /-- The sequence starts the whole pattern. -/
  initial : Bool
deriving Repr, DecidableEq

/-- Whether a token does not count where blanks do not. -/
def isSpacing (token : List Char) : Bool :=
  [[' '], ['\t'], ['\n'], ['\r'], ['\x0b'], ['\x0c']].contains token

/-- Passes over the rest of a line. -/
def skipLine : Nat → Reader Unit
  | 0 => return ()
  | fuel + 1 => do
    match (← next) with
    | none | some ['\n'] => return ()
    | some _ => skipLine fuel

/-- Marks the start of a look back, unless it lies inside another; gives back what was known. -/
def enterLookBack : Reader (Option Nat) := do
  let state ← get
  set { state with lookBack := some (state.lookBack.getD state.groups) }
  return state.lookBack

mutual

/-- Reads alternatives up to a closing parenthesis or the end. -/
def readAlternatives : Nat → Mode → Reader (List (List Expr))
  | 0, _ => return []
  | fuel + 1, mode => do
    let left ← readSequence fuel mode []
    if (← accept '|') then
      let flags := (← get).flags
      let spaced := if mode.initial then flags.contains .spaced else mode.spaced
      return left :: (← readAlternatives fuel ⟨spaced, false⟩)
    else return [left]

/-- Reads the rest of a sequence, with the items read so far, latest first. -/
def readSequence : Nat → Mode → List Item → Reader (List Expr)
  | 0, _, items => return Item.sequence items
  | fuel + 1, mode, items => do
    match (← peek) with
    | none | some ['|'] | some [')'] => return Item.sequence items
    | some token =>
      let start ← position
      advance
      if mode.spaced && isSpacing token then readSequence fuel mode items
      else if mode.spaced && token == ['#'] then
        skipLine fuel
        readSequence fuel mode items
      else
        match token with
        | ['\\', c] => readSequence fuel mode ((← readEscape c) :: items)
        | ['['] =>
          let negated ← accept '^'
          let set ← readSet start fuel []
          readSequence fuel mode (.of (setOf negated set.reverse) :: items)
        | ['*'] => readSequence fuel mode (← repeatLast start 0 none items)
        | ['+'] => readSequence fuel mode (← repeatLast start 1 none items)
        | ['?'] => readSequence fuel mode (← repeatLast start 0 (some 1) items)
        | ['\x7b'] =>
          let literal : List Item := .of (.char '\x7b') :: items
          if (← peek) == some ['\x7d'] then readSequence fuel mode literal
          else
            let before := (← get).rest
            match (← readBounds fuel) with
            | some (least, most) => readSequence fuel mode (← repeatLast start least most items)
            | none =>
              modify fun state => { state with rest := before }
              readSequence fuel mode literal
        | ['.'] => readSequence fuel mode (.of .any :: items)
        | ['^'] => readSequence fuel mode (⟨[.anchor .lineStart], .anchor⟩ :: items)
        | ['$'] => readSequence fuel mode (⟨[.anchor .lineEnd], .anchor⟩ :: items)
        | ['('] =>
          match (← readOpening start fuel) with
          | .remark => readSequence fuel mode items
          | .backReference number => readSequence fuel mode (.of (.again number) :: items)
          | .flags (.whole on) =>
            if !mode.initial || !items.isEmpty then fail .lateFlags start
            else
              modify fun state => { state with flags := state.flags ++ on }
              let spaced := (← get).flags.contains .spaced
              readSequence fuel { mode with spaced := spaced } items
          | opening =>
            let item ← readGroup fuel mode.spaced opening
            if !(← accept ')') then fail .unclosedGroup start
            else readSequence fuel mode (item :: items)
        | c :: _ => readSequence fuel mode (.of (.char c) :: items)
        | [] => readSequence fuel mode items

/-- Reads the content of a group up to its closing parenthesis. -/
def readGroup : Nat → Bool → Opening → Reader Item
  | 0, _, _ => return .of .empty
  | fuel + 1, spaced, opening => do
    match opening with
    | .captured number =>
      let body := Expr.all (← readBody fuel spaced)
      closeGroup number body
      return .of (.capture number body)
    | .atomic => return .of (.atomic (Expr.all (← readBody fuel spaced)))
    | .look positive true => return .of (.look positive true (Expr.all (← readBody fuel spaced)))
    | .look positive false =>
      let outer ← enterLookBack
      let body ← readBody fuel spaced
      modify fun state => { state with lookBack := outer }
      return .of (.look positive false (Expr.all body))
    | .condition number =>
      let yes ← readSequence fuel ⟨spaced, false⟩ []
      if (← accept '|') then
        let no ← readSequence fuel ⟨spaced, false⟩ []
        if (← peek) == some ['|'] then fail .thirdBranch (← position)
        else return .of (.given number (Expr.all yes) (Expr.all no))
      else return .of (.given number (Expr.all yes) .empty)
    | .flags (.group on off) =>
      let inner := (spaced || on.contains .spaced) && !off.contains .spaced
      return .of (.scope on off (Expr.all (← readBody fuel inner)))
    | _ => return ⟨← readBody fuel spaced, .yes⟩

/-- Reads the alternatives in a group, as one sequence. -/
def readBody : Nat → Bool → Reader (List Expr)
  | 0, _ => return []
  | fuel + 1, spaced => return Expr.alternatives (← readAlternatives fuel ⟨spaced, false⟩)

end

/-- Reads a whole text. -/
def readAll (fuel : Nat) : Reader Pattern := do
  checkNext
  let body := Expr.all (Expr.alternatives (← readAlternatives fuel ⟨false, true⟩))
  let state ← get
  if state.flags.contains .ascii && state.flags.contains .everyScript then
    throw (.refused .alphabets)
  else if (← peek).isSome then fail .unbalancedParenthesis (← position)
  else
    match state.conditions.find? fun (number, _) => decide (state.groups < number) with
    | some (number, start) => fail (.unknownNumber number) start
    | none => body.pattern state.widthOf state.flags

/-- The pattern that a text denotes, or its first fault. -/
def parse (text : String) : Except Fault Pattern :=
  let cs := text.toList
  let start : Reading := ⟨tokens 0 cs, cs.length, 0, [], [], [], none, []⟩
  ((readAll (4 * cs.length + 4)).run start).map Prod.fst

end Marginalia.Pattern
