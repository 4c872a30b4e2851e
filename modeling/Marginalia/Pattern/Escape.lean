import Marginalia.Pattern.Token
import Marginalia.Text.CharName

/-!
# Escapes and sets

A backslash gives the character behind it another meaning: a control character, a category, a
place, a character by its code or its name, or a group that was captured before.  Between brackets
stands a set of characters.

## Main definitions

* `Pattern.setEscape` — an escape inside a set.
* `Pattern.digitEscape` — an octal code, or the number of a group.
* `Pattern.readSet` — the items of a set.
-/

namespace Marginalia.Pattern

open Reader

/-! ## Escapes -/

/-- Whether a character is a digit of an octal number. -/
def isOctal (c : Char) : Bool := decide ('0' ≤ c) && decide (c ≤ '7')

/-- Whether a character is a hexadecimal digit. -/
def isHex (c : Char) : Bool :=
  c.isDigit || (decide ('a' ≤ c) && decide (c ≤ 'f')) || (decide ('A' ≤ c) && decide (c ≤ 'F'))

/-- The value of a hexadecimal digit. -/
def hexValue (c : Char) : Nat :=
  if c.isDigit then c.toNat - 48
  else if decide ('a' ≤ c) then c.toNat - 87
  else c.toNat - 55

/-- The number that a list of digits denotes in a base. -/
def numberOf (base : Nat) (digits : List Char) : Nat :=
  digits.foldl (fun n c => base * n + hexValue c) 0

/-- The control character that an escape letter stands for. -/
def controlEscape? : Char → Option Char
  | 'a' => some '\x07'
  | 'b' => some '\x08'
  | 'f' => some '\x0c'
  | 'n' => some '\n'
  | 'r' => some '\r'
  | 't' => some '\t'
  | 'v' => some '\x0b'
  | '\\' => some '\\'
  | _ => none

/-- The category that an escape letter stands for. -/
def categoryEscape? : Char → Option ClassItem
  | 'd' => some (.category .digit false)
  | 'D' => some (.category .digit true)
  | 's' => some (.category .blank false)
  | 'S' => some (.category .blank true)
  | 'w' => some (.category .word false)
  | 'W' => some (.category .word true)
  | _ => none

/-- The place that an escape letter stands for. -/
def anchorEscape? : Char → Option Anchor
  | 'A' => some .textStart
  | 'Z' => some .textEnd
  | 'b' => some (.wordEdge .full)
  | 'B' => some (.notWordEdge .full)
  | _ => none

/-- How many hexadecimal digits follow an escape letter. -/
def hexWidth? : Char → Option Nat
  | 'x' => some 2
  | 'u' => some 4
  | 'U' => some 8
  | _ => none

/-- An escape of one character by its code, in `width` hexadecimal digits. -/
def hexEscape (letter : Char) (width : Nat) : Reader Char := do
  let digits ← takeWhile isHex width
  let escape := '\\' :: letter :: digits
  let start := (← position) - escape.length
  if digits.length != width then fail (.incompleteEscape (String.ofList escape)) start
  else
    let code := numberOf 16 digits
    if code < 0x110000 then return Char.ofNat code
    else fail (.badEscape (String.ofList escape)) start

/-- An escape of one character by its name, in braces. -/
def nameEscape : Reader Char := do
  if !(← accept '\x7b') then fail .missingBrace (← position)
  else
    let name ← takeName '\x7d' .missingCharacterName ((← get).rest.length + 1) []
    match Text.charNamed? name with
    | some c => return c
    | none => fail (.unknownCharacter (String.ofList name)) ((← position) - (name.length + 4))

/-- The character of an octal escape. -/
def octalChar (digits : List Char) : Reader Char := do
  let code := numberOf 8 digits
  if code ≤ 0o377 then return Char.ofNat code
  else
    let escape := '\\' :: digits
    fail (.octalOutOfRange (String.ofList escape)) ((← position) - escape.length)

/-- An escape that stands for one character that is neither a letter nor a digit. -/
def plainEscape (c : Char) : Reader Char := do
  if c.isAlpha || c.isDigit then
    fail (.badEscape (String.ofList ['\\', c])) ((← position) - 2)
  else return c

/-- An escape inside a set, of which the token was just taken. -/
def setEscape (c : Char) : Reader ClassItem := do
  match controlEscape? c, categoryEscape? c, hexWidth? c with
  | some control, _, _ => return .char control
  | none, some item, _ => return item
  | none, none, some width => return .char (← hexEscape c width)
  | none, none, none =>
    if c == 'N' then return .char (← nameEscape)
    else if isOctal c then
      let more ← takeWhile isOctal 2
      return .char (← octalChar (c :: more))
    else return .char (← plainEscape c)

/-- Stops if, inside a look back, a group is referred to that is not closed before it. -/
def checkLookBack (number : Nat) : Reader Unit := do
  let state ← get
  match state.lookBack with
  | none => return ()
  | some before =>
    if !state.closed number then fail .openGroup (← position)
    else if before < number then fail .groupOfLookBack (← position)
    else return ()

/-- A group referred to by its number. -/
def numberedGroup (digits : List Char) : Reader Expr := do
  let state ← get
  let number := numberOf 10 digits
  let here ← position
  if state.groups < number then fail (.unknownNumber number) (here - digits.length)
  else if !state.closed number then fail .openGroup (here - (digits.length + 1))
  else
    checkLookBack number
    return .again number

/-- An escape that starts with a digit other than zero: three octal digits, or the number of a
group. -/
def digitEscape (c : Char) : Reader Expr := do
  match (← takeWhile Char.isDigit 1) with
  | [d] =>
    if isOctal c && isOctal d then
      match (← takeWhile isOctal 1) with
      | [e] => return .char (← octalChar [c, d, e])
      | _ => numberedGroup [c, d]
    else numberedGroup [c, d]
  | _ => numberedGroup [c]

/-! ## Sets -/

/-- The item that a token stands for inside a set. -/
def setItem : List Char → Reader ClassItem
  | ['\\', c] => setEscape c
  | c :: _ => return .char c
  | [] => return .char ' '

/-- The rest of a set that was opened at `start`, with the items read so far, latest first. -/
def readSet (start : Nat) : Nat → List ClassItem → Reader (List ClassItem)
  | 0, items => return items
  | fuel + 1, items => do
    let some this ← next | fail .unclosedSet start
    if this == [']'] && !items.isEmpty then return items
    else
      let item ← setItem this
      if (← accept '-') then
        let some that ← next | fail .unclosedSet start
        if that == [']'] then return .char '-' :: item :: items
        else
          let upper ← setItem that
          let badRange : Reader (List ClassItem) := do
            fail (.badRange (String.ofList this) (String.ofList that))
              ((← position) - (this.length + 1 + that.length))
          match item, upper with
          | .char lo, .char hi =>
            if hi < lo then badRange else readSet start fuel (.range lo hi :: items)
          | _, _ => badRange
      else readSet start fuel (item :: items)

/-- The set of some items. -/
def setOf (negated : Bool) (items : List ClassItem) : Expr :=
  match negated, items.eraseDups with
  | false, [.char c] => .char c
  | true, [.char c] => .notChar c
  | _, distinct => .set negated distinct

end Marginalia.Pattern
