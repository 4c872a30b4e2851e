import Marginalia.Pattern.Expr

/-!
# Reading pattern texts

A pattern text is read from left to right, one token at a time.  A token is one character, or a
backslash with the character behind it; a backslash at the very end is a fault as soon as it comes
next.

## Main definitions

* `Pattern.Token`, `Pattern.tokens` — the tokens of a text.
* `Pattern.Reading` — the state of a reader.
* `Pattern.Reader` — readers, with the first fault as an error.
-/

namespace Marginalia.Pattern

/-! ## Tokens -/

/-- A token with its position. -/
structure Token where
  text : List Char
  position : Nat
deriving Repr, DecidableEq

/-- The tokens of a text that starts at a position. -/
def tokens : Nat → List Char → List Token
  | _, [] => []
  | position, '\\' :: c :: cs => ⟨['\\', c], position⟩ :: tokens (position + 2) cs
  | position, c :: cs => ⟨[c], position⟩ :: tokens (position + 1) cs

/-- What a reader knows. -/
structure Reading where
  /-- The tokens still to come. -/
  rest : List Token
  /-- The position behind the last token. -/
  length : Nat
  /-- How many groups were opened. -/
  groups : Nat
  /-- The names of groups. -/
  names : List (String × Nat)
  /-- The widths of the groups that are closed, the latest first. -/
  widths : List (Nat × Expr.Width)
  /-- The flags of the whole pattern. -/
  flags : List Flag
  /-- Inside a look back, how many groups there were before it. -/
  lookBack : Option Nat
  /-- The groups on which conditions depend, with the positions where they are named first. -/
  conditions : List (Nat × Nat)
deriving Repr, DecidableEq

namespace Reading

/-- Whether a group is closed. -/
def closed (state : Reading) (number : Nat) : Bool := (state.widths.lookup number).isSome

/-- The width of a closed group. -/
def widthOf (state : Reading) (number : Nat) : Expr.Width :=
  (state.widths.lookup number).getD ⟨0, 0⟩

end Reading

/-- Reading with faults. -/
abbrev Reader := StateT Reading (Except Fault)

namespace Reader

/-- Stops with a fault. -/
def fail {α : Type} (reason : FaultReason) (position : Nat) : Reader α :=
  throw (.at reason position)

/-- The next token. -/
def peek : Reader (Option (List Char)) := do
  return (← get).rest.head?.map Token.text

/-- The position of the next token. -/
def position : Reader Nat := do
  let state ← get
  return match state.rest with
    | token :: _ => token.position
    | [] => state.length

/-- Stops if the next token is a backslash with nothing behind it. -/
def checkNext : Reader Unit := do
  match (← get).rest with
  | ⟨['\\'], at_⟩ :: _ => fail .escapeAtEnd at_
  | _ => return ()

/-- Passes over the next token. -/
def advance : Reader Unit := do
  modify fun state => { state with rest := state.rest.tail }
  checkNext

/-- Takes the next token. -/
def next : Reader (Option (List Char)) := do
  let token ← peek
  advance
  return token

/-- Passes over the next token if it is the character `c`. -/
def accept (c : Char) : Reader Bool := do
  if (← peek) == some [c] then
    advance
    return true
  else return false

/-- Takes up to `n` single characters that satisfy `p`. -/
def takeWhile (p : Char → Bool) : Nat → Reader (List Char)
  | 0 => return []
  | n + 1 => do
    match (← peek) with
    | some [c] =>
      if p c then
        advance
        return c :: (← takeWhile p n)
      else return []
    | _ => return []

/-- Takes a name up to the character `closer`; without a name, `missing` is the fault. -/
def takeName (closer : Char) (missing : FaultReason) : Nat → List Char → Reader (List Char)
  | 0, taken => return taken
  | n + 1, taken => do
    match (← next) with
    | none =>
      let here ← position
      if taken.isEmpty then fail missing here
      else fail (.unclosedName (String.ofList [closer])) (here - taken.length)
    | some token =>
      if token == [closer] then
        if taken.isEmpty then fail missing ((← position) - 1)
        else return taken
      else takeName closer missing n (taken ++ token)

end Reader

end Marginalia.Pattern
