import Marginalia.Pattern.Token
import Marginalia.Pattern.Escape
import Marginalia.Text.Identifier

/-!
# How groups begin

Behind an opening parenthesis and a question mark stands what kind of group it is: whether it is
captured and by which name, looks ahead or back, depends on another group, or has flags.

## Main definitions

* `Pattern.Reach`, `Pattern.readReach` — flags, and what they apply to.
* `Pattern.Opening`, `Pattern.readOpening` — the beginnings of groups.
* `Pattern.openGroup`, `Pattern.closeGroup` — the bookkeeping of captured groups.
-/

namespace Marginalia.Pattern

open Reader

/-! ## Flags -/

/-- Takes the next token of a list of flags: a flag, or one of the characters `ends`. -/
def nextFlag (ends : List Char) (missing : FaultReason) : Reader (Char ⊕ Flag) := do
  match (← next) with
  | none => fail missing (← position)
  | some token =>
    match token with
    | [c] =>
      if ends.contains c then return .inl c
      else
        match Flag.ofLetter? c with
        | some flag => return .inr flag
        | none => fail (if Text.isLetter c then .unknownFlag else missing) ((← position) - 1)
    | _ => fail missing ((← position) - token.length)

/-- Reads the flags that are turned on, of which `flag` was just taken, with the character behind
them. -/
def readOn : Nat → List Flag → Flag → Reader (List Flag × Char)
  | 0, on, _ => return (on, ')')
  | fuel + 1, on, flag => do
    if flag == .locale then fail .localeFlag (← position)
    else if flag.choosesLetters && on.any (fun other => other.choosesLetters && other != flag) then
      fail .alphabetFlags (← position)
    else
      match (← nextFlag [')', '-', ':'] .missingFlagEnd) with
      | .inl c => return (flag :: on, c)
      | .inr other => readOn fuel (flag :: on) other

/-- Reads the flags that are turned off, of which `flag` was just taken, up to a colon. -/
def readOff : Nat → List Flag → Flag → Reader (List Flag)
  | 0, off, _ => return off
  | fuel + 1, off, flag => do
    if flag.choosesLetters then fail .alphabetOff (← position)
    else
      match (← nextFlag [':'] .missingColon) with
      | .inl _ => return flag :: off
      | .inr other => readOff fuel (flag :: off) other

/-- What some flags apply to. -/
inductive Reach where
  /-- The whole pattern. -/
  | whole (on : List Flag)
  /-- One group. -/
  | group (on off : List Flag)
deriving Repr, DecidableEq

/-- Reads flags up to the end of their group or up to the colon before its content.  Here `on` was
read, and then the character `c`. -/
def readReach (fuel : Nat) (on : List Flag) (c : Char) : Reader Reach := do
  if c == ')' then return .whole on
  else if on.contains .template then fail .wholeFlagOn ((← position) - 1)
  else
    let off ← if c == '-' then
        match (← nextFlag [] .missingFlag) with
        | .inr flag => readOff fuel [] flag
        | .inl _ => pure []
      else pure []
    if off.contains .template then fail .wholeFlagOff ((← position) - 1)
    else if on.any off.contains then fail .flagOnAndOff ((← position) - 1)
    else return .group on off

/-! ## Groups -/

/-- Opens a group and gives its number. -/
def openGroup (name : Option String) : Reader Nat := do
  let state ← get
  let number := state.groups + 1
  match name with
  | none => set { state with groups := number }
  | some s =>
    match state.names.lookup s with
    | some earlier => fail (.repeatedName s number earlier) ((← position) - (s.length + 1))
    | none => set { state with groups := number, names := (s, number) :: state.names }
  return number

/-- Closes a group with a given content. -/
def closeGroup (number : Nat) (body : Expr) : Reader Unit :=
  modify fun state =>
    { state with widths := (number, body.width state.widthOf) :: state.widths }

/-- How a group begins. -/
inductive Opening where
  | captured (number : Nat)
  | plain
  | atomic
  | look (positive ahead : Bool)
  | backReference (number : Nat)
  | condition (number : Nat)
  | flags (reach : Reach)
  | remark
deriving Repr, DecidableEq

/-- A name that may be given to a group. -/
def checkedName (closer : Char) (fuel : Nat) : Reader String := do
  let name ← takeName closer .missingName fuel []
  if Text.isIdentifier name then return String.ofList name
  else fail (.badName (String.ofList name)) ((← position) - (name.length + 1))

/-- The number of a group with a name that was just taken. -/
def groupNamed (name : String) : Reader Nat := do
  match (← get).names.lookup name with
  | some number => return number
  | none => fail (.unknownName name) ((← position) - (name.length + 1))

/-- There are fewer groups than this. -/
def groupLimit : Nat := 1073741823

/-- The group on which a condition depends, by its name or number. -/
def readCondition (fuel : Nat) : Reader Nat := do
  let name ← takeName ')' .missingName fuel []
  let start := (← position) - (name.length + 1)
  let number ←
    if Text.isIdentifier name then groupNamed (String.ofList name)
    else
      match Text.integer? Text.digitLimit name with
      | none | some (.negSucc _) => fail (.badName (String.ofList name)) start
      | some (.ofNat 0) => fail .groupZero start
      | some (.ofNat number) =>
        if groupLimit ≤ number then fail (.unknownNumber number) start
        else
          modify fun state => { state with conditions := state.conditions ++ [(number, start)] }
          pure number
  checkLookBack number
  return number

/-- Passes over a remark up to its closing parenthesis. -/
def skipRemark (start : Nat) : Nat → Reader Unit
  | 0 => return ()
  | fuel + 1 => do
    match (← peek) with
    | none => fail .unclosedRemark start
    | some token =>
      advance
      if token == [')'] then return () else skipRemark start fuel

/-- Reads what follows `(?P`. -/
def readNamed (fuel : Nat) : Reader Opening := do
  if (← accept '<') then
    let name ← checkedName '>' fuel
    return .captured (← openGroup (some name))
  else if (← accept '=') then
    let name ← checkedName ')' fuel
    let number ← groupNamed name
    if !(← get).closed number then fail .openGroup ((← position) - (name.length + 1))
    else
      checkLookBack number
      return .backReference number
  else
    match (← next) with
    | none => fail .unexpectedEnd (← position)
    | some token =>
      fail (.unknownExtension (String.ofList ('P' :: token))) ((← position) - (token.length + 2))

/-- Reads what follows `(?<`. -/
def readLookBack : Reader Opening := do
  match (← next) with
  | none => fail .unexpectedEnd (← position)
  | some ['='] => return .look true false
  | some ['!'] => return .look false false
  | some token =>
    fail (.unknownExtension (String.ofList ('<' :: token))) ((← position) - (token.length + 2))

/-- Reads what follows the opening parenthesis of a group at `start`. -/
def readOpening (start fuel : Nat) : Reader Opening := do
  if !(← accept '?') then return .captured (← openGroup none)
  else
    match (← next) with
    | none => fail .unexpectedEnd (← position)
    | some ['P'] => readNamed fuel
    | some [':'] => return .plain
    | some ['>'] => return .atomic
    | some ['='] => return .look true true
    | some ['!'] => return .look false true
    | some ['<'] => readLookBack
    | some ['('] => return .condition (← readCondition fuel)
    | some ['#'] =>
      skipRemark start fuel
      return .remark
    | some ['-'] => return .flags (← readReach fuel [] '-')
    | some token =>
      match token with
      | [c] =>
        match Flag.ofLetter? c with
        | some flag =>
          let (on, c) ← readOn fuel [] flag
          return .flags (← readReach fuel on c)
        | none => fail (.unknownExtension (String.ofList token)) ((← position) - 2)
      | _ => fail (.unknownExtension (String.ofList token)) ((← position) - (token.length + 1))

end Marginalia.Pattern
