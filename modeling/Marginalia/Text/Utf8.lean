import Marginalia.Text.Quoted

/-!
# UTF-8 with replacement

Bytes are decoded one at a time by a small machine.  It holds the sequence under way, if any: how
many bytes are still missing, the range in which the next byte must lie, and the bits read so far.
A byte outside the range ends the sequence, which is then written as one U+FFFD, and is read again
as a first byte; so each maximal part of an ill-formed sequence is replaced by one U+FFFD.

## Main definitions

* `Utf8.State`, `Utf8.step` — the machine.
* `Utf8.decode` — the text of a list of bytes.
* `Utf8.encode` — the bytes of a text.
* `Utf8.firstFault?` — the place and the byte of the first ill-formed sequence.
-/

namespace Marginalia

/-- Raw bytes of a file. -/
abbrev Bytes := List UInt8

namespace Utf8

/-- The character that stands for an ill-formed sequence. -/
def replacement : Char := '�'

/-- The sequence under way. -/
inductive State where
  /-- Between two characters. -/
  | fresh
  /-- `missing + 1` bytes are still to come, the next one between `lo` and `hi`, and `bits` holds
  the bits read so far. -/
  | pending (missing : Nat) (lo hi : UInt8) (bits : Nat)
deriving Repr, DecidableEq

/-- Reads a byte as the first byte of a character. -/
def stepFresh (b : UInt8) : List Char × State :=
  if b < 0x80 then ([Char.ofNat b.toNat], .fresh)
  else if b < 0xC2 then ([replacement], .fresh)
  else if b < 0xE0 then ([], .pending 0 0x80 0xBF (b.toNat - 0xC0))
  else if b < 0xF0 then
    let lo := if b == 0xE0 then 0xA0 else 0x80
    let hi := if b == 0xED then 0x9F else 0xBF
    ([], .pending 1 lo hi (b.toNat - 0xE0))
  else if b < 0xF5 then
    let lo := if b == 0xF0 then 0x90 else 0x80
    let hi := if b == 0xF4 then 0x8F else 0xBF
    ([], .pending 2 lo hi (b.toNat - 0xF0))
  else ([replacement], .fresh)

/-- Reads one byte: the characters it completes, and the sequence then under way. -/
def step : State → UInt8 → List Char × State
  | .fresh, b => stepFresh b
  | .pending missing lo hi bits, b =>
    if lo ≤ b ∧ b ≤ hi then
      let bits := bits * 64 + (b.toNat - 0x80)
      match missing with
      | 0 => ([Char.ofNat bits], .fresh)
      | missing + 1 => ([], .pending missing 0x80 0xBF bits)
    else
      let (text, state) := stepFresh b
      (replacement :: text, state)

/-- What is written for a sequence that the end of the bytes cuts off. -/
def finish : State → List Char
  | .fresh => []
  | .pending .. => [replacement]

/-- Decodes bytes, starting within the sequence `state`. -/
def decodeFrom : State → Bytes → List Char
  | state, [] => finish state
  | state, b :: bs => (step state b).1 ++ decodeFrom (step state b).2 bs

/-- The text of a list of bytes, with one U+FFFD for each maximal ill-formed part. -/
def decode (bytes : Bytes) : List Char := decodeFrom .fresh bytes

/-- The bytes of a text. -/
def encode (text : String) : Bytes := text.toUTF8.toList

/-- Why the bytes are not UTF-8. -/
inductive FaultReason where
  | invalidStart
  | invalidContinuation
  | unexpectedEnd
deriving Repr, DecidableEq

/-- The first ill-formed sequence of a list of bytes: its first byte, where it starts, where it
stops, and what is wrong with it. -/
structure Fault where
  byte : UInt8
  start : Nat
  stop : Nat
  reason : FaultReason
deriving Repr, DecidableEq

/-- The wording of a fault. -/
def Fault.message (f : Fault) : String :=
  let place :=
    if f.stop = f.start + 1 then
      let byte := String.ofList (Text.hexPadded 2 f.byte.toNat)
      "byte 0x" ++ byte ++ " in position " ++ toString f.start
    else "bytes in position " ++ toString f.start ++ "-" ++ toString (f.stop - 1)
  let reason := match f.reason with
    | .invalidStart => "invalid start byte"
    | .invalidContinuation => "invalid continuation byte"
    | .unexpectedEnd => "unexpected end of data"
  "'utf-8' codec can't decode " ++ place ++ ": " ++ reason

/-- Looks for the first ill-formed sequence, having read `pos` bytes, with the sequence `state`
under way since `lead`. -/
def faultFrom : State → UInt8 × Nat → Nat → Bytes → Option Fault
  | .fresh, _, _, [] => none
  | .pending .., (byte, start), pos, [] => some ⟨byte, start, pos, .unexpectedEnd⟩
  | .fresh, _, pos, b :: bs =>
    match stepFresh b with
    | (_, .pending m lo hi bits) => faultFrom (.pending m lo hi bits) (b, pos) (pos + 1) bs
    | (_, .fresh) =>
      if b < 0x80 then faultFrom .fresh (b, pos) (pos + 1) bs
      else some ⟨b, pos, pos + 1, .invalidStart⟩
  | .pending missing lo hi bits, (byte, start), pos, b :: bs =>
    if lo ≤ b ∧ b ≤ hi then
      faultFrom (step (.pending missing lo hi bits) b).2 (byte, start) (pos + 1) bs
    else some ⟨byte, start, pos, .invalidContinuation⟩

/-- The first ill-formed sequence of a list of bytes, if there is one. -/
def firstFault? (bytes : Bytes) : Option Fault := faultFrom .fresh (0, 0) 0 bytes

/-- Decoding reads one byte and goes on. -/
theorem decodeFrom_cons (state : State) (b : UInt8) (bs : Bytes) :
    decodeFrom state (b :: bs) = (step state b).1 ++ decodeFrom (step state b).2 bs := rfl

end Utf8

end Marginalia
