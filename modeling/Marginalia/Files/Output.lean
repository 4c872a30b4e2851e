import Marginalia.Text.Utf8

/-!
# Output in blocks

Pieces that are written to a file one after the other do not reach it at once.  They are gathered
until there are enough of them, and what was gathered waits in a block until that is full.  Whoever
reads the file meanwhile sees only what has arrived; in the end everything arrives.

## Main definitions

* `Output` — what was written, by how far it has come.
* `Output.passOn` — moves what was gathered on.
* `Output.write`, `Output.ofPieces` — writes pieces.
-/

namespace Marginalia

/-- What was written to a file, by how far it has come. -/
structure Output where
  /-- What the file holds. -/
  arrived : Bytes
  /-- What waits until the block is full. -/
  block : Bytes
  /-- What waits until enough is gathered. -/
  gathered : Bytes
deriving Repr, DecidableEq, Inhabited

namespace Output

/-- How many bytes are gathered. -/
def gatherSize : Nat := 8192

/-- How many bytes a block holds. -/
def blockSize : Nat := 4096

/-- Nothing is written yet. -/
def empty : Output := ⟨[], [], []⟩

/-- Moves what was gathered into the block.  If there is no room for it, the block arrives first,
and what is larger than a block arrives, too. -/
def passOn (o : Output) : Output :=
  if o.block.length + o.gathered.length ≤ blockSize then ⟨o.arrived, o.block ++ o.gathered, []⟩
  else if o.gathered.length ≤ blockSize then ⟨o.arrived ++ o.block, o.gathered, []⟩
  else ⟨o.arrived ++ o.block ++ o.gathered, [], []⟩

/-- Makes room for `n` more bytes among what is gathered. -/
def makeRoom (o : Output) (n : Nat) : Output :=
  if o.gathered.length + n ≤ gatherSize then o else o.passOn

/-- Gathers a piece. -/
def gather (o : Output) (piece : Bytes) : Output := { o with gathered := o.gathered ++ piece }

/-- Moves what was gathered on, if that is enough. -/
def settle (o : Output) : Output := if o.gathered.length < gatherSize then o else o.passOn

/-- Writes a piece. -/
def write (o : Output) (piece : Bytes) : Output := ((o.makeRoom piece.length).gather piece).settle

/-- The output after some pieces. -/
def ofPieces (pieces : List Bytes) : Output := pieces.foldl write empty

end Output

end Marginalia
