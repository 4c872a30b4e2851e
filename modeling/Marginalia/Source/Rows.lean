import Marginalia.Position
import Marginalia.Source.Error
import Marginalia.Text.Blank
import Marginalia.Text.Slice
import Marginalia.Text.Split
import Marginalia.Text.Utf8

/-!
# Rows of a source

A parser gives places as points: a row, counted from zero, and a column in bytes.  Positions count
columns in characters, so a point is converted by decoding its row up to the column.

## Main definitions

* `Point` — a row and a byte column.
* `sourceLines` — the decoded lines of a source.
* `SourceRows`, `SourceRows.ofBytes` — the rows of a source.
* `SourceRows.convert` — the position of a point.
-/

namespace Marginalia

/-- A row and a byte column, both from zero. -/
structure Point where
  row : Int
  column : Int
deriving Repr, DecidableEq, Inhabited

/-- The line break, as a byte. -/
def newlineByte : UInt8 := 10

/-- The decoded lines of a source, without line breaks and without carriage returns at their
ends. -/
def sourceLines (bytes : Bytes) : List String :=
  (Text.splitAt '\n' (Utf8.decode bytes)).map fun line =>
    String.ofList (Text.dropEndWhile (· == '\r') line)

/-- The rows of a source, as bytes. -/
structure SourceRows where
  rows : Array Bytes
deriving Repr, DecidableEq, Inhabited

namespace SourceRows

/-- The rows between the line breaks of a source. -/
def ofBytes (bytes : Bytes) : SourceRows := ⟨(Text.splitAt newlineByte bytes).toArray⟩

/-- Whether a row holds ASCII only. -/
def isAscii (row : Bytes) : Bool := row.all fun b => decide (b < 0x80)

/-- The number of characters in the first `column` bytes of a row. -/
def charColumn (row : Bytes) (column : Int) : Int :=
  if isAscii row then column else (Utf8.decode (Text.sliceTo row column)).length

/-- The position of a point.  A negative row counts from the end, and below the last row the column
stays as it is. -/
def convert (s : SourceRows) (point : Point) : Except SourceError Position :=
  if (s.rows.size : Int) ≤ point.row then .ok ⟨point.row + 1, point.column⟩
  else
    match Text.signedIndex s.rows.size point.row with
    | .ok index => .ok ⟨point.row + 1, charColumn (s.rows.getD index []) point.column⟩
    | .error fault => .error (.row fault)

end SourceRows

end Marginalia
