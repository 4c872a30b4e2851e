import Marginalia.Source.Record
import Marginalia.Source.Rows
import Marginalia.Proofs.Text.Breaks
import Marginalia.Proofs.Text.Encoding
import Marginalia.Proofs.Value.OneLine

/-!
# Each record on a line of its own

Linked comments are written one below the other.  No record holds a line break, so the rows of what
is written are the records, in order, and behind the last line break there is nothing.

## Main results

* `LinkEntry.splitAt_encode_lines` — the rows of the written records are the records.
* `LinkEntry.count_encode_lines` — there are as many line breaks as records.
-/

namespace Marginalia.LinkEntry

/-- The bytes of a record, without the line break behind it. -/
def row (e : LinkEntry) : Bytes := Utf8.encode (Json.line .minimal e.document)

/-- No entries are written as nothing. -/
lemma encode_lines_nil : Utf8.encode (lines []) = [] := by
  rw [Utf8.encode_eq]
  rfl

/-- The entries are written as the row of the first, a newline, and the rest. -/
lemma encode_lines_cons (e : LinkEntry) (entries : List LinkEntry) :
    Utf8.encode (lines (e :: entries)) = e.row ++ newlineByte :: Utf8.encode (lines entries) := by
  have hjoin : lines (e :: entries) = e.line ++ lines entries := by
    simp [lines]
  have hbreak : Utf8.encode "\n" = [newlineByte] := by
    rw [Utf8.encode_eq]
    rfl
  rw [hjoin, Utf8.encode_append, line, Utf8.encode_append, hbreak, List.append_assoc]
  rfl

/-- A row holds no newline. -/
lemma newline_not_mem_row (e : LinkEntry) : newlineByte ∉ e.row :=
  Utf8.newline_not_mem_encode (Json.newline_not_mem_line .minimal e.document)

/-- **The rows of the written records are the records**, and an empty one behind the last. -/
lemma splitAt_encode_lines (entries : List LinkEntry) :
    Text.splitAt newlineByte (Utf8.encode (lines entries)) = entries.map row ++ [[]] := by
  induction entries with
  | nil =>
    rw [encode_lines_nil]
    rfl
  | cons e entries ih =>
    rw [encode_lines_cons, Text.splitAt_append_cons e.newline_not_mem_row, ih]
    rfl

/-- There are **as many line breaks as records**. -/
lemma count_encode_lines (entries : List LinkEntry) :
    (Utf8.encode (lines entries)).count newlineByte = entries.length := by
  induction entries with
  | nil => rw [encode_lines_nil, List.count_nil, List.length_nil]
  | cons e entries ih =>
    rw [encode_lines_cons, List.count_append, List.count_cons_self, ih,
      List.count_eq_zero_of_not_mem e.newline_not_mem_row, Nat.zero_add, List.length_cons]

end Marginalia.LinkEntry
