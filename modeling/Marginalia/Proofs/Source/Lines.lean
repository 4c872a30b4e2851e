import Marginalia.Proofs.Source.Rows
import Marginalia.Proofs.Text.Breaks
import Mathlib.Data.List.DropRight

/-!
# Columns of decoded lines

The lines of a source are decoded as a whole and then split, and a column is counted by decoding a
part of one row.  Positions are only of use if both mean the same: a line for each row, and columns
that count the characters of the line.  They do for all bytes, UTF-8 or not.

## Main results

* `sourceLines_eq` — the lines of a source are its rows, decoded.
* `SourceRows.charColumn_of_le` — a column counts the decoded characters before it.
* `SourceRows.convert_matches_sourceLines` — positions are places in the decoded lines.
-/

namespace Marginalia

/-- **The lines of a source are its rows, decoded**, without carriage returns at their ends. -/
lemma sourceLines_eq (bytes : Bytes) :
    sourceLines bytes = (Text.splitAt newlineByte bytes).map fun row =>
      String.ofList (Text.dropEndWhile (· == '\r') (Utf8.decode row)) := by
  rw [sourceLines, Utf8.splitAt_decode, List.map_map]
  rfl

/-- Of the start of a text, dropping carriage returns at the end of the text takes away carriage
returns only. -/
lemma exists_take_dropEndWhile (text : List Char) (k : Nat) :
    ∃ returns, (Text.dropEndWhile (· == '\r') text).take k ++ List.replicate returns '\r' =
      text.take k := by
  have hsplit : Text.dropEndWhile (· == '\r') text ++ text.rtakeWhile (· == '\r') = text :=
    List.rdropWhile_append_rtakeWhile ..
  have hreturns : text.rtakeWhile (· == '\r') =
      List.replicate (text.rtakeWhile (· == '\r')).length '\r' :=
    List.eq_replicate_of_mem fun c hc => by simpa using List.mem_rtakeWhile_imp hc
  refine ⟨min (k - (Text.dropEndWhile (· == '\r') text).length)
    (text.rtakeWhile (· == '\r')).length, ?_⟩
  conv_rhs => rw [← hsplit, List.take_append, hreturns, List.take_replicate]

namespace SourceRows

/-- **A column counts the decoded characters before it**, whether or not the row is ASCII. -/
lemma charColumn_of_le {row : Bytes} {c : Nat} (h : c ≤ row.length) :
    charColumn row c = (Utf8.decode (row.take c)).length := by
  have hslice : Text.sliceTo row c = row.take c := by rw [Text.sliceTo, Text.clampBound_of_le h]
  rw [charColumn, hslice]
  split
  · next hascii =>
    have hbytes : ∀ b ∈ row.take c, b < 0x80 := fun b hb =>
      of_decide_eq_true (List.all_eq_true.mp hascii b (List.mem_of_mem_take hb))
    rw [Utf8.length_decode_of_ascii hbytes, List.length_take_of_le h]
  · rfl

/-- **Positions are places in the decoded lines.**  A source has as many lines as rows.  A point on
a row has the position whose column counts the characters of the bytes before it, decoded.  Where
decoding can be split at the point, these characters are the start of the line, except that
carriage returns at its end may be missing. -/
theorem convert_matches_sourceLines (bytes : Bytes) :
    (sourceLines bytes).length = (ofBytes bytes).rows.size ∧
      ∀ (r : Nat) (row : Bytes), (ofBytes bytes).rows[r]? = some row → ∀ c ≤ row.length,
        let before := Utf8.decode (row.take c)
        (ofBytes bytes).convert ⟨r, c⟩ = .ok ⟨r + 1, before.length⟩ ∧
          (before ++ Utf8.decode (row.drop c) = Utf8.decode row →
            ∃ line returns, (sourceLines bytes)[r]? = some line ∧
              line.toList.take before.length ++ List.replicate returns '\r' = before) := by
  refine ⟨by simp [sourceLines_eq, ofBytes], ?_⟩
  intro r row hrow c hc before
  constructor
  · have hr : r < (ofBytes bytes).rows.size := (Array.getElem?_eq_some_iff.mp hrow).1
    have hinside : ¬((ofBytes bytes).rows.size : Int) ≤ (r : Int) := by omega
    rw [convert_of_nonneg _ (Int.natCast_nonneg r), columnAt, if_neg hinside]
    simp only [Int.toNat_natCast, Array.getD_eq_getD_getElem?, hrow, Option.getD_some,
      charColumn_of_le hc]
    rfl
  · intro hsplit
    have hline : (sourceLines bytes)[r]? =
        some (String.ofList (Text.dropEndWhile (· == '\r') (Utf8.decode row))) := by
      have hpart : (Text.splitAt newlineByte bytes)[r]? = some row := by
        simpa [ofBytes] using hrow
      rw [sourceLines_eq, List.getElem?_map, hpart]
      rfl
    obtain ⟨returns, hreturns⟩ := exists_take_dropEndWhile (Utf8.decode row) before.length
    refine ⟨_, returns, hline, ?_⟩
    rw [String.toList_ofList, hreturns, ← hsplit, List.take_left]

/-- The bytes of `é`, a byte that is not UTF-8 and a carriage return, and of `x` on a second row. -/
def returningBytes : Bytes := [0xC3, 0xA9, 0xFF, 0x0D, 0x0A, 0x78]

/-- The point behind the carriage return is the place behind three characters, of which the line has
two, as `convert_matches_sourceLines` says. -/
theorem convert_matches_sourceLines_returning :
    (ofBytes returningBytes).rows[0]? = some [0xC3, 0xA9, 0xFF, 0x0D] ∧
      (ofBytes returningBytes).convert ⟨0, 4⟩ = .ok ⟨1, 3⟩ ∧
      ∃ line returns, (sourceLines returningBytes)[0]? = some line ∧
        line.toList.take 3 ++ List.replicate returns '\r' = ['é', '�', '\r'] := by
  have hrow : (ofBytes returningBytes).rows[0]? = some [0xC3, 0xA9, 0xFF, 0x0D] := by decide
  obtain ⟨hconvert, hline⟩ := (convert_matches_sourceLines returningBytes).2 0 _ hrow 4 (by decide)
  exact ⟨hrow, hconvert, hline (by decide)⟩

end SourceRows

end Marginalia
