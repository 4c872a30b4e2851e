import Marginalia.Source.Rows
import Marginalia.Proofs.Text.Decoding

/-!
# Points and positions in order

A parser gives places by rows and byte columns, and the same place has a position that counts
characters.  Whatever the bytes are, conversion never reverses two places: on one row more bytes
never make fewer characters, and rows stay as they are.  Nor does it move two places on a row
further apart: a step of one byte is one character at most, also into a character or into bytes that
are no character.  And it does not fail at a place whose row is not negative.

A place in the bytes of a source has a point of its own, by the line breaks before it, and these
points are in the order of the offsets.

## Main definitions

* `Point.Nonneg`, `Point.NotAfter` — points in a source, and their order.
* `pointBehind` — the point behind some bytes.
* `SourceRows.columnAt` — the column, in characters, of a point.

## Main results

* `SourceRows.convert_of_nonneg` — the position of a point.
* `SourceRows.columnAt_mono`, `SourceRows.columnAt_le_add` — how columns move along a row.
* `SourceRows.convert_not_before` — conversion keeps the order.
* `SourceRows.convert_monotone` — positions are in the order of points and no further apart.
* `pointBehind_notAfter` — points are in the order of their offsets.
-/

namespace Marginalia

/-! ## Points -/

namespace Point

/-- Neither the row nor the column is negative. -/
def Nonneg (p : Point) : Prop := 0 ≤ p.row ∧ 0 ≤ p.column

/-- It can be decided whether a point is nonnegative. -/
instance : DecidablePred Nonneg := fun _ => inferInstanceAs (Decidable (_ ∧ _))

/-- The point `p` does not lie behind the point `q`, row first. -/
def NotAfter (p q : Point) : Prop := p.row < q.row ∨ (p.row = q.row ∧ p.column ≤ q.column)

end Point

/-- The point behind some bytes: the row is the number of line breaks, and the column the number of
bytes behind the last one. -/
def pointBehind (bytes : Bytes) : Point :=
  ⟨bytes.count newlineByte, (bytes.reverse.takeWhile fun b => b != newlineByte).length⟩

/-- **More bytes lead to no earlier point.** -/
lemma pointBehind_notAfter (bytes more : Bytes) :
    (pointBehind bytes).NotAfter (pointBehind (bytes ++ more)) := by
  by_cases hbreak : newlineByte ∈ more
  · left
    have hpos : 0 < more.count newlineByte := List.count_pos_iff.mpr hbreak
    simp only [pointBehind, List.count_append]
    omega
  · right
    have hzero : more.count newlineByte = 0 := List.count_eq_zero_of_not_mem hbreak
    have hall : ∀ b ∈ more.reverse, (b != newlineByte) = true := by
      intro b hb
      have hne : b ≠ newlineByte := fun e => hbreak (e ▸ List.mem_reverse.mp hb)
      simpa using hne
    simp only [pointBehind, List.count_append, hzero, List.reverse_append,
      List.takeWhile_append_of_pos hall, List.length_append]
    omega

namespace SourceRows

/-! ## Columns -/

/-- The bytes before a later column are those before an earlier one, and some more, of which there
are no more than columns between. -/
lemma exists_sliceTo_eq_append (row : Bytes) {c d : Int} (hc : 0 ≤ c) (hcd : c ≤ d) :
    ∃ more, Text.sliceTo row d = Text.sliceTo row c ++ more ∧ (more.length : Int) ≤ d - c := by
  have hle : Text.clampBound row.length c ≤ Text.clampBound row.length d ∧
      (Text.clampBound row.length d : Int) ≤ Text.clampBound row.length c + (d - c) := by
    simp only [Text.clampBound]
    split <;> split <;> omega
  refine ⟨(row.take (Text.clampBound row.length d)).drop (Text.clampBound row.length c), ?_, ?_⟩
  · have htake : Text.sliceTo row c =
        (row.take (Text.clampBound row.length d)).take (Text.clampBound row.length c) := by
      rw [List.take_take, Nat.min_eq_left hle.1]
      rfl
    rw [htake, List.take_append_drop]
    rfl
  · rw [List.length_drop, List.length_take]
    omega

/-- **Columns in characters are in the order of those in bytes.** -/
lemma charColumn_mono (row : Bytes) {c d : Int} (hc : 0 ≤ c) (hcd : c ≤ d) :
    charColumn row c ≤ charColumn row d := by
  simp only [charColumn]
  split
  · exact hcd
  · obtain ⟨more, hmore, -⟩ := exists_sliceTo_eq_append row hc hcd
    rw [hmore]
    exact Int.ofNat_le.mpr (Utf8.length_decode_le_append ..)

/-- **Columns in characters are no further apart than those in bytes.** -/
lemma charColumn_le_add (row : Bytes) {c d : Int} (hc : 0 ≤ c) (hcd : c ≤ d) :
    charColumn row d ≤ charColumn row c + (d - c) := by
  simp only [charColumn]
  split
  · omega
  · obtain ⟨more, hmore, hlength⟩ := exists_sliceTo_eq_append row hc hcd
    have hle := Utf8.length_decode_append_le (Text.sliceTo row c) more
    rw [hmore]
    omega

/-! ## Positions -/

/-- The column of the position of a point. -/
def columnAt (s : SourceRows) (point : Point) : Int :=
  if (s.rows.size : Int) ≤ point.row then point.column
  else charColumn (s.rows.getD point.row.toNat []) point.column

/-- **Every point whose row is not negative has a position.** -/
lemma convert_of_nonneg (s : SourceRows) {point : Point} (h : 0 ≤ point.row) :
    s.convert point = .ok ⟨point.row + 1, s.columnAt point⟩ := by
  rw [convert, columnAt]
  by_cases hsize : (s.rows.size : Int) ≤ point.row
  · rw [if_pos hsize, if_pos hsize]
  · have hindex : Text.signedIndex s.rows.size point.row = .ok point.row.toNat := by
      rw [Text.signedIndex, if_neg (Int.not_lt.mpr h), if_pos ⟨h, Int.not_le.mp hsize⟩]
    rw [if_neg hsize, if_neg hsize, hindex]

/-- On one row, columns in characters grow with columns in bytes. -/
lemma columnAt_mono (s : SourceRows) {p q : Point} (hp : p.Nonneg) (hrow : p.row = q.row)
    (hcolumn : p.column ≤ q.column) : s.columnAt p ≤ s.columnAt q := by
  rw [columnAt, columnAt, hrow]
  split
  · exact hcolumn
  · exact charColumn_mono _ hp.2 hcolumn

/-- On one row, columns in characters grow by no more than columns in bytes. -/
lemma columnAt_le_add (s : SourceRows) {p q : Point} (hp : p.Nonneg) (hrow : p.row = q.row)
    (hcolumn : p.column ≤ q.column) :
    s.columnAt q ≤ s.columnAt p + (q.column - p.column) := by
  rw [columnAt, columnAt, hrow]
  split
  · omega
  · exact charColumn_le_add _ hp.2 hcolumn

/-- **Conversion keeps the order of points.** -/
lemma convert_not_before (s : SourceRows) {p q : Point} (hp : p.Nonneg) (hq : q.Nonneg)
    (h : p.NotAfter q) {a b : Position} (ha : s.convert p = .ok a) (hb : s.convert q = .ok b) :
    b.before a = false := by
  rw [s.convert_of_nonneg hp.1] at ha
  rw [s.convert_of_nonneg hq.1] at hb
  obtain rfl := Except.ok.inj ha
  obtain rfl := Except.ok.inj hb
  rw [← Bool.not_eq_true, Position.before_iff]
  rcases h with hrow | ⟨hrow, hcolumn⟩
  · simp only
    omega
  · have hmono := s.columnAt_mono hp hrow hcolumn
    simp only
    omega

/-- **Positions are in the order of points, and on a row no further apart.**  Points of a source, on
any row and in any column that are not negative, all have positions.  If one point does not lie
behind another, neither does its position; and if both are on one row, their positions differ by no
more columns than they do themselves, so that a step of one byte is one character or none. -/
theorem convert_monotone (bytes : Bytes) {p q : Point} (hp : p.Nonneg) (hq : q.Nonneg)
    (h : p.NotAfter q) :
    ∃ a b, (ofBytes bytes).convert p = .ok a ∧ (ofBytes bytes).convert q = .ok b ∧
      (a.line < b.line ∨ (a.line = b.line ∧ a.column ≤ b.column)) ∧
      (p.row = q.row → b.column - a.column ≤ q.column - p.column) := by
  refine ⟨_, _, convert_of_nonneg _ hp.1, convert_of_nonneg _ hq.1, ?_, ?_⟩
  · rcases h with hrow | ⟨hrow, hcolumn⟩
    · exact .inl (Int.add_lt_add_right hrow 1)
    · exact .inr ⟨congrArg (· + 1) hrow, columnAt_mono _ hp hrow hcolumn⟩
  · intro hrow
    have hcolumn : p.column ≤ q.column := by
      rcases h with hless | ⟨-, hcolumn⟩
      · omega
      · exact hcolumn
    have hle := (ofBytes bytes).columnAt_le_add hp hrow hcolumn
    simp only
    omega

/-- The bytes of a `€` that is cut off, and of `x`. -/
def cutBytes : Bytes := [0xE2, 0x82, 0x78]

/-- Inside of the character that is cut off and behind it the column is the same, and behind the
letter it is one more, which is the most that `convert_monotone` allows. -/
theorem convert_monotone_cut :
    (⟨0, 2⟩ : Point).Nonneg ∧ (⟨0, 3⟩ : Point).Nonneg ∧ (⟨0, 2⟩ : Point).NotAfter ⟨0, 3⟩ ∧
      (ofBytes cutBytes).convert ⟨0, 1⟩ = .ok ⟨1, 1⟩ ∧
      (ofBytes cutBytes).convert ⟨0, 2⟩ = .ok ⟨1, 1⟩ ∧
      ∃ b, (ofBytes cutBytes).convert ⟨0, 3⟩ = .ok b ∧ b = ⟨1, 2⟩ ∧
        ((1 : Int) < b.line ∨ (1 = b.line ∧ 1 ≤ b.column)) ∧ b.column - 1 ≤ 3 - 2 := by
  have hp : (⟨0, 2⟩ : Point).Nonneg := by decide
  have hq : (⟨0, 3⟩ : Point).Nonneg := by decide
  have hpq : (⟨0, 2⟩ : Point).NotAfter ⟨0, 3⟩ := .inr ⟨rfl, by decide⟩
  have hbehind : (ofBytes cutBytes).convert ⟨0, 2⟩ = .ok ⟨1, 1⟩ := rfl
  obtain ⟨a, b, ha, hb, horder, hnear⟩ := convert_monotone cutBytes hp hq hpq
  obtain rfl := Except.ok.inj (hbehind.symm.trans ha)
  exact ⟨hp, hq, hpq, rfl, hbehind, b, hb, Except.ok.inj (hb.symm.trans rfl), horder, hnear rfl⟩

end SourceRows

end Marginalia
