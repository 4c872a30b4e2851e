import Marginalia.Value.Json
import Mathlib.Tactic.Lemma

/-!
# Documents on one line

A value that is written on one line has no line break in it, whatever its texts and keys hold: line
breaks in texts are escaped, and numbers consist of digits, signs and a few letters.

## Main results

* `Json.newline_not_mem_string` — a text between quotes has no line break.
* `Decimal.newline_not_mem_write` — the text of a double has no line break.
* `Json.newline_not_mem_line` — **a value on one line has no line break**.
-/

namespace Marginalia

/-! ## Numbers -/

/-- Digits hold no line break. -/
lemma newline_not_mem_toDigits {base : Nat} (hbase : 1 < base) (n : Nat) :
    '\n' ∉ Nat.toDigits base n := by
  induction n using Nat.strongRecOn with
  | ind n ih =>
    rw [Nat.toDigits_eq_if hbase]
    split
    next => simp
    next hle =>
      have hpos : 0 < n := by omega
      simpa using ih (n / base) (Nat.div_lt_self hpos hbase)

/-- The text of a whole number has no line break. -/
lemma newline_not_mem_toString_int (n : Int) : '\n' ∉ (toString n).toList := by
  rw [Int.toString_eq_repr]
  cases n with
  | ofNat n => simpa [Int.repr] using newline_not_mem_toDigits (by decide) n
  | negSucc n => simpa [Int.repr] using newline_not_mem_toDigits (by decide) (n + 1)

namespace Decimal

/-- The digits without zeros at their end hold no line break. -/
lemma newline_not_mem_withoutZeros (n : Nat) : '\n' ∉ (withoutZeros n).1 := by
  intro hmem
  simp only [withoutZeros, List.mem_reverse] at hmem
  have hdigits := (List.dropWhile_sublist _).subset hmem
  exact newline_not_mem_toDigits (by decide) n (List.mem_reverse.mp hdigits)

variable {layout : Layout}

/-- An exponent has no line break. -/
lemma newline_not_mem_exponent (layout : Layout) (k : Int) : '\n' ∉ layout.exponent k := by
  have hdigits := newline_not_mem_toDigits (by decide : 1 < 10) k.natAbs
  have hsign : '\n' ≠ (if k < 0 then '-' else '+') := by split <;> decide
  simp [Layout.exponent, hdigits, hsign]

/-- Digits that are laid out get no line break. -/
lemma newline_not_mem_digits (layout : Layout) {digits : List Char} (h : '\n' ∉ digits)
    (lead : Int) : '\n' ∉ layout.digits digits lead := by
  have hdrop : ∀ k, '\n' ∉ digits.drop k := fun k hk => h (List.mem_of_mem_drop hk)
  unfold Layout.digits
  split
  · split
    · simp [h]
    · have hpadded : '\n' ∉ digits ++ List.replicate (lead.toNat + 1 - digits.length) '0' := by
        simp [h]
      refine List.not_mem_append (List.not_mem_append ?_ (by decide)) ?_
      · exact fun hmem => hpadded (List.mem_of_mem_take hmem)
      · split
        · decide
        · exact hdrop _
  · refine List.not_mem_append (List.not_mem_append ?_ ?_) (newline_not_mem_exponent layout lead)
    · exact fun hmem => h (List.mem_of_mem_take hmem)
    · split
      · simp
      · simpa using hdrop 1

/-- The text of a double has no line break. -/
lemma newline_not_mem_write (hinfinity : '\n' ∉ layout.infinity.toList)
    (hnan : '\n' ∉ layout.notANumber.toList) (x : Float) : '\n' ∉ (write layout x).toList := by
  have hsigned : ∀ (negative : Bool) {text : List Char}, '\n' ∉ text →
      '\n' ∉ (String.ofList (if negative then '-' :: text else text)).toList := by
    intro negative text htext
    cases negative <;> simpa using htext
  unfold write
  split
  · exact hnan
  · exact hsigned _ hinfinity
  · exact hsigned _ (by decide)
  next negative m e _ _ =>
    rcases shortest m e with ⟨n, k⟩
    exact hsigned _ (newline_not_mem_digits layout (newline_not_mem_withoutZeros n) _)

end Decimal

/-! ## Texts -/

namespace Json

variable (escaping : Escaping)

/-- The escape of a code unit has no line break. -/
lemma newline_not_mem_unitEscape (n : Nat) : '\n' ∉ unitEscape n := by
  have hdigits := newline_not_mem_toDigits (by decide : 1 < 16) n
  simp [unitEscape, Text.hexPadded, hdigits]

/-- A character by its code units has no line break. -/
lemma newline_not_mem_codeEscape (c : Char) : '\n' ∉ codeEscape c := by
  unfold codeEscape
  split
  · exact newline_not_mem_unitEscape _
  · simp [newline_not_mem_unitEscape]

/-- A line break is escaped, and nothing else is written as one. -/
lemma newline_not_mem_stringChar (c : Char) : '\n' ∉ stringChar escaping c := by
  unfold stringChar
  split
  case h_8 hnewline _ _ _ _ =>
    split
    · exact newline_not_mem_codeEscape c
    · split
      · exact newline_not_mem_codeEscape c
      · exact fun hmem => hnewline (List.mem_singleton.mp hmem).symm
  all_goals decide

/-- **A text between quotes has no line break.** -/
lemma newline_not_mem_string (s : String) : '\n' ∉ (string escaping s).toList := by
  have hchars : '\n' ∉ s.toList.flatMap (stringChar escaping) := fun hmem => by
    obtain ⟨c, -, hc⟩ := List.mem_flatMap.mp hmem
    exact newline_not_mem_stringChar escaping c hc
  simpa [string] using hchars

/-! ## Values -/

/-- Parts between commas have no line break, if none of them has one. -/
lemma newline_not_mem_intercalate {parts : List String} (h : ∀ part ∈ parts, '\n' ∉ part.toList) :
    '\n' ∉ (", ".intercalate parts).toList := by
  induction parts with
  | nil => simp
  | cons part parts ih =>
    have hrest := ih fun other hother => h other (List.mem_cons_of_mem _ hother)
    have hpart := h part (List.mem_cons_self ..)
    by_cases hnil : parts = []
    · simpa [hnil] using hpart
    · rw [String.intercalate_cons_of_ne_nil hnil]
      rw [String.toList_append, String.toList_append]
      exact List.not_mem_append (List.not_mem_append hpart (by simp)) hrest

mutual

/-- **A value on one line has no line break.** -/
lemma newline_not_mem_line : ∀ v : Value, '\n' ∉ (line escaping v).toList
  | .null => by simp [line]
  | .bool true => by simp [line]
  | .bool false => by simp [line]
  | .int n => by rw [line]; exact newline_not_mem_toString_int n
  | .float x => by
    rw [line]
    exact Decimal.newline_not_mem_write (by simp [floatLayout]) (by simp [floatLayout]) x
  | .text s => by rw [line]; exact newline_not_mem_string escaping s
  | .list items => by
    have hitems := newline_not_mem_intercalate (newline_not_mem_lines items)
    simpa [line] using hitems
  | .mapping entries => by
    have hentries := newline_not_mem_intercalate (newline_not_mem_lineEntries entries)
    simpa [line] using hentries
  | .foreign v => by rw [line]; exact newline_not_mem_string escaping v.kind

/-- No item of a list has a line break. -/
lemma newline_not_mem_lines :
    ∀ items : List Value, ∀ part ∈ lines escaping items, '\n' ∉ part.toList
  | [] => by simp [lines]
  | v :: vs => by
    have hv := newline_not_mem_line v
    have hvs := newline_not_mem_lines vs
    simpa [lines] using ⟨hv, hvs⟩

/-- No entry of a mapping has a line break. -/
lemma newline_not_mem_lineEntries :
    ∀ entries : List (Value × Value), ∀ part ∈ lineEntries escaping entries, '\n' ∉ part.toList
  | [] => by simp [lineEntries]
  | (k, v) :: rest => by
    have hkey := newline_not_mem_string escaping (keyText k)
    have hv := newline_not_mem_line v
    have hrest := newline_not_mem_lineEntries rest
    simpa [lineEntries, hkey, hv] using hrest

end

end Json

end Marginalia
