import Marginalia.Text.Split
import Marginalia.Text.Utf8
import Mathlib.Algebra.Ring.Nat
import Mathlib.Tactic.Lemma

/-!
# Line breaks and decoding

A text can be split into lines before it is decoded or afterwards.  Both come to the same, whatever
the bytes are.  A byte below `0x80` never belongs to a longer sequence: it ends the sequence under
way, which is then replaced, and stands for itself.  In turn no longer sequence stands for a
character below U+0080.  So the line breaks of the text are those of the bytes, and what stands
between two of them is decoded as if it stood alone.

## Main definitions

* `Utf8.State.Proper` — sequences under way that are too large for ASCII.

## Main results

* `Text.splitAt_append_cons` — a part ends at the first separator.
* `Utf8.step_of_ascii` — an ASCII byte stands for itself.
* `Utf8.splitAt_decode` — decoded lines are the lines, decoded.
* `Utf8.length_decode_of_ascii` — ASCII bytes are as many characters.
-/

namespace Marginalia

/-! ## Splitting -/

namespace Text

variable {α : Type} [DecidableEq α] {separator : α}

/-- There is a first part. -/
lemma exists_splitAt_eq_cons (separator : α) (xs : List α) :
    ∃ part parts, splitAt separator xs = part :: parts := by
  refine List.exists_cons_of_ne_nil fun hnil => ?_
  have hlength := length_splitAt separator xs
  simp [hnil] at hlength

/-- What holds no separator goes before the first part. -/
lemma splitAt_append {xs : List α} (h : separator ∉ xs) {ys part : List α} {parts : List (List α)}
    (hys : splitAt separator ys = part :: parts) :
    splitAt separator (xs ++ ys) = (xs ++ part) :: parts := by
  induction xs with
  | nil => exact hys
  | cons x xs ih =>
    obtain ⟨hx, hxs⟩ := not_or.mp (mt List.mem_cons.mpr h)
    rw [List.cons_append, splitAt, if_neg (Ne.symm hx), ih hxs]
    rfl

/-- **A part ends at the first separator.** -/
lemma splitAt_append_cons {xs : List α} (h : separator ∉ xs) (ys : List α) :
    splitAt separator (xs ++ separator :: ys) = xs :: splitAt separator ys := by
  have hys : splitAt separator (separator :: ys) = [] :: splitAt separator ys := by
    rw [splitAt, if_pos rfl]
  rw [splitAt_append h hys, List.append_nil]

end Text

/-! ## Decoding byte by byte -/

namespace Utf8

/-- The sequence under way does not go on with an ASCII byte, and comes to no ASCII character. -/
def State.Proper : State → Prop
  | .fresh => True
  | .pending missing lo _ bits =>
    0x80 ≤ lo.toNat ∧ 0x80 ≤ (bits * 64 + (lo.toNat - 0x80)) * 64 ^ missing

/-- A decoder that waits for no byte is in a proper state. -/
lemma proper_fresh : State.fresh.Proper := trivial

/-- A first byte opens a proper sequence: what would be too long a form of an ASCII character is not
taken up. -/
lemma proper_stepFresh (b : UInt8) : (stepFresh b).2.Proper := by
  unfold stepFresh
  simp only [UInt8.lt_iff_toNat_lt, UInt8.reduceToNat]
  split
  · trivial
  · split
    · trivial
    · split
      · simp only [State.Proper, UInt8.reduceToNat]
        omega
      · split
        · -- behind `0xE0` the bits are all zero, and the range of the next byte is narrower
          by_cases hb : b = 0xE0
          · subst hb
            exact ⟨by decide, by decide⟩
          · have hne : b.toNat ≠ 0xE0 := fun e => hb (UInt8.toNat_inj.mp e)
            simp only [State.Proper, beq_iff_eq, if_neg hb, UInt8.reduceToNat]
            omega
        · split
          · by_cases hb : b = 0xF0
            · subst hb
              exact ⟨by decide, by decide⟩
            · have hne : b.toNat ≠ 0xF0 := fun e => hb (UInt8.toNat_inj.mp e)
              simp only [State.Proper, beq_iff_eq, if_neg hb, UInt8.reduceToNat]
              omega
          · trivial

/-- **Sequences stay proper.** -/
lemma proper_step {state : State} (h : state.Proper) (b : UInt8) : (step state b).2.Proper := by
  cases state with
  | fresh => exact proper_stepFresh b
  | pending missing lo hi bits =>
    obtain ⟨hlo, hbits⟩ := h
    rw [step]
    split
    · next hrange =>
      have hb : lo.toNat ≤ b.toNat := UInt8.le_iff_toNat_le.mp hrange.1
      cases missing with
      | zero => trivial
      | succ missing =>
        refine ⟨by decide, Nat.le_trans hbits ?_⟩
        rw [Nat.pow_succ', ← Nat.mul_assoc]
        refine Nat.mul_le_mul_right _ ?_
        simp only [UInt8.reduceToNat]
        omega
    · exact proper_stepFresh b

/-- **An ASCII byte stands for itself**, and ends the sequence under way. -/
lemma step_of_ascii {state : State} (h : state.Proper) {b : UInt8} (hb : b < 0x80) :
    step state b = (finish state ++ [Char.ofNat b.toNat], .fresh) := by
  have hfresh : stepFresh b = ([Char.ofNat b.toNat], .fresh) := by rw [stepFresh, if_pos hb]
  cases state with
  | fresh => exact hfresh
  | pending missing lo hi bits =>
    have hbelow : ¬(lo ≤ b ∧ b ≤ hi) := by
      have hlo : 0x80 ≤ lo.toNat := h.1
      have hbyte : b.toNat < 0x80 := UInt8.lt_iff_toNat_lt.mp hb
      rw [UInt8.le_iff_toNat_le]
      omega
    rw [step, if_neg hbelow, hfresh]
    rfl

/-- No other code stands for the line break. -/
lemma ofNat_ne_newline {n : Nat} (h : n ≠ 10) : Char.ofNat n ≠ '\n' := by
  intro e
  by_cases hvalid : n.isValidChar
  · rw [Char.ofNat, dif_pos hvalid] at e
    exact h (congrArg Char.toNat e)
  · rw [Char.ofNat, dif_neg hvalid] at e
    exact absurd e (by decide)

/-- A first byte other than a line break gives no line break. -/
lemma newline_not_mem_stepFresh {b : UInt8} (hb : b ≠ 10) : '\n' ∉ (stepFresh b).1 := by
  have hcode : b.toNat ≠ 10 := fun e => hb (UInt8.toNat_inj.mp e)
  have hreplaced : '\n' ∉ [replacement] := by decide
  unfold stepFresh
  split
  · simpa using Ne.symm (ofNat_ne_newline hcode)
  · split
    · exact hreplaced
    · split
      · exact List.not_mem_nil
      · split
        · exact List.not_mem_nil
        · split
          · exact List.not_mem_nil
          · exact hreplaced

/-- **No other byte completes a line break.** -/
lemma newline_not_mem_step {state : State} (h : state.Proper) {b : UInt8} (hb : b ≠ 10) :
    '\n' ∉ (step state b).1 := by
  cases state with
  | fresh => exact newline_not_mem_stepFresh hb
  | pending missing lo hi bits =>
    rw [step]
    split
    · next hrange =>
      cases missing with
      | zero =>
        -- the sequence is complete, and it is proper
        have hbyte : lo.toNat ≤ b.toNat := UInt8.le_iff_toNat_le.mp hrange.1
        obtain ⟨-, hbits⟩ := h
        have hcode : bits * 64 + (b.toNat - 0x80) ≠ 10 := by omega
        simpa using Ne.symm (ofNat_ne_newline hcode)
      | succ missing => exact List.not_mem_nil
    · have hreplaced : '\n' ≠ replacement := by decide
      exact List.not_mem_cons_of_ne_of_not_mem hreplaced (newline_not_mem_stepFresh hb)

/-- The end of the bytes gives no line break. -/
lemma newline_not_mem_finish (state : State) : '\n' ∉ finish state := by
  cases state with
  | fresh => exact List.not_mem_nil
  | pending => exact (by decide : '\n' ∉ [replacement])

/-! ## Decoding line by line -/

/-- **Decoded lines are the lines, decoded**, except that the first one goes on with the sequence
under way. -/
lemma splitAt_decodeFrom {state : State} (h : state.Proper) {bytes row : Bytes} {rows : List Bytes}
    (hrows : Text.splitAt 10 bytes = row :: rows) :
    Text.splitAt '\n' (decodeFrom state bytes) = decodeFrom state row :: rows.map decode := by
  induction bytes generalizing state row rows with
  | nil =>
    obtain ⟨rfl, rfl⟩ := List.cons.inj hrows
    have hsplit : Text.splitAt '\n' (finish state ++ []) = [finish state ++ []] :=
      Text.splitAt_append (newline_not_mem_finish state) rfl
    rw [List.append_nil] at hsplit
    exact hsplit
  | cons b bytes ih =>
    obtain ⟨first, others, hsplit⟩ := Text.exists_splitAt_eq_cons 10 bytes
    by_cases hb : b = 10
    · subst hb
      rw [Text.splitAt, if_pos rfl, hsplit] at hrows
      obtain ⟨rfl, rfl⟩ := List.cons.inj hrows
      have hdecode : decodeFrom state (10 :: bytes) = finish state ++ '\n' :: decode bytes := by
        rw [decodeFrom_cons, step_of_ascii h (by decide), List.append_assoc]
        rfl
      rw [hdecode, Text.splitAt_append_cons (newline_not_mem_finish state), decode,
        ih proper_fresh hsplit]
      rfl
    · rw [Text.splitAt, if_neg hb, hsplit] at hrows
      obtain ⟨rfl, rfl⟩ := List.cons.inj hrows
      rw [decodeFrom_cons, decodeFrom_cons,
        Text.splitAt_append (newline_not_mem_step h hb) (ih (proper_step h b) hsplit)]

/-- **Decoded lines are the lines, decoded.** -/
lemma splitAt_decode (bytes : Bytes) :
    Text.splitAt '\n' (decode bytes) = (Text.splitAt 10 bytes).map decode := by
  obtain ⟨row, rows, hrows⟩ := Text.exists_splitAt_eq_cons 10 bytes
  rw [hrows]
  exact splitAt_decodeFrom proper_fresh hrows

/-- **ASCII bytes are as many characters.** -/
lemma length_decode_of_ascii {bytes : Bytes} (h : ∀ b ∈ bytes, b < 0x80) :
    (decode bytes).length = bytes.length := by
  induction bytes with
  | nil => rfl
  | cons b bytes ih =>
    have hstep := step_of_ascii proper_fresh (h b (List.mem_cons_self ..))
    have hrest := ih fun c hc => h c (List.mem_cons_of_mem _ hc)
    rw [decode, decodeFrom_cons, hstep, List.length_append, ← decode, hrest]
    simp [finish]
    omega

end Utf8

end Marginalia
