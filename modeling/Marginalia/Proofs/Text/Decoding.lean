import Marginalia.Text.Utf8
import Mathlib.Tactic.Lemma

/-!
# Decoding the start of a text

Columns are counted by decoding the bytes before a place, which may stand within a character or
within bytes that are no character at all.  Reading one more byte never takes a character away: a
sequence that the end of the bytes cuts off counts as one character, and it still does when it is
continued, completed or given up.  So more bytes never make fewer characters.  Nor does one byte
make two characters: the one that gives up a sequence under way adds one, as this sequence counted
before.

## Main results

* `Utf8.length_finish_le_step` — what is written for a cut sequence is written after one more byte.
* `Utf8.length_step_le_finish` — one more byte makes one character more at most.
* `Utf8.length_decode_le_append` — more bytes never make fewer characters.
* `Utf8.length_decode_append_le` — more bytes make no more characters than there are of them.
-/

namespace Marginalia.Utf8

/-- **One more byte takes no character away**: what would be written for the sequence under way is
made up for by what the byte completes and by what would be written then. -/
lemma length_finish_le_step (state : State) (b : UInt8) :
    (finish state).length ≤ (step state b).1.length + (finish (step state b).2).length := by
  cases state with
  | fresh => exact Nat.zero_le _
  | pending missing lo hi bits =>
    rw [step]
    split
    · -- the byte continues the sequence, which is complete if no other is missing
      cases missing with
      | zero => simp [finish]
      | succ missing => simp [finish]
    · -- the sequence is given up
      simp [finish]
      omega

/-- What is written for a cut sequence is written as well if the bytes go on. -/
lemma length_finish_le_decodeFrom (state : State) (bytes : Bytes) :
    (finish state).length ≤ (decodeFrom state bytes).length := by
  induction bytes generalizing state with
  | nil => exact Nat.le_refl _
  | cons b rest ih =>
    calc (finish state).length
        ≤ (step state b).1.length + (finish (step state b).2).length :=
          length_finish_le_step state b
      _ ≤ (step state b).1.length + (decodeFrom (step state b).2 rest).length :=
          Nat.add_le_add_left (ih _) _
      _ = (decodeFrom state (b :: rest)).length := by
          rw [decodeFrom_cons, List.length_append]

/-- More bytes give at least as many characters, from every state. -/
lemma length_decodeFrom_le_append (state : State) (bytes more : Bytes) :
    (decodeFrom state bytes).length ≤ (decodeFrom state (bytes ++ more)).length := by
  induction bytes generalizing state with
  | nil => exact length_finish_le_decodeFrom state more
  | cons b rest ih =>
    rw [List.cons_append, decodeFrom_cons, decodeFrom_cons, List.length_append, List.length_append]
    exact Nat.add_le_add_left (ih _) _

/-- **More bytes never make fewer characters.** -/
lemma length_decode_le_append (bytes more : Bytes) :
    (decode bytes).length ≤ (decode (bytes ++ more)).length :=
  length_decodeFrom_le_append .fresh bytes more

/-- A first byte makes one character, even if it is cut off. -/
lemma length_stepFresh (b : UInt8) :
    (stepFresh b).1.length + (finish (stepFresh b).2).length = 1 := by
  unfold stepFresh
  split
  · rfl
  · split
    · rfl
    · split
      · rfl
      · split
        · rfl
        · split
          · rfl
          · rfl

/-- **One more byte makes one character more at most.**  A byte that gives up the sequence under way
adds its own character to the one that was already written for the sequence. -/
lemma length_step_le_finish (state : State) (b : UInt8) :
    (step state b).1.length + (finish (step state b).2).length ≤ (finish state).length + 1 := by
  cases state with
  | fresh => exact Nat.le_of_eq (length_stepFresh b)
  | pending missing lo hi bits =>
    rw [step]
    split
    · cases missing with
      | zero => simp [finish]
      | succ missing => simp [finish]
    · have hfresh := length_stepFresh b
      show (replacement :: (stepFresh b).1).length + (finish (stepFresh b).2).length ≤ 1 + 1
      rw [List.length_cons]
      omega

/-- There are at most as many characters as bytes, besides the one that the state may owe. -/
lemma length_decodeFrom_le (state : State) (bytes : Bytes) :
    (decodeFrom state bytes).length ≤ (finish state).length + bytes.length := by
  induction bytes generalizing state with
  | nil => exact Nat.le_refl _
  | cons b rest ih =>
    have hrest := ih (step state b).2
    have hstep := length_step_le_finish state b
    rw [decodeFrom_cons, List.length_append, List.length_cons]
    omega

/-- **More bytes make no more characters than there are of them.** -/
lemma length_decode_append_le (bytes more : Bytes) :
    (decode (bytes ++ more)).length ≤ (decode bytes).length + more.length := by
  have hfrom : ∀ state, (decodeFrom state (bytes ++ more)).length ≤
      (decodeFrom state bytes).length + more.length := by
    induction bytes with
    | nil => exact fun state => length_decodeFrom_le state more
    | cons b rest ih =>
      intro state
      have hrest := ih (step state b).2
      rw [List.cons_append, decodeFrom_cons, decodeFrom_cons, List.length_append,
        List.length_append]
      omega
  exact hfrom .fresh

end Marginalia.Utf8
