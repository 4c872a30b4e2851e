import Marginalia.Text.Utf8
import Mathlib.Tactic.Lemma

/-!
# Line breaks in encoded texts

A text is encoded character by character.  A line break is encoded as a single byte, and this byte
is no part of any other character, so an encoded text has its line breaks where the text has them.

## Main results

* `Utf8.encode_eq` — the bytes of a text are those of its characters.
* `Utf8.newline_not_mem_encode` — a text without line breaks has none once it is encoded.
-/

namespace Marginalia.Utf8

/-- The loop that lists bytes puts those from an index on behind the ones that are done. -/
lemma toList_loop (bytes : ByteArray) (i : Nat) (done : List UInt8) :
    ByteArray.toList.loop bytes i done = done.reverse ++ bytes.data.toList.drop i := by
  fun_induction ByteArray.toList.loop bytes i done with
  | case1 i done hlt ih =>
    have hi : i < bytes.data.toList.length := by simpa using hlt
    have hget : bytes.get! i = bytes.data.toList[i] := by
      simpa [ByteArray.get!] using getElem!_pos bytes.data i hlt
    rw [ih, List.drop_eq_getElem_cons hi, hget]
    simp
  | case2 i done hge =>
    have hle : bytes.data.toList.length ≤ i := by simpa using hge
    simp [List.drop_eq_nil_of_le hle]

/-- **The bytes of a text are those of its characters.** -/
lemma encode_eq (text : String) : encode text = text.toList.flatMap String.utf8EncodeChar := by
  rw [encode, ByteArray.toList, toList_loop, String.toUTF8_eq_toByteArray,
    ← String.utf8Encode_toList, List.utf8Encode]
  simp

/-- Texts one after the other are encoded one after the other. -/
lemma encode_append (text more : String) : encode (text ++ more) = encode text ++ encode more := by
  rw [encode_eq, encode_eq, encode_eq, String.toList_append, List.flatMap_append]

/-- A byte from the upper half is no line break. -/
lemma newline_ne_ofNat {n : Nat} (hlow : 128 ≤ n) (hhigh : n < 256) :
    (10 : UInt8) ≠ UInt8.ofNat n := by
  intro h
  have hnat := congrArg UInt8.toNat h
  rw [UInt8.toNat_ofNat_of_lt' hhigh] at hnat
  have hten : (10 : UInt8).toNat = 10 := rfl
  omega

/-- No character but a line break is encoded with the byte of a line break. -/
lemma newline_not_mem_utf8EncodeChar {c : Char} (h : c ≠ '\n') :
    10 ∉ String.utf8EncodeChar c := by
  fun_cases String.utf8EncodeChar c with
  | case1 v hv =>
    rw [List.mem_singleton]
    intro hbyte
    have hten : v = 10 := by
      have hnat := congrArg UInt8.toNat hbyte
      rw [UInt8.toNat_ofNat_of_lt' (Nat.lt_of_le_of_lt hv (by decide))] at hnat
      exact hnat.symm
    exact h (Char.toNat_inj.mp hten)
  | case2 v =>
    simp only [List.mem_cons, List.not_mem_nil, or_false, not_or]
    refine ⟨?_, ?_⟩ <;> refine newline_ne_ofNat ?_ ?_ <;> omega
  | case3 v =>
    simp only [List.mem_cons, List.not_mem_nil, or_false, not_or]
    refine ⟨?_, ?_, ?_⟩ <;> refine newline_ne_ofNat ?_ ?_ <;> omega
  | case4 v =>
    simp only [List.mem_cons, List.not_mem_nil, or_false, not_or]
    refine ⟨?_, ?_, ?_, ?_⟩ <;> refine newline_ne_ofNat ?_ ?_ <;> omega

/-- A text without line breaks **has none once it is encoded**. -/
lemma newline_not_mem_encode {text : String} (h : '\n' ∉ text.toList) : 10 ∉ encode text := by
  rw [encode_eq]
  intro hmem
  obtain ⟨c, hc, hbyte⟩ := List.mem_flatMap.mp hmem
  refine newline_not_mem_utf8EncodeChar ?_ hbyte
  rintro rfl
  exact h hc

end Marginalia.Utf8
