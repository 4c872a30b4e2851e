import Marginalia.Proofs.Comment.Deletion
import Marginalia.Proofs.Comment.Shelter
import Mathlib.Data.List.TakeWhile
import Mathlib.Tactic.MkIffOfInductiveProp

/-!
# Rows with a type and a description

A row of a documentation comment may state the type of a parameter or of the result and describe it.
Here is when moving descriptions up leaves such a row alone: no star of the row may look like the
opening of another row, and a description of one word may not be continued by the row below.

## Main definitions

* `Filter.TypedRow` — a row with a type and a description.
* `Filter.TypedRow.Clear` — nothing in the row looks like another row or another annotation.
* `Filter.isIndented` — the rows below begin with a description.

## Main results

* `Filter.TypedRow.Clear.not_proseAfterType`, `Filter.TypedRow.Clear.not_proseAfterName` — no
  description is seen in the row.
* `Filter.TypedRow.Clear.exists_pullUpProse` — moving descriptions up leaves the row alone.
-/

namespace Marginalia.Filter

open Pattern

/-! ## Rows -/

/-- A row that states a type and describes a parameter or the result. -/
inductive TypedRow where
  | param (type name description : List Char)
  | result (plural : Bool) (type description : List Char)
deriving Repr, DecidableEq

/-- Some star is followed by two blanks. -/
def hasWideStar : List Char → Bool
  | [] => false
  | c :: cs => (c == '*' && decide (2 ≤ (cs.takeWhile Text.isBlank).length)) || hasWideStar cs

namespace TypedRow

/-- The word of the annotation. -/
def word : TypedRow → List Char
  | .param .. => "param".toList
  | .result false .. => "return".toList
  | .result true .. => "returns".toList

/-- The type in braces. -/
def type : TypedRow → List Char
  | .param type _ _ | .result _ type _ => type

/-- The name of a parameter. -/
def name? : TypedRow → Option (List Char)
  | .param _ name _ => some name
  | .result .. => none

/-- The description at the end of the row. -/
def description : TypedRow → List Char
  | .param _ _ description | .result _ _ description => description

/-- What stands behind the type. -/
def tail : TypedRow → List Char
  | .param _ name description => ' ' :: (name ++ ' ' :: description)
  | .result _ _ description => ' ' :: description

/-- The row behind its `@`. -/
def line (row : TypedRow) : List Char :=
  (row.word ++ ' ' :: '\x7b' :: row.type) ++ '\x7d' :: row.tail

/-- The row, with the star that opens it. -/
def text (row : TypedRow) : List Char := ' ' :: '*' :: ' ' :: '@' :: row.line

/-- Nothing in the row looks like another row or another annotation: it is one line, it has no
second `@`, no brace behind the type, no closing delimiter and no star with two blanks behind it,
and its description is neither blank nor a star. -/
@[mk_iff]
structure Clear (row : TypedRow) : Prop where
  type_chars : '@' ∉ row.type ∧ '\n' ∉ row.type
  name_chars : ∀ name ∈ row.name?, name ≠ [] ∧ visible name = name ∧
    '@' ∉ name ∧ '\x7d' ∉ name ∧ '*' ∉ name
  description_chars : '@' ∉ row.description ∧ '\n' ∉ row.description ∧ '\x7d' ∉ row.description
  more_than_star : visible row.description ∉ [[], ['*']]
  not_closed : ¬ ['*', '/'] <:+: row.line
  not_wide : hasWideStar row.line = false

/-- It can be decided whether a row is clear. -/
instance (row : TypedRow) : Decidable row.Clear := decidable_of_iff' _ (clear_iff row)

end TypedRow

/-! ## Clear rows -/

/-- A star with blanks around it is all that is to be seen. -/
lemma visible_star {gap pad : List Char} (hgap : ∀ b ∈ gap, Text.isBlank b = true)
    (hpad : ∀ b ∈ pad, Text.isBlank b = true) : visible (gap ++ '*' :: pad) = ['*'] := by
  rw [visible, List.filter_append, List.filter_eq_nil_iff.mpr (by simpa using hgap),
    List.filter_cons_of_pos (by decide), List.filter_eq_nil_iff.mpr (by simpa using hpad)]
  rfl

/-- A text of visible characters has no blanks. -/
lemma isBlank_eq_false_of_visible {text : List Char} (h : visible text = text) :
    ∀ c ∈ text, Text.isBlank c = false := fun c hc => by
  simpa using List.filter_eq_self.mp h c hc

/-- A star before two blanks is wide. -/
lemma hasWideStar_of_eq {b₁ b₂ : Char} (h₁ : Text.isBlank b₁ = true) (h₂ : Text.isBlank b₂ = true)
    (front back : List Char) : hasWideStar (front ++ '*' :: b₁ :: b₂ :: back) = true := by
  induction front with
  | nil => simp [hasWideStar, h₁, h₂]
  | cons c front ih => exact Bool.or_eq_true_iff.mpr (.inr ih)

/-- Two characters in a row lie before a border, on both sides of it, or behind it. -/
lemma two_cases {b₁ b₂ : Char} {back front below : List Char}
    (h : b₁ :: b₂ :: back = front ++ below) :
    (front = [] ∧ below.head? = some b₁) ∨ (front = [b₁] ∧ below.head? = some b₂) ∨
      ∃ more, front = b₁ :: b₂ :: more := by
  rcases front with _ | ⟨c, _ | ⟨d, more⟩⟩
  · exact .inl ⟨rfl, by rw [← show b₁ :: b₂ :: back = below from h]; rfl⟩
  · obtain ⟨rfl, hbelow⟩ := List.cons.inj h
    exact .inr (.inl ⟨rfl, by rw [← show b₂ :: back = below from hbelow]; rfl⟩)
  · obtain ⟨rfl, hmore⟩ := List.cons.inj h
    obtain ⟨rfl, -⟩ := List.cons.inj hmore
    exact .inr (.inr ⟨more, rfl⟩)

/-- The rows below begin with a description: a star with two blanks behind it on its row. -/
def isIndented (below : List Char) : Bool :=
  match below.dropWhile Text.isBlank with
  | '*' :: b₁ :: b₂ :: _ => isInlineBlank b₁ && isInlineBlank b₂
  | _ => false

/-- Blanks, a star and two blanks on its row begin a description. -/
lemma isIndented_of_eq {pad back : List Char} {b₁ b₂ : Char}
    (hpad : ∀ b ∈ pad, Text.isBlank b = true) (h₁ : isInlineBlank b₁ = true)
    (h₂ : isInlineBlank b₂ = true) : isIndented (pad ++ '*' :: b₁ :: b₂ :: back) = true := by
  have hstar : Text.isBlank '*' = false := by decide
  rw [isIndented, List.dropWhile_append_of_pos hpad, List.dropWhile_cons_of_neg (by simp [hstar])]
  simp [h₁, h₂]

/-- A description below begins with blanks, a star and two blanks on its row. -/
lemma exists_of_isIndented {below : List Char} (h : isIndented below = true) :
    ∃ pad b₁ b₂ back, below = pad ++ '*' :: b₁ :: b₂ :: back ∧ (∀ b ∈ pad, Text.isBlank b = true) ∧
      isInlineBlank b₁ = true ∧ isInlineBlank b₂ = true := by
  rw [isIndented] at h
  split at h
  · next b₁ b₂ back hrest =>
    obtain ⟨h₁, h₂⟩ := Bool.and_eq_true_iff.mp h
    refine ⟨below.takeWhile Text.isBlank, b₁, b₂, back, ?_, ?_, h₁, h₂⟩
    · rw [← hrest, List.takeWhile_append_dropWhile]
    · exact fun b hb => List.mem_takeWhile_imp hb
  · simp at h

/-- Behind the first word there is something more to see. -/
def hasTwoWords (text : List Char) : Bool :=
  ((text.dropWhile Text.isBlank).dropWhile fun c => !Text.isBlank c).any fun c => !Text.isBlank c

section

variable {gap word pad : List Char} (hgap : ∀ b ∈ gap, Text.isBlank b = true)
  (hword : ∀ c ∈ word, Text.isBlank c = false) (hpad : ∀ b ∈ pad, Text.isBlank b = true)
include hgap hword hpad

/-- One word with blanks around it is not two words. -/
lemma not_hasTwoWords (hne : word ≠ []) : hasTwoWords (gap ++ (word ++ pad)) = false := by
  obtain ⟨c, cs, rfl⟩ := List.exists_cons_of_ne_nil hne
  have hvisible : ∀ c' ∈ c :: cs, (!Text.isBlank c') = true := fun c' hc' => by simp [hword c' hc']
  have hfirst : ((c :: cs) ++ pad).dropWhile Text.isBlank = (c :: cs) ++ pad :=
    List.dropWhile_cons_of_neg (by simp [hword c (List.mem_cons_self ..)])
  rw [hasTwoWords, List.dropWhile_append_of_pos hgap, hfirst, List.dropWhile_append_of_pos hvisible,
    List.any_eq_false]
  intro b hb
  have hmem := (List.dropWhile_sublist _).subset hb
  simp [hpad b hmem]

/-- One word with blanks around it has no blank between visible characters. -/
lemma ne_of_one_word {u w : List Char} {b : Char} (hb : Text.isBlank b = true)
    (hu : ∃ c ∈ u, Text.isBlank c = false) (hw : ∃ c ∈ w, Text.isBlank c = false) :
    gap ++ (word ++ pad) ≠ u ++ b :: w := by
  intro heq
  obtain ⟨e, -, rfl, hrest⟩ := exists_of_forall_mem heq hgap hu
  have hnot : b ∉ word := fun hmem => by simp [hword b hmem] at hb
  obtain ⟨more, -, rfl⟩ := exists_of_not_mem_left hrest hnot
  obtain ⟨c, hc, hvisible⟩ := hw
  have hblank := hpad c (by simp [hc])
  rw [hvisible] at hblank
  exact absurd hblank (by simp)

end

namespace TypedRow

variable {row : TypedRow}

/-- The word of a row is one of those that keep their descriptions. -/
lemma word_mem (row : TypedRow) : row.word ∈ describedWords := by
  match row with
  | .param .. => exact List.mem_cons_self ..
  | .result false .. => exact List.mem_cons_of_mem _ (List.mem_cons_self ..)
  | .result true .. => exact List.mem_cons_of_mem _ (List.mem_cons_of_mem _ (List.mem_cons_self ..))

/-- The row has a blank behind its type. -/
lemma exists_tail (row : TypedRow) : ∃ rest, row.tail = ' ' :: rest ∧
    row.description <:+ rest := by
  cases row with
  | param type name description =>
    exact ⟨name ++ ' ' :: description, rfl, (List.suffix_cons ..).trans (List.suffix_append ..)⟩
  | result plural type description => exact ⟨description, rfl, List.suffix_refl _⟩

namespace Clear

/-- Behind the type of a clear row there is no `@`, no line break and no closing brace. -/
lemma not_mem_tail (h : row.Clear) : '@' ∉ row.tail ∧ '\n' ∉ row.tail ∧ '\x7d' ∉ row.tail := by
  obtain ⟨hat, hbreak, hbrace⟩ := h.description_chars
  cases row with
  | param type name description =>
    obtain ⟨-, hname, hatName, hbraceName, -⟩ := h.name_chars name rfl
    have hbreakName : '\n' ∉ name := fun hmem =>
      absurd (isBlank_eq_false_of_visible hname '\n' hmem) (by decide)
    simp only [TypedRow.description] at hat hbreak hbrace
    simp [tail, hat, hbreak, hbrace, hatName, hbreakName, hbraceName]
  | result plural type description =>
    simp only [TypedRow.description] at hat hbreak hbrace
    simp [tail, hat, hbreak, hbrace]

/-- The description of a clear row has a visible character. -/
lemma exists_visible (h : row.Clear) : ∃ c ∈ row.description, Text.isBlank c = false := by
  have hne : visible row.description ≠ [] := fun hnil => h.more_than_star (by simp [hnil])
  obtain ⟨c, hc⟩ := List.exists_mem_of_ne_nil _ hne
  obtain ⟨hmem, hvisible⟩ := List.mem_filter.mp hc
  exact ⟨c, hmem, by simpa using hvisible⟩

/-- What stands behind the type of a clear row has a visible character. -/
lemma exists_visible_tail (h : row.Clear) : ∃ c ∈ row.tail, Text.isBlank c = false := by
  obtain ⟨c, hc, hvisible⟩ := h.exists_visible
  obtain ⟨rest, htail, hsuffix⟩ := row.exists_tail
  exact ⟨c, by rw [htail]; exact List.mem_cons_of_mem _ (hsuffix.subset hc), hvisible⟩

/-- What is to be seen behind the type is more than a star. -/
lemma visible_tail_ne (h : row.Clear) : visible row.tail ≠ ['*'] := by
  have hspace : ∀ cs, visible (' ' :: cs) = visible cs := fun cs => visible_append [' '] cs
  cases row with
  | result plural type description =>
    intro heq
    rw [tail, hspace] at heq
    exact h.more_than_star (by simp [TypedRow.description, heq])
  | param type name description =>
    intro heq
    obtain ⟨hne, hname, -, -, hstar⟩ := h.name_chars name rfl
    rw [tail, hspace, visible_append, hname] at heq
    -- the name would be the star
    obtain ⟨c, cs, rfl⟩ := List.exists_cons_of_ne_nil hne
    obtain ⟨rfl, -⟩ := List.cons.inj heq
    simp at hstar

/-- Behind its `@` a clear row has no other `@` and no line break. -/
lemma not_mem_line (h : row.Clear) : '@' ∉ row.line ∧ '\n' ∉ row.line := by
  obtain ⟨hat, hbreak, -⟩ := h.not_mem_tail
  obtain ⟨hatWord, -, hbreakWord⟩ := not_mem_of_mem_describedWords row.word row.word_mem
  obtain ⟨hatType, hbreakType⟩ := h.type_chars
  constructor
  · simp [line, hat, hatWord, hatType]
  · simp [line, hbreak, hbreakWord, hbreakType]

/-- **What comes behind a brace of the row** is its tail, or a part of the type and then the
tail. -/
lemma eq_tail_or (h : row.Clear) {x y : List Char} (heq : row.line = x ++ '\x7d' :: y) :
    y = row.tail ∨ ∃ more, y = more ++ '\x7d' :: row.tail := by
  obtain ⟨-, -, hbrace⟩ := h.not_mem_tail
  rw [line] at heq
  rcases List.append_eq_append_iff.mp heq with ⟨more, -, hmore⟩ | ⟨more, -, hmore⟩
  · cases more with
    | nil => exact .inl (List.cons.inj hmore).2.symm
    | cons c more =>
      obtain ⟨-, htail⟩ := List.cons.inj hmore
      exact absurd (by rw [htail]; simp) hbrace
  · cases more with
    | nil => exact .inl (List.cons.inj hmore).2
    | cons c more => exact .inr ⟨more, (List.cons.inj hmore).2⟩

/-- Behind every closing brace of a clear row there is a visible character. -/
lemma exists_visible_behind (h : row.Clear) {x y : List Char} (heq : row.line = x ++ '\x7d' :: y) :
    ∃ c ∈ y, Text.isBlank c = false := by
  obtain ⟨c, hc, hvisible⟩ := h.exists_visible_tail
  rcases h.eq_tail_or heq with rfl | ⟨more, rfl⟩
  · exact ⟨c, hc, hvisible⟩
  · exact ⟨c, by simp [hc], hvisible⟩

/-- What is to be seen behind a brace of the row is more than a star. -/
lemma visible_behind_ne (h : row.Clear) {x y : List Char} (heq : row.line = x ++ '\x7d' :: y) :
    visible y ≠ ['*'] := by
  intro hvisible
  rcases h.eq_tail_or heq with rfl | ⟨more, rfl⟩
  · exact h.visible_tail_ne hvisible
  · have hbrace : '\x7d' ∈ visible (more ++ '\x7d' :: row.tail) :=
      List.mem_filter.mpr ⟨by simp, by decide⟩
    rw [hvisible] at hbrace
    exact absurd hbrace (by decide)

/-- No star of the row has two blanks behind it. -/
lemma ne_of_wide_star (h : row.Clear) {b₁ b₂ : Char} (h₁ : Text.isBlank b₁ = true)
    (h₂ : Text.isBlank b₂ = true) (front back : List Char) :
    row.line ≠ front ++ '*' :: b₁ :: b₂ :: back := by
  intro heq
  have hwide := hasWideStar_of_eq h₁ h₂ front back
  rw [← heq, h.not_wide] at hwide
  exact absurd hwide (by simp)

/-! ## No description is seen in the row -/

section

variable {below x y : List Char}

/-- **No description is seen below the type of the row.** -/
lemma not_proseAfterType (h : row.Clear) (heq : row.line = x ++ '\x7d' :: y)
    {gap indent back : List Char} (hgap : ∀ b ∈ gap, Text.isBlank b = true)
    (hindent : ∀ b ∈ indent, Text.isBlank b = true) (hlong : 2 ≤ indent.length) :
    gap ++ '*' :: (indent ++ back) ≠ y ++ below := by
  intro hread
  obtain ⟨e, hne, rfl, hstar⟩ := exists_of_forall_mem hread hgap (h.exists_visible_behind heq)
  obtain ⟨c, e, rfl⟩ := List.exists_cons_of_ne_nil hne
  obtain ⟨rfl, hblanks⟩ := List.cons.inj hstar
  obtain ⟨b₁, b₂, indent, rfl⟩ : ∃ b₁ b₂ more, indent = b₁ :: b₂ :: more := by
    rcases indent with _ | ⟨b₁, _ | ⟨b₂, more⟩⟩
    · simp at hlong
    · simp at hlong
    · exact ⟨b₁, b₂, more, rfl⟩
  have hb₁ := hindent b₁ (by simp)
  -- a star before the end of the row, or almost there, is all that is to be seen
  have hlone : (∀ b ∈ e, Text.isBlank b = true) → False := fun hblank =>
    h.visible_behind_ne heq (visible_star hgap hblank)
  rcases two_cases hblanks with ⟨rfl, -⟩ | ⟨rfl, -⟩ | ⟨e, rfl⟩
  · exact hlone (by simp)
  · exact hlone (by simpa using hb₁)
  · exact h.ne_of_wide_star hb₁ (hindent b₂ (by simp)) (x ++ '\x7d' :: gap) e (by simp [heq])

/-- **No description is seen below the first word behind the type of the row**, if there is a second
one or the row below does not begin with a description. -/
lemma not_proseAfterName (h : row.Clear) (hend : EndsLine below)
    (hjoin : hasTwoWords row.tail = true ∨ isIndented below = false)
    (heq : row.line = x ++ '\x7d' :: y) {gap word pad back : List Char} {b₁ b₂ : Char}
    (hgap : ∀ b ∈ gap, Text.isBlank b = true) (hne : word ≠ [])
    (hword : ∀ c ∈ word, Text.isBlank c = false) (hpad : ∀ b ∈ pad, Text.isBlank b = true)
    (hb₁ : isInlineBlank b₁ = true) (hb₂ : isInlineBlank b₂ = true) :
    gap ++ (word ++ (pad ++ '*' :: b₁ :: b₂ :: back)) ≠ y ++ below := by
  intro hread
  obtain ⟨e, -, rfl, hbehind⟩ := exists_of_forall_mem hread hgap (h.exists_visible_behind heq)
  -- the word ends on the row
  have hbreakWord : '\n' ∉ word := fun hmem => absurd (hword '\n' hmem) (by decide)
  obtain ⟨e, rfl, hafter⟩ := exists_of_no_break hbehind hbreakWord hend
  by_cases hmore : ∃ c ∈ e, Text.isBlank c = false
  · -- so does what comes between it and the star, and the star and its blanks
    obtain ⟨e', -, rfl, hstar⟩ := exists_of_forall_mem hafter hpad hmore
    simp only [isInlineBlank, Bool.and_eq_true, bne_iff_ne] at hb₁ hb₂
    have hbreakStar : '\n' ∉ ['*', b₁, b₂] := by simp [hb₁.1.2.symm, hb₂.1.2.symm]
    obtain ⟨more, rfl, -⟩ := @exists_of_no_break e' below ['*', b₁, b₂] back hstar hbreakStar hend
    exact h.ne_of_wide_star hb₁.1.1 hb₂.1.1 (x ++ '\x7d' :: (gap ++ (word ++ pad))) more
      (by simp [heq])
  · -- the row has nothing behind the word, so the star opens the row below
    have hblank : ∀ b ∈ e, Text.isBlank b = true := by simpa using hmore
    have hstar : '*' ∉ e := fun hmem => absurd (hblank '*' hmem) (by decide)
    obtain ⟨pad', rfl, hbelow⟩ := exists_of_not_mem_left hafter.symm hstar
    have hindented : isIndented below = true := by
      rw [hbelow]
      exact isIndented_of_eq (fun b hb => hpad b (by simp [hb])) hb₁ hb₂
    rcases h.eq_tail_or heq with htail | ⟨more, htail⟩
    · have hone := not_hasTwoWords hgap hword hblank hne
      rw [htail] at hone
      simp [hone, hindented] at hjoin
    · obtain ⟨rest, hrow, hsuffix⟩ := row.exists_tail
      obtain ⟨c, hc, hvisible⟩ := h.exists_visible
      refine ne_of_one_word hgap hword hblank (b := ' ') (by decide)
        ⟨'\x7d', by simp, by decide⟩ ⟨c, hsuffix.subset hc, hvisible⟩ (u := more ++ ['\x7d']) ?_
      simp [htail, hrow]

end

end Clear

end TypedRow

/-! ## Matches that begin with a brace -/

/-- The rows below have an `@` before their first closing brace, if there is one. -/
def closesLate (below : List Char) : Bool :=
  !below.contains '\x7d' || (below.takeWhile (· != '\x7d')).contains '@'

/-- Before each closing brace there is an `@`. -/
lemma mem_of_closesLate {below x y : List Char} (h : closesLate below = true)
    (heq : below = x ++ '\x7d' :: y) : '@' ∈ x := by
  rcases Bool.or_eq_true_iff.mp h with hnone | hat
  · simp [heq] at hnone
  · have hmem := List.contains_iff_mem.mp hat
    rw [heq, List.takeWhile_append] at hmem
    split at hmem
    · simpa using hmem
    · exact (List.takeWhile_sublist _).subset hmem

section

variable {p : Pattern} {value : Found → List Char} {below out : List Char}

/-- Up to the first closing brace nothing changes, if all matches and values begin with one. -/
lemma takeWhile_of_rewrites (h : p.Rewrites value below out)
    (hbrace : ∀ m v rest, p.Swaps value m v rest →
      (∃ m', m = '\x7d' :: m') ∧ ∃ v', v = '\x7d' :: v') :
    out.takeWhile (· != '\x7d') = below.takeWhile (· != '\x7d') := by
  induction h with
  | nil => rfl
  | keep _ _ ih => rw [List.takeWhile_cons, List.takeWhile_cons, ih]
  | swap hm _ _ =>
    obtain ⟨⟨m', rfl⟩, v', rfl⟩ := hbrace _ _ _ hm
    rfl

/-- Whether a description begins below depends on the text up to the next closing brace only. -/
lemma isIndented_of_takeWhile
    (h : out.takeWhile (· != '\x7d') = below.takeWhile (· != '\x7d'))
    (hout : isIndented out = true) : isIndented below = true := by
  obtain ⟨pad, b₁, b₂, back, rfl, hpad, hb₁, hb₂⟩ := exists_of_isIndented hout
  have hblank : ∀ b, Text.isBlank b = true → (b != '\x7d') = true := by
    intro b hb
    rw [bne_iff_ne]
    rintro rfl
    exact absurd hb (by decide)
  have hinline : ∀ b, isInlineBlank b = true → (b != '\x7d') = true := by
    intro b hb
    simp only [isInlineBlank, Bool.and_eq_true] at hb
    exact hblank b hb.1.1
  have hopening : (pad ++ '*' :: b₁ :: b₂ :: back).takeWhile (· != '\x7d') =
      pad ++ '*' :: b₁ :: b₂ :: back.takeWhile (· != '\x7d') := by
    rw [List.takeWhile_append_of_pos fun b hb => hblank b (hpad b hb)]
    simp [hinline b₁ hb₁, hinline b₂ hb₂]
  rw [hopening] at h
  rw [← List.takeWhile_append_dropWhile (p := (· != '\x7d')) (l := below), ← h]
  simpa using isIndented_of_eq hpad hb₁ hb₂

/-- The rows `out` cause no more trouble below a row than the rows `below`. -/
structure Milder (out below : List Char) : Prop where
  endsLine : EndsLine below → EndsLine out
  not_mem : '\x7d' ∉ below → '\x7d' ∉ out
  closesLate : closesLate below = true → closesLate out = true
  isIndented : isIndented out = true → isIndented below = true

/-- **Rewriting makes the rows below milder**, if all matches and values begin with a brace. -/
lemma milder_of_rewrites (h : p.Rewrites value below out)
    (hbrace : ∀ m v rest, p.Swaps value m v rest →
      (∃ m', m = '\x7d' :: m') ∧ ∃ v', v = '\x7d' :: v') : Milder out below := by
  have hfront := takeWhile_of_rewrites h hbrace
  have hmem : '\x7d' ∉ below → '\x7d' ∉ out := by
    refine h.edits.not_mem ?_
    rintro m v ⟨rest, hm⟩ -
    obtain ⟨⟨m', rfl⟩, -⟩ := hbrace m v rest hm
    exact List.mem_cons_self ..
  refine ⟨endsLine_of_rewrites h ?_, hmem, ?_, isIndented_of_takeWhile hfront⟩
  · intro m v rest hm
    obtain ⟨⟨m', rfl⟩, -⟩ := hbrace m v rest hm
    exact ⟨_, m', rfl, by decide⟩
  · intro hbelow
    rcases Bool.or_eq_true_iff.mp hbelow with hnone | hat
    · have hnone' := hmem (by simpa using hnone)
      exact Bool.or_eq_true_iff.mpr (.inl (by simpa using hnone'))
    · rw [← hfront] at hat
      exact Bool.or_eq_true_iff.mpr (.inr hat)

end

section

variable {row : TypedRow} {front below pre back : List Char}

/-- **Where a match lies that begins with a brace**: before a row, in it or below it. -/
lemma brace_cases (heq : pre ++ '\x7d' :: back = front ++ (' ' :: '@' :: row.line ++ below)) :
    (∃ a, front = pre ++ '\x7d' :: a ∧ back = a ++ (' ' :: '@' :: row.line ++ below)) ∨
      (∃ x y, row.line = x ++ '\x7d' :: y ∧ back = y ++ below) ∨
      ∃ mid, pre = front ++ (' ' :: '@' :: row.line ++ mid) := by
  rcases cases_of_append_cons heq with hbefore | ⟨e, rfl, hrow⟩
  · exact .inl hbefore
  · rcases e with _ | ⟨d, _ | ⟨d', e⟩⟩
    · simp at hrow
    · simp at hrow
    · obtain ⟨rfl, hbehind⟩ := List.cons.inj hrow
      obtain ⟨rfl, hline⟩ := List.cons.inj hbehind
      rcases cases_of_append_cons hline.symm with ⟨y, hline, hback⟩ | ⟨mid, rfl, -⟩
      · exact .inr (.inl ⟨e, y, hline, hback⟩)
      · exact .inr (.inr ⟨mid, rfl⟩)

/-- A match before the row ends before it, unless it reaches over the blank before the row's `@`. -/
lemma exists_of_border {a m rest back : List Char} (heq : m ++ rest = a ++ ' ' :: '@' :: back) :
    (∃ mid, a = m ++ mid) ∨ m = a ++ [' '] ∨ ∃ more, m = a ++ ' ' :: '@' :: more := by
  rcases List.append_eq_append_iff.mp heq with ⟨mid, rfl, -⟩ | ⟨m', rfl, hm'⟩
  · exact .inl ⟨mid, rfl⟩
  · rcases m' with _ | ⟨d, _ | ⟨d', m'⟩⟩
    · exact .inl ⟨[], by simp⟩
    · obtain ⟨rfl, -⟩ := List.cons.inj hm'
      exact .inr (.inl rfl)
    · obtain ⟨rfl, hat⟩ := List.cons.inj hm'
      obtain ⟨rfl, -⟩ := List.cons.inj hat
      exact .inr (.inr ⟨m', rfl⟩)

/-- **A description that is moved up behind a type** does not reach over the blank before an `@`: it
is visible and does not begin with the `@`. -/
lemma exists_of_prose {gap indent more a rest back : List Char} {c : Char}
    (hgap : ∀ b ∈ gap, Text.isBlank b = true) (hindent : ∀ b ∈ indent, Text.isBlank b = true)
    (hprose : ∀ d ∈ c :: more, Text.isBlank d = false) (hc : c ≠ '@')
    (heq : ('\x7d' :: (gap ++ '*' :: indent)) ++ (c :: more) ++ rest = a ++ ' ' :: '@' :: back) :
    ∃ mid, a = ('\x7d' :: (gap ++ '*' :: indent)) ++ (c :: more) ++ mid := by
  have hvisible : ' ' ∉ c :: more := fun hmem => absurd (hprose ' ' hmem) (by decide)
  rcases exists_of_border heq with hin | hborder | ⟨beyond, hborder⟩
  · exact hin
  · obtain ⟨d, -, hd⟩ := exists_of_not_mem_right hborder hvisible
    simp at hd
  · -- the description would begin with the `@`, or hold the blank before it
    have hat : '@' ∉ '\x7d' :: (gap ++ '*' :: indent) := by
      have hatGap : '@' ∉ gap := fun hmem => absurd (hgap '@' hmem) (by decide)
      have hatIndent : '@' ∉ indent := fun hmem => absurd (hindent '@' hmem) (by decide)
      simp [hatGap, hatIndent]
    have hborder : ('\x7d' :: (gap ++ '*' :: indent)) ++ (c :: more) =
        (a ++ [' ']) ++ '@' :: beyond := by simpa using hborder
    obtain ⟨q, hq, hfirst⟩ := exists_of_not_mem_left hborder hat
    cases q with
    | nil => exact absurd (List.cons.inj hfirst).1 hc
    | cons d q =>
      have hblank : ' ' ∉ d :: q := fun hmem =>
        hvisible (by rw [hfirst]; exact List.mem_append_left _ hmem)
      obtain ⟨d', -, hd'⟩ := exists_of_not_mem_right hq.symm hblank
      simp at hd'

/-- **The opening of a row that goes when a description is moved up behind a name** does not reach
over the star and the blank before an `@`: there are two blanks behind its star, and the name before
it holds no blank. -/
lemma exists_of_name {gap word pad blanks a rest back : List Char}
    (hgap : ∀ b ∈ gap, Text.isBlank b = true) (hword : ∀ c ∈ word, Text.isBlank c = false)
    (hpad : ∀ b ∈ pad, Text.isBlank b = true) (hblanks : ∀ b ∈ blanks, isInlineBlank b = true)
    (hlong : 2 ≤ blanks.length)
    (heq : ('\x7d' :: gap ++ word) ++ (pad ++ '*' :: blanks) ++ rest =
      (a ++ ['*']) ++ ' ' :: '@' :: back) :
    ∃ mid, a ++ ['*'] = ('\x7d' :: gap ++ word) ++ (pad ++ '*' :: blanks) ++ mid := by
  rcases exists_of_border heq with hin | hborder | ⟨beyond, hborder⟩
  · exact hin
  · have hstar : '*' ∉ blanks := fun hmem => absurd (hblanks '*' hmem) (by decide)
    have hborder : ('\x7d' :: gap ++ word ++ (pad ++ ['*'])) ++ blanks = a ++ '*' :: [' '] := by
      simpa using hborder
    obtain ⟨d, -, hd⟩ := exists_of_not_mem_right hborder hstar
    have hlen := congrArg List.length hd
    simp only [List.length_append, List.length_cons, List.length_nil] at hlen
    omega
  · -- the word would hold the blank before the `@`, or follow a gap with a star in it
    have hatPad : '@' ∉ pad ++ '*' :: blanks := by
      have hatPad : '@' ∉ pad := fun hmem => absurd (hpad '@' hmem) (by decide)
      have hatBlanks : '@' ∉ blanks := fun hmem => absurd (hblanks '@' hmem) (by decide)
      simp [hatPad, hatBlanks]
    have hatGap : '@' ∉ '\x7d' :: gap := by
      have hatGap : '@' ∉ gap := fun hmem => absurd (hgap '@' hmem) (by decide)
      simp [hatGap]
    have hborder : ('\x7d' :: gap ++ word) ++ (pad ++ '*' :: blanks) =
        (a ++ ['*'] ++ [' ']) ++ '@' :: beyond := by simpa using hborder
    obtain ⟨d, hd, -⟩ := exists_of_not_mem_right hborder hatPad
    obtain ⟨q, hq, hfirst⟩ := exists_of_not_mem_left hd hatGap
    cases q with
    | nil =>
      have hstar : '*' ∈ '\x7d' :: gap := by
        rw [List.append_nil] at hq
        rw [← hq]
        simp
      rcases List.mem_cons.mp hstar with hstar | hstar
      · exact absurd hstar (by decide)
      · exact absurd (hgap '*' hstar) (by decide)
    | cons e q =>
      have hspace : ' ' ∉ word := fun hmem => absurd (hword ' ' hmem) (by decide)
      have hblank : ' ' ∉ e :: q := fun hmem =>
        hspace (by rw [hfirst]; exact List.mem_append_left _ hmem)
      obtain ⟨d', -, hd'⟩ := exists_of_not_mem_right hq.symm hblank
      simp at hd'

end

/-! ## Moving descriptions up -/

namespace TypedRow

variable {row : TypedRow} {front below : List Char}

/-- **Moving descriptions up behind a type leaves a clear row alone.** -/
lemma Clear.sides_proseAfterType (h : row.Clear) {pre m v rest : List Char}
    (heq : pre ++ (m ++ rest) = (front ++ ['*']) ++ (' ' :: '@' :: row.line ++ below))
    (hm : Rules.proseAfterType.Swaps proseValue m v rest) :
    (∃ mid, front ++ ['*'] = pre ++ (m ++ mid)) ∨
      ∃ mid, pre = (front ++ ['*']) ++ (' ' :: '@' :: row.line ++ mid) := by
  obtain ⟨s, f, -, -, hleads, -⟩ := hm.exists_leads (by decide)
  obtain ⟨gap, indent, c, more, rfl, hgap, hindent, hlong, hprose, hnext, -⟩ :=
    exists_of_leads_proseAfterType hleads
  rcases brace_cases heq with ⟨a, hfront, hback⟩ | ⟨x, y, hline, hback⟩ | hbehind
  · have hsplit : ('\x7d' :: (gap ++ '*' :: indent)) ++ (c :: more) ++ rest =
        ('\x7d' :: a) ++ ' ' :: '@' :: (row.line ++ below) := by simpa using hback
    have hc : c ≠ '@' := by
      rintro rfl
      simp at hnext
    obtain ⟨mid, hmid⟩ := exists_of_prose hgap hindent hprose hc hsplit
    exact .inl ⟨mid, by simp [hfront, hmid]⟩
  · have hread : gap ++ '*' :: (indent ++ (c :: more ++ rest)) = y ++ below := by simpa using hback
    exact absurd hread (h.not_proseAfterType hline hgap hindent hlong)
  · exact .inr hbehind

/-- **Moving descriptions up behind a name leaves a clear row alone**, if its own description is not
continued by the row below. -/
lemma Clear.sides_proseAfterName (h : row.Clear) (hend : EndsLine below)
    (hjoin : hasTwoWords row.tail = true ∨ isIndented below = false) {pre m v rest : List Char}
    (heq : pre ++ (m ++ rest) = (front ++ ['*']) ++ (' ' :: '@' :: row.line ++ below))
    (hm : Rules.proseAfterName.Swaps nameValue m v rest) :
    (∃ mid, front ++ ['*'] = pre ++ (m ++ mid)) ∨
      ∃ mid, pre = (front ++ ['*']) ++ (' ' :: '@' :: row.line ++ mid) := by
  obtain ⟨s, f, -, -, hleads, -⟩ := hm.exists_leads (by decide)
  obtain ⟨gap, word, pad, b₁, b₂, more, rfl, -, hgap, hne, hword, hpad, hblanks, -⟩ :=
    exists_of_leads_proseAfterName hleads
  rcases brace_cases heq with ⟨a, hfront, hback⟩ | ⟨x, y, hline, hback⟩ | hbehind
  · -- what stands before the row ends with a star
    obtain ⟨a', ha'⟩ : ∃ a', '\x7d' :: a = a' ++ ['*'] := by
      have hlast : (pre ++ '\x7d' :: a).getLast? = some '*' := by simp [← hfront]
      rw [List.getLast?_append_of_ne_nil _ (by simp)] at hlast
      exact List.getLast?_eq_some_iff.mp hlast
    have hsplit : ('\x7d' :: gap ++ word) ++ (pad ++ '*' :: b₁ :: b₂ :: more) ++ rest =
        (a' ++ ['*']) ++ ' ' :: '@' :: (row.line ++ below) := by
      rw [← ha']
      simpa using hback
    obtain ⟨mid, hmid⟩ := exists_of_name hgap hword hpad hblanks (by simp) hsplit
    exact .inl ⟨mid, by simp [hfront, ha', hmid]⟩
  · have hread : gap ++ (word ++ (pad ++ '*' :: b₁ :: b₂ :: (more ++ rest))) = y ++ below := by
      simpa using hback
    exact absurd hread (h.not_proseAfterName hend hjoin hline hgap hne hword hpad
      (hblanks b₁ (by simp)) (hblanks b₂ (by simp)))
  · exact .inr hbehind

/-- A match behind a type and its value begin with a brace, and they end with the same character. -/
lemma of_swaps_proseAfterType {m v rest : List Char}
    (hm : Rules.proseAfterType.Swaps proseValue m v rest) :
    ((∃ m', m = '\x7d' :: m') ∧ ∃ v', v = '\x7d' :: v') ∧ v.getLast? = m.getLast? := by
  obtain ⟨s, f, -, -, hleads, -, -, rfl⟩ := hm.exists_leads (by decide)
  obtain ⟨gap, indent, c, more, rfl, -, -, -, -, -, hprose⟩ := exists_of_leads_proseAfterType hleads
  have hvalue : proseValue f = ['\x7d', ' '] ++ (c :: more) := by
    rw [proseValue, Found.captured, Found.captured?, hprose]
    rfl
  have hmatch : '\x7d' :: (gap ++ '*' :: (indent ++ c :: more)) =
      ('\x7d' :: (gap ++ '*' :: indent)) ++ (c :: more) := by simp
  refine ⟨⟨⟨_, rfl⟩, _, hvalue⟩, ?_⟩
  rw [hvalue, hmatch, List.getLast?_append_of_ne_nil _ (by simp),
    List.getLast?_append_of_ne_nil _ (by simp)]

/-- Pulling up the prose behind a name keeps the closing brace in front. -/
lemma of_swaps_proseAfterName {m v rest : List Char}
    (hm : Rules.proseAfterName.Swaps nameValue m v rest) :
    (∃ m', m = '\x7d' :: m') ∧ ∃ v', v = '\x7d' :: v' := by
  obtain ⟨s, f, -, -, hleads, -, -, rfl⟩ := hm.exists_leads (by decide)
  obtain ⟨gap, word, pad, b₁, b₂, more, rfl, -⟩ := exists_of_leads_proseAfterName hleads
  exact ⟨⟨_, rfl⟩, _, rfl⟩

/-- **Moving descriptions up leaves a clear row alone**, if its own description is not continued by
the row below.  Nothing is named before the row that was not named there, and the rows below cause
no more trouble than before.

**Proof sketch.** Both rewritings leave the row alone.  The first one keeps the star that opens the
row, also if the star is the end of a description that is moved up; so the second one does not take
the row's annotation for a name. -/
lemma Clear.exists_pullUpProse (h : row.Clear) (hend : EndsLine below)
    (hjoin : hasTwoWords row.tail = true ∨ isIndented below = false) (above : List Char) :
    ∃ above' below', pullUpProse (above ++ (row.text ++ below)) =
        above' ++ '@' :: (row.line ++ below') ∧
      Duller typedefWord above' above ∧ EndsLine below' ∧ ('\x7d' ∉ below → '\x7d' ∉ below') ∧
      (closesLate below = true → closesLate below' = true) := by
  have hletters := isLetter_of_mem_typedefWord
  have hdull : ∀ text gap : List Char, (∀ c ∈ gap, isGap c = true) →
      Duller typedefWord (text ++ gap) text := by
    intro text gap hgap
    have happend := (Duller.of_gap hletters hgap).append text
    rwa [List.append_nil] at happend
  have hopening := hdull above [' ', '*'] (List.all_eq_true.mp (by decide))
  have hspace := fun text => hdull text [' '] (List.all_eq_true.mp (by decide))
  rcases rewrites_pullUpProse (above ++ (row.text ++ below)) with hsame | ⟨mid, htype, hname⟩
  · refine ⟨above ++ [' ', '*'] ++ [' '], below, ?_, (hspace _).trans hopening, hend, id, id⟩
    rw [hsame]
    simp [text]
  · have htext : above ++ (row.text ++ below) =
        ((above ++ [' ']) ++ ['*']) ++ ((' ' :: '@' :: row.line) ++ below) := by simp [text]
    rw [htext] at htype
    obtain ⟨front₁, below₁, rfl, hfront₁, hbelow₁⟩ := htype.spare
      (fun m v rest hm => by
        obtain ⟨⟨⟨m', rfl⟩, -⟩, -⟩ := of_swaps_proseAfterType hm
        simp)
      (fun pre m v rest heq hm => h.sides_proseAfterType heq hm)
    obtain ⟨front₁, rfl⟩ : ∃ cs, front₁ = cs ++ ['*'] := by
      have hlast := hfront₁.getLast?_eq fun m v ⟨rest, hm⟩ => (of_swaps_proseAfterType hm).2
      rw [List.getLast?_append_of_ne_nil _ (by simp)] at hlast
      exact List.getLast?_eq_some_iff.mp hlast
    have hmild₁ := milder_of_rewrites hbelow₁ fun m v rest hm => (of_swaps_proseAfterType hm).1
    have hjoin₁ : hasTwoWords row.tail = true ∨ isIndented below₁ = false :=
      hjoin.imp_right fun hnot => by
        by_contra hindented
        rw [hmild₁.isIndented (by simpa using hindented)] at hnot
        exact absurd hnot (by simp)
    obtain ⟨front₂, below₂, hout, hfront₂, hbelow₂⟩ := hname.spare
      (fun m v rest hm => by
        obtain ⟨⟨m', rfl⟩, -⟩ := of_swaps_proseAfterName hm
        simp)
      (fun pre m v rest heq hm =>
        h.sides_proseAfterName (hmild₁.endsLine hend) hjoin₁ heq hm)
    have hmild₂ := milder_of_rewrites hbelow₂ fun m v rest hm => of_swaps_proseAfterName hm
    have hduller : Duller typedefWord (front₂ ++ [' ']) above := by
      have hopening : Duller typedefWord (above ++ [' '] ++ ['*']) above := by
        simpa using hopening
      exact (((hspace front₂).trans (duller_of_proseAfterName hletters hfront₂)).trans
        (duller_of_proseAfterType hletters hfront₁)).trans hopening
    exact ⟨front₂ ++ [' '], below₂, by simp [hout], hduller, hmild₂.endsLine (hmild₁.endsLine hend),
      hmild₂.not_mem ∘ hmild₁.not_mem, hmild₂.closesLate ∘ hmild₁.closesLate⟩

end TypedRow

end Marginalia.Filter
