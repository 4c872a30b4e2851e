import Marginalia.Proofs.Comment.Idempotence
import Marginalia.Proofs.Pattern.Pieces
import Marginalia.Proofs.Pattern.Rewriting

/-!
# Which descriptions are moved up

Before the rules are applied, a description on the row below an annotation is moved onto the
annotation's row.  Rows without a description should stay as they are, but where the next row begins
is decided by blanks and stars alone.  So an empty row below a type is joined with the row behind
it, and so is an indented annotation below a name.

Here is exactly which texts are changed, and a shape of rows that is safe.

## Main definitions

* `Filter.ProseBelowType`, `Filter.ProseBelowName` — the two places where a description is seen.
* `Filter.starsTight` — rows in which every star is followed by something visible.

## Main results

* `Filter.find?_proseAfterType_iff`, `Filter.find?_proseAfterName_iff` — what the two patterns find.
* `Filter.pullUpProse_eq_self_iff` — when a comment stays as it is.
-/

namespace Marginalia.Filter

open Pattern

/-! ## Two places where a description is seen -/

/-- A blank that does not end a line. -/
def isInlineBlank (c : Char) : Bool := Text.isBlank c && c != '\n' && c != '\r'

/-- A description below a type: behind a closing brace there are only blanks up to a star, and two
blanks or more behind that a visible character other than `@`, `,` and `/`. -/
def ProseBelowType (text : List Char) : Prop :=
  ∃ front gap indent c back,
    text = front ++ '\x7d' :: (gap ++ '*' :: (indent ++ c :: back)) ∧
    (∀ b ∈ gap, Text.isBlank b = true) ∧ (∀ b ∈ indent, Text.isBlank b = true) ∧
    2 ≤ indent.length ∧ Text.isBlank c = false ∧ c ∉ ['@', ',', '/']

/-- A description below a name: behind a closing brace there is one word up to a star, and right
behind that two blanks on the same line. -/
def ProseBelowName (text : List Char) : Prop :=
  ∃ front gap word pad b₁ b₂ back,
    text = front ++ '\x7d' :: (gap ++ (word ++ (pad ++ '*' :: b₁ :: b₂ :: back))) ∧
    gap ≠ [] ∧ (∀ b ∈ gap, Text.isBlank b = true) ∧
    word ≠ [] ∧ (∀ c ∈ word, Text.isBlank c = false) ∧ (∀ b ∈ pad, Text.isBlank b = true) ∧
    isInlineBlank b₁ = true ∧ isInlineBlank b₂ = true

section

variable {c : Char} {text : List Char}

/-- The class of the pattern has the blanks that do not end a line. -/
@[simp]
lemma has_inlineBlank :
    CharClass.has ⟨true, [.category .blank true, .char '\n', .char '\r', .char '@', .char '/']⟩ c =
      isInlineBlank c := by
  by_cases hc : c = '@' ∨ c = '/'
  · rcases hc with rfl | rfl <;> decide
  · obtain ⟨hat, hslash⟩ := not_or.mp hc
    have hat' : (c == '@') = false := beq_eq_false_iff_ne.mpr hat
    have hslash' : (c == '/') = false := beq_eq_false_iff_ne.mpr hslash
    simp [CharClass.has, ClassItem.has, Category.has, isInlineBlank, hat', hslash', bne,
      Bool.and_assoc]

/-- None of the given characters comes next. -/
lemma run_oneOf_eq_none {cs rest : List Char} {s : Spot} (hs : s.rest = c :: rest) :
    (oneOf cs).run some s = none ↔ c ∉ cs := by
  rw [oneOf, run, hs]
  simp [CharClass.has, ClassItem.has]

/-- **A match below a type** in its parts. -/
lemma exists_of_leads_proseAfterType {s t : Spot} {m : List Char}
    (h : Rules.proseAfterType.Leads s m t) :
    ∃ gap indent c more, m = '\x7d' :: (gap ++ '*' :: (indent ++ c :: more)) ∧
      (∀ b ∈ gap, Text.isBlank b = true) ∧ (∀ b ∈ indent, Text.isBlank b = true) ∧
      2 ≤ indent.length ∧ (∀ d ∈ c :: more, Text.isBlank d = false) ∧ c ∉ ['@', ',', '/'] ∧
      t.captured? (.name "prose") = some (c :: more) := by
  obtain ⟨_, _, _, ⟨brace, _, -, hbrace, rfl, -⟩, ⟨gap, _, _, ⟨hgap, -⟩, ⟨_, _, _,
    ⟨star, _, -, hstar, rfl, -⟩, ⟨indent, _, _, ⟨hindent, hlong, -⟩, ⟨_, _, prose,
    ⟨hnot, rfl, rfl⟩, ⟨_, ⟨hprose, hne, hrest, -⟩, rfl⟩, rfl⟩, rfl⟩, rfl⟩, rfl⟩, rfl⟩ := h
  obtain rfl := CharClass.has_char.mp hbrace
  obtain rfl := CharClass.has_char.mp hstar
  obtain ⟨c, more, rfl⟩ := List.exists_cons_of_ne_nil (List.length_pos_iff.mp hne)
  have hnext : c ∉ ['@', ',', '/', '\n'] := (run_oneOf_eq_none hrest).mp hnot
  refine ⟨gap, indent, c, more, by simp, by simpa using hgap, by simpa using hindent, hlong, ?_,
    fun hmem => hnext (List.mem_append_left ['\n'] hmem), by simp [Spot.captured?]⟩
  intro d hd
  simpa using hprose d hd

/-- **A match below a name** in its parts. -/
lemma exists_of_leads_proseAfterName {s t : Spot} {m : List Char}
    (h : Rules.proseAfterName.Leads s m t) :
    ∃ gap word pad b₁ b₂ more,
      m = '\x7d' :: (gap ++ (word ++ (pad ++ '*' :: b₁ :: b₂ :: more))) ∧
      gap ≠ [] ∧ (∀ b ∈ gap, Text.isBlank b = true) ∧
      word ≠ [] ∧ (∀ c ∈ word, Text.isBlank c = false) ∧ (∀ b ∈ pad, Text.isBlank b = true) ∧
      (∀ b ∈ b₁ :: b₂ :: more, isInlineBlank b = true) ∧
      t.captured? (.name "identifier") = some word := by
  obtain ⟨_, _, _, ⟨brace, _, -, hbrace, rfl, -⟩, ⟨gap, _, _, ⟨hgap, hsome, -⟩, ⟨word, _, _,
    ⟨u, ⟨hword, hne, -⟩, rfl⟩, ⟨pad, v, _, ⟨hpad, -, -, -, hv⟩, ⟨_, w, blanks,
    ⟨star, _, -, hstar, rfl, rfl⟩, ⟨hblanks, htwo, -, -, ht⟩, rfl⟩, rfl⟩, rfl⟩, rfl⟩, rfl⟩ := h
  obtain rfl := CharClass.has_char.mp hbrace
  obtain rfl := CharClass.has_char.mp hstar
  obtain ⟨b₁, b₂, more, rfl⟩ : ∃ b₁ b₂ more, blanks = b₁ :: b₂ :: more := by
    rcases blanks with _ | ⟨b₁, _ | ⟨b₂, more⟩⟩
    · simp at htwo
    · simp at htwo
    · exact ⟨b₁, b₂, more, rfl⟩
  refine ⟨gap, word, pad, b₁, b₂, more, by simp, List.length_pos_iff.mp hsome, by simpa using hgap,
    List.length_pos_iff.mp hne, by simpa using hword, by simpa using hpad, ?_, ?_⟩
  · intro b hb
    simpa using hblanks b hb
  · -- the blanks behind the name capture nothing
    have hcaptures : t.captures = v.captures := ht
    rw [Spot.captured?, hcaptures, hv]
    simp

/-- **What is found below a type.** -/
lemma find?_proseAfterType_iff :
    Rules.proseAfterType.find? text ≠ none ↔ ProseBelowType text := by
  constructor
  · intro hfind
    obtain ⟨f, hf⟩ := Option.ne_none_iff_exists'.mp hfind
    have hfrom : findFrom Rules.proseAfterType false (Spot.atStart text) text = some f := hf
    obtain ⟨htext, s, -, hleads⟩ := leads_of_findFrom (by decide) rfl hfrom
    have htext : text = f.before ++ f.matched ++ f.after.rest := htext
    obtain ⟨gap, indent, c, more, hm, hgap, hindent, hlong, hprose, hnext, -⟩ :=
      exists_of_leads_proseAfterType hleads
    exact ⟨f.before, gap, indent, c, more ++ f.after.rest, by simp [htext, hm], hgap, hindent,
      hlong, hprose c (List.mem_cons_self ..), hnext⟩
  · rintro ⟨front, gap, indent, c, back, rfl, hgap, hindent, hlong, hc, hnext⟩
    have hline : c ≠ '\n' := by
      rintro rfl
      exact absurd hc (by decide)
    refine find?_ne_none_of_reads (by decide) ?_ front (r := back)
    refine ⟨_, ⟨_, CharClass.has_char.mpr rfl, rfl⟩, _,
      ⟨gap, by simpa using hgap, Nat.zero_le _, rfl⟩, _, ⟨_, CharClass.has_char.mpr rfl, rfl⟩, _,
      ⟨indent, by simpa using hindent, hlong, rfl⟩, _,
      ⟨rfl, fun s hs => (run_oneOf_eq_none hs).mpr ?_⟩, [c], by simpa using hc, Nat.le_refl _, rfl⟩
    simp only [List.mem_cons, List.not_mem_nil, or_false] at hnext ⊢
    tauto

/-- **What is found below a name.** -/
lemma find?_proseAfterName_iff :
    Rules.proseAfterName.find? text ≠ none ↔ ProseBelowName text := by
  constructor
  · intro hfind
    obtain ⟨f, hf⟩ := Option.ne_none_iff_exists'.mp hfind
    have hfrom : findFrom Rules.proseAfterName false (Spot.atStart text) text = some f := hf
    obtain ⟨htext, s, -, hleads⟩ := leads_of_findFrom (by decide) rfl hfrom
    have htext : text = f.before ++ f.matched ++ f.after.rest := htext
    obtain ⟨gap, word, pad, b₁, b₂, more, hm, hsome, hgap, hne, hword, hpad, hblanks, -⟩ :=
      exists_of_leads_proseAfterName hleads
    exact ⟨f.before, gap, word, pad, b₁, b₂, more ++ f.after.rest, by simp [htext, hm], hsome, hgap,
      hne, hword, hpad, hblanks b₁ (by simp), hblanks b₂ (by simp)⟩
  · rintro ⟨front, gap, word, pad, b₁, b₂, back, rfl, hsome, hgap, hne, hword, hpad, hb₁, hb₂⟩
    refine find?_ne_none_of_reads (by decide) ?_ front (r := back)
    exact ⟨_, ⟨_, CharClass.has_char.mpr rfl, rfl⟩, _,
      ⟨gap, by simpa using hgap, List.length_pos_iff.mpr hsome, rfl⟩, _,
      ⟨word, by simpa using hword, List.length_pos_iff.mpr hne, rfl⟩, _,
      ⟨pad, by simpa using hpad, Nat.zero_le _, rfl⟩, _, ⟨_, CharClass.has_char.mpr rfl, rfl⟩,
      [b₁, b₂], by simp [hb₁, hb₂], Nat.le_refl _, rfl⟩

/-- A comment is changed exactly if it has several lines and a description is seen in it. -/
lemma pullUpProse_eq_self_iff_not_prose :
    pullUpProse text = text ↔
      ('\n' ∈ text → ¬ ProseBelowType text ∧ ¬ ProseBelowName text) := by
  rw [← find?_proseAfterType_iff, ← find?_proseAfterName_iff]
  have hfinds : FindsProse text ↔ ¬ ('\n' ∈ text → ¬ Rules.proseAfterType.find? text ≠ none ∧
      ¬ Rules.proseAfterName.find? text ≠ none) := by
    rw [FindsProse, List.contains_iff_mem]
    tauto
  constructor
  · intro hsame
    by_contra hprose
    have hlt := length_pullUpProse_lt (hfinds.mpr hprose)
    rw [hsame] at hlt
    exact Nat.lt_irrefl _ hlt
  · intro hnone
    exact pullUpProse_of_not_findsProse fun hfind => hfinds.mp hfind hnone

end

/-! ## Rows without a description -/

/-- Every star is followed by one blank at most and then a visible character. -/
def starsTight : List Char → Bool
  | [] => true
  | c :: cs => (c != '*' || (cs.take 2).any fun d => !Text.isBlank d) && starsTight cs

/-- A first row and more rows below it. -/
def inRows (first : List Char) (rows : List (List Char)) : List Char :=
  first ++ rows.flatMap ('\n' :: ·)

section

variable {front back first : List Char} {rows : List (List Char)}

/-- Tight texts in a row are tight. -/
lemma starsTight_append (hfront : starsTight front = true) (hback : starsTight back = true) :
    starsTight (front ++ back) = true := by
  induction front with
  | nil => exact hback
  | cons c front ih =>
    obtain ⟨hc, hfront⟩ := Bool.and_eq_true_iff.mp hfront
    refine Bool.and_eq_true_iff.mpr ⟨?_, ih hfront⟩
    -- more text behind the star does not take the visible character away
    rcases Bool.or_eq_true_iff.mp hc with hc | hvisible
    · exact Bool.or_eq_true_iff.mpr (.inl hc)
    · refine Bool.or_eq_true_iff.mpr (.inr ?_)
      obtain ⟨d, hd, hblank⟩ := List.any_eq_true.mp hvisible
      have hprefix : front.take 2 <+: (front ++ back).take 2 :=
        (List.prefix_append ..).take 2
      exact List.any_eq_true.mpr ⟨d, hprefix.subset hd, hblank⟩

/-- The end of a tight text is tight. -/
lemma starsTight_of_append (h : starsTight (front ++ back) = true) : starsTight back = true := by
  induction front with
  | nil => exact h
  | cons c front ih => exact ih (Bool.and_eq_true_iff.mp h).2

/-- Behind a tight star there are not two blanks. -/
lemma not_starsTight {b₁ b₂ : Char} (h₁ : Text.isBlank b₁ = true) (h₂ : Text.isBlank b₂ = true) :
    starsTight (front ++ '*' :: b₁ :: b₂ :: back) = false := by
  by_contra h
  rw [Bool.not_eq_false] at h
  have hstar := starsTight_of_append h
  simp [starsTight, h₁, h₂] at hstar

/-- Tight rows, each on a line of its own, are tight. -/
lemma starsTight_flatMap (h : ∀ row ∈ rows, starsTight row = true) :
    starsTight (rows.flatMap ('\n' :: ·)) = true := by
  induction rows with
  | nil => rfl
  | cons row rows ih =>
    obtain ⟨hrow, hrows⟩ := List.forall_mem_cons.mp h
    rw [List.flatMap_cons]
    exact @starsTight_append ('\n' :: row) _ hrow (ih hrows)

/-- What comes behind a brace is part of what comes behind the first one. -/
lemma dropWhile_brace (front back : List Char) :
    ∃ more, (front ++ '\x7d' :: back).dropWhile (· != '\x7d') = more ++ '\x7d' :: back := by
  induction front with
  | nil => exact ⟨[], rfl⟩
  | cons c front ih =>
    rw [List.cons_append, List.dropWhile_cons]
    split
    · exact ih
    · exact ⟨c :: front, rfl⟩

/-- **Tight stars behind the first brace leave no room for a description.** -/
lemma pullUpProse_of_starsTight {text : List Char}
    (h : starsTight (text.dropWhile (· != '\x7d')) = true) : pullUpProse text = text := by
  have hno : ∀ (front mid : List Char) (b₁ b₂ : Char) (back : List Char),
      text = front ++ '\x7d' :: (mid ++ '*' :: b₁ :: b₂ :: back) →
      Text.isBlank b₁ = true → Text.isBlank b₂ = true → False := by
    rintro front mid b₁ b₂ back rfl h₁ h₂
    obtain ⟨more, hmore⟩ := dropWhile_brace front (mid ++ '*' :: b₁ :: b₂ :: back)
    have hsplit : more ++ '\x7d' :: (mid ++ '*' :: b₁ :: b₂ :: back) =
        (more ++ '\x7d' :: mid) ++ '*' :: b₁ :: b₂ :: back := by simp
    rw [hmore, hsplit, not_starsTight h₁ h₂] at h
    exact absurd h (by simp)
  refine pullUpProse_eq_self_iff_not_prose.mpr fun _ => ⟨?_, ?_⟩
  · rintro ⟨front, gap, indent, c, back, htext, -, hindent, hlong, -⟩
    rcases indent with _ | ⟨b₁, _ | ⟨b₂, indent⟩⟩
    · simp at hlong
    · simp at hlong
    · exact hno front gap b₁ b₂ (indent ++ c :: back) htext (hindent b₁ (by simp))
        (hindent b₂ (by simp))
  · rintro ⟨front, gap, word, pad, b₁, b₂, back, htext, -, -, -, -, -, h₁, h₂⟩
    simp only [isInlineBlank, Bool.and_eq_true] at h₁ h₂
    exact hno front (gap ++ (word ++ pad)) b₁ b₂ back (by simp [htext]) h₁.1.1 h₂.1.1

/-- Behind the first brace the first row and the rows below it are tight. -/
lemma starsTight_inRows (hfirst : starsTight (first.dropWhile (· != '\x7d')) = true)
    (hrows : ∀ row ∈ rows, starsTight row = true) :
    starsTight ((inRows first rows).dropWhile (· != '\x7d')) = true := by
  have hbelow := starsTight_flatMap hrows
  rw [inRows, List.dropWhile_append]
  split
  · rw [← List.takeWhile_append_dropWhile (p := (· != '\x7d')) (l := rows.flatMap _)] at hbelow
    exact starsTight_of_append hbelow
  · exact starsTight_append hfirst hbelow

end

/-- **When a comment stays as it is**: exactly if it is on one line, or no description is seen in it
below a type or a name.  No description is seen, whatever the rows say, if every star of a row below
the first, and every star behind a brace in the first, has one blank at most behind it and then a
visible character on the same row. -/
theorem pullUpProse_eq_self_iff (comment : List Char) :
    (pullUpProse comment = comment ↔
      ('\n' ∈ comment → ¬ ProseBelowType comment ∧ ¬ ProseBelowName comment)) ∧
    ∀ (first : List Char) (rows : List (List Char)), comment = inRows first rows →
      starsTight (first.dropWhile (· != '\x7d')) = true →
      (∀ row ∈ rows, starsTight row = true) → pullUpProse comment = comment := by
  refine ⟨pullUpProse_eq_self_iff_not_prose, ?_⟩
  rintro first rows rfl hfirst hrows
  exact pullUpProse_of_starsTight (starsTight_inRows hfirst hrows)

/-- Two annotations and the closing delimiter, each on its own row, stay as they are. -/
theorem pullUpProse_eq_self_annotations :
    pullUpProse "/**\n * @param \x7bA\x7d a\n * @private\n */".toList =
      "/**\n * @param \x7bA\x7d a\n * @private\n */".toList :=
  (pullUpProse_eq_self_iff _).2 "/**".toList
    [" * @param \x7bA\x7d a".toList, " * @private".toList, " */".toList]
    (by decide +kernel) (by decide +kernel) (by decide +kernel)

/-- A row that has no description: without the blanks and the star that open it, it is empty or an
annotation, or it is the closing delimiter. -/
def isProseless (row : List Char) : Bool :=
  match row.dropWhile Text.isBlank with
  | ['*', '/'] => true
  | '*' :: body => (body.dropWhile Text.isBlank).head?.all (· == '@')
  | body => body.head?.all (· == '@')

/-- No row below the first has a description, but an empty row below a type is taken away. -/
theorem pullUpProse_emptyRow :
    (∀ row ∈ [" * @return \x7bT\x7d".toList, " *".toList, " */".toList],
      isProseless row = true) ∧
    pullUpProse (inRows "/**".toList [" * @return \x7bT\x7d".toList, " *".toList, " */".toList]) =
      "/**\n * @return \x7bT\x7d */".toList := by
  constructor
  · decide +kernel
  · decide +kernel

end Marginalia.Filter
