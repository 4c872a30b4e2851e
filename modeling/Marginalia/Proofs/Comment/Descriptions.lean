import Marginalia.Proofs.Comment.Shells

/-!
# Descriptions

A row that states the type of a parameter or of the result loses the type and keeps its description,
if nothing else in the comment is mistaken for a part of the type.  The type of a row goes up to the
last closing brace of its line, or below it where a rule may look there; so a brace in a description
takes everything before it along.

## Main definitions

* `Filter.TypedRow.Apart` — nothing around a clear row is mistaken for a part of it.

## Main results

* `Filter.not_mem_of_isEmptyShell` — a comment without content has no annotation.
* `Filter.filter_keeps_description` — such a row loses its type and keeps its description.
-/

namespace Marginalia.Filter

open Pattern

/-! ## Comments without content -/

/-- **A comment without content has no annotation.** -/
lemma not_mem_of_isEmptyShell {text : List Char} (h : isEmptyShell text = true) : '@' ∉ text := by
  obtain ⟨front, core, back, rfl, hfront, hback, hcore⟩ := exists_shell_of_isEmptyShell h
  have hblank : ∀ gap : List Char, (∀ b ∈ gap, Text.isBlank b = true) → '@' ∉ gap :=
    fun gap hgap hmem => absurd (hgap '@' hmem) (by decide)
  have hshell : '@' ∉ core := by
    rcases shell_iff_exists.mp hcore with rfl | ⟨inner, rfl, hinner⟩
    · decide
    · have hinside : '@' ∉ inner := fun hmem => absurd (hinner '@' hmem) (by decide)
      simp [hinside]
  simp [hblank front hfront, hblank back hback, hshell]

/-- A comment with an annotation is not dropped. -/
lemma dropEmpty_of_mem {text : List Char} (h : '@' ∈ text) : dropEmpty text = text := by
  have hblank : Text.allBlank text = false := by
    rw [Text.allBlank, List.all_eq_false]
    exact ⟨'@', h, by decide⟩
  have hshell : isEmptyShell text = false := by
    by_contra hnot
    rw [Bool.not_eq_false] at hnot
    exact not_mem_of_isEmptyShell hnot h
  rw [dropEmpty, hblank, hshell]
  rfl

/-! ## Rows that keep their descriptions -/

/-- Nothing around the clear row is mistaken for a part of it: the rows below neither continue its
first word nor close its type, and no type before it is open. -/
@[mk_iff]
structure TypedRow.Apart (row : TypedRow) (above below : List Char) : Prop where
  clear : row.Clear
  endsLine : EndsLine below
  not_joined : hasTwoWords row.tail = true ∨ isIndented below = false
  closed : row.name?.isSome = true → closesLate below = true
  not_open : mayName typedefWord above = false ∨ '\x7d' ∉ below

/-- It can be decided whether a row is apart from the rows around it. -/
instance (row : TypedRow) (above below : List Char) : Decidable (row.Apart above below) :=
  decidable_of_iff' _ (TypedRow.apart_iff row above below)

/-- The filter of doc comments, stage by stage. -/
lemma filterDoc_eq (text : List Char) :
    filterDoc text = Rules.dropRules.foldl (fun text rule => Rules.applyDrop rule text)
      (Rules.applyKeep Rules.typedExport (Rules.applyKeep Rules.typedTag
        (Rules.applyKeep Rules.bareReturn (Rules.applyKeep Rules.bareParam (pullUpProse text))))) :=
  rfl

/-- **The rules leave what comes behind the type of the row.** -/
lemma TypedRow.Apart.exists_shelters {row : TypedRow} {above below : List Char}
    (h : row.Apart above below) :
    ∃ word ∈ describedWords,
      Shelters (word ++ row.tail) (filterDoc (above ++ (row.text ++ below))) := by
  obtain ⟨hclear, hend, hjoin, hlate, hopen⟩ := h
  obtain ⟨hat, -, hbrace⟩ := hclear.not_mem_tail
  have hline := hclear.not_mem_line.1
  obtain ⟨above₀, below₀, hpulled, hdull, hend₀, hbrace₀, hlate₀⟩ :=
    hclear.exists_pullUpProse hend hjoin above
  have hparam := shelters_of_bare (by decide +kernel) (by decide +kernel)
    (@TypedRow.Clear.guarded_bareParam row above₀ below₀ hclear hend₀ (hlate₀ ∘ hlate)) hline hend₀
    (hopen.imp hdull.mayName_eq_false hbrace₀)
  rw [← hpulled] at hparam
  obtain ⟨above₁, below₁, heq, hend₁, hopen₁⟩ := hparam
  have hreturn := shelters_of_bare (by decide +kernel) (by decide +kernel)
    (@TypedRow.Clear.guarded_bareReturn row above₁ below₁ hclear hend₁) hline hend₁ hopen₁
  rw [← heq] at hreturn
  obtain ⟨word, hword, htyped⟩ := hclear.shelters_typedTag hreturn
  have hexport := shelters_typedExport hword hat hbrace htyped
  rw [filterDoc_eq]
  exact ⟨word, hword, shelters_dropRules hword hat hbrace hexport⟩

/-- **A row loses its type and keeps its description**: whatever else the comment holds, the filter
leaves the description of a row as it is, and leaves it behind an annotation without a type, if the
row is clear and nothing around it is mistaken for a part of it. -/
theorem filter_keeps_description (markers : List Marker) {row : TypedRow} {above below : List Char}
    {comment : String} (hcomment : comment.toList = above ++ (row.text ++ below))
    (h : row.Apart above below) :
    row.description <:+: (filter .doc markers comment).toList ∧
      ∃ word ∈ describedWords,
        '@' :: (word ++ row.tail) <:+: (filter .doc markers comment).toList := by
  obtain ⟨word, hword, above', below', hout, -⟩ := h.exists_shelters
  have hat : '@' ∈ filterDoc (above ++ (row.text ++ below)) := by simp [hout]
  rw [filter, String.toList_ofList, hcomment, filterChars, dropEmpty_of_mem hat, hout]
  have hrow : '@' :: (word ++ row.tail) <:+: above' ++ '@' :: (word ++ row.tail ++ below') :=
    ⟨above', below', by simp⟩
  have hdescription : row.description <:+: '@' :: (word ++ row.tail) := by
    obtain ⟨rest, htail, front, rfl⟩ := row.exists_tail
    exact ⟨'@' :: (word ++ ' ' :: front), [], by simp [htail]⟩
  exact ⟨hdescription.trans hrow, word, hword, hrow⟩

/-- The first of two rows loses its type and keeps its description. -/
theorem filter_keeps_description_parameter :
    let row : TypedRow := .param ['A'] ['a'] "First.".toList
    let out := (filter .doc Marker.builtIn
      "/**\n * @param \x7bA\x7d a First.\n * @return \x7bB\x7d Second one.\n */").toList
    row.Apart "/**\n".toList "\n * @return \x7bB\x7d Second one.\n */".toList ∧
      row.description <:+: out ∧ ∃ word ∈ describedWords, '@' :: (word ++ row.tail) <:+: out := by
  have hrow : (TypedRow.param ['A'] ['a'] "First.".toList).Apart "/**\n".toList
      "\n * @return \x7bB\x7d Second one.\n */".toList := by decide +kernel
  exact ⟨hrow, filter_keeps_description Marker.builtIn (by decide +kernel) hrow⟩

/-- A brace in the description takes everything before it along: the type goes up to the last
closing brace of the line. -/
theorem filter_loses_description :
    let row : TypedRow := .result false "string".toList "The \x7bx\x7d value.".toList
    "/**\n * @return \x7bstring\x7d The \x7bx\x7d value.\n */".toList =
        "/**\n".toList ++ (row.text ++ "\n */".toList) ∧
      filter .doc Marker.builtIn "/**\n * @return \x7bstring\x7d The \x7bx\x7d value.\n */" =
        "/**\n * @return value.\n */" ∧
      ¬ row.description <:+:
        (filter .doc Marker.builtIn
          "/**\n * @return \x7bstring\x7d The \x7bx\x7d value.\n */").toList := by
  have hout : filter .doc Marker.builtIn
      "/**\n * @return \x7bstring\x7d The \x7bx\x7d value.\n */" =
        "/**\n * @return value.\n */" := by decide +kernel
  rw [hout]
  decide +kernel

end Marginalia.Filter
