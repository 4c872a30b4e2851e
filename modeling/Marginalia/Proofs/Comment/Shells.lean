import Marginalia.Pattern.Parser
import Marginalia.Proofs.Comment.TypeRemoval
import Marginalia.Proofs.Pattern.Alike
import Mathlib.Data.List.DropRight

/-!
# Comments without content

A comment without content is an empty shell: the start of a line comment, or the two delimiters of a
block comment with nothing but blanks and stars between them.  Blanks may stand around it.  The
delimiters do not overlap, although the stars between them may be taken for parts of them.

Shells are found by a pattern that ends before a last line break, too.  The line break is blank, so
this adds nothing.  In the pattern as it is written down, the inside of a block comment is a
repeated choice; it matches alike.

## Main definitions

* `Filter.Shell` — an empty shell without blanks around it.
* `Filter.shellText`, `Filter.shellAsWritten` — the pattern as it is written down, and what is read
  from it.

## Main results

* `Filter.isEmptyShell_iff_shell` — which comments the filter takes for empty shells.
* `Filter.alike_shellAsWritten` — the pattern as it is written down matches alike.
* `Filter.isEmptyShell_iff` — the filter takes exactly the empty shells for such.
-/

namespace Marginalia

/-! ## Texts without the blanks around them -/

namespace Text

/-- A text is what is left of it with blanks around. -/
lemma exists_eq_trimBlank (text : List Char) :
    ∃ front back, text = front ++ (trimBlank text ++ back) ∧ (∀ b ∈ front, isBlank b = true) ∧
      ∀ b ∈ back, isBlank b = true := by
  have hback : trimBlank text ++ (text.dropWhile isBlank).rtakeWhile isBlank =
      text.dropWhile isBlank := List.rdropWhile_append_rtakeWhile ..
  refine ⟨text.takeWhile isBlank, (text.dropWhile isBlank).rtakeWhile isBlank, ?_, ?_, ?_⟩
  · rw [hback, List.takeWhile_append_dropWhile]
  · exact fun b hb => List.mem_takeWhile_imp hb
  · exact fun b hb => List.mem_rtakeWhile_imp hb

/-- **Nothing but the blanks around a text goes**, if it begins and ends with other characters. -/
lemma trimBlank_append {front core back : List Char} {c d : Char}
    (hfront : ∀ b ∈ front, isBlank b = true) (hback : ∀ b ∈ back, isBlank b = true)
    (hc : core.head? = some c) (hd : core.getLast? = some d) (hcb : isBlank c = false)
    (hdb : isBlank d = false) : trimBlank (front ++ (core ++ back)) = core := by
  have hstart : (front ++ (core ++ back)).dropWhile isBlank = core ++ back := by
    obtain ⟨more, rfl⟩ := List.head?_eq_some_iff.mp hc
    rw [List.dropWhile_append_of_pos hfront]
    exact List.dropWhile_cons_of_neg (by simp [hcb])
  obtain ⟨less, rfl⟩ := List.getLast?_eq_some_iff.mp hd
  rw [trimBlank, dropBlankEnd, dropEndWhile, hstart, List.reverse_append,
    List.dropWhile_append_of_pos (fun b hb => hback b (List.mem_reverse.mp hb)),
    List.reverse_append]
  simp [hdb]

end Text

namespace Filter

open Pattern

/-! ## Empty shells -/

/-- An empty shell without blanks around it: `//`, or a text that begins with the opening delimiter
of a block comment, ends with the closing one, apart from it, and has nothing but blanks and stars
between them. -/
def Shell (core : List Char) : Prop :=
  core = ['/', '/'] ∨
    (4 ≤ core.length ∧ ['/', '*'] <+: core ∧ ['*', '/'] <:+ core ∧
      ∀ c ∈ (core.drop 2).take (core.length - 4), Text.isBlank c = true ∨ c = '*')

/-- It can be decided whether a text is an empty shell. -/
instance (core : List Char) : Decidable (Shell core) :=
  have : Decidable (∀ c ∈ (core.drop 2).take (core.length - 4), Text.isBlank c = true ∨ c = '*') :=
    List.decidableBAll _ _
  inferInstanceAs (Decidable (_ ∨ _ ∧ _ ∧ _ ∧ _))

variable {front core back text : List Char}

/-- An empty shell has the delimiters around its inside, unless it is that of a line comment. -/
lemma shell_iff_exists :
    Shell core ↔ core = ['/', '/'] ∨ ∃ inner, core = '/' :: '*' :: (inner ++ ['*', '/']) ∧
      ∀ c ∈ inner, Text.isBlank c = true ∨ c = '*' := by
  refine or_congr_right ⟨?_, ?_⟩
  · rintro ⟨hlen, ⟨rest, rfl⟩, hclosed, hinner⟩
    have hrest : 2 ≤ rest.length := by simpa using hlen
    obtain ⟨inner, rfl⟩ := Closed.of_append hclosed hrest
    exact ⟨inner, rfl, by simpa using hinner⟩
  · rintro ⟨inner, rfl, hinner⟩
    exact ⟨by simp, ⟨inner ++ ['*', '/'], rfl⟩, ⟨'/' :: '*' :: inner, rfl⟩, by simpa using hinner⟩

/-- Trimming the blanks around a shell gives the shell. -/
lemma Shell.trimBlank_eq (h : Shell core) (hfront : ∀ b ∈ front, Text.isBlank b = true)
    (hback : ∀ b ∈ back, Text.isBlank b = true) :
    Text.trimBlank (front ++ (core ++ back)) = core := by
  have hslash : Text.isBlank '/' = false := by decide
  refine Text.trimBlank_append (c := '/') (d := '/') hfront hback ?_ ?_ hslash hslash
  · rcases shell_iff_exists.mp h with rfl | ⟨inner, rfl, -⟩ <;> rfl
  · rcases shell_iff_exists.mp h with rfl | ⟨inner, rfl, -⟩
    · rfl
    · exact List.getLast?_eq_some_iff.mpr ⟨'/' :: '*' :: (inner ++ ['*']), by simp⟩

/-! ## What the pattern matches -/

/-- The class of the pattern has the blanks and the star. -/
lemma has_blankOrStar {c : Char} :
    CharClass.has ⟨false, [.category .blank false, .char '*']⟩ c = true ↔
      Text.isBlank c = true ∨ c = '*' := by
  simp [CharClass.has, ClassItem.has, Category.has]

/-- The shells of the pattern, without blanks around them. -/
def shells : Pattern :=
  first [Pattern.text "//", all [Pattern.text "/*", many Rules.blankOrStar, Pattern.text "*/"]]

/-- What the pattern matches is a shell. -/
lemma shell_of_leads {s t : Spot} (h : shells.Leads s core t) : Shell core := by
  rw [shell_iff_exists]
  rcases h with hline | ⟨opening, _, _, hopening, ⟨inner, _, closing, hinner, hclosing, rfl⟩, rfl⟩
  · exact .inl (eq_of_leads_chars hline)
  · obtain rfl : opening = ['/', '*'] := eq_of_leads_chars hopening
    obtain rfl : closing = ['*', '/'] := eq_of_leads_chars hclosing
    exact .inr ⟨inner, rfl, fun c hc => has_blankOrStar.mp (hinner.1 c hc)⟩

/-- The pattern matches every shell. -/
lemma Shell.reads (h : Shell core) (rest : List Char) : shells.Reads (core ++ rest) rest := by
  rcases shell_iff_exists.mp h with rfl | ⟨inner, rfl, hinner⟩
  · exact .inl (reads_chars ['/', '/'] rest)
  · refine .inr ⟨inner ++ ['*', '/'] ++ rest, reads_chars ['/', '*'] _, '*' :: '/' :: rest, ?_,
      reads_chars ['*', '/'] rest⟩
    exact ⟨inner, fun c hc => has_blankOrStar.mpr (hinner c hc), Nat.zero_le _, by simp⟩

/-- **A comment that the pattern is found in is a shell with blanks around it.**  The match begins
at the start of the comment, and behind it comes a line break at most, which is blank. -/
lemma exists_shell_of_isEmptyShell (h : isEmptyShell text = true) :
    ∃ front core back, text = front ++ (core ++ back) ∧ (∀ b ∈ front, Text.isBlank b = true) ∧
      (∀ b ∈ back, Text.isBlank b = true) ∧ Shell core := by
  obtain ⟨f, hf⟩ := Option.isSome_iff_exists.mp h
  obtain ⟨u, advance, hu, hmatch, -, -⟩ := within_of_findFrom (Spot.Within.atStart text) rfl hf
  have hleads := leads_of_matchAt (by decide) hmatch
  have hmoves := hleads.moves.1
  obtain ⟨_, _, _, ⟨hstart, rfl, rfl⟩, ⟨front, _, _, hfront, ⟨core, _, _, hcore, ⟨back, _, _, hback,
    ⟨hlast, rfl, hend⟩, rfl⟩, rfl⟩, rfl⟩, heq⟩ := hleads
  have hbreak : ∀ b ∈ f.after.rest, Text.isBlank b = true := by
    rw [← hend] at hlast
    rcases Bool.or_eq_true_iff.mp hlast with hlast | hlast
    · simp [eq_of_beq hlast]
    · rw [eq_of_beq hlast]
      exact List.all_eq_true.mp (by decide)
  refine ⟨front, core, back ++ f.after.rest, ?_, ?_, ?_, shell_of_leads hcore⟩
  · rw [← hu.text_eq, eq_of_beq hstart, hmoves, heq]
    simp
  · exact fun b hb => CharClass.has_blank ▸ hfront.1 b hb
  · intro b hb
    rcases List.mem_append.mp hb with hb | hb
    · exact CharClass.has_blank ▸ hback.1 b hb
    · exact hbreak b hb

/-- **The pattern is found in a shell with blanks around it.**  One way to match it takes all the
blanks, and then the search succeeds. -/
lemma isEmptyShell_of_shell (hfront : ∀ b ∈ front, Text.isBlank b = true)
    (hback : ∀ b ∈ back, Text.isBlank b = true) (h : Shell core) :
    isEmptyShell (front ++ (core ++ back)) = true := by
  have hreads : (all [many blank, shells, many blank]).Reads (front ++ (core ++ back)) [] :=
    ⟨core ++ back, ⟨front, fun b hb => CharClass.has_blank.trans (hfront b hb), Nat.zero_le _, rfl⟩,
      back, h.reads back, back, fun b hb => CharClass.has_blank.trans (hback b hb), Nat.zero_le _,
      (List.append_nil back).symm⟩
  refine isSome_find?_of_run ?_
  have hends : ∀ t : Spot, t.rest = [] → ((anchor .lastLineEnd).run some t).isSome = true := by
    intro t ht
    rw [run, if_pos (by simp [Anchor.holds, ht])]
    rfl
  have hrun := isSome_run_of_reads hreads (s := Spot.atStart (front ++ (core ++ back))) rfl hends
  have hstart : Anchor.textStart.holds (Spot.atStart (front ++ (core ++ back))) = true := rfl
  show ((anchor .textStart).run
    ((all [many blank, shells, many blank, anchor .lastLineEnd]).run some) _).isSome = true
  rw [run, if_pos hstart]
  exact hrun

/-- Which comments the filter takes for empty shells. -/
lemma isEmptyShell_iff_shell : isEmptyShell text = true ↔ Shell (Text.trimBlank text) := by
  constructor
  · intro h
    obtain ⟨front, core, back, rfl, hfront, hback, hcore⟩ := exists_shell_of_isEmptyShell h
    rw [hcore.trimBlank_eq hfront hback]
    exact hcore
  · intro h
    obtain ⟨front, back, heq, hfront, hback⟩ := Text.exists_eq_trimBlank text
    rw [heq]
    exact isEmptyShell_of_shell hfront hback h

/-! ## The pattern as it is written down -/

/-- The text of the pattern for empty shells. -/
def shellText : String := "^\\s*(//|/\\*(\\s|\\*)*\\*/)\\s*$"

/-- What is read from it: the alternatives share their first character, and the repeated choice
between a blank and a star is a captured character. -/
def shellAsWritten : Pattern :=
  all [.anchor .textStart, many blank,
    .capture (.number 1) (.seq (char '/')
      (first [char '/', all [char '*', many (.capture (.number 2) Rules.blankOrStar),
        Pattern.text "*/"]])),
    many blank, .anchor .lastLineEnd]

/-- The pattern is read from its text. -/
lemma parse_shellText : Pattern.parse shellText = .ok shellAsWritten := by
  decide +kernel

/-- **The pattern as it is written down matches alike**: the captures can be left out, the first
character can be matched in each alternative, and the repeated choice is a run. -/
lemma alike_shellAsWritten : shellAsWritten.Alike Rules.emptyShell := by
  have hblanks : (many blank).Alike (many blank) := alike_span _
  have hinside : (many (.capture (.number 2) Rules.blankOrStar)).Alike (many Rules.blankOrStar) :=
    alike_iterate_one _ _
  have hblock := (alike_one ⟨false, [.char '*']⟩).seq
    (hinside.seq ((alike_one ⟨false, [.char '*']⟩).seq (alike_one ⟨false, [.char '/']⟩)))
  have hshells := (Alike.distribute (alike_one ⟨false, [.char '/']⟩) hblock
    ⟨false, [.char '/']⟩).capture (.number 1)
  exact (alike_anchor .textStart).seq
    (hblanks.seq (hshells.seq (hblanks.seq (alike_anchor .lastLineEnd))))

/-- **The filter takes exactly the empty shells for such**: a comment without the blanks around it
is `//`, or it has at least four characters, begins with the opening delimiter of a block comment,
ends with the closing one, and has nothing but blanks and stars between them.  So does the search
for the pattern as it is written down. -/
theorem isEmptyShell_iff (comment : List Char) :
    (isEmptyShell comment = true ↔ Shell (Text.trimBlank comment)) ∧
      ∃ written, Pattern.parse shellText = .ok written ∧
        ((written.find? comment).isSome = true ↔ Shell (Text.trimBlank comment)) := by
  refine ⟨isEmptyShell_iff_shell, shellAsWritten, parse_shellText, ?_⟩
  rw [alike_shellAsWritten.isSome_find?]
  exact isEmptyShell_iff_shell

-- the delimiters do not overlap, and a last line break is a blank like any other
example : ¬ Shell "/*/".toList ∧ Shell "/**/".toList ∧ Shell "/***/".toList ∧
    Shell (Text.trimBlank "/* */\n\n".toList) := by
  decide +kernel

end Filter

end Marginalia
