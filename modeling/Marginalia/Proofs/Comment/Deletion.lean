import Marginalia.Proofs.Comment.Idempotence
import Marginalia.Proofs.Comment.Matches
import Marginalia.Proofs.Pattern.Places
import Mathlib.Logic.Function.Iterate

/-!
# The filter only deletes

A filtered comment has no visible character that was not in the comment: what the stages of the
filter put back are parts of the matches, in their order, and blanks.  The markers that are deleted
from plain comments may be any patterns at all.

So filtering again and again comes to an end: each filtering that changes the text shortens it.

## Main definitions

* `Filter.visible` — the characters of a text that are not blank.

## Main results

* `Filter.visible_filterDoc_sublist` — the stages for documentation comments add nothing visible.
* `Filter.filter_only_deletes` — neither does the filter, and what it changes it shortens.
-/

namespace Marginalia

open Pattern

namespace Filter

/-! ## Visible characters -/

/-- The characters of a text that are not blank. -/
def visible (text : List Char) : List Char := text.filter fun c => !Text.isBlank c

section

variable {text : List Char}

/-- The visible characters of two texts in a row are those of the one and those of the other. -/
lemma visible_append (front back : List Char) :
    visible (front ++ back) = visible front ++ visible back :=
  List.filter_append ..

/-- Rewriting adds nothing visible if no value does. -/
lemma visible_sublist_of_rewrites {p : Pattern} (hp : p.plain = true) {value : Found → List Char}
    (hvalue : ∀ f : Found, f.Matches p → (visible (value f)).Sublist (visible f.matched))
    {out : List Char} (h : p.Rewrites value text out) : (visible out).Sublist (visible text) := by
  refine h.edits.filter_sublist fun m v hm => ?_
  obtain ⟨f, hf, rfl, rfl⟩ := hm.exists_matches hp
  exact hvalue f hf

/-- What is moved up behind a brace was visible before. -/
lemma visible_behind_brace {p : Pattern} {f : Found} (hf : f.Matches (.seq (char '\x7d') p))
    (name : String) : (visible (['\x7d', ' '] ++ f.captured name)).Sublist (visible f.matched) := by
  obtain ⟨rest, hmatched, hpart⟩ := exists_behind_brace hf name
  have hfront : visible ['\x7d', ' '] = visible ['\x7d'] := by decide
  have hsplit : visible ('\x7d' :: rest) = visible ['\x7d'] ++ visible rest :=
    visible_append ['\x7d'] rest
  rw [hmatched, visible_append, hfront, hsplit]
  exact (List.Sublist.refl _).append (hpart.sublist.filter _)

/-- **Moving descriptions up adds nothing visible.** -/
lemma visible_pullUpProse_sublist (text : List Char) :
    (visible (pullUpProse text)).Sublist (visible text) := by
  rcases rewrites_pullUpProse text with hsame | ⟨mid, htype, hname⟩
  · rw [hsame]
  · refine (visible_sublist_of_rewrites (by decide) ?_ hname).trans
      (visible_sublist_of_rewrites (by decide) ?_ htype)
    · -- the blank behind a name is not visible
      intro f hf
      have hblank : visible [' '] = [] := by decide
      rw [nameValue, visible_append, hblank, List.append_nil]
      exact visible_behind_brace hf "identifier"
    · exact fun f hf => visible_behind_brace hf "prose"

/-- **A stage adds nothing visible.** -/
lemma visible_apply_sublist {stage : Stage} (h : stage ∈ docStages) (text : List Char) :
    (visible (stage.apply text)).Sublist (visible text) := by
  simp only [docStages, List.mem_cons, List.mem_append, List.mem_map] at h
  rcases h with rfl | ⟨rule, hrule, rfl⟩ | ⟨rule, hrule, rfl⟩
  · exact visible_pullUpProse_sublist text
  · have htag := Rules.isTagRule_of_mem_keepRules hrule
    obtain ⟨value, hvalue, hrewrites⟩ := Rules.rewrites_applyKeep hrule text
    refine visible_sublist_of_rewrites (Rules.plain_of_isTagRule htag) (fun f hf => ?_) hrewrites
    exact (hvalue.sublist htag hf (.inl rfl)).filter _
  · have htag := Rules.isTagRule_of_mem_dropRules hrule
    obtain ⟨value, hvalue, hrewrites⟩ := Rules.rewrites_applyDrop hrule text
    refine visible_sublist_of_rewrites (Rules.plain_of_isTagRule htag) (fun f hf => ?_) hrewrites
    exact (hvalue.sublist htag hf (.inr rfl)).filter _

/-- **The stages for documentation comments add nothing visible.** -/
lemma visible_filterDoc_sublist (text : List Char) :
    (visible (filterDoc text)).Sublist (visible text) := by
  rw [← stageText_length, stageText, List.take_length]
  refine List.foldlRecOn docStages _ (motive := fun out => (visible out).Sublist (visible text))
    (List.Sublist.refl _) ?_
  intro out hout stage hstage
  exact (visible_apply_sublist hstage out).trans hout

/-- **Deleting markers deletes characters**, whatever the markers are. -/
lemma filterPlain_sublist (markers : List Marker) (text : List Char) :
    (filterPlain markers text).Sublist text := by
  induction markers generalizing text with
  | nil => exact List.Sublist.refl _
  | cons marker markers ih =>
    rw [filterPlain, List.foldl_cons]
    exact (ih _).trans (eraseAll_sublist marker.pattern text)

/-- Dropping what is empty only deletes. -/
lemma dropEmpty_sublist (text : List Char) : (dropEmpty text).Sublist text := by
  rw [dropEmpty]
  split
  · exact List.nil_sublist _
  · exact List.Sublist.refl _

/-- A text that is dropped or kept is the same text, or shorter. -/
lemma dropEmpty_eq_or_length_lt {out : List Char} (h : out = text ∨ out.length < text.length) :
    dropEmpty out = text ∨ (dropEmpty out).length < text.length := by
  rcases h with rfl | h
  · exact (dropEmpty_sublist out).length_le.eq_or_lt.imp_left (dropEmpty_sublist out).eq_of_length
  · exact .inr (Nat.lt_of_le_of_lt (length_dropEmpty_le out) h)

/-- **A comment that the filter changes gets shorter.** -/
lemma filterChars_eq_or_length_lt (kind : CommentKind) (markers : List Marker)
    (text : List Char) :
    filterChars kind markers text = text ∨
      (filterChars kind markers text).length < text.length := by
  have hplain : filterPlain markers text = text ∨
      (filterPlain markers text).length < text.length :=
    (filterPlain_sublist markers text).length_le.eq_or_lt.imp_left
      (filterPlain_sublist markers text).eq_of_length
  cases kind with
  | line => exact dropEmpty_eq_or_length_lt hplain
  | block => exact dropEmpty_eq_or_length_lt hplain
  | doc =>
    refine dropEmpty_eq_or_length_lt ?_
    rcases stripped_cases .doc text with ⟨-, hsame⟩ | ⟨-, hshorter⟩
    · exact .inl hsame
    · exact .inr hshorter

/-- **A filtered comment has no visible character that was not in the comment.** -/
lemma visible_filterChars_sublist (kind : CommentKind) (markers : List Marker)
    (text : List Char) :
    (visible (filterChars kind markers text)).Sublist (visible text) := by
  have hplain : (visible (dropEmpty (filterPlain markers text))).Sublist (visible text) :=
    ((dropEmpty_sublist _).trans (filterPlain_sublist markers text)).filter _
  cases kind with
  | line => exact hplain
  | block => exact hplain
  | doc => exact ((dropEmpty_sublist _).filter _).trans (visible_filterDoc_sublist text)

end

/-- A function that shortens every text it changes comes to an end after as many steps as the text
has characters. -/
lemma exists_iterate_fixed {step : String → String}
    (h : ∀ text, step text = text ∨ (step text).length < text.length) (text : String) :
    ∃ n ≤ text.length, step (step^[n] text) = step^[n] text := by
  induction hlen : text.length using Nat.strongRecOn generalizing text with
  | ind len ih =>
    rcases h text with hsame | hshorter
    · exact ⟨0, Nat.zero_le _, hsame⟩
    · obtain ⟨n, hn, hfixed⟩ := ih _ (hlen ▸ hshorter) (step text) rfl
      exact ⟨n + 1, by omega, hfixed⟩

/-- **The filter only deletes**, for every kind of comment and all markers: the visible characters
of a filtered comment are visible characters of the comment, in their order; what the filter
changes, it shortens; and filtering again and again comes to an end after as many steps as the
comment has characters. -/
theorem filter_only_deletes (kind : CommentKind) (markers : List Marker) (comment : String) :
    (visible (filter kind markers comment).toList).Sublist (visible comment.toList) ∧
    (filter kind markers comment = comment ∨
      (filter kind markers comment).length < comment.length) ∧
    ∃ n ≤ comment.length,
      filter kind markers ((filter kind markers)^[n] comment) =
        (filter kind markers)^[n] comment := by
  have hshorter : ∀ text : String, filter kind markers text = text ∨
      (filter kind markers text).length < text.length := by
    intro text
    rw [← String.toList_inj, ← String.length_toList, ← String.length_toList, filter,
      String.toList_ofList]
    exact filterChars_eq_or_length_lt kind markers text.toList
  refine ⟨?_, hshorter comment, exists_iterate_fixed hshorter comment⟩
  rw [filter, String.toList_ofList]
  exact visible_filterChars_sublist kind markers comment.toList

end Filter

end Marginalia
