import Marginalia.Proofs.Comment.Idempotence
import Marginalia.Proofs.Comment.Matches
import Mathlib.Data.List.TakeWhile

/-!
# Prose before the first annotation

A match of the filter's stages reaches back from an `@` or a closing brace over spaces, tabs and
stars only.  So what a documentation comment says before the first of these two characters is kept
by every stage, up to such characters at its end, and a comment without them is not changed at all.

## Main definitions

* `Filter.opening` — a comment up to its first `@` or closing brace.
* `Filter.leadingProse` — that, without the spaces, tabs and stars at its end.

## Main results

* `Filter.exists_kept_of_firm` — rewriting keeps a beginning in which no match can begin.
* `Filter.filter_keeps_leadingProse` — what comes before the first annotation is kept.
-/

namespace Marginalia.Filter

open Pattern

/-! ## Where matches can begin -/

/-- A character at which every match of a stage takes hold: an `@` or a closing brace. -/
def isHook (c : Char) : Bool := c == '@' || c == '\x7d'

/-- A text without hooks that does not end with a space, a tab or a star. -/
structure Firm (text : List Char) : Prop where
  not_isHook : ∀ c ∈ text, isHook c = false
  not_isFringe : ∀ c, text.getLast? = some c → Rules.isFringe c = false

/-- Every match of the pattern is a few spaces, tabs and stars and then a hook. -/
def Hooked (p : Pattern) : Prop :=
  ∀ (s : Spot) (m : List Char) (t : Spot), p.Leads s m t →
    ∃ fringe hook rest, m = fringe ++ hook :: rest ∧ (∀ c ∈ fringe, Rules.isFringe c = true) ∧
      isHook hook = true

/-- Every match of a rule is a few spaces, tabs and stars and then a hook. -/
lemma hooked_of_mem {rule : Pattern} (h : rule ∈ Rules.keepRules ++ Rules.dropRules) :
    Hooked rule := by
  intro s m t hm
  obtain ⟨fringe, rest, -, rfl, hfringe, -⟩ := Rules.exists_tag h hm
  exact ⟨fringe, '@', rest, rfl, hfringe, rfl⟩

/-- Every match that begins with a closing brace begins with a hook. -/
lemma hooked_behind_brace (p : Pattern) : Hooked (.seq (char '\x7d') p) := by
  rintro s m t ⟨m₁, u, m₂, ⟨c, cs, -, hc, rfl, -⟩, -, rfl⟩
  obtain rfl := CharClass.has_char.mp hc
  exact ⟨[], '\x7d', m₂, rfl, by simp, rfl⟩

section

variable {p : Pattern} {value : Found → List Char} {front back out : List Char}

/-- A part of a text that is firm to its end holds the hook of every match that begins in it. -/
lemma not_firm_of_hook {fringe rest : List Char} {hook : Char} (hfront : Firm front)
    (hne : front ≠ []) (heq : front ++ back = fringe ++ hook :: rest)
    (hfringe : ∀ c ∈ fringe, Rules.isFringe c = true) (hhook : isHook hook = true) : False := by
  rcases List.append_eq_append_iff.mp heq with ⟨more, rfl, -⟩ | ⟨more, rfl, hmore⟩
  · -- the part would be made of spaces, tabs and stars
    have hlast := hfront.not_isFringe _ (List.getLast?_eq_some_getLast hne)
    rw [hfringe _ (List.mem_append_left _ (List.getLast_mem hne))] at hlast
    exact absurd hlast (by simp)
  · cases more with
    | nil =>
      rw [List.append_nil] at hne hfront
      have hlast := hfront.not_isFringe _ (List.getLast?_eq_some_getLast hne)
      rw [hfringe _ (List.getLast_mem hne)] at hlast
      exact absurd hlast (by simp)
    | cons c more =>
      obtain ⟨rfl, -⟩ := List.cons.inj hmore
      have hc := hfront.not_isHook hook (by simp)
      rw [hhook] at hc
      exact absurd hc (by simp)

/-- **Rewriting keeps a firm beginning**, because no match can begin in it. -/
lemma exists_kept_of_firm (hp : p.plain = true) (hhooked : Hooked p) (hfront : Firm front)
    (h : p.Rewrites value (front ++ back) out) : ∃ back', out = front ++ back' := by
  obtain ⟨back', hout, -⟩ := h.kept (by
    intro pre m v rest heq hm
    rcases List.append_eq_append_iff.mp heq with ⟨more, hmore, hrest⟩ | ⟨more, hmore, -⟩
    · cases more with
      | nil => exact ⟨[], by rw [hmore, List.append_nil, List.append_nil]⟩
      | cons c more =>
        -- a match that begins in the kept part would have its hook there
        exfalso
        obtain ⟨s, f, -, -, hleads, -⟩ := hm.exists_leads hp
        obtain ⟨fringe, hook, tail, rfl, hfringe, hhook⟩ := hhooked s m f.after hleads
        have hfirm : Firm (c :: more) := by
          refine ⟨fun d hd => hfront.not_isHook d ?_, fun d hd => hfront.not_isFringe d ?_⟩
          · rw [hmore]
            exact List.mem_append_right _ hd
          · rw [hmore, List.getLast?_append, hd]
            rfl
        rw [List.append_assoc, List.cons_append] at hrest
        exact not_firm_of_hook hfirm (by simp) hrest.symm hfringe hhook
    · exact ⟨more, hmore⟩)
  exact ⟨back', hout⟩

/-- **A stage keeps a firm beginning.** -/
lemma exists_kept_apply {stage : Stage} (h : stage ∈ docStages) (hfront : Firm front)
    (back : List Char) : ∃ back', stage.apply (front ++ back) = front ++ back' := by
  simp only [docStages, List.mem_cons, List.mem_append, List.mem_map] at h
  rcases h with rfl | ⟨rule, hrule, rfl⟩ | ⟨rule, hrule, rfl⟩
  · rcases rewrites_pullUpProse (front ++ back) with hsame | ⟨mid, htype, hname⟩
    · exact ⟨back, hsame⟩
    · obtain ⟨back', rfl⟩ := exists_kept_of_firm (by decide) (hooked_behind_brace _) hfront htype
      exact exists_kept_of_firm (by decide) (hooked_behind_brace _) hfront hname
  · have hplain := Rules.plain_of_isTagRule (Rules.isTagRule_of_mem_keepRules hrule)
    obtain ⟨value, -, hrewrites⟩ := Rules.rewrites_applyKeep hrule (front ++ back)
    exact exists_kept_of_firm hplain (hooked_of_mem (List.mem_append_left _ hrule)) hfront hrewrites
  · have hplain := Rules.plain_of_isTagRule (Rules.isTagRule_of_mem_dropRules hrule)
    obtain ⟨value, -, hrewrites⟩ := Rules.rewrites_applyDrop hrule (front ++ back)
    exact exists_kept_of_firm hplain (hooked_of_mem (List.mem_append_right _ hrule)) hfront
      hrewrites

/-- **All stages keep a firm beginning.** -/
lemma exists_kept_filterDoc (hfront : Firm front) (back : List Char) :
    ∃ back', filterDoc (front ++ back) = front ++ back' := by
  rw [← stageText_length, stageText, List.take_length]
  refine List.foldlRecOn docStages _ (motive := fun out => ∃ back', out = front ++ back')
    ⟨back, rfl⟩ ?_
  rintro out ⟨back', rfl⟩ stage hstage
  exact exists_kept_apply hstage hfront back'

end

/-! ## Comments without hooks -/

section

variable {p : Pattern} {text : List Char}

/-- A text without hooks has no match. -/
lemma find?_eq_none_of_hooked (hp : p.plain = true) (hhooked : Hooked p)
    (htext : ∀ c ∈ text, isHook c = false) : p.find? text = none := by
  rw [← Option.not_isSome_iff_eq_none, Option.isSome_iff_exists]
  rintro ⟨f, hf⟩
  have hfrom : findFrom p false (Spot.atStart text) (Spot.atStart text).rest = some f := hf
  obtain ⟨heq, s, -, hleads⟩ := leads_of_findFrom hp rfl hfrom
  obtain ⟨fringe, hook, rest, hm, -, hhook⟩ := hhooked s f.matched f.after hleads
  have heq : text = f.before ++ f.matched ++ f.after.rest := heq
  have hc := htext hook (by rw [heq, hm]; simp)
  rw [hhook] at hc
  exact absurd hc (by simp)

/-- **A text without hooks is settled.** -/
lemma settled_of_not_isHook (htext : ∀ c ∈ text, isHook c = false) : Settled .doc text := by
  have hnone : ∀ rule ∈ Rules.keepRules ++ Rules.dropRules, rule.find? text = none :=
    fun rule h => find?_eq_none_of_hooked (Rules.plain_of_isTagRule (Rules.isTagRule_of_mem rule h))
      (hooked_of_mem h) htext
  intro stage h hfinds
  simp only [docStages, List.mem_cons, List.mem_append, List.mem_map] at h
  rcases h with rfl | ⟨rule, hrule, rfl⟩ | ⟨rule, hrule, rfl⟩
  · rcases hfinds.2 with hsome | hsome
    · exact hsome (find?_eq_none_of_hooked (by decide) (hooked_behind_brace _) htext)
    · exact hsome (find?_eq_none_of_hooked (by decide) (hooked_behind_brace _) htext)
  · exact hfinds (hnone rule (List.mem_append_left _ hrule))
  · exact hfinds (hnone rule (List.mem_append_right _ hrule))

end

/-! ## The filter -/

/-- A comment up to its first `@` or closing brace. -/
def opening (text : List Char) : List Char := text.takeWhile fun c => !isHook c

/-- What a comment says before its first `@` or closing brace: without the spaces, tabs and stars at
the end. -/
def leadingProse (text : List Char) : List Char := Text.dropEndWhile Rules.isFringe (opening text)

/-- There is no hook before the first one. -/
lemma not_isHook_of_mem_opening {text : List Char} {c : Char} (h : c ∈ opening text) :
    isHook c = false := by
  simpa using List.mem_takeWhile_imp h

/-- The leading prose has no hooks, and does not end with a space, a tab or a star. -/
lemma firm_leadingProse (text : List Char) : Firm (leadingProse text) := by
  constructor
  · intro c hc
    have hmem : c ∈ opening text := by
      rw [leadingProse, Text.dropEndWhile, List.mem_reverse] at hc
      exact List.mem_reverse.mp ((List.dropWhile_sublist _).subset hc)
    exact not_isHook_of_mem_opening hmem
  · intro c hc
    rw [leadingProse, Text.dropEndWhile, List.getLast?_reverse] at hc
    have hstop := List.head?_dropWhile_not Rules.isFringe (opening text).reverse
    rw [hc] at hstop
    simpa using hstop

/-- The leading prose begins the comment. -/
lemma leadingProse_prefix (text : List Char) : leadingProse text <+: text := by
  have hdrop : leadingProse text <+: opening text := by
    rw [leadingProse, Text.dropEndWhile, ← List.reverse_suffix, List.reverse_reverse]
    exact List.dropWhile_suffix _
  exact hdrop.trans (List.takeWhile_prefix _)

/-- **Prose before the first annotation is kept**: a filtered documentation comment is dropped, or
it begins with what the comment says before its first `@` or closing brace.  A comment without these
characters stays as it is, if it is not dropped because nothing but delimiters, blanks and stars is
in it. -/
theorem filter_keeps_leadingProse (markers : List Marker) (comment : String) :
    (filter .doc markers comment = "" ∨
      leadingProse comment.toList <+: (filter .doc markers comment).toList) ∧
    (opening comment.toList = comment.toList →
      filter .doc markers comment =
        if Text.allBlank comment.toList || isEmptyShell comment.toList then "" else comment) := by
  constructor
  · obtain ⟨back, hback⟩ := leadingProse_prefix comment.toList
    obtain ⟨back', hkept⟩ := exists_kept_filterDoc (firm_leadingProse comment.toList) back
    rw [hback] at hkept
    rw [filter, filterChars, dropEmpty]
    split
    · exact .inl rfl
    · right
      rw [String.toList_ofList, hkept]
      exact List.prefix_append ..
  · intro hall
    have hnone : ∀ c ∈ comment.toList, isHook c = false := fun c hc =>
      not_isHook_of_mem_opening (hall.symm ▸ hc)
    have hsame : filterDoc comment.toList = comment.toList := by
      rcases stripped_cases .doc comment.toList with ⟨-, hsame⟩ | ⟨hnot, -⟩
      · exact hsame
      · exact absurd (settled_of_not_isHook hnone) hnot
    rw [filter, filterChars, hsame, dropEmpty]
    split
    · rfl
    · exact String.ofList_toList

/-- A comment without annotations stays as it is. -/
theorem filter_keeps_leadingProse_plain :
    filter .doc Marker.builtIn "/** Frees the pool. */" = "/** Frees the pool. */" := by
  have hsame := (filter_keeps_leadingProse Marker.builtIn "/** Frees the pool. */").2
    (by decide +kernel)
  rw [hsame]
  decide +kernel

end Marginalia.Filter
