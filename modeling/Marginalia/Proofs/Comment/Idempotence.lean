import Marginalia.Proofs.Comment.Completeness
import Marginalia.Proofs.Pattern.Slack

/-!
# Filtering twice

A filtered comment should not change when it is filtered once more.  Every stage of the filter
leaves a text alone in which it finds nothing, and shortens any other text.  So no stage undoes what
another one did, and the second filtering changes nothing exactly if no stage finds anything in the
filtered text.

This is not always so: deleting an annotation can bring together the two sides of a match.

## Main definitions

* `Filter.Stage.Finds` — a stage finds something to replace.
* `Filter.Settled` — nothing of what the filter looks for is left.

## Main results

* `Filter.apply_of_not_finds`, `Filter.length_apply_lt` — a stage leaves a text alone or shortens
  it.
* `Filter.foldl_apply` — so do several stages in a row.
* `Filter.filter_filter_iff` — when a second filtering changes nothing.
-/

namespace Marginalia

open Pattern

/-! ## What a rule puts back -/

namespace Rules

/-- Every rule leaves out more than its opening of a line and the part that it keeps. -/
lemma slack_of_mem : ∀ rule ∈ keepRules ++ dropRules,
    rule.apart ["block", "keep"] = true ∧ 0 < rule.slack ["block", "keep"] := by
  decide +kernel

section

variable {rule : Pattern} {text : List Char}

/-- What a rule puts back is shorter than the match. -/
lemma length_putBack_lt (h : rule ∈ keepRules ++ dropRules) {f : Found} (hf : f.Matches rule) :
    (f.captured "block").length + (f.captured "keep").length < f.matched.length := by
  obtain ⟨hapart, hslack⟩ := slack_of_mem rule h
  have hle := hf.length_captured_le (by decide) hapart
  simp only [Pattern.totalLength] at hle
  omega

/-- **A rule that keeps a part shortens a text** in which it has a match. -/
lemma length_applyKeep_lt (h : rule ∈ keepRules) (hfind : rule.find? text ≠ none) :
    (applyKeep rule text).length < text.length := by
  have hp := plain_of_isTagRule (isTagRule_of_mem_keepRules h)
  have hback : ∀ f : Found, f.Matches rule →
      (f.captured "block").length + (f.captured "keep").length < f.matched.length :=
    fun f hf => length_putBack_lt (List.mem_append_left _ h) hf
  obtain ⟨f, hf⟩ := Option.ne_none_iff_exists'.mp hfind
  rw [applyKeep, hf]
  dsimp only
  split
  · refine length_replaceAll_lt hp (fun g hg => ?_) hfind
    exact Nat.lt_of_le_of_lt (Nat.zero_le _) (hback g hg)
  · refine length_replaceAll_lt hp (fun g hg => ?_) hfind
    rw [List.length_append]
    exact hback g hg

/-- **A rule for annotations that go shortens a text** in which it has a match. -/
lemma length_applyDrop_lt (h : rule ∈ dropRules) (hfind : rule.find? text ≠ none) :
    (applyDrop rule text).length < text.length := by
  have hp := plain_of_isTagRule (isTagRule_of_mem_dropRules h)
  have hback : ∀ f : Found, f.Matches rule → (f.captured "block").length < f.matched.length :=
    fun f hf => Nat.lt_of_le_of_lt (Nat.le_add_right ..)
      (length_putBack_lt (List.mem_append_right _ h) hf)
  obtain ⟨f, hf⟩ := Option.ne_none_iff_exists'.mp hfind
  rw [applyDrop, hf]
  dsimp only
  split
  · refine length_replaceAll_lt hp (fun g hg => ?_) hfind
    exact Nat.lt_of_le_of_lt (Nat.zero_le _) (hback g hg)
  · exact length_replaceAll_lt hp hback hfind

end

end Rules

namespace Filter

/-! ## Descriptions and markers -/

section

variable {text : List Char}

/-- The start of a description that is moved up takes the place of a longer match. -/
lemma length_prose_lt {f : Found} (hf : f.Matches Rules.proseAfterType) :
    (['\x7d', ' '] ++ f.captured "prose").length < f.matched.length := by
  have hle := hf.length_captured_le (by decide : ["prose"].Nodup) (by decide)
  have hslack : Rules.proseAfterType.slack ["prose"] = 4 := by decide
  simp only [Pattern.totalLength] at hle
  simp only [List.length_append, List.length_cons, List.length_nil]
  omega

/-- The name before a description that is moved up takes the place of a longer match. -/
lemma length_identifier_lt {f : Found} (hf : f.Matches Rules.proseAfterName) :
    (['\x7d', ' '] ++ f.captured "identifier" ++ [' ']).length < f.matched.length := by
  have hle := hf.length_captured_le (by decide : ["identifier"].Nodup) (by decide)
  have hslack : Rules.proseAfterName.slack ["identifier"] = 5 := by decide
  simp only [Pattern.totalLength] at hle
  simp only [List.length_append, List.length_cons, List.length_nil]
  omega

/-- There is a description to move up. -/
def FindsProse (text : List Char) : Prop :=
  text.contains '\n' = true ∧
    (Rules.proseAfterType.find? text ≠ none ∨ Rules.proseAfterName.find? text ≠ none)

/-- Without a description to move up, a text stays as it is. -/
lemma pullUpProse_of_not_findsProse (h : ¬ FindsProse text) : pullUpProse text = text := by
  rw [pullUpProse]
  split
  · next hline =>
    obtain ⟨htype, hname⟩ := not_or.mp fun hfind => h ⟨hline, hfind⟩
    rw [replaceAll_of_find?_eq_none (not_not.mp htype),
      replaceAll_of_find?_eq_none (not_not.mp hname)]
  · rfl

/-- **Moving a description up shortens the text.**  The second pattern looks at what the first one
leaves, so the text is shorter already when only the first one has a match. -/
lemma length_pullUpProse_lt (h : FindsProse text) : (pullUpProse text).length < text.length := by
  obtain ⟨hline, hfind⟩ := h
  rw [pullUpProse, if_pos hline]
  by_cases htype : Rules.proseAfterType.find? text = none
  · have hname := hfind.resolve_left (not_not.mpr htype)
    rw [replaceAll_of_find?_eq_none htype]
    exact length_replaceAll_lt (by decide) (fun f hf => length_identifier_lt hf) hname
  · have hfirst := length_replaceAll_lt (by decide) (fun f hf => length_prose_lt hf) htype
    refine Nat.lt_of_le_of_lt ?_ hfirst
    by_cases hname : Rules.proseAfterName.find? (Rules.proseAfterType.replaceAll
        (fun f => ['\x7d', ' '] ++ f.captured "prose") text) = none
    · rw [replaceAll_of_find?_eq_none hname]
    · exact Nat.le_of_lt
        (length_replaceAll_lt (by decide) (fun f hf => length_identifier_lt hf) hname)

/-- Deleting the markers of a text shortens it. -/
lemma length_eraseAll_marker_lt (h : Rules.scopeMarker.find? text ≠ none) :
    (Rules.scopeMarker.eraseAll text).length < text.length :=
  length_replaceAll_lt (by decide +kernel)
    (fun _ hf => List.length_pos_iff.mpr (hf.ne_nil (by decide +kernel))) h

end

/-! ## The stages -/

/-- The stage finds something to replace in a text. -/
def Stage.Finds : Stage → List Char → Prop
  | .pullUp, text => FindsProse text
  | .keep rule, text | .drop rule, text => rule.find? text ≠ none

section

variable {stage : Stage} {text : List Char}

/-- **A stage that finds nothing changes nothing.** -/
lemma apply_of_not_finds (h : ¬ stage.Finds text) : stage.apply text = text := by
  cases stage with
  | pullUp => exact pullUpProse_of_not_findsProse h
  | keep rule => rw [Stage.apply, Rules.applyKeep, not_not.mp h]
  | drop rule => rw [Stage.apply, Rules.applyDrop, not_not.mp h]

/-- **A stage that finds something shortens the text.** -/
lemma length_apply_lt (h : stage ∈ docStages) (hfinds : stage.Finds text) :
    (stage.apply text).length < text.length := by
  simp only [docStages, List.mem_cons, List.mem_append, List.mem_map] at h
  rcases h with rfl | ⟨rule, hrule, rfl⟩ | ⟨rule, hrule, rfl⟩
  · exact length_pullUpProse_lt hfinds
  · exact Rules.length_applyKeep_lt hrule hfinds
  · exact Rules.length_applyDrop_lt hrule hfinds

/-- **Several stages in a row** leave a text alone if none of them finds anything, and else shorten
it.

**Proof sketch.** Induction on the stages.  As long as nothing is found, the text stays the same;
the first stage that finds something shortens it, and the ones behind it do not lengthen it. -/
lemma foldl_apply {stages : List Stage} (h : ∀ stage ∈ stages, stage ∈ docStages)
    (text : List Char) :
    ((∀ stage ∈ stages, ¬ stage.Finds text) ∧
        stages.foldl (fun text stage => stage.apply text) text = text) ∨
      ((∃ stage ∈ stages, stage.Finds text) ∧
        (stages.foldl (fun text stage => stage.apply text) text).length < text.length) := by
  induction stages generalizing text with
  | nil => exact .inl ⟨by simp, rfl⟩
  | cons stage stages ih =>
    have hrest := ih fun s hs => h s (List.mem_cons_of_mem _ hs)
    rw [List.foldl_cons]
    by_cases hfinds : stage.Finds text
    · have hlt := length_apply_lt (h stage (List.mem_cons_self ..)) hfinds
      refine .inr ⟨⟨stage, List.mem_cons_self .., hfinds⟩, ?_⟩
      rcases hrest (stage.apply text) with ⟨-, hsame⟩ | ⟨-, hshorter⟩
      · rwa [hsame]
      · exact Nat.lt_trans hshorter hlt
    · rw [apply_of_not_finds hfinds]
      refine (hrest text).imp ?_ ?_
      · rintro ⟨hnone, hsame⟩
        exact ⟨List.forall_mem_cons.mpr ⟨hfinds, hnone⟩, hsame⟩
      · rintro ⟨⟨s, hs, hsome⟩, hshorter⟩
        exact ⟨⟨s, List.mem_cons_of_mem _ hs, hsome⟩, hshorter⟩

end

/-! ## The filter -/

/-- Nothing of what the filter looks for is left in a text. -/
def Settled : CommentKind → List Char → Prop
  | .doc, text => ∀ stage ∈ docStages, ¬ stage.Finds text
  | .line, text | .block, text => Rules.scopeMarker.find? text = none

/-- The text that the stages of the filter for a kind leave, before empty comments are dropped. -/
def stripped : CommentKind → List Char → List Char
  | .doc, text => filterDoc text
  | .line, text | .block, text => Rules.scopeMarker.eraseAll text

section

variable {kind : CommentKind} {text : List Char}

/-- With the built-in markers, the filter strips a comment and drops it if it is empty. -/
lemma filterChars_eq (kind : CommentKind) (text : List Char) :
    filterChars kind Marker.builtIn text = dropEmpty (stripped kind text) := by
  cases kind <;> rfl

/-- **Stripping leaves a settled text alone and shortens any other one.** -/
lemma stripped_cases (kind : CommentKind) (text : List Char) :
    (Settled kind text ∧ stripped kind text = text) ∨
      (¬ Settled kind text ∧ (stripped kind text).length < text.length) := by
  have hplain : (Rules.scopeMarker.find? text = none ∧ Rules.scopeMarker.eraseAll text = text) ∨
      (¬ Rules.scopeMarker.find? text = none ∧
        (Rules.scopeMarker.eraseAll text).length < text.length) := by
    by_cases h : Rules.scopeMarker.find? text = none
    · exact .inl ⟨h, replaceAll_of_find?_eq_none h⟩
    · exact .inr ⟨h, length_eraseAll_marker_lt h⟩
  cases kind with
  | line => exact hplain
  | block => exact hplain
  | doc =>
    rw [stripped, ← stageText_length, stageText, List.take_length, Settled]
    refine (foldl_apply (fun _ h => h) text).imp_right ?_
    rintro ⟨⟨stage, hstage, hfinds⟩, hshorter⟩
    exact ⟨fun hnone => hnone stage hstage hfinds, hshorter⟩

/-- Dropping what is empty makes no text longer. -/
lemma length_dropEmpty_le (text : List Char) : (dropEmpty text).length ≤ text.length := by
  rw [dropEmpty]
  split
  · exact Nat.zero_le _
  · exact Nat.le_refl _

/-- Dropping empty comments a second time changes nothing. -/
lemma dropEmpty_dropEmpty (text : List Char) : dropEmpty (dropEmpty text) = dropEmpty text := by
  by_cases h : (Text.allBlank text || isEmptyShell text) = true
  · have hnil : dropEmpty text = [] := by rw [dropEmpty, if_pos h]
    rw [hnil]
    rfl
  · have hself : dropEmpty text = text := by rw [dropEmpty, if_neg h]
    rw [hself, hself]

end

/-- **When a second filtering changes nothing**: exactly if no stage of the filter finds anything in
the filtered comment.  Otherwise the comment gets shorter. -/
theorem filter_filter_iff (kind : CommentKind) (comment : String) :
    (filter kind Marker.builtIn (filter kind Marker.builtIn comment) =
        filter kind Marker.builtIn comment ↔
      Settled kind (filter kind Marker.builtIn comment).toList) ∧
    (¬ Settled kind (filter kind Marker.builtIn comment).toList →
      (filter kind Marker.builtIn (filter kind Marker.builtIn comment)).length <
        (filter kind Marker.builtIn comment).length) := by
  have htext : (filter kind Marker.builtIn comment).toList =
      dropEmpty (stripped kind comment.toList) := by
    rw [filter, String.toList_ofList, filterChars_eq]
  have hagain : (filter kind Marker.builtIn (filter kind Marker.builtIn comment)).toList =
      dropEmpty (stripped kind (filter kind Marker.builtIn comment).toList) := by
    rw [filter, String.toList_ofList, filterChars_eq]
  rw [← String.toList_inj, ← String.length_toList, ← String.length_toList, hagain]
  rcases stripped_cases kind (filter kind Marker.builtIn comment).toList with
    ⟨hsettled, hsame⟩ | ⟨hfinds, hshorter⟩
  · rw [hsame, htext, dropEmpty_dropEmpty, ← htext]
    exact ⟨iff_of_true rfl hsettled, fun h => absurd hsettled h⟩
  · have hlt := Nat.lt_of_le_of_lt (length_dropEmpty_le _) hshorter
    exact ⟨iff_of_false (fun h => Nat.lt_irrefl _ (h ▸ hlt)) hfinds, fun _ => hlt⟩

/-- A description below an annotation that goes, and a type above it. -/
def separatedProse : String :=
  "/**\n * @see \x7bFoo\x7d\n * @private\n *   More.\n */"

/-- The first pass removes the annotation between the type and the description. -/
lemma filter_separatedProse : filter .doc Marker.builtIn separatedProse =
    "/**\n * @see \x7bFoo\x7d\n *   More.\n */" := by
  decide +kernel

/-- The second pass pulls the description up behind the type. -/
lemma filter_filter_separatedProse :
    filter .doc Marker.builtIn "/**\n * @see \x7bFoo\x7d\n *   More.\n */" =
      "/**\n * @see \x7bFoo\x7d More.\n */" := by
  decide +kernel

/-- Deleting the annotation leaves the description right below the type, and only a second filtering
moves it up. -/
theorem filter_separatedProse_twice :
    filter .doc Marker.builtIn (filter .doc Marker.builtIn separatedProse) ≠
      filter .doc Marker.builtIn separatedProse := by
  rw [filter_separatedProse, filter_filter_separatedProse]
  decide

/-- So something is left to find after the first filtering, as `filter_filter_iff` says. -/
theorem not_settled_separatedProse :
    ¬ Settled .doc (filter .doc Marker.builtIn separatedProse).toList := by
  intro h
  have hsame := (filter_filter_iff .doc separatedProse).1.mpr h
  rw [filter_separatedProse, filter_filter_separatedProse] at hsame
  exact absurd hsame (by decide)

end Filter

end Marginalia
