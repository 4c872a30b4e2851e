import Marginalia.Proofs.Comment.Annotations

/-!
# When a filtered comment is still a comment

The filter for documentation comments is a row of stages: descriptions are moved up, and then the
rules are applied one after the other.  Each stage gets the text that the one before it left.  So a
comment that is complete at first is complete in the end, unless some stage breaks it and no later
one mends it.

## Main definitions

* `Filter.Stage`, `Filter.docStages`, `Filter.stageText` — the stages, and the texts behind them.
* `Filter.Stage.Breaks` — when a stage breaks a complete comment.
* `Filter.LosesSlashes` — when deleting markers breaks a line comment.
* `Filter.Delimited`, `Filter.Survives` — a text is a comment of a family, and the filter leaves it
  there.

## Main results

* `Filter.complete_pullUpProse` — moving descriptions up breaks no comment.
* `Filter.complete_filterDoc_iff` — a comment is complete in the end exactly if every break is
  mended.
* `Filter.filter_delimited_iff` — when a filtered comment is still a comment of its family.
-/

namespace Marginalia

open Pattern

namespace Filter

/-! ## Descriptions and markers -/

section

variable {p : Pattern} {text : List Char}

/-- Putting values in the place of matches that begin with no delimiter. -/
lemma complete_replaceAll_of_mayStart (hp : p.plain = true) (hnull : p.nullable = false)
    (hslash : p.mayStart '/' = false) (hstar : p.mayStart '*' = false) (value : Found → List Char)
    (hvalue : ∀ f : Found, f.Matches p →
      (Closed f.matched → Closed (value f)) ∧ (['*'] <:+ f.matched → ['*'] <:+ value f))
    (hc : Complete text) : Complete (p.replaceAll value text) := by
  rw [replaceAll_eq]
  refine complete_of_spares (text_eq_cuts hp text) hc ?_ ?_
  · intro f hf
    have hf := matches_of_mem_cuts hp hf
    exact ⟨hf.ne_nil hnull, (ne_slash_and_not_opening (hf.head?_ne hslash)).1, (hvalue f hf).1,
      (hvalue f hf).2⟩
  · intro f hf
    have hf := matches_of_mem_cuts hp hf
    exact ⟨(ne_slash_and_not_opening (hf.head?_ne hslash)).2,
      fun hm => absurd hm (hf.head?_ne hstar)⟩

/-- A description that is moved up takes a closing delimiter along. -/
lemma prose_spares {f : Found} (hf : f.Matches Rules.proseAfterType) :
    (Closed f.matched → Closed (f.captured "prose")) ∧
      (['*'] <:+ f.matched → ['*'] <:+ f.captured "prose") := by
  obtain ⟨s, -, brace, _, _, -, ⟨gap, _, _, -, ⟨star, _, _, -, ⟨blanks, _, prose, hblanks,
    ⟨_, _, _, ⟨-, rfl, -⟩, ⟨u, hprose, hafter⟩, rfl⟩, rfl⟩, rfl⟩, rfl⟩, hm⟩ := hf
  have hcaptured : f.captured "prose" = prose := by
    rw [Found.captured, Found.captured?, hafter]
    simp [Spot.captured?]
  have hlen : 2 ≤ blanks.length := hblanks.2.1
  have hne : 1 ≤ prose.length := hprose.2.1
  rw [hcaptured, hm]
  refine ⟨fun hc => ?_, fun hs => ?_⟩
  · have hc' : Closed ((brace ++ (gap ++ star)) ++ (blanks ++ prose)) := by
      simpa [List.append_assoc] using hc
    rcases closed_cases _ (by rintro rfl; simp at hlen) (by rintro rfl; simp at hlen) hc' with
      ⟨rfl, -⟩ | ⟨-, hstar⟩ | h
    · simp at hne
    · -- the characters before the description are blank
      exact absurd (hblanks.1 '*' (hstar.subset (by simp))) (by decide)
    · exact h
  · have hsuffix : prose <:+ brace ++ (gap ++ (star ++ (blanks ++ prose))) :=
      ⟨brace ++ (gap ++ (star ++ blanks)), by simp [List.append_assoc]⟩
    exact List.suffix_of_suffix_length_le hs hsuffix hne

/-- **Moving descriptions up keeps a comment complete.** -/
lemma complete_pullUpProse (hc : Complete text) : Complete (pullUpProse text) := by
  rw [pullUpProse]
  split
  · refine complete_replaceAll_of_mayStart (by decide) (by decide) (by decide) (by decide) _ ?_
      (complete_replaceAll_of_mayStart (by decide) (by decide) (by decide) (by decide) _ ?_ hc)
    · intro f hf
      have hslash : ¬ ['/'] <:+ f.matched := hf.not_suffix (by decide)
      have hstar : ¬ ['*'] <:+ f.matched := hf.not_suffix (by decide)
      exact ⟨fun hm => absurd ((List.suffix_append ['*'] ['/']).trans hm) hslash,
        fun hm => absurd hm hstar⟩
    · intro f hf
      obtain ⟨hclosed, hstar⟩ := prose_spares hf
      exact ⟨fun hm => (hclosed hm).append_left _,
        fun hm => (hstar hm).trans (List.suffix_append ..)⟩
  · exact hc

/-- A match of the marker begins with two slashes. -/
lemma slashes_of_marker {f : Found} (hf : f.Matches Rules.scopeMarker) :
    ['/', '/'] <+: f.matched := by
  obtain ⟨s, -, m₁, u, m₂, h, -, hm⟩ := hf
  have htext : Pattern.text "//" = .seq (char '/') (char '/') := by decide
  rw [htext] at h
  obtain ⟨_, _, _, ⟨c, _, -, hc, rfl, -⟩, ⟨d, _, -, hd, rfl, -⟩, rfl⟩ := h
  obtain rfl : c = '/' := by simpa [CharClass.has, ClassItem.has] using hc
  obtain rfl : d = '/' := by simpa [CharClass.has, ClassItem.has] using hd
  exact ⟨m₂, hm.symm⟩

/-- **Deleting markers keeps a block comment complete.** -/
lemma complete_eraseAll_marker (hc : Complete text) :
    Complete (Rules.scopeMarker.eraseAll text) := by
  have hp : Rules.scopeMarker.plain = true := by decide +kernel
  have hstar : Rules.scopeMarker.mayStart '*' = false := by decide +kernel
  have hend : ∀ f : Found, f.Matches Rules.scopeMarker →
      ¬ ['*'] <:+ f.matched ∧ ¬ ['/'] <:+ f.matched := fun f hf =>
    ⟨hf.not_suffix (by decide +kernel), hf.not_suffix (by decide +kernel)⟩
  rw [eraseAll, replaceAll_eq]
  refine complete_of_spares (text_eq_cuts hp text) hc ?_ ?_
  · intro f hf
    have hf := matches_of_mem_cuts hp hf
    obtain ⟨m, hm⟩ := slashes_of_marker hf
    refine ⟨by simp [← hm], by simp [← hm], ?_, fun h => absurd h (hend f hf).1⟩
    exact fun h => absurd ((List.suffix_append ['*'] ['/']).trans h) (hend f hf).2
  · intro f hf
    have hf := matches_of_mem_cuts hp hf
    obtain ⟨m, hm⟩ := slashes_of_marker hf
    refine ⟨?_, fun h => absurd h (hf.head?_ne hstar)⟩
    rintro ⟨m', hm'⟩
    simp [← hm] at hm'

/-- Deleting the markers of a line comment loses its delimiter: the first marker begins inside of
it, and what is left does not make up for it. -/
def LosesSlashes (text : List Char) : Prop :=
  ∃ f rest, (Rules.scopeMarker.cuts text).1 = f :: rest ∧
    ((f.before = [] ∧
        ¬ ['/', '/'] <+: rest.flatMap Found.before ++ (Rules.scopeMarker.cuts text).2) ∨
      (f.before = ['/'] ∧
        ¬ ['/'] <+: rest.flatMap Found.before ++ (Rules.scopeMarker.cuts text).2))

/-- **When deleting markers breaks a line comment.** -/
lemma not_slashes_eraseAll_marker_iff (hc : ['/', '/'] <+: text) :
    ¬ ['/', '/'] <+: Rules.scopeMarker.eraseAll text ↔ LosesSlashes text := by
  have hp : Rules.scopeMarker.plain = true := by decide +kernel
  have htext := text_eq_cuts hp text
  rw [eraseAll_eq, LosesSlashes]
  generalize (Rules.scopeMarker.cuts text).1 = fs at *
  generalize (Rules.scopeMarker.cuts text).2 = tail at *
  rw [htext] at hc
  match fs with
  | [] => simpa using hc
  | f :: rest =>
    simp only [List.flatMap_cons, List.append_assoc] at hc ⊢
    simp only [List.cons.injEq, existsAndEq, and_true]
    match hb : f.before with
    | [] => simp
    | [c] =>
      rw [hb] at hc
      obtain ⟨rfl, -⟩ : '/' = c ∧ _ := List.cons_prefix_cons.mp hc
      simp [List.cons_prefix_cons]
    | c :: d :: b =>
      rw [hb] at hc
      obtain ⟨rfl, rfl⟩ : '/' = c ∧ '/' = d := by simpa [List.cons_prefix_cons] using hc
      simp [List.cons_prefix_cons]

end

/-! ## The stages of the filter -/

/-- A stage of the filter for documentation comments. -/
inductive Stage where
  /-- Descriptions are moved up. -/
  | pullUp
  /-- A rule that keeps a part is applied. -/
  | keep (rule : Pattern)
  /-- A rule for annotations that go is applied. -/
  | drop (rule : Pattern)

namespace Stage

/-- The text behind a stage. -/
def apply : Stage → List Char → List Char
  | .pullUp => pullUpProse
  | .keep rule => Rules.applyKeep rule
  | .drop rule => Rules.applyDrop rule

/-- The stage takes a delimiter from a complete comment, and nothing makes up for it. -/
def Breaks : Stage → List Char → Prop
  | .pullUp, _ => False
  | .keep rule, text =>
    Rules.KeepDeletes rule text ∧ (LosesOpening rule text ∨ LosesClosing rule text)
  | .drop rule, text => Rules.DropDeletes rule text ∧ LosesOpening rule text

end Stage

/-- The stages of the filter for documentation comments, in their order. -/
def docStages : List Stage :=
  .pullUp :: (Rules.keepRules.map .keep ++ Rules.dropRules.map .drop)

/-- The text of a comment behind the first `n` stages. -/
def stageText (comment : List Char) (n : Nat) : List Char :=
  (docStages.take n).foldl (fun text stage => stage.apply text) comment

section

variable {comment text : List Char} {n : Nat} {stage : Stage}

/-- Behind the last stage there is the filtered text. -/
lemma stageText_length (comment : List Char) :
    stageText comment docStages.length = filterDoc comment := by
  rw [stageText, List.take_length, docStages, List.foldl_cons, List.foldl_append, List.foldl_map,
    List.foldl_map]
  rfl

/-- Each stage applies to the text that the one before it leaves. -/
lemma stageText_succ (h : docStages[n]? = some stage) :
    stageText comment (n + 1) = stage.apply (stageText comment n) := by
  rw [stageText, List.take_add_one, h, List.foldl_append]
  rfl

/-- **A stage breaks a complete comment** exactly as `Stage.Breaks` says. -/
lemma not_complete_apply_iff (h : stage ∈ docStages) (hc : Complete text) :
    ¬ Complete (stage.apply text) ↔ stage.Breaks text := by
  simp only [docStages, List.mem_cons, List.mem_append, List.mem_map] at h
  rcases h with rfl | ⟨rule, hrule, rfl⟩ | ⟨rule, hrule, rfl⟩
  · exact iff_of_false (not_not.mpr (complete_pullUpProse hc)) id
  · exact Rules.not_complete_applyKeep_iff hrule hc
  · exact Rules.not_complete_applyDrop_iff hrule hc

/-- **A comment is complete in the end** exactly if behind every stage that breaks it there is a
later text that is complete again.

**Proof sketch.** From a stage with a complete text go on to the next such stage: the next one, if
the stage does not break the comment, and else the one that mends it. -/
lemma complete_filterDoc_iff (hc : Complete comment) :
    Complete (filterDoc comment) ↔
      ∀ n stage, docStages[n]? = some stage → Complete (stageText comment n) →
        stage.Breaks (stageText comment n) →
        ∃ k, n < k ∧ k ≤ docStages.length ∧ Complete (stageText comment k) := by
  rw [← stageText_length]
  constructor
  · intro hend n stage hn _ _
    exact ⟨_, (List.getElem?_eq_some_iff.mp hn).1, Nat.le_refl _, hend⟩
  · intro hmend
    -- induction on the number of stages to come
    have hgo : ∀ left n, n + left = docStages.length → Complete (stageText comment n) →
        Complete (stageText comment docStages.length) := by
      intro left
      induction left using Nat.strongRecOn with
      | ind left ih =>
        intro n hn hcn
        rcases Nat.eq_zero_or_pos left with rfl | hpos
        · rwa [← hn]
        · have hlt : n < docStages.length := by omega
          have hget : docStages[n]? = some docStages[n] := List.getElem?_eq_getElem hlt
          by_cases hnext : Complete (stageText comment (n + 1))
          · exact ih (left - 1) (by omega) (n + 1) (by omega) hnext
          · rw [stageText_succ hget, not_complete_apply_iff (List.getElem_mem hlt) hcn] at hnext
            obtain ⟨k, hnk, hk, hck⟩ := hmend n _ hget hcn hnext
            exact ih (docStages.length - k) (by omega) k (by omega) hck
    exact hgo docStages.length 0 (by omega) hc

end

/-! ## Filtered comments -/

/-- The text of a comment is dropped because nothing is left in it. -/
def Dropped (text : List Char) : Prop := (Text.allBlank text || isEmptyShell text) = true

/-- What is left of a text that is dropped or not. -/
lemma dropEmpty_eq_nil_or_iff {text : List Char} {P : List Char → Prop} :
    (dropEmpty text = [] ∨ P (dropEmpty text)) ↔ Dropped text ∨ P text := by
  rw [dropEmpty, Dropped]
  split
  · next h => simp [h]
  · next h =>
    have hne : text ≠ [] := by
      rintro rfl
      exact h rfl
    simp [h, hne]

/-- The text is a comment of the family that a kind belongs to: it begins with two slashes, or it
has an opening and a closing delimiter. -/
def Delimited : CommentKind → List Char → Prop
  | .line, text => ['/', '/'] <+: text
  | .block, text | .doc, text => Complete text

/-- The filter leaves a comment in its family, or drops it.  A line comment must not lose its
slashes to a marker.  A block comment is always left in its family.  A documentation comment may be
broken by a stage only if a later stage leaves a complete comment again. -/
def Survives : CommentKind → List Char → Prop
  | .line, comment => Dropped (Rules.scopeMarker.eraseAll comment) ∨ ¬ LosesSlashes comment
  | .block, _ => True
  | .doc, comment => Dropped (filterDoc comment) ∨
      ∀ n stage, docStages[n]? = some stage → Complete (stageText comment n) →
        stage.Breaks (stageText comment n) →
        ∃ k, n < k ∧ k ≤ docStages.length ∧ Complete (stageText comment k)

/-- What the characters of a filtered comment say about its text. -/
lemma filter_eq_empty_or_iff (kind : CommentKind) (comment : String) {P : List Char → Prop} :
    (filter kind Marker.builtIn comment = "" ∨ P (filter kind Marker.builtIn comment).toList) ↔
      (filterChars kind Marker.builtIn comment.toList = [] ∨
        P (filterChars kind Marker.builtIn comment.toList)) := by
  rw [filter, String.toList_ofList, ← String.toList_inj, String.toList_ofList]
  rfl

/-- **When a filtered comment is still a comment of its family, or nothing.**

A line comment loses its slashes only if a marker begins inside of them.  A documentation comment is
broken only by a rule that deletes its matches because the first of them reaches the end of its
line: if the first match begins right behind the slash, the star of the opening delimiter goes with
it, and if the last match of a rule for parameters or results ends the comment, the closing
delimiter goes with it. -/
theorem filter_delimited_iff (kind : CommentKind) {comment : String}
    (h : Delimited kind comment.toList) :
    (filter kind Marker.builtIn comment = "" ∨
        Delimited kind (filter kind Marker.builtIn comment).toList) ↔
      Survives kind comment.toList := by
  rw [filter_eq_empty_or_iff]
  cases kind with
  | line =>
    rw [Survives, ← not_slashes_eraseAll_marker_iff h, not_not]
    exact dropEmpty_eq_nil_or_iff
  | block =>
    rw [Survives, iff_true]
    exact dropEmpty_eq_nil_or_iff.mpr (.inr (complete_eraseAll_marker h))
  | doc =>
    rw [Survives, ← complete_filterDoc_iff h]
    exact dropEmpty_eq_nil_or_iff

/-- Two parameters without a description, of which the second one ends the comment. -/
def parameters : String := "/**\n * @param \x7bA\x7d a\n * @param \x7bB\x7d b */"

/-- The comment with two parameters is complete. -/
lemma delimited_parameters : Delimited .doc parameters.toList := by
  refine complete_iff.mpr ⟨parameters.toList.drop 2, ?_, ?_⟩
  · decide +kernel
  · rw [Closed]
    decide +kernel

/-- Only the opening row of the comment with two parameters is left. -/
lemma filter_parameters : filter .doc Marker.builtIn parameters = "/**\n" := by
  decide +kernel

/-- An opening row alone is not a complete comment. -/
lemma not_delimited_opening : ¬ Delimited .doc "/**\n".toList := fun hc => by
  have hclosed := Complete.closed hc
  rw [Closed] at hclosed
  exact absurd hclosed (by decide +kernel)

/-- The rule for parameters deletes both of them, and the closing delimiter with the second one. -/
theorem filter_parameters_unclosed :
    Delimited .doc parameters.toList ∧ filter .doc Marker.builtIn parameters ≠ "" ∧
      ¬ Delimited .doc (filter .doc Marker.builtIn parameters).toList := by
  rw [filter_parameters]
  exact ⟨delimited_parameters, by decide, not_delimited_opening⟩

/-- This break is not mended, as `filter_delimited_iff` says. -/
theorem not_survives_parameters :
    Delimited .doc parameters.toList ∧ ¬ Survives .doc parameters.toList := by
  refine ⟨delimited_parameters, fun h => ?_⟩
  have hfilter := (filter_delimited_iff .doc delimited_parameters).mpr h
  rw [filter_parameters] at hfilter
  exact hfilter.elim (by decide) not_delimited_opening

end Filter

end Marginalia
