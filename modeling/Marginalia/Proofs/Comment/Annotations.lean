import Marginalia.Proofs.Comment.Delimiters

/-!
# The rules and the delimiters

Every rule for documentation comments is the opening of a line, which may be missing, and then an
annotation.  A match of it never begins with a slash and never ends with a star.  So a rule that
puts back the openings of lines keeps a comment complete, and a rule that deletes its matches breaks
it exactly if it loses a delimiter.

What the rules have in common is computed from their patterns.

## Main definitions

* `Rules.isTagRule` — the form that all rules have.
* `Rules.KeepDeletes`, `Rules.DropDeletes` — a rule deletes its matches.

## Main results

* `Rules.isTagRule_of_mem` — all rules are of this form.
* `Rules.block_of_isTagRule` — a match that begins with a star captures it.
* `Rules.not_complete_applyKeep_iff`, `Rules.not_complete_applyDrop_iff` — when a rule breaks a
  comment.
-/

namespace Marginalia

open Pattern

namespace Rules

/-! ## What a rule looks like -/

/-- The rule is the opening of a line and then an annotation.  No match is empty, begins with a
slash or ends with a star, and the annotation does not begin with a star. -/
def isTagRule : Pattern → Bool
  | .seq opening body =>
    decide (opening = lineStart) && body.plain && !body.nullable && !body.mayStart '/' &&
      !body.mayStart '*' && !body.mayEnd '*' && !body.labels.contains (.name "block")
  | _ => false

/-- All rules are of this form. -/
lemma isTagRule_of_mem : ∀ rule ∈ keepRules ++ dropRules, isTagRule rule = true := by
  decide +kernel

/-- Annotations that go leave the closing delimiter alone. -/
lemma mayEnd_of_mem_dropRules : ∀ rule ∈ dropRules, rule.mayEnd '/' = false := by
  decide +kernel

section TagRule

variable {rule : Pattern} (hrule : isTagRule rule = true)
include hrule

/-- A tag rule opens a line, and then reads an annotation that is neither empty nor a delimiter. -/
lemma exists_of_isTagRule :
    ∃ body, rule = .seq lineStart body ∧ body.plain = true ∧ body.nullable = false ∧
      body.mayStart '/' = false ∧ body.mayStart '*' = false ∧ body.mayEnd '*' = false ∧
      .name "block" ∉ body.labels := by
  match rule, hrule with
  | .seq opening body, h =>
    simp only [isTagRule, Bool.and_eq_true, decide_eq_true_eq, Bool.not_eq_true'] at h
    obtain ⟨⟨⟨⟨⟨⟨rfl, hplain⟩, hnull⟩, hslash⟩, hstar⟩, hend⟩, hlabel⟩ := h
    exact ⟨body, rfl, hplain, hnull, hslash, hstar, hend, by simpa using hlabel⟩

/-- A tag rule is plain. -/
lemma plain_of_isTagRule : rule.plain = true := by
  obtain ⟨body, rfl, hplain, -⟩ := exists_of_isTagRule hrule
  exact Bool.and_eq_true_iff.mpr ⟨rfl, hplain⟩

/-- **A match of a rule** is not empty, and it neither begins with a slash nor ends with a star. -/
lemma matched_of_isTagRule {f : Found} (hf : f.Matches rule) :
    f.matched ≠ [] ∧ f.matched.head? ≠ some '/' ∧ ¬ ['*'] <:+ f.matched := by
  obtain ⟨body, rfl, -, hnull, hslash, -, hend, -⟩ := exists_of_isTagRule hrule
  have hopening : lineStart.mayStart '/' = false := by decide
  refine ⟨hf.ne_nil ?_, hf.head?_ne ?_, hf.not_suffix ?_⟩
  · simp [nullable, hnull]
  · simp [mayStart, hopening, hslash]
  · simp [mayEnd, hnull, hend]

/-- **A match that begins with a star** captures it as the opening of its line. -/
lemma block_of_isTagRule {f : Found} (hf : f.Matches rule) (hm : f.matched.head? = some '*') :
    ∃ rest, f.captured "block" = '*' :: rest := by
  obtain ⟨body, rfl, -, -, -, hstar, -, hlabel⟩ := exists_of_isTagRule hrule
  obtain ⟨s, -, m₁, u, m₂, hopening, hbody, hmatched⟩ := hf
  rw [hmatched, List.head?_append] at hm
  rcases hopening with ⟨v, hv, rfl⟩ | ⟨rfl, -⟩
  · -- the opening of the line is there
    have hblock : f.captured "block" = m₁ := by
      rw [Found.captured, Found.captured?, hbody.captured?_eq hlabel]
      simp [Spot.captured?]
    have hne : m₁ ≠ [] := fun h => by
      have hnull := hv.bounds.1 h
      exact absurd hnull (by decide)
    obtain ⟨c, rest, rfl⟩ := List.exists_cons_of_ne_nil hne
    obtain rfl : c = '*' := by simpa using hm
    exact ⟨rest, hblock⟩
  · -- without it the annotation would begin with the star
    exact absurd (hbody.bounds.2.1 '*' (by simpa using hm)) (by simp [hstar])

end TagRule

/-! ## What stays of a match -/

/-- The end of a comment or of a line is captured as what stays. -/
lemma keep_of_keptEnd {s t : Spot} {m : List Char} (h : keptEnd.Leads s m t) :
    t.captured? (.name "keep") = some m ∧ (m = ['*', '/'] ∨ m = ['\n']) := by
  obtain ⟨u, hu, rfl⟩ := h
  refine ⟨by simp [Spot.captured?], ?_⟩
  have htext : text "*/" = .seq (char '*') (char '/') := by decide
  rw [htext] at hu
  rcases hu with
    ⟨_, _, _, ⟨c, _, -, hc, rfl, -⟩, ⟨d, _, -, hd, rfl, -⟩, rfl⟩ | ⟨c, _, -, hc, rfl, -⟩
  · left
    simpa [CharClass.has, ClassItem.has] using And.intro hc hd
  · right
    simpa [CharClass.has, ClassItem.has] using hc

/-- A rule that keeps a part leaves the closing delimiter alone, or has it in the part that it
keeps. -/
lemma keepRules_cases : ∀ rule ∈ keepRules, rule.mayEnd '/' = false ∨ rule.lastPart = keptEnd := by
  decide +kernel

/-- **A closing delimiter in a match stays** with the part that the rule keeps. -/
lemma closed_keep {rule : Pattern} (h : rule ∈ keepRules) {f : Found} (hf : f.Matches rule)
    (hc : Filter.Closed f.matched) : Filter.Closed (f.captured "keep") := by
  rcases keepRules_cases rule h with hend | hend
  · exact absurd ((List.suffix_append ['*'] ['/']).trans hc) (hf.not_suffix hend)
  · obtain ⟨s, -, hs⟩ := hf
    obtain ⟨m₁, u, m₂, hlast, hm⟩ := hs.lastPart
    rw [hend] at hlast
    obtain ⟨hkeep, rfl | rfl⟩ := keep_of_keptEnd hlast
    · rw [Found.captured, Found.captured?, hkeep]
      exact List.suffix_refl _
    · -- a match that ends a line does not end with the delimiter
      obtain ⟨body, hbody⟩ := hc
      have hlast : (body ++ ['*', '/']).getLast? = (m₁ ++ ['\n']).getLast? := by rw [hbody, hm]
      simp at hlast

/-! ## What a rule does to a comment -/

open Marginalia.Filter

/-- A rule that keeps a part deletes its matches instead. -/
def KeepDeletes (rule : Pattern) (text : List Char) : Prop :=
  ∃ f, rule.find? text = some f ∧ Text.allBlank (f.captured "keep") = true

/-- A rule for annotations that go deletes the openings of their lines too. -/
def DropDeletes (rule : Pattern) (text : List Char) : Prop :=
  ∃ f, rule.find? text = some f ∧ (f.captured? "eol").isSome = true

section Apply

variable {rule : Pattern} {text : List Char}

/-- The rules that keep a description are tag rules. -/
lemma isTagRule_of_mem_keepRules (h : rule ∈ keepRules) : isTagRule rule = true :=
  isTagRule_of_mem rule (List.mem_append_left _ h)

/-- The rules that drop an annotation are tag rules. -/
lemma isTagRule_of_mem_dropRules (h : rule ∈ dropRules) : isTagRule rule = true :=
  isTagRule_of_mem rule (List.mem_append_right _ h)

/-- **Putting values in the place of annotations** keeps a comment complete, if a value gives back
the opening of the line, and the closing delimiter where a match has it. -/
lemma complete_replaceAll (hrule : isTagRule rule = true) (kept : Found → List Char)
    (hkept : ∀ f : Found, f.Matches rule → Closed f.matched → Closed (kept f))
    (hc : Complete text) :
    Complete (rule.replaceAll (fun f => f.captured "block" ++ kept f) text) := by
  have hp := plain_of_isTagRule hrule
  rw [replaceAll_eq]
  refine complete_of_spares (text_eq_cuts hp text) hc ?_ ?_
  · intro f hf
    have hf := matches_of_mem_cuts hp hf
    obtain ⟨hnil, hslash, hstar⟩ := matched_of_isTagRule hrule hf
    exact ⟨hnil, (ne_slash_and_not_opening hslash).1,
      fun hm => (hkept f hf hm).append_left _, fun hm => absurd hm hstar⟩
  · intro f hf
    have hf := matches_of_mem_cuts hp hf
    obtain ⟨-, hslash, hstar⟩ := matched_of_isTagRule hrule hf
    refine ⟨(ne_slash_and_not_opening hslash).2, fun hm => ⟨hstar, ?_⟩⟩
    obtain ⟨rest, hblock⟩ := block_of_isTagRule hrule hf hm
    exact ⟨rest ++ kept f, by rw [hblock]; rfl, fun hm => (hkept f hf hm).append_left rest⟩

/-- **When a rule that keeps a part breaks a comment**: exactly if it deletes its matches and loses
a delimiter. -/
lemma not_complete_applyKeep_iff (h : rule ∈ keepRules) (hc : Complete text) :
    ¬ Complete (applyKeep rule text) ↔
      KeepDeletes rule text ∧ (LosesOpening rule text ∨ LosesClosing rule text) := by
  have hrule := isTagRule_of_mem_keepRules h
  have hp := plain_of_isTagRule hrule
  rw [applyKeep, KeepDeletes]
  cases hf : rule.find? text with
  | none => simp [hc]
  | some f =>
    by_cases hblank : Text.allBlank (f.captured "keep") = true
    · simp only [hblank, if_true, Option.some.injEq, exists_eq_left', true_and]
      exact not_complete_eraseAll_iff hp hc fun g hg =>
        matched_of_isTagRule hrule (matches_of_mem_cuts hp hg)
    · have hcomplete := complete_replaceAll hrule _ (fun _ hf => closed_keep h hf) hc
      simp [hblank, hcomplete]

/-- **When a rule for annotations that go breaks a comment**: exactly if it deletes whole lines and
loses the opening delimiter. -/
lemma not_complete_applyDrop_iff (h : rule ∈ dropRules) (hc : Complete text) :
    ¬ Complete (applyDrop rule text) ↔ DropDeletes rule text ∧ LosesOpening rule text := by
  have hrule := isTagRule_of_mem_dropRules h
  have hp := plain_of_isTagRule hrule
  have hslash : ∀ f : Found, f.Matches rule → ¬ ['/'] <:+ f.matched := fun f hf =>
    hf.not_suffix (mayEnd_of_mem_dropRules rule h)
  rw [applyDrop, DropDeletes]
  cases hf : rule.find? text with
  | none => simp [hc]
  | some f =>
    cases heol : f.captured? "eol" with
    | some eol =>
      have hclosing : ¬ LosesClosing rule text := not_losesClosing hp hc fun g hg =>
        have hg := matches_of_mem_cuts hp hg
        ⟨(matched_of_isTagRule hrule hg).1, hslash g hg⟩
      have hiff := not_complete_eraseAll_iff hp hc fun g hg =>
        matched_of_isTagRule hrule (matches_of_mem_cuts hp hg)
      simp [heol, hiff, hclosing]
    | none =>
      have hcomplete := complete_replaceAll hrule (fun _ => [])
        (fun g hg hm => absurd ((List.suffix_append ['*'] ['/']).trans hm) (hslash g hg)) hc
      simp only [List.append_nil] at hcomplete
      simp [heol, hcomplete]

end Apply

end Rules

end Marginalia
