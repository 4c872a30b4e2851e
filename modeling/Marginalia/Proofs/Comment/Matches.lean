import Marginalia.Proofs.Comment.Annotations
import Marginalia.Proofs.Pattern.Pieces
import Marginalia.Proofs.Pattern.Rewriting
import Marginalia.Proofs.Pattern.Slack

/-!
# What the rules match and put back

A rule rewrites a comment: every match is a few spaces, tabs and stars, then an `@` and the rest of
the annotation, and what is put in its place are characters of the match, in their order.  Moving a
description up rewrites the comment twice, and its matches begin with a closing brace.

## Main definitions

* `Rules.isFringe` — spaces, tabs and stars.
* `Rules.PutsBack` — what a rule may put in the place of a match.

## Main results

* `Rules.exists_tag` — what a match of a rule looks like.
* `Rules.PutsBack.sublist` — what is put back are characters of the match.
* `Rules.rewrites_applyKeep`, `Rules.rewrites_applyDrop` — rules rewrite.
* `Filter.rewrites_pullUpProse` — so does moving descriptions up.
-/

namespace Marginalia

open Pattern

namespace Rules

/-! ## What a rule matches -/

/-- Spaces, tabs and stars, which may stand before an annotation on its line. -/
def isFringe (c : Char) : Bool := c == ' ' || c == '\t' || c == '*'

/-- The fringe is made of spaces, tabs and stars. -/
lemma isFringe_iff {c : Char} : isFringe c = true ↔ c ∈ [' ', '\t', '*'] := by
  simp [isFringe, or_assoc]

/-- The opening of a line is made of spaces, tabs and stars. -/
lemma isFringe_of_lineStart {s t : Spot} {m : List Char} (h : lineStart.Leads s m t) :
    ∀ c ∈ m, isFringe c = true := by
  have hp : lineStart.madeOf (inClass (CharClass.lists [' ', '\t', '*'])) = true := by decide
  exact h.forall_mem (fun set c hset hc => isFringe_iff.mpr (CharClass.mem_of_lists hset hc)) hp

/-- A rule without the opening of the line. -/
def tagBody : Pattern → Pattern
  | .seq _ body => body
  | p => p

section

variable {rule : Pattern} {s t : Spot} {m : List Char}

/-- Every rule is, without the opening of the line, an `@` and then the rest of an annotation. -/
lemma opensThen_of_mem : ∀ rule ∈ keepRules ++ dropRules,
    (tagBody rule).opensThen '@' (fun _ => true) = true := by
  decide +kernel

/-- **What a match of a rule looks like**: a few spaces, tabs and stars, an `@`, and the rest of the
annotation. -/
lemma exists_tag (hrule : rule ∈ keepRules ++ dropRules) (h : rule.Leads s m t) :
    ∃ fringe tag u, m = fringe ++ '@' :: tag ∧ (∀ c ∈ fringe, isFringe c = true) ∧
      (tagBody rule).Leads u ('@' :: tag) t := by
  have hopens := opensThen_of_mem rule hrule
  obtain ⟨body, rfl, -⟩ := exists_of_isTagRule (isTagRule_of_mem rule hrule)
  obtain ⟨m₁, u, m₂, hstart, htag, rfl⟩ := h
  obtain ⟨tag, rfl, -⟩ := htag.of_opensThen (Q := fun _ => True) trivial (fun _ _ _ _ => trivial)
    (fun _ _ _ _ _ _ => trivial) hopens
  exact ⟨m₁, tag, u, rfl, isFringe_of_lineStart hstart, htag⟩

/-- A tag rule does not match the empty text. -/
lemma nullable_of_isTagRule (hrule : isTagRule rule = true) : rule.nullable = false := by
  obtain ⟨body, rfl, -, hnull, -⟩ := exists_of_isTagRule hrule
  simp [nullable, hnull]

end

/-! ## What a rule puts back -/

/-- What a rule may put in the place of a match: nothing, or the opening of the line and what is
kept of the annotation. -/
def PutsBack (kept value : Found → List Char) : Prop :=
  (value = fun _ => []) ∨ value = fun f => f.captured "block" ++ kept f

section

variable {rule : Pattern} (hrule : isTagRule rule = true) {f : Found} (hf : f.Matches rule)
include hrule hf

/-- The opening of the line and the part that is kept are characters of the match, in their
order. -/
lemma captured_sublist : (f.captured "block" ++ f.captured "keep").Sublist f.matched := by
  obtain ⟨body, rfl, -, -, -, -, -, hlabel⟩ := exists_of_isTagRule hrule
  obtain ⟨s, hs, m₁, u, m₂, hopening, hbody, hmatched⟩ := hf
  have hnone : ∀ label, s.captured? label = none := fun label => by
    rw [Spot.captured?, hs]
    rfl
  have hblock : f.captured "block" <:+: m₁ := by
    rw [Found.captured, Found.captured?, hbody.captured?_eq hlabel]
    exact hopening.getD_captured?_infix (hnone _)
  have hkeep : f.captured "keep" <:+: m₂ := by
    refine hbody.getD_captured?_infix ?_
    rw [hopening.captured?_eq (by decide), hnone]
  rw [hmatched]
  exact hblock.sublist.append hkeep.sublist

/-- **What a rule puts back** are characters of the match, in their order. -/
lemma PutsBack.sublist {kept value : Found → List Char}
    (hkept : kept f = f.captured "keep" ∨ kept f = []) (hvalue : PutsBack kept value) :
    (value f).Sublist f.matched := by
  have hboth := captured_sublist hrule hf
  rcases hvalue with rfl | rfl
  · exact List.nil_sublist _
  · rcases hkept with hkeep | hkeep
    · simpa only [hkeep] using hboth
    · simpa only [hkeep, List.append_nil] using (List.sublist_append_left ..).trans hboth

end

/-! ## Rules rewrite -/

section

variable {rule : Pattern}

/-- A rule that keeps a part deletes its matches, or puts that part back. -/
lemma applyKeep_cases (rule : Pattern) (text : List Char) :
    (KeepDeletes rule text ∧ applyKeep rule text = rule.replaceAll (fun _ => []) text) ∨
      applyKeep rule text =
        rule.replaceAll (fun f => f.captured "block" ++ f.captured "keep") text := by
  rw [applyKeep]
  cases hf : rule.find? text with
  | none => exact .inr (replaceAll_of_find?_eq_none hf).symm
  | some f =>
    by_cases hblank : Text.allBlank (f.captured "keep") = true
    · exact .inl ⟨⟨f, hf, hblank⟩, if_pos hblank⟩
    · exact .inr (if_neg hblank)

/-- A rule for annotations that go deletes its matches, or leaves the openings of their lines. -/
lemma applyDrop_cases (rule : Pattern) (text : List Char) :
    applyDrop rule text = rule.replaceAll (fun _ => []) text ∨
      applyDrop rule text = rule.replaceAll (fun f => f.captured "block" ++ []) text := by
  simp only [List.append_nil]
  rw [applyDrop]
  cases hf : rule.find? text with
  | none => exact .inl (replaceAll_of_find?_eq_none hf).symm
  | some f =>
    cases heol : f.captured? "eol" with
    | some eol =>
      left
      simp only [heol]
      rfl
    | none =>
      right
      simp only [heol]

/-- **A rule that keeps a part rewrites the comment.** -/
lemma rewrites_applyKeep (h : rule ∈ keepRules) (text : List Char) :
    ∃ value, PutsBack (fun f => f.captured "keep") value ∧
      rule.Rewrites value text (applyKeep rule text) := by
  have hrule := isTagRule_of_mem_keepRules h
  have hrewrites := fun value => rewrites_replaceAll (plain_of_isTagRule hrule)
    (nullable_of_isTagRule hrule) value text
  rcases applyKeep_cases rule text with ⟨-, heq⟩ | heq
  · exact ⟨_, .inl rfl, heq ▸ hrewrites _⟩
  · exact ⟨_, .inr rfl, heq ▸ hrewrites _⟩

/-- **A rule for annotations that go rewrites the comment.** -/
lemma rewrites_applyDrop (h : rule ∈ dropRules) (text : List Char) :
    ∃ value, PutsBack (fun _ => []) value ∧ rule.Rewrites value text (applyDrop rule text) := by
  have hrule := isTagRule_of_mem_dropRules h
  have hrewrites := fun value => rewrites_replaceAll (plain_of_isTagRule hrule)
    (nullable_of_isTagRule hrule) value text
  rcases applyDrop_cases rule text with heq | heq
  · exact ⟨_, .inl rfl, heq ▸ hrewrites _⟩
  · exact ⟨_, .inr rfl, heq ▸ hrewrites _⟩

end

end Rules

namespace Filter

/-! ## Moving descriptions up rewrites -/

/-- What is moved up behind a type: the start of the description. -/
def proseValue (f : Found) : List Char := ['\x7d', ' '] ++ f.captured "prose"

/-- What stays before a description that is moved up behind a name. -/
def nameValue (f : Found) : List Char := ['\x7d', ' '] ++ f.captured "identifier" ++ [' ']

/-- **Moving descriptions up rewrites a comment of several lines twice.** -/
lemma rewrites_pullUpProse (text : List Char) :
    pullUpProse text = text ∨
      ∃ mid, Rules.proseAfterType.Rewrites proseValue text mid ∧
        Rules.proseAfterName.Rewrites nameValue mid (pullUpProse text) := by
  rw [pullUpProse]
  split
  · exact .inr ⟨_, rewrites_replaceAll (by decide) (by decide) proseValue text,
      rewrites_replaceAll (by decide) (by decide) nameValue _⟩
  · exact .inl rfl

/-- A match that is moved up begins with a closing brace, which is not captured. -/
lemma exists_behind_brace {p : Pattern} {f : Found} (hf : f.Matches (.seq (char '\x7d') p))
    (name : String) : ∃ rest, f.matched = '\x7d' :: rest ∧ f.captured name <:+: rest := by
  obtain ⟨s, hs, m₁, u, m₂, ⟨c, cs, -, hc, rfl, rfl⟩, hp, hmatched⟩ := hf
  obtain rfl := CharClass.has_char.mp hc
  refine ⟨m₂, hmatched, hp.getD_captured?_infix ?_⟩
  rw [Spot.captured?]
  show s.captures.lookup _ = none
  rw [hs]
  rfl

end Filter

end Marginalia
