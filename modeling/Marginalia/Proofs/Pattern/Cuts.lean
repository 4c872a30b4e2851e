import Marginalia.Pattern.Replace
import Marginalia.Proofs.Pattern.Leads

/-!
# Cutting a text at its matches

The matches of a pattern cut a text into the matches themselves and the gaps around them.  Replacing
keeps the gaps and puts a value in the place of each match.

## Main definitions

* `Pattern.cuts` — the matches of a pattern in a text, each with the gap before it, and the gap
  behind the last one.
* `Pattern.Found.Matches` — the pattern leads to the match from some place.

## Main results

* `Pattern.replaceAll_eq` — replacing keeps the gaps.
* `Pattern.text_eq_cuts` — the gaps and the matches make up the text.
* `Pattern.matches_of_mem_cuts` — the matches are matches of the pattern.
-/

namespace Marginalia.Pattern

/-- The matches from the place `s` on, of which there are at most `bound`, each with the gap before
it, and the gap behind the last one. -/
def cutsFrom (p : Pattern) : Nat → Bool → Spot → List Found × List Char
  | 0, _, s => ([], s.rest)
  | bound + 1, advance, s =>
    match findFrom p advance s s.rest with
    | none => ([], s.rest)
    | some f =>
      let behind := cutsFrom p bound f.matched.isEmpty { f.after with captures := [] }
      (f :: behind.1, behind.2)

/-- The matches of a pattern in a text, each with the gap before it, and the gap behind the last
one. -/
def cuts (p : Pattern) (text : List Char) : List Found × List Char :=
  cutsFrom p (2 * text.length + 2) false (Spot.atStart text)

/-- The pattern leads to the match from a place where nothing is captured yet. -/
def Found.Matches (f : Found) (p : Pattern) : Prop :=
  ∃ s : Spot, s.captures = [] ∧ p.Leads s f.matched f.after

namespace Found.Matches

variable {f : Found} {p : Pattern} (h : f.Matches p)
include h

/-- A match is not empty if the pattern does not match the empty text. -/
lemma ne_nil (hp : p.nullable = false) : f.matched ≠ [] := by
  obtain ⟨s, -, hs⟩ := h
  intro hnil
  exact Bool.noConfusion (hp.symm.trans (hs.bounds.1 hnil))

/-- A match does not begin with a character with which none may start. -/
lemma head?_ne {c : Char} (hp : p.mayStart c = false) : f.matched.head? ≠ some c := by
  obtain ⟨s, -, hs⟩ := h
  intro hc
  exact Bool.noConfusion (hp.symm.trans (hs.bounds.2.1 c hc))

/-- A match does not end with a character with which none may end. -/
lemma not_suffix {c : Char} (hp : p.mayEnd c = false) : ¬ [c] <:+ f.matched := by
  obtain ⟨s, -, hs⟩ := h
  rintro ⟨front, hc⟩
  have hlast : f.matched.getLast? = some c := by simp [← hc]
  exact Bool.noConfusion (hp.symm.trans (hs.bounds.2.2 c hlast))

end Found.Matches

/-! ## Replacing -/

/-- Replacing gives what is before each match, its value, and then the rest. -/
lemma replaceFrom_eq (p : Pattern) (value : Found → List Char) :
    ∀ (bound : Nat) (advance : Bool) (s : Spot),
      replaceFrom p value bound advance s =
        (cutsFrom p bound advance s).1.flatMap (fun f => f.before ++ value f) ++
          (cutsFrom p bound advance s).2 := by
  intro bound
  induction bound with
  | zero =>
    intro advance s
    rfl
  | succ bound ih =>
    intro advance s
    rw [replaceFrom, cutsFrom]
    cases findFrom p advance s s.rest with
    | none => rfl
    | some f =>
      simp only [List.flatMap_cons]
      rw [ih, ← List.append_assoc]

/-- **Replacing keeps the gaps** and puts a value in the place of each match. -/
lemma replaceAll_eq (p : Pattern) (value : Found → List Char) (text : List Char) :
    p.replaceAll value text =
      (p.cuts text).1.flatMap (fun f => f.before ++ value f) ++ (p.cuts text).2 :=
  replaceFrom_eq p value _ _ _

/-- Deleting leaves the gaps. -/
lemma eraseAll_eq (p : Pattern) (text : List Char) :
    p.eraseAll text = (p.cuts text).1.flatMap Found.before ++ (p.cuts text).2 := by
  rw [eraseAll, replaceAll_eq]
  simp

/-! ## The matches -/

section

variable {p : Pattern} {advance : Bool} {s t : Spot} {f : Found}

/-- A match of a plain pattern reads the text up to where it ends. -/
lemma leads_of_matchAt (hp : p.plain = true) (h : matchAt p advance s = some t) :
    p.Leads s (s.textTo t) t := by
  obtain ⟨hrun, -⟩ := Option.filter_eq_some_iff.mp h
  obtain ⟨m, u, hu, hk⟩ := exists_leads_of_run hp hrun
  split at hk
  · simp at hk
  · obtain rfl := Option.some.inj hk
    rw [hu.textTo_eq]
    exact hu

/-- **The first match** is one that the pattern leads to, behind the gap before it. -/
lemma leads_of_findFrom (hp : p.plain = true) {cs : List Char} (hs : s.rest = cs)
    (h : findFrom p advance s cs = some f) :
    s.rest = f.before ++ f.matched ++ f.after.rest ∧
      ∃ u : Spot, u.captures = s.captures ∧ p.Leads u f.matched f.after := by
  induction cs generalizing advance s f with
  | nil =>
    obtain ⟨t, ht, rfl⟩ := Option.map_eq_some_iff.mp h
    have hleads := leads_of_matchAt hp ht
    exact ⟨hleads.moves.1, s, rfl, hleads⟩
  | cons c cs ih =>
    rw [findFrom] at h
    cases hm : matchAt p advance s with
    | some t =>
      rw [hm] at h
      obtain rfl := Option.some.inj h
      have hleads := leads_of_matchAt hp hm
      exact ⟨hleads.moves.1, s, rfl, hleads⟩
    | none =>
      rw [hm] at h
      obtain ⟨g, hg, rfl⟩ := Option.map_eq_some_iff.mp h
      obtain ⟨hrest, u, hu, hleads⟩ := ih (s := s.step c cs) rfl hg
      refine ⟨?_, u, hu, hleads⟩
      have hcs : cs = g.before ++ g.matched ++ g.after.rest := hrest
      rw [hs]
      exact congrArg (c :: ·) hcs

/-- The cuts and the rest make up the text, and each cut is a match. -/
lemma cutsFrom_spec (hp : p.plain = true) :
    ∀ (bound : Nat) (advance : Bool) (s : Spot), s.captures = [] →
      s.rest = (cutsFrom p bound advance s).1.flatMap (fun f => f.before ++ f.matched) ++
          (cutsFrom p bound advance s).2 ∧
        ∀ f ∈ (cutsFrom p bound advance s).1, f.Matches p := by
  intro bound
  induction bound with
  | zero =>
    intro advance s _
    exact ⟨rfl, by simp [cutsFrom]⟩
  | succ bound ih =>
    intro advance s hs
    rw [cutsFrom]
    cases hf : findFrom p advance s s.rest with
    | none => exact ⟨rfl, by simp⟩
    | some f =>
      obtain ⟨hrest, u, hu, hleads⟩ := leads_of_findFrom hp rfl hf
      obtain ⟨hbehind, hmatches⟩ := ih f.matched.isEmpty { f.after with captures := [] } rfl
      refine ⟨?_, ?_⟩
      · simp only [List.flatMap_cons]
        rw [hrest, List.append_assoc (f.before ++ f.matched), ← hbehind]
      · intro g hg
        rcases List.mem_cons.mp hg with rfl | hg
        · exact ⟨u, hu.trans hs, hleads⟩
        · exact hmatches g hg

/-- **The gaps and the matches make up the text.** -/
lemma text_eq_cuts (hp : p.plain = true) (text : List Char) :
    text = (p.cuts text).1.flatMap (fun f => f.before ++ f.matched) ++ (p.cuts text).2 :=
  (cutsFrom_spec hp _ _ (Spot.atStart text) rfl).1

/-- The matches that cut a text are matches of the pattern. -/
lemma matches_of_mem_cuts (hp : p.plain = true) {text : List Char} (h : f ∈ (p.cuts text).1) :
    f.Matches p :=
  (cutsFrom_spec hp _ _ (Spot.atStart text) rfl).2 f h

end

end Marginalia.Pattern
