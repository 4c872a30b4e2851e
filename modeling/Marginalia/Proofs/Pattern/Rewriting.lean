import Marginalia.Proofs.Pattern.Reading

/-!
# Replacing as rewriting

Replacing the matches of a pattern goes through the text from left to right: a character at which no
match begins is kept, and a match gives way to its value.  What a part of the text becomes can be
told apart from the rest, if no match crosses its borders.

## Main definitions

* `Pattern.Swaps` — a match right before a given rest of the text, and its value.
* `Pattern.Rewrites` — how a text is rewritten when all matches are replaced.
* `Edits` — what is left of this when the places of the matches are forgotten.

## Main results

* `Pattern.find?_ne_none_of_reads` — where a pattern may read the text, the search succeeds.
* `Pattern.rewrites_replaceAll` — replacing rewrites.
* `Pattern.Rewrites.split` — rewriting a text in two parts.
* `Pattern.Rewrites.kept` — a part in which no match begins is kept.
* `Pattern.Rewrites.spare` — a part that no match touches is kept.
* `Edits.filter_sublist` — edits that add no characters of some sort.
-/

namespace Marginalia

/-! ## Edits -/

/-- A text is changed by putting values in the place of some of its parts. -/
inductive Edits (swap : List Char → List Char → Prop) : List Char → List Char → Prop
  | nil : Edits swap [] []
  | keep (c : Char) {cs out : List Char} : Edits swap cs out → Edits swap (c :: cs) (c :: out)
  | swap {m v cs out : List Char} : swap m v → Edits swap cs out → Edits swap (m ++ cs) (v ++ out)

namespace Edits

variable {swap : List Char → List Char → Prop} {text out : List Char}

/-- **Edits that add no characters of some sort**: what there is of them in the new text was in the
old one, in the same order. -/
lemma filter_sublist {sort : Char → Bool} (h : Edits swap text out)
    (hswap : ∀ m v, swap m v → (v.filter sort).Sublist (m.filter sort)) :
    (out.filter sort).Sublist (text.filter sort) := by
  induction h with
  | nil => exact List.Sublist.refl _
  | keep c _ ih =>
    rw [List.filter_cons, List.filter_cons]
    split
    · exact ih.cons_cons c
    · exact ih
  | swap hm _ ih =>
    rw [List.filter_append, List.filter_append]
    exact (hswap _ _ hm).append ih

/-- Edits that keep the last character of what they change. -/
lemma getLast?_eq (h : Edits swap text out)
    (hswap : ∀ m v, swap m v → v.getLast? = m.getLast?) : out.getLast? = text.getLast? := by
  induction h with
  | nil => rfl
  | keep c _ ih => rw [List.getLast?_cons, List.getLast?_cons, ih]
  | swap hm _ ih => rw [List.getLast?_append, List.getLast?_append, ih, hswap _ _ hm]

/-- Edits that do not add a character. -/
lemma not_mem {c : Char} (h : Edits swap text out) (hswap : ∀ m v, swap m v → c ∈ v → c ∈ m)
    (hc : c ∉ text) : c ∉ out := by
  induction h with
  | nil => exact hc
  | keep d _ ih =>
    rw [List.mem_cons, not_or] at hc ⊢
    exact ⟨hc.1, ih hc.2⟩
  | swap hm _ ih =>
    rw [List.mem_append, not_or] at hc ⊢
    exact ⟨fun hv => hc.1 (hswap _ _ hm hv), ih hc.2⟩

end Edits

namespace Pattern

variable {p : Pattern} {value : Found → List Char}

/-! ## Rewriting -/

/-- The text `m` is a match with the value `v`, right before the text `rest`. -/
def Swaps (p : Pattern) (value : Found → List Char) (m v rest : List Char) : Prop :=
  ∃ (s : Spot) (f : Found), s.captures = [] ∧ s.rest = m ++ rest ∧
    matchAt p false s = some f.after ∧ f.matched = m ∧ f.after.rest = rest ∧ v = value f

/-- The text `m` is a match with the value `v`, before some rest of the text. -/
def Replaces (p : Pattern) (value : Found → List Char) (m v : List Char) : Prop :=
  ∃ rest, p.Swaps value m v rest

/-- How a text is rewritten when all matches of a pattern are replaced: a character at which no
match begins is kept, and a match gives way to its value. -/
inductive Rewrites (p : Pattern) (value : Found → List Char) : List Char → List Char → Prop
  | nil : Rewrites p value [] []
  | keep {c : Char} {cs out : List Char} : (∀ r, ¬ p.Reads (c :: cs) r) →
      Rewrites p value cs out → Rewrites p value (c :: cs) (c :: out)
  | swap {m v rest out : List Char} : p.Swaps value m v rest →
      Rewrites p value rest out → Rewrites p value (m ++ rest) (v ++ out)

/-- A match that is replaced is one that the pattern leads to. -/
lemma Swaps.exists_leads (hp : p.plain = true) {m v rest : List Char}
    (h : p.Swaps value m v rest) :
    ∃ (s : Spot) (f : Found), s.captures = [] ∧ s.rest = m ++ rest ∧ p.Leads s m f.after ∧
      f.matched = m ∧ f.after.rest = rest ∧ v = value f := by
  obtain ⟨s, f, hs, hrest, hmatch, hm, hafter, hv⟩ := h
  have hleads := leads_of_matchAt hp hmatch
  have htext : s.textTo f.after = m := by
    have hmoves := hleads.moves.1
    rw [hrest, hafter] at hmoves
    exact (List.append_cancel_right hmoves).symm
  exact ⟨s, f, hs, hrest, htext ▸ hleads, hm, hafter, hv⟩

/-- What a plain pattern replaces is a match, and its value is put there. -/
lemma Replaces.exists_matches (hp : p.plain = true) {m v : List Char} (h : p.Replaces value m v) :
    ∃ f : Found, f.Matches p ∧ f.matched = m ∧ v = value f := by
  obtain ⟨rest, hswap⟩ := h
  obtain ⟨s, f, hs, -, hleads, hm, -, hv⟩ := hswap.exists_leads hp
  exact ⟨f, ⟨s, hs, hm ▸ hleads⟩, hm, hv⟩

/-- Where a pattern may read the text, it has a match. -/
lemma matchAt_ne_none_of_reads (hp : p.plain = true) {s : Spot} {r : List Char}
    (h : p.Reads s.rest r) : matchAt p false s ≠ none := by
  have hsome := isSome_run_of_reads h (k := fun t => if false && t.index == s.index then none
    else some t) rfl fun t _ => rfl
  obtain ⟨t, ht⟩ := Option.isSome_iff_exists.mp hsome
  obtain ⟨m, u, hu, hk⟩ := exists_leads_of_run hp ht
  obtain rfl : u = t := Option.some.inj hk
  rw [matchAt, ht, Option.filter_some_pos]
  · simp
  · rw [hu.moves.2, decide_eq_true_eq]
    exact Nat.le_add_right ..

/-- **Where a pattern may read a part of the text, the search succeeds.** -/
lemma find?_ne_none_of_reads (hp : p.plain = true) {back r : List Char} (h : p.Reads back r)
    (front : List Char) : p.find? (front ++ back) ≠ none := by
  suffices hfrom : ∀ s : Spot, s.rest = front ++ back →
      findFrom p false s (front ++ back) ≠ none from hfrom (Spot.atStart (front ++ back)) rfl
  induction front with
  | nil =>
    intro s hs hnone
    rw [List.nil_append] at hs hnone
    refine matchAt_ne_none_of_reads (s := s) hp (hs ▸ h) ?_
    cases back with
    | nil => exact Option.map_eq_none_iff.mp hnone
    | cons c cs =>
      cases hm : matchAt p false s with
      | none => rfl
      | some t => simp [findFrom, hm] at hnone
  | cons c front ih =>
    intro s hs hnone
    rw [List.cons_append, findFrom] at hnone
    cases hm : matchAt p false s with
    | some t => simp [hm] at hnone
    | none =>
      rw [hm] at hnone
      exact ih (s.step c (front ++ back)) rfl (Option.map_eq_none_iff.mp hnone)

/-- Without a match the whole text is kept. -/
lemma rewrites_of_findFrom_none (hp : p.plain = true) {s : Spot} {cs : List Char}
    (hs : s.rest = cs) (h : findFrom p false s cs = none) : p.Rewrites value cs cs := by
  induction cs generalizing s with
  | nil => exact .nil
  | cons c cs ih =>
    rw [findFrom] at h
    cases hm : matchAt p false s with
    | some t => simp [hm] at h
    | none =>
      rw [hm] at h
      refine .keep (fun r hr => matchAt_ne_none_of_reads hp (hs ▸ hr) hm) ?_
      exact ih (s := s.step c cs) rfl (Option.map_eq_none_iff.mp h)

/-- **Up to the first match** the text is kept. -/
lemma rewrites_of_findFrom_some (hp : p.plain = true) (value : Found → List Char) {s : Spot}
    {cs : List Char} {f : Found} (hs : s.rest = cs) (hcaptures : s.captures = [])
    (h : findFrom p false s cs = some f) :
    ∃ u : Spot, u.captures = [] ∧ u.rest = f.matched ++ f.after.rest ∧
      matchAt p false u = some f.after ∧
      ∀ out, p.Rewrites value u.rest out → p.Rewrites value cs (f.before ++ out) := by
  have hhere : ∀ t, matchAt p false s = some t → s.rest = s.textTo t ++ t.rest := fun t ht =>
    (leads_of_matchAt hp ht).moves.1
  induction cs generalizing s f with
  | nil =>
    obtain ⟨t, ht, rfl⟩ := Option.map_eq_some_iff.mp h
    exact ⟨s, hcaptures, hhere t ht, ht, fun out hout => by rwa [hs] at hout⟩
  | cons c cs ih =>
    rw [findFrom] at h
    cases hm : matchAt p false s with
    | some t =>
      rw [hm] at h
      obtain rfl := Option.some.inj h
      exact ⟨s, hcaptures, hhere t hm, hm, fun out hout => hs ▸ hout⟩
    | none =>
      rw [hm] at h
      obtain ⟨g, hg, rfl⟩ := Option.map_eq_some_iff.mp h
      obtain ⟨u, hu, hrest, hmatch, hkept⟩ := ih (s := s.step c cs) rfl hcaptures hg
        (fun t ht => (leads_of_matchAt hp ht).moves.1)
      refine ⟨u, hu, hrest, hmatch, fun out hout => ?_⟩
      exact .keep (fun r hr => matchAt_ne_none_of_reads hp (hs ▸ hr) hm) (hkept out hout)

/-- Replacing from a place on rewrites, if there is room for a match at every character. -/
lemma rewrites_replaceFrom (hp : p.plain = true) (hn : p.nullable = false)
    (value : Found → List Char) :
    ∀ (bound : Nat) (s : Spot), s.captures = [] → s.rest.length < bound →
      p.Rewrites value s.rest (replaceFrom p value bound false s) := by
  intro bound
  induction bound with
  | zero =>
    intro s _ hlt
    exact absurd hlt (Nat.not_lt_zero _)
  | succ bound ih =>
    intro s hs hlt
    rw [replaceFrom]
    cases hf : findFrom p false s s.rest with
    | none => exact rewrites_of_findFrom_none hp rfl hf
    | some f =>
      obtain ⟨u, hu, hrest, hmatch, hkept⟩ :=
        rewrites_of_findFrom_some hp value rfl hs hf
      obtain ⟨htext, v, hv, hleads⟩ := leads_of_findFrom hp rfl hf
      have hne : f.matched ≠ [] := Found.Matches.ne_nil ⟨v, hv.trans hs, hleads⟩ hn
      have hpos := List.length_pos_iff.mpr hne
      have hshorter : f.after.rest.length < bound := by
        rw [htext, List.length_append, List.length_append] at hlt
        omega
      have hempty : f.matched.isEmpty = false := by simpa using hne
      dsimp only
      rw [hempty, List.append_assoc]
      refine hkept _ ?_
      rw [hrest]
      exact .swap ⟨u, f, hu, hrest, hmatch, rfl, rfl, rfl⟩
        (ih { f.after with captures := [] } rfl hshorter)

/-- **Replacing rewrites**, if no match is empty. -/
lemma rewrites_replaceAll (hp : p.plain = true) (hn : p.nullable = false)
    (value : Found → List Char) (text : List Char) :
    p.Rewrites value text (p.replaceAll value text) :=
  rewrites_replaceFrom hp hn value (2 * text.length + 2) (Spot.atStart text) rfl (by
    show text.length < 2 * text.length + 2
    omega)

/-! ## Rewriting in parts -/

namespace Rewrites

variable {front back same text out : List Char}

/-- A text begins with a character that is kept, or with a match. -/
lemma cons_cases {c : Char} {cs : List Char} (h : p.Rewrites value (c :: cs) out) :
    ((∀ r, ¬ p.Reads (c :: cs) r) ∧ ∃ out', p.Rewrites value cs out' ∧ out = c :: out') ∨
      ∃ m v rest out', c :: cs = m ++ rest ∧ p.Swaps value m v rest ∧
        p.Rewrites value rest out' ∧ out = v ++ out' := by
  generalize htext : c :: cs = text at h
  cases h with
  | nil => simp at htext
  | keep hnone hrest =>
    obtain ⟨rfl, rfl⟩ := List.cons.inj htext
    exact .inl ⟨hnone, _, hrest, rfl⟩
  | swap hm hrest => exact .inr ⟨_, _, _, _, rfl, hm, hrest, rfl⟩

/-- **Rewriting a text in two parts**: each part is rewritten on its own, if every match lies in one
of them. -/
lemma split (h : p.Rewrites value (front ++ back) out)
    (hside : ∀ pre m v rest, pre ++ (m ++ rest) = front ++ back → p.Swaps value m v rest →
      (∃ mid, front = pre ++ (m ++ mid)) ∨ ∃ mid, pre = front ++ mid) :
    ∃ front' back', out = front' ++ back' ∧ Edits (p.Replaces value) front front' ∧
      p.Rewrites value back back' := by
  generalize htext : front ++ back = text at h
  induction h generalizing front with
  | nil =>
    obtain ⟨rfl, rfl⟩ := List.append_eq_nil_iff.mp htext
    exact ⟨[], [], rfl, .nil, .nil⟩
  | @keep c cs out hnone hrest ih =>
    cases front with
    | nil =>
      obtain rfl : back = c :: cs := htext
      exact ⟨[], c :: out, rfl, .nil, .keep hnone hrest⟩
    | cons d front =>
      obtain ⟨rfl, hcs⟩ : d = c ∧ front ++ back = cs := List.cons.inj htext
      obtain ⟨front', back', rfl, hfront, hback⟩ := @ih front (by
        intro pre m v rest heq hm
        rcases hside (d :: pre) m v rest (congrArg (d :: ·) heq) hm with ⟨mid, hmid⟩ | ⟨mid, hmid⟩
        · exact .inl ⟨mid, (List.cons.inj hmid).2⟩
        · exact .inr ⟨mid, (List.cons.inj hmid).2⟩) hcs
      exact ⟨d :: front', back', rfl, .keep d hfront, hback⟩
  | @swap m v rest out hm hrest ih =>
    rcases hside [] m v rest htext.symm hm with ⟨mid, rfl⟩ | ⟨mid, hmid⟩
    · -- the match lies in the first part
      rw [List.nil_append, List.append_assoc] at htext
      obtain ⟨front', back', rfl, hfront, hback⟩ := @ih mid (by
        intro pre m' v' rest' heq hm'
        have heq' : (m ++ pre) ++ (m' ++ rest') = [] ++ (m ++ mid) ++ back := by
          rw [List.append_assoc, heq]
          simp
        rcases hside (m ++ pre) m' v' rest' heq' hm' with ⟨mid', h⟩ | ⟨mid', h⟩
        · exact .inl ⟨mid', by simpa using h⟩
        · exact .inr ⟨mid', by simpa using h⟩)
        (List.append_cancel_left htext)
      have hedit : Edits (p.Replaces value) (m ++ mid) (v ++ front') := .swap ⟨rest, hm⟩ hfront
      exact ⟨v ++ front', back', (List.append_assoc ..).symm, hedit, hback⟩
    · obtain ⟨rfl, -⟩ := List.append_eq_nil_iff.mp hmid.symm
      obtain rfl : back = m ++ rest := htext
      exact ⟨[], v ++ out, rfl, .nil, .swap hm hrest⟩

/-- **A part in which no match begins is kept.** -/
lemma kept (h : p.Rewrites value (same ++ back) out)
    (hside : ∀ pre m v rest, pre ++ (m ++ rest) = same ++ back → p.Swaps value m v rest →
      ∃ mid, pre = same ++ mid) :
    ∃ back', out = same ++ back' ∧ p.Rewrites value back back' := by
  induction same generalizing out with
  | nil => exact ⟨out, rfl, h⟩
  | cons c same ih =>
    rcases cons_cases h with ⟨-, out', hrest, rfl⟩ | ⟨m, v, rest, out', heq, hm, -⟩
    · obtain ⟨back', rfl, hback⟩ := ih hrest (by
        intro pre m v rest heq hm
        obtain ⟨mid, hmid⟩ := hside (c :: pre) m v rest (congrArg (c :: ·) heq) hm
        exact ⟨mid, (List.cons.inj hmid).2⟩)
      exact ⟨back', rfl, hback⟩
    · obtain ⟨mid, hmid⟩ := hside [] m v rest heq.symm hm
      simp at hmid

/-- **A part that no match touches is kept**, and the parts around it are rewritten on their own. -/
lemma spare {above below : List Char} (h : p.Rewrites value (above ++ (same ++ below)) out)
    (hne : ∀ m v rest, p.Swaps value m v rest → m ≠ [])
    (hsides : ∀ pre m v rest, pre ++ (m ++ rest) = above ++ (same ++ below) →
      p.Swaps value m v rest →
      (∃ mid, above = pre ++ (m ++ mid)) ∨ ∃ mid, pre = above ++ (same ++ mid)) :
    ∃ above' below', out = above' ++ (same ++ below') ∧ Edits (p.Replaces value) above above' ∧
      p.Rewrites value below below' := by
  obtain ⟨above', back, rfl, habove, hback⟩ := h.split (by
    intro pre m v rest heq hm
    refine (hsides pre m v rest heq hm).imp_right ?_
    rintro ⟨mid, rfl⟩
    exact ⟨same ++ mid, rfl⟩)
  obtain ⟨below', rfl, hbelow⟩ := hback.kept (by
    intro pre m v rest heq hm
    have heq' : (above ++ pre) ++ (m ++ rest) = above ++ (same ++ below) := by
      rw [List.append_assoc, heq]
    rcases hsides (above ++ pre) m v rest heq' hm with ⟨mid, hmid⟩ | ⟨mid, hmid⟩
    · -- a match behind `above` does not lie in it, because it is not empty
      have hlen := congrArg List.length hmid
      have hpos := List.length_pos_iff.mpr (hne m v rest hm)
      simp only [List.length_append] at hlen
      omega
    · exact ⟨mid, List.append_cancel_left hmid⟩)
  exact ⟨above', below', rfl, habove, hbelow⟩

/-- Where the matches are can be forgotten. -/
lemma edits (h : p.Rewrites value text out) : Edits (p.Replaces value) text out := by
  induction h with
  | nil => exact .nil
  | keep _ _ ih => exact .keep _ ih
  | swap hm _ ih => exact .swap ⟨_, hm⟩ ih

end Rewrites

end Pattern

end Marginalia
