import Marginalia.Proofs.Pattern.Cuts

/-!
# Replacements that shorten

A replacement that puts back parts of a match shortens the text if every match has more characters
outside of these parts than the replacement adds.  How many characters a match has outside of its
captures at least is read off the pattern.

## Main definitions

* `Pattern.tally` — how many characters were captured under certain names.
* `Pattern.slack` — how many characters of a match these captures leave out at least.
* `Pattern.apart` — no such capture lies inside of another one.

## Main results

* `Pattern.Leads.slack_le` — a match is as long as its captures and the slack together.
* `Pattern.replaceAll_of_find?_eq_none` — without a match nothing is replaced.
* `Pattern.length_replaceAll_lt` — replacing matches by shorter texts shortens the text.
-/

namespace Marginalia.Pattern

/-! ## Characters outside of captures -/

/-- Whether a label is one of the given names. -/
def Label.isOneOf (names : List String) (label : Label) : Bool :=
  names.any fun name => label == .name name

/-- How many characters were captured under the given names. -/
def tally (names : List String) : List (Label × List Char) → Nat
  | [] => 0
  | (label, part) :: rest => (if label.isOneOf names then part.length else 0) + tally names rest

/-- How many characters of a match lie outside of the captures with the given names, at least. -/
def slack (names : List String) : Pattern → Nat
  | .one _ => 1
  | .seq p q => p.slack names + q.slack names
  | .alt p q => min (p.slack names) (q.slack names)
  | .capture label p => if label.isOneOf names then 0 else p.slack names
  | .span _ least _ _ => least
  | _ => 0

/-- None of the captures with the given names lies inside of another one. -/
def apart (names : List String) : Pattern → Bool
  | .seq p q | .alt p q => p.apart names && q.apart names
  | .capture label p =>
    p.apart names && (!label.isOneOf names || p.labels.all fun l => !l.isOneOf names)
  | _ => true

section

variable {names : List String} {p : Pattern} {s t : Spot} {m : List Char}

/-- The lengths of what belongs to the given names, put together. -/
def totalLength (part : String → List Char) : List String → Nat
  | [] => 0
  | name :: names => (part name).length + totalLength part names

/-- The lengths of the last captures under the given names, put together. -/
def lastLengths (names : List String) (captures : List (Label × List Char)) : Nat :=
  totalLength (fun name => (captures.lookup (.name name)).getD []) names

/-- Without captures nothing is captured last. -/
lemma lastLengths_nil (names : List String) : lastLengths names [] = 0 := by
  induction names with
  | nil => rfl
  | cons name names ih => exact (Nat.zero_add _).trans ih

/-- One more capture is the last one under one name at most. -/
lemma lastLengths_cons_le (hnd : names.Nodup) (label : Label) (part : List Char)
    (rest : List (Label × List Char)) :
    lastLengths names ((label, part) :: rest) ≤
      (if label.isOneOf names then part.length else 0) + lastLengths names rest := by
  induction names with
  | nil => simp [lastLengths, totalLength]
  | cons name names ih =>
    obtain ⟨hname, hnd⟩ := List.nodup_cons.mp hnd
    have ih := ih hnd
    simp only [lastLengths, totalLength, List.lookup_cons] at ih ⊢
    by_cases hl : label = .name name
    · subst hl
      -- the other names have their captures from before
      have hother : Label.isOneOf names (.name name) = false := by
        simp only [Label.isOneOf, List.any_eq_false, beq_iff_eq, Label.name.injEq]
        rintro other hmem rfl
        exact hname hmem
      have hone : Label.isOneOf (name :: names) (.name name) = true := by simp [Label.isOneOf]
      simp only [hother, Bool.false_eq_true, if_false] at ih
      simp only [hone, beq_self_eq_true, Option.getD_some, if_true]
      omega
    · have hne : ((Label.name name) == label) = false := by simpa using Ne.symm hl
      have hsame : label.isOneOf (name :: names) = label.isOneOf names := by
        have hne' : (label == Label.name name) = false := by simpa using hl
        simp [Label.isOneOf, hne']
      rw [hsame]
      simp only [hne]
      omega

/-- The last captures are part of the tally. -/
lemma lastLengths_le_tally (hnd : names.Nodup) (captures : List (Label × List Char)) :
    lastLengths names captures ≤ tally names captures := by
  induction captures with
  | nil => rw [lastLengths_nil]; exact Nat.zero_le _
  | cons entry rest ih =>
    obtain ⟨label, part⟩ := entry
    have hcons := lastLengths_cons_le hnd label part rest
    rw [tally]
    omega

/-- A match leaves the tally alone if its pattern has none of the names. -/
lemma Leads.tally_eq (h : p.Leads s m t) (hp : ∀ label ∈ p.labels, label.isOneOf names = false) :
    tally names t.captures = tally names s.captures := by
  induction p generalizing s m t with
  | empty =>
    obtain ⟨-, rfl⟩ := h
    rfl
  | one set =>
    obtain ⟨c, cs, -, -, -, rfl⟩ := h
    rfl
  | anchor place =>
    obtain ⟨-, -, rfl⟩ := h
    rfl
  | seq p q ihp ihq =>
    obtain ⟨m₁, u, m₂, hu, ht, -⟩ := h
    simp only [labels, List.mem_append] at hp
    exact (ihq ht fun l hl => hp l (.inr hl)).trans (ihp hu fun l hl => hp l (.inl hl))
  | alt p q ihp ihq =>
    simp only [labels, List.mem_append] at hp
    exact h.elim (fun h => ihp h fun l hl => hp l (.inl hl))
      (fun h => ihq h fun l hl => hp l (.inr hl))
  | capture label p ih =>
    obtain ⟨u, hu, rfl⟩ := h
    simp only [labels, List.mem_cons] at hp
    have hlabel := hp label (.inl rfl)
    simp [tally, hlabel, ih hu fun l hl => hp l (.inr hl)]
  | span set least most manner => rw [h.2.2.2.2]
  | look positive back p =>
    obtain ⟨-, -, rfl⟩ := h
    rfl
  | iterate => exact h.elim
  | atomic => exact h.elim
  | again => exact h.elim
  | given => exact h.elim

/-- **A match is as long as its captures and the slack together**, or longer. -/
lemma Leads.slack_le (h : p.Leads s m t) (hp : p.apart names = true) :
    tally names t.captures + p.slack names ≤ tally names s.captures + m.length := by
  induction p generalizing s m t with
  | empty =>
    obtain ⟨rfl, rfl⟩ := h
    simp [slack]
  | one set =>
    obtain ⟨c, cs, -, -, rfl, rfl⟩ := h
    simp [slack, Spot.step]
  | anchor place =>
    obtain ⟨-, rfl, rfl⟩ := h
    simp [slack]
  | seq p q ihp ihq =>
    obtain ⟨m₁, u, m₂, hu, ht, rfl⟩ := h
    obtain ⟨hp, hq⟩ := Bool.and_eq_true_iff.mp hp
    have h₁ := ihp hu hp
    have h₂ := ihq ht hq
    rw [slack, List.length_append]
    omega
  | alt p q ihp ihq =>
    obtain ⟨hp, hq⟩ := Bool.and_eq_true_iff.mp hp
    rw [slack]
    rcases h with h | h
    · have := ihp h hp
      omega
    · have := ihq h hq
      omega
  | capture label p ih =>
    obtain ⟨u, hu, rfl⟩ := h
    obtain ⟨hp, hlabel⟩ := Bool.and_eq_true_iff.mp hp
    rw [slack, tally]
    by_cases hk : label.isOneOf names = true
    · -- nothing else is counted inside of a capture that counts
      have hinner : ∀ l ∈ p.labels, l.isOneOf names = false := by simpa [hk] using hlabel
      rw [if_pos hk, if_pos hk, hu.tally_eq hinner]
      omega
    · have := ih hu hp
      rw [if_neg hk, if_neg hk]
      omega
  | span set least most manner =>
    obtain ⟨-, hleast, -, -, hcaptures⟩ := h
    rw [slack, hcaptures]
    omega
  | look positive back p =>
    obtain ⟨-, rfl, rfl⟩ := h
    simp [slack]
  | iterate => exact h.elim
  | atomic => exact h.elim
  | again => exact h.elim
  | given => exact h.elim

/-- **The captures of a match and the slack together are no longer than the match.** -/
lemma Found.Matches.length_captured_le {f : Found} (hf : f.Matches p) (hnd : names.Nodup)
    (hp : p.apart names = true) :
    totalLength f.captured names + p.slack names ≤ f.matched.length := by
  obtain ⟨s, hs, hleads⟩ := hf
  have htally : totalLength f.captured names ≤ tally names f.after.captures :=
    lastLengths_le_tally hnd f.after.captures
  have hslack := hleads.slack_le hp
  rw [hs] at hslack
  simp only [tally] at hslack
  omega

end

/-! ## Replacing matches by shorter texts -/

section

variable {p : Pattern} {value : Found → List Char} {text : List Char}

/-- A text has a first match exactly if it has matches at all. -/
lemma cuts_eq_of_find? (p : Pattern) (text : List Char) :
    (p.find? text = none ∧ p.cuts text = ([], text)) ∨
      ∃ f rest, p.find? text = some f ∧ (p.cuts text).1 = f :: rest := by
  cases hfind : p.find? text with
  | none =>
    have hfrom : findFrom p false (Spot.atStart text) (Spot.atStart text).rest = none := hfind
    refine .inl ⟨rfl, ?_⟩
    rw [cuts, cutsFrom, hfrom]
    rfl
  | some f =>
    have hfrom : findFrom p false (Spot.atStart text) (Spot.atStart text).rest = some f := hfind
    refine .inr ⟨f, ?_⟩
    rw [cuts, cutsFrom, hfrom]
    exact ⟨_, rfl, rfl⟩

/-- **Without a match nothing is replaced.** -/
lemma replaceAll_of_find?_eq_none (h : p.find? text = none) : p.replaceAll value text = text := by
  rcases cuts_eq_of_find? p text with ⟨-, hcuts⟩ | ⟨f, rest, hf, -⟩
  · rw [replaceAll_eq, hcuts]
    rfl
  · simp [h] at hf

/-- Each match that is replaced by a shorter text takes a character away. -/
lemma length_flatMap_le {fs : List Found}
    (h : ∀ f ∈ fs, (value f).length < f.matched.length) :
    (fs.flatMap fun f => f.before ++ value f).length + fs.length ≤
      (fs.flatMap fun f => f.before ++ f.matched).length := by
  induction fs with
  | nil => exact Nat.le_refl _
  | cons f rest ih =>
    have hf := h f (List.mem_cons_self ..)
    have hrest := ih fun g hg => h g (List.mem_cons_of_mem _ hg)
    simp only [List.flatMap_cons, List.length_append, List.length_cons]
    omega

/-- **Replacing matches by shorter texts shortens the text**, if there is a match. -/
lemma length_replaceAll_lt (hp : p.plain = true)
    (hvalue : ∀ f : Found, f.Matches p → (value f).length < f.matched.length)
    (h : p.find? text ≠ none) : (p.replaceAll value text).length < text.length := by
  rcases cuts_eq_of_find? p text with ⟨hnone, -⟩ | ⟨f, rest, -, hcuts⟩
  · exact absurd hnone h
  · have hshorter : ∀ g ∈ (p.cuts text).1, (value g).length < g.matched.length :=
      fun g hg => hvalue g (matches_of_mem_cuts hp hg)
    have hle := length_flatMap_le hshorter
    have hlen : text.length =
        ((p.cuts text).1.flatMap fun f => f.before ++ f.matched).length +
          (p.cuts text).2.length := by
      rw [← List.length_append, ← text_eq_cuts hp text]
    rw [replaceAll_eq, List.length_append, hlen]
    have hpos : 0 < (p.cuts text).1.length := by simp [hcuts]
    omega

end

end Marginalia.Pattern
