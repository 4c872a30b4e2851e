import Marginalia.Pattern.Replace
import Marginalia.Proofs.Pattern.Leads

/-!
# Places in one text

Whatever a pattern looks like, the search for it moves about in one text: it steps over characters,
looks ahead and back, and goes on from marks that a trial has left.  So every place that it reaches
lies in the text in which it began, and deleting matches deletes characters and does nothing else.

## Main definitions

* `Pattern.Spot.Within` — the place lies in a text.
* `Pattern.Trial.Stays` — a trial ends in the text, and leaves its mark there.

## Main results

* `Pattern.exists_within_of_run` — the search stays in its text.
* `Pattern.within_of_findFrom` — where the first match is.
* `Pattern.eraseAll_sublist` — deleting matches deletes characters.
-/

namespace Marginalia.Pattern

/-- The place lies in the text: the characters on its two sides make up the text, and its index
counts the ones before it. -/
structure Spot.Within (text : List Char) (s : Spot) : Prop where
  text_eq : s.before.reverse ++ s.rest = text
  index_eq : s.index = s.before.length

variable {text : List Char}

/-! ## Moving in a text -/

namespace Spot.Within

/-- The start is a place in the text. -/
lemma atStart (text : List Char) : (Spot.atStart text).Within text := ⟨rfl, rfl⟩

variable {s t : Spot}

/-- Captures do not change the place. -/
lemma captures (h : s.Within text) (parts : List (Label × List Char)) :
    Spot.Within text { s with captures := parts } :=
  ⟨h.text_eq, h.index_eq⟩

/-- The place behind the next character is in the text. -/
lemma step (h : s.Within text) {c : Char} {cs : List Char} (hs : s.rest = c :: cs) :
    (s.step c cs).Within text := by
  refine ⟨?_, ?_⟩
  · rw [← h.text_eq, hs]
    simp [Spot.step]
  · simp [Spot.step, h.index_eq]

/-- Skipping characters ends in the text. -/
lemma skip (h : s.Within text) (n : Nat) : (s.skip n).Within text := by
  induction n generalizing s with
  | zero => exact h
  | succ n ih =>
    rw [Spot.skip]
    split
    · exact h
    · next hs => exact ih (h.step hs)

/-- Going back ends in the text. -/
lemma back (h : s.Within text) (n : Nat) : (s.back n).Within text := by
  induction n generalizing s with
  | zero => exact h
  | succ n ih =>
    rw [Spot.back]
    split
    · exact h
    · next c cs hs =>
      refine ih ⟨?_, ?_⟩
      · rw [← h.text_eq, hs]
        simp
      · simp [h.index_eq, hs]

/-- A run of characters ends in the text. -/
lemma reach (h : s.Within text) {set : CharClass} {least : Nat} {most : Option Nat}
    (ht : t ∈ s.reach set least most) : t.Within text := by
  obtain ⟨n, -, -, he⟩ := along_eq set s.rest most [] s rfl
  have hmem := List.mem_of_mem_take ht
  rw [he, List.append_nil, List.mem_reverse, List.mem_map] at hmem
  obtain ⟨i, -, rfl⟩ := hmem
  exact h.skip i

/-- Reading again what was captured ends in the text. -/
lemma again? (h : s.Within text) {label : Label} {letters : Option Text.Alphabet}
    (ht : s.again? label letters = some t) : t.Within text := by
  rw [Spot.again?] at ht
  split at ht
  · next part _ =>
    split at ht
    · obtain rfl := Option.some.inj ht
      exact h.skip part.length
    · simp at ht
  · simp at ht

/-- **Two places of one text** are as far apart as their indices say. -/
lemma rest_eq_drop (hs : s.Within text) (ht : t.Within text) (hle : s.index ≤ t.index) :
    t.rest = s.rest.drop (t.index - s.index) := by
  have hdrop : ∀ {u : Spot}, u.Within text → u.rest = text.drop u.index := by
    intro u hu
    rw [← hu.text_eq, hu.index_eq, List.drop_left' (List.length_reverse ..)]
  rw [hdrop hs, hdrop ht, List.drop_drop, Nat.add_sub_of_le hle]

end Spot.Within

/-! ## Rounds of a repetition -/

section Rounds

variable {body : (Spot → Option Spot) → Spot → Option Spot} {k : Spot → Option Spot} {r : Spot}
  (hbody : ∀ (k : Spot → Option Spot) (s r : Spot), s.Within text → body k s = some r →
    ∃ t : Spot, t.Within text ∧ k t = some r)
include hbody

/-- The rounds that a repetition requires end in the text. -/
lemma exists_within_of_runRequired {rounds : Nat} {s : Spot} (hs : s.Within text)
    (h : runRequired body k rounds s = some r) : ∃ t : Spot, t.Within text ∧ k t = some r := by
  induction rounds generalizing s with
  | zero => exact ⟨s, hs, h⟩
  | succ rounds ih =>
    obtain ⟨t, ht, hk⟩ := hbody _ s r hs h
    exact ih ht hk

/-- The rounds that a repetition may add end in the text. -/
lemma exists_within_of_runOptional {most : Option Nat} {greedy : Bool} {bound : List Char}
    {count : Nat} {last : Option Nat} {s : Spot} (hs : s.Within text)
    (h : runOptional body most greedy k bound count last s = some r) :
    ∃ t : Spot, t.Within text ∧ k t = some r := by
  induction bound generalizing count last s with
  | nil => simp [runOptional] at h
  | cons _ bound ih =>
    -- one more round and the rounds behind it, or the rest right away
    have hmore : (if allowsMore most count && last != some s.index then
        body (runOptional body most greedy k bound (count + 1) (some s.index)) s
        else none) = some r → ∃ t : Spot, t.Within text ∧ k t = some r := by
      intro hmore
      split at hmore
      · obtain ⟨t, ht, hk⟩ := hbody _ s r hs hmore
        exact ih ht hk
      · simp at hmore
    rw [runOptional] at h
    cases greedy with
    | true =>
      rcases Option.or_eq_some_iff.mp h with h | ⟨-, h⟩
      · exact hmore h
      · exact ⟨s, hs, h⟩
    | false =>
      rcases Option.or_eq_some_iff.mp h with h | ⟨-, h⟩
      · exact ⟨s, hs, h⟩
      · exact hmore h

/-- All rounds of a repetition end in the text. -/
lemma exists_within_of_runRounds {least : Nat} {most : Option Nat} {greedy : Bool} {s : Spot}
    (hs : s.Within text) (h : runRounds body least most greedy k s = some r) :
    ∃ t : Spot, t.Within text ∧ k t = some r := by
  obtain ⟨t, ht, hk⟩ := exists_within_of_runRequired hbody hs h
  exact exists_within_of_runOptional hbody ht hk

end Rounds

/-! ## Trials -/

namespace Trial

/-- An alternative is tried from the mark that the failed trial has left. -/
lemma outcome_orElse (trial other : Trial) (mark : Spot) :
    outcome (trial <|> other) mark =
      match outcome trial mark with
      | (some t, left) => (some t, left)
      | (none, left) => outcome other left := by
  simp only [outcome, OptionT.run_orElse]
  show (match outcome trial mark with
    | (found, left) => (Option.elim found (OptionT.run other) fun t => pure (some t)) left) = _
  rcases h : outcome trial mark with ⟨_ | t, left⟩ <;>
  · rw [outcome] at h
    rw [h]
    rfl

/-- A trial ends in the text, and leaves its mark there, if its mark is there at first. -/
def Stays (text : List Char) (trial : Trial) : Prop :=
  ∀ mark : Spot, mark.Within text →
    (∀ t, (outcome trial mark).1 = some t → t.Within text) ∧ (outcome trial mark).2.Within text

namespace Stays

variable {trial other : Trial} {k : Spot → Trial} {s : Spot}

/-- A trial that fails stays in the text. -/
lemma failure : Stays text failure := by
  intro mark hmark
  refine ⟨fun t h => ?_, hmark⟩
  have hnone : (none : Option Spot) = some t := h
  simp at hnone

/-- A trial that ends in the text stays in it. -/
lemma pure (hs : s.Within text) : Stays text (pure s) := by
  intro mark hmark
  refine ⟨fun t h => ?_, hmark⟩
  obtain rfl : s = t := Option.some.inj h
  exact hs

/-- A trial that goes on from a place in the text stays in it. -/
lemma goFrom (hs : s.Within text) (hk : Stays text (k s)) : Stays text (goFrom k s) :=
  fun _ _ => hk s hs

/-- A trial that is finished in the text stays in it. -/
lemma finish (hs : s.Within text) : Stays text (finish s) := goFrom hs (pure hs)

/-- A trial that fails at a place in the text stays in it. -/
lemma failAt (hs : s.Within text) : Stays text (failAt s) := goFrom hs failure

/-- A trial and the one to fall back on stay in the text together. -/
lemma orElse (htrial : Stays text trial) (hother : Stays text other) :
    Stays text (trial <|> other) := by
  intro mark hmark
  obtain ⟨hfound, hleft⟩ := htrial mark hmark
  rw [outcome_orElse]
  rcases h : outcome trial mark with ⟨_ | t, left⟩
  · rw [h] at hleft
    exact hother left hleft
  · rw [h] at hfound hleft
    exact ⟨hfound, hleft⟩

/-- A trial that goes on from the first of many places in the text stays in it. -/
lemma goFromFirst (hk : ∀ s : Spot, s.Within text → Stays text (k s)) {places : List Spot}
    (hplaces : ∀ t ∈ places, t.Within text) : Stays text (goFromFirst k places) := by
  induction places with
  | nil => exact failure
  | cons t ts ih =>
    have ht := hplaces t (List.mem_cons_self ..)
    exact orElse (goFrom ht (hk t ht)) (ih fun u hu => hplaces u (List.mem_cons_of_mem _ hu))

section

variable {body : (Spot → Trial) → Spot → Trial}
  (hbody : ∀ (k : Spot → Trial) (s : Spot), (∀ t : Spot, t.Within text → Stays text (k t)) →
    s.Within text → Stays text (body k s))
  (hk : ∀ s : Spot, s.Within text → Stays text (k s))
include hbody hk

/-- The rounds that a repetition requires stay in the text. -/
lemma required (rounds : Nat) (hs : s.Within text) : Stays text (required body k rounds s) := by
  induction rounds generalizing s with
  | zero => exact hk s hs
  | succ rounds ih => exact hbody _ s (fun t ht => ih ht) hs

/-- The rounds that a repetition may add stay in the text. -/
lemma optional (most : Option Nat) (greedy : Bool) (bound : List Char) (count : Nat)
    (last : Option Nat) (hs : s.Within text) :
    Stays text (optional body most greedy k bound count last s) := by
  induction bound generalizing count last s with
  | nil => exact failure
  | cons _ bound ih =>
    have hmore : Stays text (if allowsMore most count && last != some s.index then
        body (Trial.optional body most greedy k bound (count + 1) (some s.index)) s
        else Alternative.failure) := by
      split
      · exact hbody _ s (fun t ht => ih _ _ ht) hs
      · exact failure
    cases greedy with
    | true => exact orElse hmore (hk s hs)
    | false => exact orElse (hk s hs) hmore

end

/-- A trial along a run of characters stays in the text. -/
lemma along (hk : ∀ s : Spot, s.Within text → Stays text (k s)) (set : CharClass) (least : Nat)
    (most : Option Nat) (manner : Manner) (next : Option CharClass) (hs : s.Within text) :
    Stays text (along set least most manner next k s) := by
  rw [Trial.along]
  split
  · exact failure
  · split
    · exact failAt hs
    · next farthest places hreach =>
      have hplaces : ∀ t ∈ farthest :: places, t.Within text := fun t ht =>
        hs.reach (hreach ▸ ht)
      have hfarthest := hplaces farthest (List.mem_cons_self ..)
      cases manner with
      | greedy =>
        refine goFrom hs (goFromFirst hk fun t ht => hplaces t ?_)
        rw [promising] at ht
        split at ht
        · exact (List.mem_filter.mp ht).1
        · exact ht
      | lazy =>
        exact orElse (goFromFirst hk fun t ht => hplaces t (List.mem_reverse.mp ht))
          (failAt hfarthest)
      | possessive | marked => exact goFrom hs (hk farthest hfarthest)

end Stays

end Trial

/-! ## Possessive repetitions -/

section Hold

variable {attempt : Spot → Option Spot × Spot}
  (hattempt : ∀ s : Spot, s.Within text →
    (∀ t, (attempt s).1 = some t → t.Within text) ∧ (attempt s).2.Within text)
include hattempt

/-- The rounds that are required and held end in the text. -/
lemma within_of_holdRequired {rounds : Nat} {s t : Spot} (hs : s.Within text)
    (h : holdRequired attempt rounds s = some t) : t.Within text := by
  induction rounds generalizing s with
  | zero =>
    obtain rfl := Option.some.inj h
    exact hs
  | succ rounds ih =>
    rw [holdRequired] at h
    split at h
    · next u hu => exact ih ((hattempt s hs).1 u hu) h
    · simp at h

/-- The rounds that are added and held end in the text. -/
lemma within_holdOptional {most : Option Nat} {bound : List Char} {count : Nat}
    {last : Option Nat} {s : Spot} (hs : s.Within text) :
    (holdOptional attempt most bound count last s).Within text := by
  induction bound generalizing count last s with
  | nil => exact hs
  | cons _ bound ih =>
    obtain ⟨hfound, hmark⟩ := hattempt s hs
    rw [holdOptional]
    split
    · split
      · next t _ ht => exact ih (hfound t (by rw [ht]))
      · next mark ht =>
        rw [ht] at hmark
        exact hmark.captures _
    · exact hs

/-- All rounds that are held end in the text. -/
lemma within_of_holdRounds {least : Nat} {most : Option Nat} {s t : Spot} (hs : s.Within text)
    (h : holdRounds attempt least most s = some t) : t.Within text := by
  obtain ⟨u, hu, rfl⟩ := Option.map_eq_some_iff.mp h
  exact within_holdOptional hattempt (within_of_holdRequired hattempt hs hu)

end Hold

/-! ## The search -/

open Trial in
/-- **A trial stays in its text**, if what follows the pattern does. -/
lemma stays_track (p : Pattern) (next : Option CharClass) {k : Spot → Trial}
    (hk : ∀ s : Spot, s.Within text → Stays text (k s)) {s : Spot} (hs : s.Within text) :
    Stays text (p.track next k s) := by
  induction p generalizing next k s with
  | empty => exact hk s hs
  | one set =>
    rw [track]
    split
    · next hrest =>
      split
      · exact hk _ (hs.step hrest)
      · exact .failure
    · exact .failure
  | anchor place =>
    rw [track]
    split
    · exact hk s hs
    · exact .failure
  | seq p q ihp ihq => exact ihp _ (fun t ht => ihq _ hk ht) hs
  | alt p q ihp ihq =>
    rw [track]
    refine .orElse ?_ ?_
    · split
      · exact .failure
      · exact .goFrom hs (ihp _ hk hs)
    · dsimp only
      split
      · exact ihq _ hk hs
      · split
        · exact .failure
        · exact .goFrom hs (ihq _ hk hs)
  | capture label p ih => exact ih _ (fun t ht => hk _ (ht.captures _)) hs
  | span set least most manner => exact .along hk set least most manner next hs
  | iterate p least most manner ih =>
    have hbody : ∀ (k : Spot → Trial) (s : Spot), (∀ t : Spot, t.Within text → Stays text (k t)) →
        s.Within text → Stays text (p.track none k s) := fun k s hk hs => ih none hk hs
    have hrounds : ∀ greedy, Stays text (required (p.track none) (fun t =>
        Trial.optional (p.track none) most greedy k (roundBound t) least none t) least s <|>
        failAt s) := fun greedy =>
      .orElse (.required hbody (fun t ht => .optional hbody hk most greedy _ _ _ ht) least hs)
        (.failAt hs)
    cases manner with
    | greedy => exact hrounds _
    | lazy => exact hrounds _
    | possessive | marked =>
      rw [track]
      split
      · next t ht =>
        have ht := within_of_holdRounds
          (fun u hu => ih none (fun v hv => .finish hv) hu u hu) hs ht
        exact .goFrom ht (hk t ht)
      · exact .failAt hs
  | look positive back p ih =>
    obtain ⟨-, hmark⟩ := ih none (fun v hv => Stays.finish hv) (hs.back back) _ (hs.back back)
    rw [track]
    split
    · split
      · exact .failure
      · exact hk s hs
    · split
      · next t mark ht =>
        rw [ht] at hmark
        refine .goFrom hmark ?_
        split
        · exact hk _ (hs.captures _)
        · exact .failure
      · next mark ht =>
        rw [ht] at hmark
        refine .goFrom hmark ?_
        split
        · exact .failure
        · exact hk s hs
  | atomic p ih =>
    obtain ⟨hfound, -⟩ := ih none (fun v hv => Stays.finish hv) hs s hs
    rw [track]
    split
    · next t ht => exact .goFrom (hfound t ht) (hk t (hfound t ht))
    · exact .failAt hs
  | again label letters =>
    rw [track]
    split
    · next t ht => exact hk t (hs.again? ht)
    · exact .failure
  | given label yes no ihyes ihno =>
    rw [track]
    split
    · exact ihyes _ hk hs
    · exact ihno _ hk hs

/-- **The search stays in its text**: if a pattern followed by `k` succeeds, then `k` succeeds at a
place of the text. -/
lemma exists_within_of_run (p : Pattern) {k : Spot → Option Spot} {s r : Spot}
    (hs : s.Within text) (h : p.run k s = some r) : ∃ t : Spot, t.Within text ∧ k t = some r := by
  induction p generalizing k s r with
  | empty => exact ⟨s, hs, h⟩
  | one set =>
    rw [run] at h
    split at h
    · next hrest =>
      split at h
      · exact ⟨_, hs.step hrest, h⟩
      · simp at h
    · simp at h
  | anchor place =>
    rw [run] at h
    split at h
    · exact ⟨s, hs, h⟩
    · simp at h
  | seq p q ihp ihq =>
    obtain ⟨t, ht, hq⟩ := ihp hs h
    exact ihq ht hq
  | alt p q ihp ihq =>
    rcases Option.or_eq_some_iff.mp h with h | ⟨-, h⟩
    · exact ihp hs h
    · exact ihq hs h
  | capture label p ih =>
    obtain ⟨t, ht, hk⟩ := ih hs h
    exact ⟨_, ht.captures _, hk⟩
  | span set least most manner =>
    cases manner with
    | greedy =>
      obtain ⟨t, hmem, hk⟩ := List.exists_of_findSome?_eq_some h
      exact ⟨t, hs.reach hmem, hk⟩
    | lazy =>
      obtain ⟨t, hmem, hk⟩ := List.exists_of_findSome?_eq_some h
      exact ⟨t, hs.reach (List.mem_reverse.mp hmem), hk⟩
    | possessive | marked =>
      obtain ⟨t, hmem, hk⟩ := Option.bind_eq_some_iff.mp h
      exact ⟨t, hs.reach (List.mem_of_head? hmem), hk⟩
  | iterate p least most manner ih =>
    have hbody : ∀ (k : Spot → Option Spot) (s r : Spot), s.Within text → p.run k s = some r →
        ∃ t : Spot, t.Within text ∧ k t = some r := fun _ _ _ hs h => ih hs h
    cases manner with
    | greedy => exact exists_within_of_runRounds hbody hs h
    | lazy => exact exists_within_of_runRounds hbody hs h
    | possessive =>
      obtain ⟨t, ht, hk⟩ := Option.bind_eq_some_iff.mp h
      refine ⟨t, within_of_holdRounds (fun u hu => ⟨fun v hv => ?_, hu⟩) hs ht, hk⟩
      obtain ⟨w, hw, hsame⟩ := ih hu hv
      obtain rfl := Option.some.inj hsame
      exact hw
    | marked =>
      obtain ⟨t, ht, hk⟩ := Option.bind_eq_some_iff.mp h
      refine ⟨t, within_of_holdRounds (fun u hu => ?_) hs ht, hk⟩
      exact stays_track p none (fun v hv => .finish hv) hu u hu
  | look positive back p ih =>
    rw [run] at h
    split at h
    · split at h
      · simp at h
      · exact ⟨s, hs, h⟩
    · split at h
      · split at h
        · exact ⟨_, hs.captures _, h⟩
        · simp at h
      · split at h
        · simp at h
        · exact ⟨s, hs, h⟩
  | atomic p ih =>
    obtain ⟨t, ht, hk⟩ := Option.bind_eq_some_iff.mp h
    obtain ⟨u, hu, hsame⟩ := ih hs ht
    obtain rfl := Option.some.inj hsame
    exact ⟨u, hu, hk⟩
  | again label letters =>
    obtain ⟨t, ht, hk⟩ := Option.bind_eq_some_iff.mp h
    exact ⟨t, hs.again? ht, hk⟩
  | given label yes no ihyes ihno =>
    rw [run] at h
    split at h
    · exact ihyes hs h
    · exact ihno hs h

/-! ## Matches -/

section Matches

variable {p : Pattern} {advance : Bool} {s t : Spot} {f : Found}

/-- A match ends in the text, and what it read stands before the rest. -/
lemma within_of_matchAt (hs : s.Within text) (h : matchAt p advance s = some t) :
    t.Within text ∧ s.rest = s.textTo t ++ t.rest := by
  obtain ⟨hrun, hle⟩ := Option.filter_eq_some_iff.mp h
  obtain ⟨u, hu, hk⟩ := exists_within_of_run p hs hrun
  have ht : t.Within text := by
    split at hk
    · simp at hk
    · exact Option.some.inj hk ▸ hu
  refine ⟨ht, ?_⟩
  rw [hs.rest_eq_drop ht (of_decide_eq_true hle), Spot.textTo, List.take_append_drop]

/-- **Where the first match is**: behind the gap before it, at a place of the text. -/
lemma within_of_findFrom {cs : List Char} (hs : s.Within text) (hcs : s.rest = cs)
    (h : findFrom p advance s cs = some f) :
    ∃ (u : Spot) (advance' : Bool), u.Within text ∧ matchAt p advance' u = some f.after ∧
      f.matched = u.textTo f.after ∧ s.rest = f.before ++ u.rest := by
  induction cs generalizing advance s f with
  | nil =>
    obtain ⟨t, ht, rfl⟩ := Option.map_eq_some_iff.mp h
    exact ⟨s, advance, hs, ht, rfl, rfl⟩
  | cons c cs ih =>
    rw [findFrom] at h
    cases hm : matchAt p advance s with
    | some t =>
      rw [hm] at h
      obtain rfl := Option.some.inj h
      exact ⟨s, advance, hs, hm, rfl, rfl⟩
    | none =>
      rw [hm] at h
      obtain ⟨g, hg, rfl⟩ := Option.map_eq_some_iff.mp h
      obtain ⟨u, advance', hu, hmatch, hmatched, hrest⟩ := ih (hs.step hcs) rfl hg
      refine ⟨u, advance', hu, hmatch, hmatched, ?_⟩
      have hcs' : cs = g.before ++ u.rest := hrest
      rw [hcs, hcs']
      rfl

/-- Replacing matches by nothing only deletes. -/
lemma replaceFrom_sublist (p : Pattern) :
    ∀ (bound : Nat) (advance : Bool) (s : Spot), s.Within text →
      (replaceFrom p (fun _ => []) bound advance s).Sublist s.rest := by
  intro bound
  induction bound with
  | zero =>
    intro advance s _
    exact List.Sublist.refl _
  | succ bound ih =>
    intro advance s hs
    rw [replaceFrom]
    split
    · exact List.Sublist.refl _
    · next f hf =>
      obtain ⟨u, advance', hu, hmatch, -, hrest⟩ := within_of_findFrom hs rfl hf
      obtain ⟨hafter, hsplit⟩ := within_of_matchAt hu hmatch
      have hbehind := ih f.matched.isEmpty _ (hafter.captures [])
      rw [hrest, hsplit, List.append_nil]
      exact (List.Sublist.refl _).append (hbehind.trans (List.sublist_append_right ..))

/-- **Deleting the matches of any pattern deletes characters** and does nothing else. -/
lemma eraseAll_sublist (p : Pattern) (text : List Char) : (p.eraseAll text).Sublist text :=
  replaceFrom_sublist p _ _ _ (Spot.Within.atStart text)

end Matches

end Marginalia.Pattern
