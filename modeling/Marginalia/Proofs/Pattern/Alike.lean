import Marginalia.Proofs.Pattern.Reading

/-!
# Patterns that match alike

Two patterns may be written in different ways and still match at the same places.  What they capture
has no bearing on that, as long as no part of them looks at what was captured.  So two searches are
compared up to captures: from the same places they find the same places.  Patterns match alike if
this carries over from the search behind them to the search for them, and then it holds of whole
patterns because it holds of their parts.

In particular a capture can be left out, a choice behind a character can be made before it, and
rounds of a single character are a run of characters.

## Main definitions

* `Pattern.Spot.bare` — a place without what was captured on the way to it.
* `Pattern.Concur` — two searches find the same places.
* `Pattern.Alike` — two patterns match alike.

## Main results

* `Pattern.Alike.seq`, `Pattern.Alike.alt`, `Pattern.Alike.capture`, `Pattern.Alike.distribute` —
  patterns match alike if their parts do.
* `Pattern.alike_iterate_one` — rounds of a single character are a run.
* `Pattern.Alike.isSome_find?` — patterns that match alike are found in the same texts.
-/

namespace Marginalia.Pattern

/-! ## Searches up to captures -/

/-- The place without what was captured on the way to it. -/
def Spot.bare (s : Spot) : Spot := { s with captures := [] }

/-- The searches find the same places from the same places. -/
def Concur (k k' : Spot → Option Spot) : Prop :=
  ∀ s s' : Spot, s.bare = s'.bare → (k s).map Spot.bare = (k' s').map Spot.bare

/-- The patterns match alike, whatever is searched behind them. -/
def Alike (p q : Pattern) : Prop := ∀ k k' : Spot → Option Spot, Concur k k' →
  Concur (p.run k) (q.run k')

section

variable {k k' : Spot → Option Spot} {s s' : Spot}

/-- Two spots are one up to their captures if they are at the same place. -/
lemma Spot.bare_inj_iff :
    s.bare = s'.bare ↔ s.before = s'.before ∧ s.rest = s'.rest ∧ s.index = s'.index := by
  obtain ⟨before, rest, index, captures⟩ := s
  obtain ⟨before', rest', index', captures'⟩ := s'
  simp [Spot.bare]

/-- Both places move on in the same way. -/
lemma Spot.bare_step (h : s.bare = s'.bare) (c : Char) (cs : List Char) :
    (s.step c cs).bare = (s'.step c cs).bare := by
  rw [Spot.bare_inj_iff] at h ⊢
  simp [Spot.step, h.1, h.2.2]

/-- Searches that concur do so one after another. -/
lemma Concur.or {j j' : Spot → Option Spot} (h : Concur j j') (hk : Concur k k') :
    Concur (fun s => (j s).or (k s)) (fun s => (j' s).or (k' s)) := by
  intro s s' hs
  rw [Option.map_or, Option.map_or, h s s' hs, hk s s' hs]

end

/-! ## Parts of patterns -/

section

variable {p q p' q' : Pattern} {set : CharClass}

/-- A condition on a place does not depend on captures. -/
lemma Anchor.holds_bare (place : Anchor) (s : Spot) : place.holds s.bare = place.holds s := by
  cases place with
  | _ => rfl

/-- An anchor matches alike, whatever is captured. -/
lemma alike_anchor (place : Anchor) : (anchor place).Alike (anchor place) := by
  intro k k' hk s s' hs
  have hholds : place.holds s = place.holds s' := by
    rw [← place.holds_bare s, hs, place.holds_bare s']
  rw [run, run, hholds]
  split
  · exact hk s s' hs
  · rfl

/-- A character matches alike, whatever is captured. -/
lemma alike_one (set : CharClass) : (one set).Alike (one set) := by
  intro k k' hk s s' hs
  have hrest : s.rest = s'.rest := (Spot.bare_inj_iff.mp hs).2.1
  rw [run, run, ← hrest]
  cases s.rest with
  | nil => rfl
  | cons c cs =>
    dsimp only
    split
    · exact hk _ _ (Spot.bare_step hs c cs)
    · rfl

/-- Sequences of patterns that match alike do so. -/
lemma Alike.seq (hp : p.Alike p') (hq : q.Alike q') : (seq p q).Alike (seq p' q') :=
  fun k k' hk => hp _ _ (hq k k' hk)

/-- Alternatives of patterns that match alike do so. -/
lemma Alike.alt (hp : p.Alike p') (hq : q.Alike q') : (alt p q).Alike (alt p' q') :=
  fun k k' hk => (hp k k' hk).or (hq k k' hk)

/-- **A capture can be left out.** -/
lemma Alike.capture (hp : p.Alike p') (label : Label) : (capture label p).Alike p' := by
  intro k k' hk s s' hs
  exact hp (fun t => k { t with captures := (label, s.textTo t) :: t.captures }) k'
    (fun t t' ht => hk _ t' ht) s s' hs

/-- **A choice behind a character can be made before it.** -/
lemma Alike.distribute (hp : p.Alike p') (hq : q.Alike q') (set : CharClass) :
    (Pattern.seq (one set) (Pattern.alt p q)).Alike
      (Pattern.alt (Pattern.seq (one set) p') (Pattern.seq (one set) q')) := by
  intro k k' hk s s' hs
  have hboth := ((alike_one set).seq (hp.alt hq)) k k' hk s s' hs
  rw [hboth, run, run, run, run, run, run, run]
  cases s'.rest with
  | nil => rfl
  | cons c cs =>
    dsimp only
    split
    · rfl
    · rfl

end

/-! ## Runs and rounds -/

section

variable {set : CharClass} {k k' : Spot → Option Spot} {s s' : Spot}

/-- **A run goes on behind its first character**, and stops there only if nothing is found further
on. -/
lemma run_span_cons {c : Char} {cs : List Char} (hrest : s.rest = c :: cs) :
    (span set 0 none .greedy).run k s =
      if set.has c then ((span set 0 none .greedy).run k (s.step c cs)).or (k s) else k s := by
  have hreach : ∀ t : Spot, (span set 0 none .greedy).run k t =
      (Spot.along set none [] t t.rest).findSome? k := by
    intro t
    rw [run, Spot.reach, Nat.sub_zero, List.take_length]
  rw [hreach, hreach, hrest, Spot.along]
  by_cases hc : set.has c = true
  · have hlonger : Spot.along set none [s] (s.step c cs) cs =
        Spot.along set none [] (s.step c cs) cs ++ [s] := by
      rw [Spot.along_none_eq set cs [s] _ rfl, Spot.along_none_eq set cs [] _ rfl, List.append_nil]
    rw [if_pos (by simp [hc]), if_pos hc, Option.map_none, hlonger, List.findSome?_append]
    simp [Spot.step]
  · rw [if_neg (by simp [hc]), if_neg hc]
    simp

/-- At the end of the text a run of characters is empty. -/
lemma run_span_nil (hrest : s.rest = []) : (span set 0 none .greedy).run k s = k s := by
  rw [run, Spot.reach, hrest]
  simp [Spot.along]

/-- A greedy run matches alike, whatever is captured. -/
lemma alike_span (set : CharClass) :
    (span set 0 none .greedy).Alike (span set 0 none .greedy) := by
  intro k k' hk s s' hs
  generalize hcs : s.rest = cs
  induction cs generalizing s s' with
  | nil =>
    have hrest : s'.rest = [] := (Spot.bare_inj_iff.mp hs).2.1 ▸ hcs
    rw [run_span_nil hcs, run_span_nil hrest]
    exact hk s s' hs
  | cons c cs ih =>
    have hrest : s'.rest = c :: cs := (Spot.bare_inj_iff.mp hs).2.1 ▸ hcs
    rw [run_span_cons hcs, run_span_cons hrest]
    split
    · rw [Option.map_or, Option.map_or, ih _ _ (Spot.bare_step hs c cs) rfl, hk s s' hs]
    · exact hk s s' hs

/-- The rounds of a single character, of which as many are allowed as there are characters left,
find what a run of such characters finds.

**Proof sketch.** Induction on the text that is left.  A round moves on by one character, so the
place has always changed since the last round, and the next one may start. -/
lemma runOptional_one (hk : Concur k k') (label : Label) (cs : List Char) :
    ∀ (bound : List Char) (count : Nat) (last : Option Nat) (s s' : Spot), s.bare = s'.bare →
      s.rest = cs → cs.length < bound.length → last ≠ some s.index →
      (runOptional (capture label (one set)).run none true k bound count last s).map Spot.bare =
        ((span set 0 none .greedy).run k' s').map Spot.bare := by
  induction cs with
  | nil =>
    intro bound count last s s' hs hcs hbound hlast
    obtain ⟨b, bound, rfl⟩ := List.exists_cons_of_ne_nil (List.length_pos_iff.mp hbound)
    have hrest : s'.rest = [] := (Spot.bare_inj_iff.mp hs).2.1 ▸ hcs
    rw [run_span_nil hrest, runOptional]
    simp only [if_true, run, hcs, ite_self, Option.none_or]
    exact hk s s' hs
  | cons c cs ih =>
    intro bound count last s s' hs hcs hbound hlast
    obtain ⟨b, bound, rfl⟩ :=
      List.exists_cons_of_ne_nil (List.length_pos_iff.mp (Nat.zero_lt_of_lt hbound))
    have hrest : s'.rest = c :: cs := (Spot.bare_inj_iff.mp hs).2.1 ▸ hcs
    have hmore : (allowsMore none count && last != some s.index) = true := by
      simpa [allowsMore] using hlast
    rw [run_span_cons hrest, runOptional]
    simp only [if_true, hmore, run, hcs]
    split
    · rw [Option.map_or, Option.map_or, hk s s' hs]
      congr 1
      refine ih bound (count + 1) (some s.index) _ (s'.step c cs) ?_ rfl ?_ ?_
      · exact Spot.bare_step hs c cs
      · simpa using hbound
      · simp [Spot.step]
    · exact hk s s' hs

/-- **Rounds of a single character are a run**, whether or not they are captured. -/
lemma alike_iterate_one (label : Label) (set : CharClass) :
    (iterate (capture label (one set)) 0 none .greedy).Alike (span set 0 none .greedy) := by
  intro k k' hk s s' hs
  refine runOptional_one hk label s.rest (roundBound s) 0 none s s' hs rfl ?_ (by simp)
  rw [roundBound, List.length_cons, List.length_cons]
  omega

end

/-! ## Searching a text -/

namespace Alike

variable {p q : Pattern}

/-- Patterns that match alike match at the same places. -/
lemma isSome_matchAt (h : p.Alike q) (advance : Bool) (s : Spot) :
    (matchAt p advance s).isSome = (matchAt q advance s).isSome := by
  have hindex : ∀ t t' : Spot, t.bare = t'.bare → t.index = t'.index := fun t t' ht =>
    (Spot.bare_inj_iff.mp ht).2.2
  have hrun := h (fun t => if advance && t.index == s.index then none else some t)
    (fun t => if advance && t.index == s.index then none else some t) ?_ s s rfl
  · rw [matchAt, matchAt]
    revert hrun
    generalize p.run _ s = found
    generalize q.run _ s = found'
    intro hrun
    cases found with
    | none =>
      rw [Option.map_none, eq_comm, Option.map_eq_none_iff] at hrun
      rw [hrun]
    | some t =>
      rw [Option.map_some, eq_comm, Option.map_eq_some_iff] at hrun
      obtain ⟨t', rfl, ht⟩ := hrun
      simp only [Option.filter, hindex t' t ht]
      split <;> rfl
  · intro t t' ht
    simp only [hindex t t' ht]
    split
    · rfl
    · exact congrArg some ht

/-- **Patterns that match alike are found in the same texts.** -/
lemma isSome_find? (h : p.Alike q) (text : List Char) :
    (p.find? text).isSome = (q.find? text).isSome := by
  suffices hfrom : ∀ (cs : List Char) (advance : Bool) (s : Spot),
      (findFrom p advance s cs).isSome = (findFrom q advance s cs).isSome from
    hfrom text false (Spot.atStart text)
  intro cs
  induction cs with
  | nil =>
    intro advance s
    rw [findFrom, findFrom, Option.isSome_map, Option.isSome_map, h.isSome_matchAt]
  | cons c cs ih =>
    intro advance s
    have hhere := h.isSome_matchAt advance s
    rw [findFrom, findFrom]
    cases hp : matchAt p advance s with
    | some t =>
      rw [hp, Option.isSome_some, eq_comm, Option.isSome_iff_exists] at hhere
      obtain ⟨t', ht'⟩ := hhere
      rw [ht']
      rfl
    | none =>
      rw [hp, Option.isSome_none, eq_comm, Option.isSome_eq_false_iff,
        Option.isNone_iff_eq_none] at hhere
      rw [hhere]
      simp only [Option.isSome_map]
      exact ih false (s.step c cs)

end Alike

end Marginalia.Pattern
