import Marginalia.Proofs.Pattern.Cuts

/-!
# Patterns that must match

The search for a pattern tries every way to match it, so it succeeds wherever there is one.  For
patterns that do not look back this is a matter of the text behind the place alone.  Of the ways to
match a run of characters the search takes the longest one from which the rest succeeds.

## Main definitions

* `Pattern.Reads` — the pattern may read a text up to a given rest.
* `Pattern.residues`, `Pattern.stuckOn` — what is left of a pattern behind one character, and
  whether it cannot get past a text.

## Main results

* `Pattern.isSome_run_of_reads` — where there is a way to match, the search succeeds.
* `Pattern.exists_longest_of_run_span` — the search takes the longest run.
* `Pattern.not_reads_of_stuckOn` — a pattern that cannot get past a text does not read it.
-/

namespace Marginalia.Pattern

/-! ## The places along a run -/

namespace Spot

/-- An unlimited run can end behind each of the characters of the class, the last one first. -/
lemma along_none_eq (set : CharClass) (cs : List Char) :
    ∀ (found : List Spot) (s : Spot), s.rest = cs →
      along set none found s cs =
        ((List.range ((cs.takeWhile set.has).length + 1)).map s.skip).reverse ++ found := by
  induction cs with
  | nil =>
    intro found s _
    rfl
  | cons c cs ih =>
    intro found s hs
    rw [along]
    by_cases hc : set.has c = true
    · have hskip : s.skip ∘ Nat.succ = (s.step c cs).skip := by
        funext j
        rw [Function.comp, skip, hs]
      rw [if_pos (by simp [hc]), Option.map_none, ih (s :: found) (s.step c cs) rfl,
        List.takeWhile_cons_of_pos hc, List.length_cons, List.range_succ_eq_map (n := _ + 1),
        List.map_cons, List.reverse_cons, List.map_map, List.append_assoc, hskip]
      rfl
    · rw [if_neg (by simp [hc]), List.takeWhile_cons_of_neg hc]
      rfl

/-- **The places along an unlimited run**, the farthest first: those behind at least as many
characters as are required. -/
lemma reach_none_eq (s : Spot) (set : CharClass) (least : Nat) :
    s.reach set least none =
      (((List.range ((s.rest.takeWhile set.has).length + 1)).drop least).map s.skip).reverse := by
  rw [reach, along_none_eq set s.rest [] s rfl, List.append_nil, List.take_reverse,
    List.length_reverse, List.map_drop]
  congr 1
  simp only [List.length_map, List.length_range]
  rcases Nat.le_total least ((s.rest.takeWhile set.has).length + 1) with h | h
  · rw [Nat.sub_sub_self h]
  · rw [List.drop_eq_nil_of_le (by simp; omega), List.drop_eq_nil_of_le (by simpa using h)]

/-- Skipping a text leaves what stands behind it. -/
lemma rest_skip {s : Spot} {m rest : List Char} (hs : s.rest = m ++ rest) :
    (s.skip m.length).rest = rest := by
  have hlen : m.length ≤ s.rest.length := by simp [hs]
  have heq := (skip_eq s hlen).1
  rw [hs, List.take_left] at heq
  exact (List.append_cancel_left heq).symm

/-- A run can end behind every text of characters of the class that is long enough. -/
lemma skip_mem_reach {s : Spot} {set : CharClass} {least : Nat} {m rest : List Char}
    (hs : s.rest = m ++ rest) (hm : ∀ c ∈ m, set.has c = true) (hleast : least ≤ m.length) :
    s.skip m.length ∈ s.reach set least none := by
  have hlen : m.length ≤ (s.rest.takeWhile set.has).length := by
    rw [hs, List.takeWhile_append_of_pos hm, List.length_append]
    exact Nat.le_add_right ..
  rw [reach_none_eq, List.mem_reverse]
  refine List.mem_map_of_mem (List.mem_iff_getElem.mpr ⟨m.length - least, ?_, ?_⟩)
  · simp only [List.length_drop, List.length_range]
    omega
  · simp only [List.getElem_drop, List.getElem_range]
    omega

/-- A place along an unlimited run is behind enough characters of the class. -/
lemma exists_skip_of_mem_reach {s t : Spot} {set : CharClass} {least : Nat}
    (h : t ∈ s.reach set least none) :
    ∃ n, t = s.skip n ∧ least ≤ n ∧ n ≤ s.rest.length ∧ ∀ c ∈ s.rest.take n, set.has c = true := by
  rw [reach_none_eq, List.mem_reverse] at h
  obtain ⟨n, hn, rfl⟩ := List.mem_map.mp h
  have hlt := List.mem_range.mp (List.mem_of_mem_drop hn)
  have hrun := List.takeWhile_prefix (p := set.has) (l := s.rest)
  have hle := hrun.length_le
  refine ⟨n, rfl, ?_, by omega, fun c hc => ?_⟩
  · obtain ⟨i, hi, hget⟩ := List.getElem_of_mem hn
    simp only [List.getElem_drop, List.getElem_range] at hget
    omega
  · refine List.all_eq_true.mp (List.all_takeWhile (p := set.has) (l := s.rest)) c ?_
    rw [List.prefix_iff_eq_take.mp hrun]
    exact (List.take_prefix_take_left (by omega)).subset hc

/-- The places along an unlimited run come the farthest first. -/
lemma pairwise_reach (s : Spot) (set : CharClass) (least : Nat) :
    (s.reach set least none).Pairwise fun t u => u.index < t.index := by
  have hprefix := (List.takeWhile_prefix (p := set.has) (l := s.rest)).length_le
  rw [reach_none_eq, List.pairwise_reverse, List.pairwise_map]
  refine (List.pairwise_lt_range.sublist (List.drop_sublist ..)).imp_of_mem ?_
  intro i j hi hj hij
  have hi := List.mem_range.mp (List.mem_of_mem_drop hi)
  have hj := List.mem_range.mp (List.mem_of_mem_drop hj)
  rw [(skip_eq s (n := i) (by omega)).2.1, (skip_eq s (n := j) (by omega)).2.1]
  omega

end Spot

/-- **The search takes the longest run** from which the rest succeeds. -/
lemma exists_longest_of_run_span {set : CharClass} {least : Nat} {k : Spot → Option Spot}
    {s r : Spot} (h : (Pattern.span set least none .greedy).run k s = some r) :
    ∃ n, n ≤ s.rest.length ∧ (∀ c ∈ s.rest.take n, set.has c = true) ∧ k (s.skip n) = some r ∧
      ∀ m rest, s.rest = m ++ rest → (∀ c ∈ m, set.has c = true) → n < m.length →
        k (s.skip m.length) = none := by
  have h : (s.reach set least none).findSome? k = some r := h
  obtain ⟨far, t, near, hreach, ht, hfar⟩ := List.findSome?_eq_some_iff.mp h
  obtain ⟨n, rfl, hleast, hn, hclass⟩ : ∃ n, t = s.skip n ∧ least ≤ n ∧ n ≤ s.rest.length ∧
      ∀ c ∈ s.rest.take n, set.has c = true := Spot.exists_skip_of_mem_reach (by rw [hreach]; simp)
  refine ⟨n, hn, hclass, ht, ?_⟩
  intro m rest hs hm hlt
  have hmem : s.skip m.length ∈ far ++ s.skip n :: near := by
    rw [← hreach]
    exact Spot.skip_mem_reach hs hm (by omega)
  have hdesc := s.pairwise_reach set least
  rw [hreach] at hdesc
  rcases List.mem_append.mp hmem with hmem | hmem
  · exact hfar _ hmem
  · -- no place from the one taken on is that far
    exfalso
    have hindex : (s.skip m.length).index ≤ (s.skip n).index := by
      rcases List.mem_cons.mp hmem with heq | hnear
      · exact Nat.le_of_eq (congrArg Spot.index heq)
      · exact Nat.le_of_lt (List.rel_of_pairwise_cons (List.pairwise_append.mp hdesc).2.1 hnear)
    rw [(Spot.skip_eq s hn).2.1, (Spot.skip_eq s (by simp [hs])).2.1] at hindex
    omega

/-! ## Reading a text -/

/-- The pattern may read the text `cs` up to the rest `r`, whatever stands before it. -/
def Reads : Pattern → List Char → List Char → Prop
  | .empty, cs, r => r = cs
  | .one set, cs, r => ∃ c, set.has c = true ∧ cs = c :: r
  | .seq p q, cs, r => ∃ mid, p.Reads cs mid ∧ q.Reads mid r
  | .alt p q, cs, r => p.Reads cs r ∨ q.Reads cs r
  | .capture _ p, cs, r => p.Reads cs r
  | .span set least none .greedy, cs, r =>
    ∃ m, (∀ c ∈ m, set.has c = true) ∧ least ≤ m.length ∧ cs = m ++ r
  | .look false 0 p, cs, r => r = cs ∧ ∀ s : Spot, s.rest = cs → p.run some s = none
  | _, _, _ => False

section

variable {cs r : List Char}

/-- Runs are read if they are unlimited and greedy. -/
lemma Reads.of_span {set : CharClass} {least : Nat} {most : Option Nat} {manner : Manner}
    (h : (Pattern.span set least most manner).Reads cs r) :
    most = none ∧ manner = .greedy ∧
      ∃ m, (∀ c ∈ m, set.has c = true) ∧ least ≤ m.length ∧ cs = m ++ r := by
  cases most with
  | some most => cases manner <;> exact h.elim
  | none =>
    cases manner with
    | greedy => exact ⟨rfl, rfl, h⟩
    | lazy => exact h.elim
    | possessive | marked => exact h.elim

/-- Of the ways to look around only that for what must not follow is read. -/
lemma Reads.of_look {positive : Bool} {back : Nat} {p : Pattern}
    (h : (Pattern.look positive back p).Reads cs r) :
    positive = false ∧ back = 0 ∧ r = cs ∧ ∀ s : Spot, s.rest = cs → p.run some s = none := by
  cases positive with
  | true => cases back <;> exact h.elim
  | false =>
    cases back with
    | zero => exact ⟨rfl, rfl, h⟩
    | succ back => exact h.elim

end

/-- **Where there is a way to match, the search succeeds**, if what follows succeeds at the end of
it. -/
lemma isSome_run_of_reads {p : Pattern} {cs r : List Char} (h : p.Reads cs r)
    {k : Spot → Option Spot} {s : Spot} (hs : s.rest = cs)
    (hk : ∀ t : Spot, t.rest = r → (k t).isSome = true) : (p.run k s).isSome = true := by
  induction p generalizing cs r k s with
  | empty =>
    obtain rfl : r = cs := h
    exact hk s hs
  | one set =>
    obtain ⟨c, hc, rfl⟩ := h
    rw [run, hs]
    simp only [hc, if_true]
    exact hk _ rfl
  | seq p q ihp ihq =>
    obtain ⟨mid, hp, hq⟩ := h
    exact ihp hp hs fun t ht => ihq hq ht hk
  | alt p q ihp ihq =>
    rw [run, Option.isSome_or, Bool.or_eq_true]
    exact h.imp (fun h => ihp h hs hk) (fun h => ihq h hs hk)
  | capture label p ih => exact ih h hs fun t ht => hk _ ht
  | span set least most manner =>
    obtain ⟨rfl, rfl, m, hm, hleast, rfl⟩ := h.of_span
    show ((s.reach set least none).findSome? k).isSome = true
    rw [List.findSome?_isSome_iff]
    exact ⟨_, Spot.skip_mem_reach hs hm hleast, hk _ (Spot.rest_skip hs)⟩
  | look positive back p =>
    obtain ⟨rfl, rfl, rfl, hnone⟩ := h.of_look
    have hlook : p.run some (s.back 0) = none := hnone s hs
    rw [run, if_neg (Nat.not_lt_zero _), hlook]
    exact hk s hs
  | anchor => exact h.elim
  | iterate => exact h.elim
  | atomic => exact h.elim
  | again => exact h.elim
  | given => exact h.elim

/-- A pattern that matches at the start of a text is found in it. -/
lemma isSome_find?_of_run {p : Pattern} {text : List Char}
    (h : (p.run some (Spot.atStart text)).isSome = true) : (p.find? text).isSome = true := by
  obtain ⟨t, ht⟩ := Option.isSome_iff_exists.mp h
  have hmatch : matchAt p false (Spot.atStart text) = some t := by
    have hindex : (Spot.atStart text).index ≤ t.index := Nat.zero_le _
    simp [matchAt, ht, hindex]
  cases text with
  | nil =>
    rw [find?, findFrom, hmatch]
    rfl
  | cons c cs =>
    rw [find?, findFrom, hmatch]
    rfl

/-- The pattern is made of characters, unlimited greedy runs, sequences, alternatives and
captures. -/
def free : Pattern → Bool
  | .empty | .one _ => true
  | .seq p q | .alt p q => p.free && q.free
  | .capture _ p => p.free
  | .span _ _ most manner => decide (most = none) && decide (manner = .greedy)
  | _ => false

/-- Such a pattern reads what it leads to. -/
lemma Leads.reads {p : Pattern} (hp : p.free = true) {s t : Spot} {m : List Char}
    (h : p.Leads s m t) : p.Reads s.rest t.rest := by
  induction p generalizing s m t with
  | empty =>
    obtain ⟨-, rfl⟩ := h
    rfl
  | one set =>
    obtain ⟨c, cs, hs, hc, -, rfl⟩ := h
    exact ⟨c, hc, hs⟩
  | seq p q ihp ihq =>
    obtain ⟨hp, hq⟩ := Bool.and_eq_true_iff.mp hp
    obtain ⟨m₁, u, m₂, hu, ht, -⟩ := h
    exact ⟨u.rest, ihp hp hu, ihq hq ht⟩
  | alt p q ihp ihq =>
    obtain ⟨hp, hq⟩ := Bool.and_eq_true_iff.mp hp
    exact h.imp (ihp hp) (ihq hq)
  | capture label p ih =>
    obtain ⟨u, hu, rfl⟩ := h
    have hread := ih hp hu
    exact hread
  | span set least most manner =>
    simp only [free, Bool.and_eq_true, decide_eq_true_eq] at hp
    obtain ⟨rfl, rfl⟩ := hp
    exact ⟨m, h.1, h.2.1, h.2.2.1⟩
  | _ => simp [free] at hp

/-! ## Getting stuck -/

/-- What is left of a pattern behind the character `c`, in each way to read it. -/
def residues (c : Char) : Pattern → List Pattern
  | .one set => if set.has c then [.empty] else []
  | .seq p q => (p.residues c).map (.seq · q) ++ if p.nullable then q.residues c else []
  | .alt p q => p.residues c ++ q.residues c
  | .capture _ p => p.residues c
  | .span set least _ _ => if set.has c then [.span set (least - 1) none .greedy] else []
  | _ => []

/-- Whether none of the patterns gets past a text: every way to read it ends inside. -/
def stuckOn : List Char → List Pattern → Bool
  | [], ps => ps.isEmpty
  | c :: cs, ps => ps.all (fun p => !p.nullable) && stuckOn cs (ps.flatMap (residues c))

/-- A pattern reads nothing, or one character and then what one of its residues reads. -/
lemma Reads.cons_cases {p : Pattern} {c : Char} {cs r : List Char} (h : p.Reads (c :: cs) r) :
    (p.nullable = true ∧ r = c :: cs) ∨ ∃ q ∈ p.residues c, q.Reads cs r := by
  induction p generalizing r with
  | empty => exact .inl ⟨rfl, h⟩
  | one set =>
    obtain ⟨d, hd, heq⟩ := h
    obtain ⟨rfl, rfl⟩ := List.cons.inj heq
    exact .inr ⟨.empty, by simp [residues, hd], rfl⟩
  | seq p q ihp ihq =>
    obtain ⟨mid, hp, hq⟩ := h
    rcases ihp hp with ⟨hnull, rfl⟩ | ⟨p', hp', hread⟩
    · rcases ihq hq with ⟨hnull', rfl⟩ | ⟨q', hq', hread⟩
      · exact .inl ⟨by simp [nullable, hnull, hnull'], rfl⟩
      · exact .inr ⟨q', by simp [residues, hnull, hq'], hread⟩
    · exact .inr ⟨.seq p' q, by simp [residues, hp'], mid, hread, hq⟩
  | alt p q ihp ihq =>
    rcases h with h | h
    · rcases ihp h with ⟨hnull, hr⟩ | ⟨p', hp', hread⟩
      · exact .inl ⟨by simp [nullable, hnull], hr⟩
      · exact .inr ⟨p', by simp [residues, hp'], hread⟩
    · rcases ihq h with ⟨hnull, hr⟩ | ⟨q', hq', hread⟩
      · exact .inl ⟨by simp [nullable, hnull], hr⟩
      · exact .inr ⟨q', by simp [residues, hq'], hread⟩
  | capture label p ih => exact ih h
  | span set least most manner =>
    obtain ⟨rfl, rfl, m, hm, hleast, hcs⟩ := h.of_span
    cases m with
    | nil => exact .inl ⟨by simpa [nullable] using hleast, hcs.symm⟩
    | cons d m =>
      obtain ⟨rfl, rfl⟩ := List.cons.inj hcs
      obtain ⟨hc, hm⟩ := List.forall_mem_cons.mp hm
      refine .inr ⟨.span set (least - 1) none .greedy, by simp [residues, hc], m, hm, ?_, rfl⟩
      rw [List.length_cons] at hleast
      omega
  | look positive back p =>
    obtain ⟨rfl, rfl, hr, -⟩ := h.of_look
    exact .inl ⟨rfl, hr⟩
  | anchor => exact h.elim
  | iterate => exact h.elim
  | atomic => exact h.elim
  | again => exact h.elim
  | given => exact h.elim

/-- **A pattern that cannot get past a text does not read it**, whatever follows the text. -/
lemma not_reads_of_stuckOn {cs : List Char} {ps : List Pattern} (h : stuckOn cs ps = true)
    {p : Pattern} (hp : p ∈ ps) (back r : List Char) : ¬ p.Reads (cs ++ back) r := by
  induction cs generalizing ps p with
  | nil =>
    rw [stuckOn, List.isEmpty_iff] at h
    simp [h] at hp
  | cons c cs ih =>
    obtain ⟨hnull, hstuck⟩ := Bool.and_eq_true_iff.mp h
    intro hread
    rcases Reads.cons_cases hread with ⟨hn, -⟩ | ⟨q, hq, hread⟩
    · have hp' := List.all_eq_true.mp hnull p hp
      simp [hn] at hp'
    · exact ih hstuck (List.mem_flatMap.mpr ⟨p, hp, hq⟩) hread

end Marginalia.Pattern
