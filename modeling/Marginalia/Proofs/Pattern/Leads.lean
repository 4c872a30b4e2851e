import Marginalia.Pattern.Match
import Mathlib.Tactic.Lemma

/-!
# What a match looks like

A match is found by a search with backtracking, but what it looks like is told by the pattern alone.
For plain patterns, which are made of characters, runs, sequences, alternatives, captures and
negative glances ahead, this is a relation between the place before the match, its text and the
place behind it.

With which characters a match may begin and end is read off the pattern.

## Main definitions

* `Pattern.plain` — the pattern is made of these parts.
* `Pattern.Leads` — a text leads from one place to another.
* `Pattern.nullable`, `Pattern.mayStart`, `Pattern.mayEnd` — whether a match may be empty, and with
  which characters it may begin and end.
* `Pattern.labels` — the labels of the captures.
* `Pattern.lastPart` — the last of several patterns in a row.

## Main results

* `Pattern.exists_leads_of_run` — the search finds only what the pattern leads to.
* `Pattern.Leads.bounds` — a match begins and ends only as its pattern allows.
* `Pattern.Leads.captured?_eq` — a match keeps the captures that its pattern has no label for.
-/

namespace Marginalia.Pattern

/-! ## Places behind a run -/

namespace Spot

/-- Skipping characters moves along the text and captures nothing. -/
lemma skip_eq (s : Spot) {n : Nat} (h : n ≤ s.rest.length) :
    s.rest = s.rest.take n ++ (s.skip n).rest ∧ (s.skip n).index = s.index + n ∧
      (s.skip n).captures = s.captures := by
  induction n generalizing s with
  | zero => exact ⟨rfl, rfl, rfl⟩
  | succ n ih =>
    cases hr : s.rest with
    | nil => simp [hr] at h
    | cons c cs =>
      have hskip : s.skip (n + 1) = (s.step c cs).skip n := by rw [skip, hr]
      rw [hr] at h
      obtain ⟨hrest, hindex, hcaptures⟩ := ih (s.step c cs) (Nat.le_of_succ_le_succ h)
      have hrest : cs = cs.take n ++ ((s.step c cs).skip n).rest := hrest
      refine ⟨?_, ?_, ?_⟩
      · rw [hskip, List.take_succ_cons, List.cons_append, ← hrest]
      · rw [hskip, hindex]
        show s.index + 1 + n = s.index + (n + 1)
        omega
      · rw [hskip, hcaptures]
        rfl

/-- The places along a run are those behind its first characters, the farthest first. -/
lemma along_eq (set : CharClass) (cs : List Char) :
    ∀ (room : Option Nat) (found : List Spot) (s : Spot), s.rest = cs →
      ∃ n, n ≤ cs.length ∧ (∀ c ∈ cs.take n, set.has c = true) ∧
        along set room found s cs = ((List.range (n + 1)).map s.skip).reverse ++ found := by
  induction cs with
  | nil =>
    intro room found s _
    exact ⟨0, Nat.le_refl _, by simp, rfl⟩
  | cons c cs ih =>
    intro room found s hs
    rw [along]
    split
    · next hc =>
      obtain ⟨n, hn, hset, he⟩ := ih (room.map (· - 1)) (s :: found) (s.step c cs) rfl
      have hskip : ∀ j, (s.step c cs).skip j = s.skip (j + 1) := by
        intro j
        rw [skip, hs]
      refine ⟨n + 1, Nat.succ_le_succ hn, ?_, ?_⟩
      · have hc' : set.has c = true := (Bool.and_eq_true_iff.mp hc).1
        simpa [hc'] using hset
      · rw [he, List.range_succ_eq_map (n := n + 1), List.map_cons, List.reverse_cons,
          List.map_map, List.append_assoc]
        have hmap : s.skip ∘ Nat.succ = (s.step c cs).skip := by
          funext j
          exact (hskip j).symm
        rw [hmap]
        rfl
    · exact ⟨0, Nat.zero_le _, by simp, rfl⟩

/-- **A place that a run reaches** lies behind enough characters of its class. -/
lemma exists_of_mem_reach {s t : Spot} {set : CharClass} {least : Nat} {most : Option Nat}
    (h : t ∈ s.reach set least most) :
    ∃ m, (∀ c ∈ m, set.has c = true) ∧ least ≤ m.length ∧ s.rest = m ++ t.rest ∧
      t.index = s.index + m.length ∧ t.captures = s.captures := by
  obtain ⟨n, hn, hset, he⟩ := along_eq set s.rest most [] s rfl
  rw [reach, he, List.append_nil] at h
  obtain ⟨i, hi, rfl⟩ := List.getElem_of_mem h
  simp only [List.length_take, List.length_reverse, List.length_map, List.length_range] at hi
  have hle : n - i ≤ s.rest.length := by omega
  have ht : (((List.range (n + 1)).map s.skip).reverse.take
      (((List.range (n + 1)).map s.skip).reverse.length - least))[i] = s.skip (n - i) := by
    simp only [List.getElem_take, List.getElem_reverse, List.getElem_map, List.getElem_range,
      List.length_map, List.length_range]
    congr 1
  rw [ht]
  obtain ⟨hrest, hindex, hcaptures⟩ := skip_eq s hle
  have hlen : (s.rest.take (n - i)).length = n - i := by
    rw [List.length_take]
    omega
  refine ⟨s.rest.take (n - i), ?_, by omega, hrest, by rw [hlen, hindex], hcaptures⟩
  intro c hc
  have hfront : s.rest.take (n - i) = (s.rest.take n).take (n - i) := by
    rw [List.take_take, Nat.min_eq_left (Nat.sub_le n i)]
  exact hset c (List.mem_of_mem_take (hfront ▸ hc))

end Spot

/-! ## The relation -/

/-- The pattern is made of characters, greedy runs, sequences, alternatives, captures, anchors and
negative glances ahead. -/
def plain : Pattern → Bool
  | .empty | .one _ | .anchor _ => true
  | .seq p q | .alt p q => p.plain && q.plain
  | .capture _ p => p.plain
  | .span _ _ _ manner => manner == .greedy
  | .look positive back _ => !positive && back == 0
  | _ => false

/-- The text `m` matches a plain pattern at the place `s` and leads to the place `t`. -/
def Leads : Pattern → Spot → List Char → Spot → Prop
  | .empty, s, m, t => m = [] ∧ t = s
  | .one set, s, m, t =>
    ∃ c cs, s.rest = c :: cs ∧ set.has c = true ∧ m = [c] ∧ t = s.step c cs
  | .anchor place, s, m, t => place.holds s = true ∧ m = [] ∧ t = s
  | .seq p q, s, m, t => ∃ m₁ u m₂, p.Leads s m₁ u ∧ q.Leads u m₂ t ∧ m = m₁ ++ m₂
  | .alt p q, s, m, t => p.Leads s m t ∨ q.Leads s m t
  | .capture label p, s, m, t =>
    ∃ u, p.Leads s m u ∧ t = { u with captures := (label, m) :: u.captures }
  | .span set least _ _, s, m, t =>
    (∀ c ∈ m, set.has c = true) ∧ least ≤ m.length ∧ s.rest = m ++ t.rest ∧
      t.index = s.index + m.length ∧ t.captures = s.captures
  | .look _ _ p, s, m, t => p.run some s = none ∧ m = [] ∧ t = s
  | _, _, _, _ => False

variable {p : Pattern} {s t : Spot} {m : List Char}

/-- A match moves along the text. -/
lemma Leads.moves (h : p.Leads s m t) : s.rest = m ++ t.rest ∧ t.index = s.index + m.length := by
  induction p generalizing s m t with
  | empty =>
    obtain ⟨rfl, rfl⟩ := h
    exact ⟨rfl, rfl⟩
  | one set =>
    obtain ⟨c, cs, hs, -, rfl, rfl⟩ := h
    exact ⟨hs, rfl⟩
  | anchor place =>
    obtain ⟨-, rfl, rfl⟩ := h
    exact ⟨rfl, rfl⟩
  | seq p q ihp ihq =>
    obtain ⟨m₁, u, m₂, hp, hq, rfl⟩ := h
    obtain ⟨hs, hu⟩ := ihp hp
    obtain ⟨hu', ht⟩ := ihq hq
    rw [hs, hu', ht, hu, List.length_append]
    exact ⟨(List.append_assoc ..).symm, Nat.add_assoc ..⟩
  | alt p q ihp ihq => exact h.elim ihp ihq
  | capture label p ih =>
    obtain ⟨u, hp, rfl⟩ := h
    have hu := ih hp
    exact hu
  | span set least most manner => exact ⟨h.2.2.1, h.2.2.2.1⟩
  | look positive back p =>
    obtain ⟨-, rfl, rfl⟩ := h
    exact ⟨rfl, rfl⟩
  | iterate => exact h.elim
  | atomic => exact h.elim
  | again => exact h.elim
  | given => exact h.elim

/-- The text between two spots is what was read from the one to the other. -/
lemma Leads.textTo_eq (h : p.Leads s m t) : s.textTo t = m := by
  obtain ⟨hrest, hindex⟩ := h.moves
  rw [Spot.textTo, hrest, hindex, Nat.add_sub_cancel_left, List.take_left]

/-- **The search finds only what the pattern leads to**: if a plain pattern followed by `k`
succeeds, then `k` succeeds at a place that the pattern leads to. -/
lemma exists_leads_of_run (hp : p.plain = true) {k : Spot → Option Spot} {r : Spot}
    (h : p.run k s = some r) : ∃ m t, p.Leads s m t ∧ k t = some r := by
  induction p generalizing s k r with
  | empty => exact ⟨[], s, ⟨rfl, rfl⟩, h⟩
  | one set =>
    rw [run] at h
    cases hs : s.rest with
    | nil => simp [hs] at h
    | cons c cs =>
      simp only [hs] at h
      split at h
      · next hc => exact ⟨[c], s.step c cs, ⟨c, cs, hs, hc, rfl, rfl⟩, h⟩
      · simp at h
  | anchor place =>
    rw [run] at h
    split at h
    · next hplace => exact ⟨[], s, ⟨hplace, rfl, rfl⟩, h⟩
    · simp at h
  | seq p q ihp ihq =>
    obtain ⟨hp, hq⟩ := Bool.and_eq_true_iff.mp hp
    obtain ⟨m₁, u, hu, h⟩ := ihp hp h
    obtain ⟨m₂, t, ht, h⟩ := ihq hq h
    exact ⟨m₁ ++ m₂, t, ⟨m₁, u, m₂, hu, ht, rfl⟩, h⟩
  | alt p q ihp ihq =>
    obtain ⟨hp, hq⟩ := Bool.and_eq_true_iff.mp hp
    rw [run, Option.or_eq_some_iff] at h
    rcases h with h | ⟨-, h⟩
    · obtain ⟨m, t, ht, hk⟩ := ihp hp h
      exact ⟨m, t, .inl ht, hk⟩
    · obtain ⟨m, t, ht, hk⟩ := ihq hq h
      exact ⟨m, t, .inr ht, hk⟩
  | capture label p ih =>
    obtain ⟨m, u, hu, hk⟩ := ih hp h
    rw [hu.textTo_eq] at hk
    exact ⟨m, _, ⟨u, hu, rfl⟩, hk⟩
  | span set least most manner =>
    obtain rfl : manner = .greedy := by simpa [plain] using hp
    obtain ⟨t, hmem, hk⟩ := List.exists_of_findSome?_eq_some h
    obtain ⟨m, hm⟩ := Spot.exists_of_mem_reach hmem
    exact ⟨m, t, hm, hk⟩
  | look positive back p =>
    obtain ⟨rfl, rfl⟩ : positive = false ∧ back = 0 := by simpa [plain] using hp
    rw [run, if_neg (Nat.not_lt_zero _)] at h
    cases hrun : p.run some (s.back 0) with
    | none =>
      rw [hrun] at h
      exact ⟨[], s, ⟨hrun, rfl, rfl⟩, h⟩
    | some t => simp [hrun] at h
  | iterate => simp [plain] at hp
  | atomic => simp [plain] at hp
  | again => simp [plain] at hp
  | given => simp [plain] at hp

/-- The last of several patterns in a row. -/
def lastPart : Pattern → Pattern
  | .seq _ q => q.lastPart
  | p => p

/-- A match of several patterns in a row ends with a match of the last one. -/
lemma Leads.lastPart (h : p.Leads s m t) :
    ∃ m₁ u m₂, p.lastPart.Leads u m₂ t ∧ m = m₁ ++ m₂ := by
  induction p generalizing s m with
  | seq p q _ ihq =>
    obtain ⟨m₁, u, m', -, hq, rfl⟩ := h
    obtain ⟨m₂, v, m₃, hv, rfl⟩ := ihq hq
    exact ⟨m₁ ++ m₂, v, m₃, hv, (List.append_assoc ..).symm⟩
  | _ => exact ⟨[], s, m, h, rfl⟩

/-! ## How matches begin and end -/

/-- Whether a match may be empty. -/
def nullable : Pattern → Bool
  | .one _ => false
  | .seq p q => p.nullable && q.nullable
  | .alt p q => p.nullable || q.nullable
  | .capture _ p => p.nullable
  | .span _ least _ _ => least == 0
  | _ => true

/-- Whether a match may begin with a character. -/
def mayStart (c : Char) : Pattern → Bool
  | .one set | .span set _ _ _ => set.has c
  | .seq p q => p.mayStart c || (p.nullable && q.mayStart c)
  | .alt p q => p.mayStart c || q.mayStart c
  | .capture _ p => p.mayStart c
  | _ => false

/-- Whether a match may end with a character. -/
def mayEnd (c : Char) : Pattern → Bool
  | .one set | .span set _ _ _ => set.has c
  | .seq p q => q.mayEnd c || (q.nullable && p.mayEnd c)
  | .alt p q => p.mayEnd c || q.mayEnd c
  | .capture _ p => p.mayEnd c
  | _ => false

/-- The labels of the captures in a pattern. -/
def labels : Pattern → List Label
  | .seq p q | .alt p q => p.labels ++ q.labels
  | .capture label p => label :: p.labels
  | _ => []

/-- **A match begins and ends only as its pattern allows.** -/
lemma Leads.bounds (h : p.Leads s m t) :
    (m = [] → p.nullable = true) ∧ (∀ c, m.head? = some c → p.mayStart c = true) ∧
      (∀ c, m.getLast? = some c → p.mayEnd c = true) := by
  induction p generalizing s m t with
  | empty =>
    obtain ⟨rfl, rfl⟩ := h
    simp [nullable]
  | one set =>
    obtain ⟨c, cs, -, hc, rfl, -⟩ := h
    simp [mayStart, mayEnd, hc]
  | anchor place =>
    obtain ⟨-, rfl, -⟩ := h
    simp [nullable]
  | seq p q ihp ihq =>
    obtain ⟨m₁, u, m₂, hp, hq, rfl⟩ := h
    obtain ⟨hpn, hps, hpe⟩ := ihp hp
    obtain ⟨hqn, hqs, hqe⟩ := ihq hq
    refine ⟨?_, ?_, ?_⟩
    · intro hnil
      obtain ⟨h₁, h₂⟩ := List.append_eq_nil_iff.mp hnil
      simp [nullable, hpn h₁, hqn h₂]
    · intro c hc
      rw [List.head?_append] at hc
      rcases Option.or_eq_some_iff.mp hc with hc | ⟨hnone, hc⟩
      · simp [mayStart, hps c hc]
      · simp [mayStart, hqs c hc, hpn (List.head?_eq_none_iff.mp hnone)]
    · intro c hc
      rw [List.getLast?_append] at hc
      rcases Option.or_eq_some_iff.mp hc with hc | ⟨hnone, hc⟩
      · simp [mayEnd, hqe c hc]
      · simp [mayEnd, hpe c hc, hqn (List.getLast?_eq_none_iff.mp hnone)]
  | alt p q ihp ihq =>
    rcases h with h | h
    · obtain ⟨hn, hs, he⟩ := ihp h
      exact ⟨fun e => by simp [nullable, hn e], fun c hc => by simp [mayStart, hs c hc],
        fun c hc => by simp [mayEnd, he c hc]⟩
    · obtain ⟨hn, hs, he⟩ := ihq h
      exact ⟨fun e => by simp [nullable, hn e], fun c hc => by simp [mayStart, hs c hc],
        fun c hc => by simp [mayEnd, he c hc]⟩
  | capture label p ih =>
    obtain ⟨u, hp, -⟩ := h
    exact ih hp
  | span set least most manner =>
    obtain ⟨hset, hleast, -⟩ := h
    refine ⟨?_, fun c hc => hset c (List.mem_of_mem_head? hc),
      fun c hc => hset c (List.mem_of_mem_getLast? hc)⟩
    rintro rfl
    simpa [nullable] using hleast
  | look positive back p =>
    obtain ⟨-, rfl, -⟩ := h
    simp [nullable]
  | iterate => exact h.elim
  | atomic => exact h.elim
  | again => exact h.elim
  | given => exact h.elim

/-- **A match keeps the captures that its pattern has no label for.** -/
lemma Leads.captured?_eq (h : p.Leads s m t) {label : Label} (hl : label ∉ p.labels) :
    t.captured? label = s.captured? label := by
  induction p generalizing s m t with
  | empty =>
    obtain ⟨-, rfl⟩ := h
    rfl
  | one set =>
    obtain ⟨c, cs, -, -, -, rfl⟩ := h
    rfl
  | anchor place =>
    obtain ⟨-, -, rfl⟩ := h
    rfl
  | seq p q ihp ihq =>
    obtain ⟨m₁, u, m₂, hp, hq, -⟩ := h
    rw [labels, List.mem_append, not_or] at hl
    exact (ihq hq hl.2).trans (ihp hp hl.1)
  | alt p q ihp ihq =>
    rw [labels, List.mem_append, not_or] at hl
    exact h.elim (fun h => ihp h hl.1) (fun h => ihq h hl.2)
  | capture other p ih =>
    obtain ⟨u, hp, rfl⟩ := h
    rw [labels, List.mem_cons, not_or] at hl
    have hu := ih hp hl.2
    rw [← hu, Spot.captured?, Spot.captured?, List.lookup_cons, beq_eq_false_iff_ne.mpr hl.1]
  | span set least most manner => rw [Spot.captured?, Spot.captured?, h.2.2.2.2]
  | look positive back p =>
    obtain ⟨-, -, rfl⟩ := h
    rfl
  | iterate => exact h.elim
  | atomic => exact h.elim
  | again => exact h.elim
  | given => exact h.elim

end Marginalia.Pattern
