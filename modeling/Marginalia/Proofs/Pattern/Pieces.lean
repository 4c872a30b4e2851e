import Marginalia.Proofs.Pattern.Leads

/-!
# Patterns made of pieces

What a match looks like as a whole often follows from what its pieces look like, because it is true
of the empty text and of two texts in a row if it is true of both.  Which pieces a pattern is made
of is read off the pattern.

## Main definitions

* `Pattern.madeOf` — the pattern is made of pieces of some sort.
* `Pattern.inClass` — the piece is a character of some class, or a run of such characters.
* `Pattern.opensThen` — the pattern begins with a given character, and then come such pieces.

## Main results

* `Pattern.Leads.of_madeOf` — what holds of the pieces holds of the match.
* `Pattern.Leads.of_opensThen` — the match is the character and then what holds of the pieces.
* `Pattern.Leads.captured?_cases` — what a match captures is a part of it.
-/

namespace Marginalia.Pattern

/-! ## Classes of characters -/

/-- The class of one character has this character. -/
@[simp]
lemma CharClass.has_char {c d : Char} : CharClass.has ⟨false, [.char d]⟩ c = true ↔ c = d := by
  simp [CharClass.has, ClassItem.has]

/-- The class of blanks has the blanks. -/
@[simp]
lemma CharClass.has_blank {c : Char} :
    CharClass.has ⟨false, [.category .blank false]⟩ c = Text.isBlank c := by
  simp [CharClass.has, ClassItem.has, Category.has]

/-- The class of visible characters has what is not blank. -/
@[simp]
lemma CharClass.has_notBlank {c : Char} :
    CharClass.has ⟨false, [.category .blank true]⟩ c = !Text.isBlank c := by
  simp [CharClass.has, ClassItem.has, Category.has]

/-- The class lists some of the given characters, one by one. -/
def CharClass.lists (cs : List Char) (set : CharClass) : Bool :=
  !set.negated && set.items.all fun item => cs.any fun c => decide (item = .char c)

/-- A class that lists characters has these only. -/
lemma CharClass.mem_of_lists {cs : List Char} {set : CharClass} (h : set.lists cs = true)
    {c : Char} (hc : set.has c = true) : c ∈ cs := by
  obtain ⟨hneg, hitems⟩ := Bool.and_eq_true_iff.mp h
  rw [Bool.not_eq_true'] at hneg
  rw [CharClass.has, hneg, Bool.bne_false, List.any_eq_true] at hc
  obtain ⟨item, hitem, hc⟩ := hc
  obtain ⟨d, hd, heq⟩ := List.any_eq_true.mp (List.all_eq_true.mp hitems item hitem)
  obtain rfl := of_decide_eq_true heq
  obtain rfl : c = d := by simpa [ClassItem.has] using hc
  exact hd

/-! ## Pieces -/

/-- The pattern is made of pieces of some sort. -/
def madeOf (piece : Pattern → Bool) : Pattern → Bool
  | .empty | .anchor _ | .look .. => true
  | .seq p q => piece (.seq p q) || (p.madeOf piece && q.madeOf piece)
  | .alt p q => p.madeOf piece && q.madeOf piece
  | .capture _ p => p.madeOf piece
  | p => piece p

/-- The piece is a character of a good class, or a run of such characters. -/
def inClass (good : CharClass → Bool) : Pattern → Bool
  | .one set | .span set _ _ _ => good set
  | _ => false

/-- The pattern is one that begins with the character `c`, and then comes a row of good ones. -/
def opensThen (c : Char) (good : Pattern → Bool) : Pattern → Bool
  | .one set => decide (set = ⟨false, [.char c]⟩)
  | .seq p q => p.opensThen c good && good q
  | .capture _ p => p.opensThen c good
  | _ => false

section

variable {p : Pattern} {s t : Spot} {m : List Char}

/-- A pattern made of good classes reads characters of these classes. -/
lemma Leads.mem_inClass {good : CharClass → Bool} (hp : p.inClass good = true)
    (h : p.Leads s m t) : ∀ c ∈ m, ∃ set, good set = true ∧ set.has c = true := by
  cases p with
  | one set =>
    obtain ⟨d, -, -, hd, rfl, -⟩ := h
    intro c hc
    obtain rfl := List.mem_singleton.mp hc
    exact ⟨set, hp, hd⟩
  | span set least most manner => exact fun c hc => ⟨set, hp, h.1 c hc⟩
  | _ => simp [inClass] at hp

variable {Q : List Char → Prop} (hnil : Q []) (happend : ∀ a b, Q a → Q b → Q (a ++ b))
include hnil happend

/-- **What holds of the pieces holds of the match**, if it holds of the empty text and of two texts
in a row whenever it holds of both. -/
lemma Leads.of_madeOf {piece : Pattern → Bool}
    (hpiece : ∀ (p : Pattern) (s : Spot) (m : List Char) (t : Spot),
      piece p = true → p.Leads s m t → Q m)
    (hp : p.madeOf piece = true) (h : p.Leads s m t) : Q m := by
  induction p generalizing s m t with
  | empty =>
    obtain ⟨rfl, -⟩ := h
    exact hnil
  | anchor place =>
    obtain ⟨-, rfl, -⟩ := h
    exact hnil
  | look positive back p =>
    obtain ⟨-, rfl, -⟩ := h
    exact hnil
  | seq p q ihp ihq =>
    rcases Bool.or_eq_true_iff.mp hp with hseq | hpq
    · exact hpiece _ s m t hseq h
    · obtain ⟨hp, hq⟩ := Bool.and_eq_true_iff.mp hpq
      obtain ⟨m₁, u, m₂, hu, ht, rfl⟩ := h
      exact happend _ _ (ihp hp hu) (ihq hq ht)
  | alt p q ihp ihq =>
    obtain ⟨hp, hq⟩ := Bool.and_eq_true_iff.mp hp
    exact h.elim (ihp hp) (ihq hq)
  | capture label p ih =>
    obtain ⟨u, hu, -⟩ := h
    exact ih hp hu
  | one set => exact hpiece _ s m t hp h
  | span set least most manner => exact hpiece _ s m t hp h
  | iterate => exact h.elim
  | atomic => exact h.elim
  | again => exact h.elim
  | given => exact h.elim

omit hnil happend in
/-- What holds of the characters of the classes holds of the characters of the match. -/
lemma Leads.forall_mem {good : CharClass → Bool} {P : Char → Prop}
    (hgood : ∀ (set : CharClass) (c : Char), good set = true → set.has c = true → P c)
    (hp : p.madeOf (inClass good) = true) (h : p.Leads s m t) : ∀ c ∈ m, P c := by
  have happend : ∀ a b : List Char, (∀ c ∈ a, P c) → (∀ c ∈ b, P c) → ∀ c ∈ a ++ b, P c :=
    fun a b ha hb c hc => (List.mem_append.mp hc).elim (ha c) (hb c)
  refine Leads.of_madeOf (by simp) happend ?_ hp h
  intro p s m t hp h c hc
  obtain ⟨set, hset, hc⟩ := h.mem_inClass hp c hc
  exact hgood set c hset hc

omit hnil happend in
/-- A character that is in none of the classes is not in the match. -/
lemma Leads.not_mem {c : Char} (hp : p.madeOf (inClass fun set => !set.has c) = true)
    (h : p.Leads s m t) : c ∉ m := by
  intro hmem
  refine h.forall_mem (P := fun d => d ≠ c) ?_ hp c hmem rfl
  rintro set d hset hd rfl
  simp [hd] at hset

/-- **The match is the character and then what holds of the good patterns.** -/
lemma Leads.of_opensThen {c : Char} {good : Pattern → Bool}
    (hgood : ∀ (p : Pattern) (s : Spot) (m : List Char) (t : Spot),
      good p = true → p.Leads s m t → Q m)
    (hp : p.opensThen c good = true) (h : p.Leads s m t) : ∃ rest, m = c :: rest ∧ Q rest := by
  induction p generalizing s m t with
  | one set =>
    obtain ⟨d, -, -, hd, rfl, -⟩ := h
    obtain rfl := of_decide_eq_true hp
    obtain rfl := CharClass.has_char.mp hd
    exact ⟨[], rfl, hnil⟩
  | seq p q ihp _ =>
    obtain ⟨hp, hq⟩ := Bool.and_eq_true_iff.mp hp
    obtain ⟨m₁, u, m₂, hu, ht, rfl⟩ := h
    obtain ⟨rest, rfl, hrest⟩ := ihp hp hu
    exact ⟨rest ++ m₂, rfl, happend _ _ hrest (hgood q u m₂ t hq ht)⟩
  | capture label p ih =>
    obtain ⟨u, hu, -⟩ := h
    exact ih hp hu
  | _ => simp [opensThen] at hp

end

/-! ## Captures are parts of a match -/

/-- **What a match captures is a part of it**; otherwise the capture is that from before. -/
lemma Leads.captured?_cases {p : Pattern} {s t : Spot} {m : List Char}
    (h : p.Leads s m t) (label : Label) :
    t.captured? label = s.captured? label ∨
      ∃ part, t.captured? label = some part ∧ part <:+: m := by
  induction p generalizing s m t with
  | empty =>
    obtain ⟨-, rfl⟩ := h
    exact .inl rfl
  | one set =>
    obtain ⟨c, cs, -, -, -, rfl⟩ := h
    exact .inl rfl
  | anchor place =>
    obtain ⟨-, -, rfl⟩ := h
    exact .inl rfl
  | seq p q ihp ihq =>
    obtain ⟨m₁, u, m₂, hp, hq, rfl⟩ := h
    rcases ihq hq with hsame | ⟨part, hpart, hinfix⟩
    · rw [hsame]
      refine (ihp hp).imp_right ?_
      rintro ⟨part, hpart, hinfix⟩
      exact ⟨part, hpart, hinfix.trans (List.prefix_append ..).isInfix⟩
    · exact .inr ⟨part, hpart, hinfix.trans (List.suffix_append ..).isInfix⟩
  | alt p q ihp ihq => exact h.elim ihp ihq
  | capture other p ih =>
    obtain ⟨u, hp, rfl⟩ := h
    by_cases hl : label = other
    · subst hl
      exact .inr ⟨m, by simp [Spot.captured?], List.infix_refl _⟩
    · have hold : Spot.captured? { u with captures := (other, m) :: u.captures } label =
          u.captured? label := by
        rw [Spot.captured?, Spot.captured?, List.lookup_cons, beq_eq_false_iff_ne.mpr hl]
      rw [hold]
      exact ih hp
  | span set least most manner =>
    left
    rw [Spot.captured?, Spot.captured?, h.2.2.2.2]
  | look positive back p =>
    obtain ⟨-, -, rfl⟩ := h
    exact .inl rfl
  | iterate => exact h.elim
  | atomic => exact h.elim
  | again => exact h.elim
  | given => exact h.elim

/-- What a match captures where nothing was captured before is a part of it, if there is any. -/
lemma Leads.getD_captured?_infix {p : Pattern} {s t : Spot} {m : List Char}
    (h : p.Leads s m t) {label : Label} (hs : s.captured? label = none) :
    (t.captured? label).getD [] <:+: m := by
  rcases h.captured?_cases label with hsame | ⟨part, hpart, hinfix⟩
  · rw [hsame, hs]
    exact (List.nil_prefix).isInfix
  · rw [hpart]
    exact hinfix

end Marginalia.Pattern
