import Marginalia.Proofs.Comment.Spelling

/-!
# Lines that the rules leave alone

An `@` protects the rest of its line from the rules that look for other annotations: a match that
begins before it would have to reach over it, and can do so only up to a closing brace.  So a line
without braces stays as it is behind an `@`, if no rule matches there and no type that may span
lines is open before it.

## Main definitions

* `Filter.EndsLine` — a text is empty or begins with a line break.
* `Filter.Guarded` — no match of a rule reaches a line behind its `@`.
* `Filter.Shut` — what a match has behind an `@` in it is closed by a brace.
* `Filter.Shelters` — a comment has a line behind an `@`, and no open type before it.

## Main results

* `Filter.tag_cases` — where a match lies that holds an `@`.
* `Filter.Guarded.exists_sheltered` — a guarded line stays as it is.
* `Filter.shelters_of_rewrites` — the rules for other annotations keep a sheltered line.
-/

namespace Marginalia.Filter

open Pattern

/-! ## Splitting a text in two ways -/

section

variable {a b c d : List Char} {x : Char}

/-- A character lies before a border or behind it. -/
lemma cases_of_append_cons (h : a ++ x :: b = c ++ d) :
    (∃ e, c = a ++ x :: e ∧ b = e ++ d) ∨ ∃ e, a = c ++ e ∧ d = e ++ x :: b := by
  rcases List.append_eq_append_iff.mp h with ⟨more, rfl, hmore⟩ | ⟨e, ha, hd⟩
  · cases more with
    | nil => exact .inr ⟨[], by simp, hmore.symm⟩
    | cons y e =>
      obtain ⟨rfl, hb⟩ := List.cons.inj hmore
      exact .inl ⟨e, rfl, hb⟩
  · exact .inr ⟨e, ha, hd⟩

/-- A beginning without `x` ends before the first `x`. -/
lemma exists_of_not_mem_left (h : a ++ b = c ++ x :: d) (hx : x ∉ a) :
    ∃ c', c = a ++ c' ∧ b = c' ++ x :: d := by
  rcases cases_of_append_cons h.symm with ⟨e, rfl, -⟩ | hbehind
  · simp at hx
  · exact hbehind

/-- An end without `x` begins behind the last `x`. -/
lemma exists_of_not_mem_right (h : a ++ b = c ++ x :: d) (hx : x ∉ b) :
    ∃ d', a = c ++ x :: d' ∧ d = d' ++ b := by
  rcases cases_of_append_cons h.symm with hbefore | ⟨e, -, rfl⟩
  · exact hbefore
  · simp at hx

/-- A beginning of one sort ends before a character of another sort. -/
lemma exists_of_forall_mem {sort : Char → Bool} (h : a ++ b = c ++ d)
    (ha : ∀ x ∈ a, sort x = true) (hc : ∃ x ∈ c, sort x = false) :
    ∃ e, e ≠ [] ∧ c = a ++ e ∧ b = e ++ d := by
  obtain ⟨x, hx, hsort⟩ := hc
  have hnot : x ∉ a := fun hmem => by simp [ha x hmem] at hsort
  obtain ⟨c₁, c₂, rfl⟩ := List.append_of_mem hx
  rw [List.append_assoc] at h
  obtain ⟨e, rfl, rfl⟩ := exists_of_not_mem_left h hnot
  exact ⟨e ++ x :: c₂, by simp, by simp, by simp⟩

end

/-! ## Where a match lies -/

/-- The text is empty or begins with a line break. -/
def EndsLine (text : List Char) : Prop := ∀ c ∈ text.head?, c = '\n'

/-- It can be decided whether a text ends a line. -/
instance (text : List Char) : Decidable (EndsLine text) :=
  decidable_of_iff (text.head?.all (· == '\n') = true) (by cases text <;> simp [EndsLine])

section

variable {pre fringe tag rest above line below : List Char}

/-- A beginning without a line break ends on the line. -/
lemma exists_of_no_break {front back : List Char} (h : front ++ back = line ++ below)
    (hfront : '\n' ∉ front) (hend : EndsLine below) :
    ∃ more, line = front ++ more ∧ back = more ++ below := by
  rcases List.append_eq_append_iff.mp h with hline | ⟨low, rfl, rfl⟩
  · exact hline
  · cases low with
    | nil => exact ⟨[], by simp, rfl⟩
    | cons c low =>
      obtain rfl := hend c rfl
      simp at hfront

/-- A match whose `@` comes behind a line without one lies below this line. -/
lemma exists_behind {front more back : List Char} (hpre : pre ++ fringe = front ++ more)
    (heq : line ++ below = more ++ '@' :: back) (hfringe : ∀ c ∈ fringe, Rules.isFringe c = true)
    (hline : '@' ∉ line) (hend : EndsLine below) : ∃ mid, pre = front ++ (line ++ mid) := by
  obtain ⟨low, rfl, rfl⟩ := exists_of_not_mem_left heq hline
  -- the `@` is on another line, and so is what stands before it
  cases low with
  | nil => exact absurd (hend '@' rfl) (by decide)
  | cons c low =>
    obtain rfl := hend c rfl
    have hbreak : '\n' ∉ fringe := fun hmem => absurd (hfringe '\n' hmem) (by decide)
    have hsplit : pre ++ fringe = (front ++ line) ++ '\n' :: low := by simpa using hpre
    obtain ⟨mid, rfl, -⟩ := exists_of_not_mem_right hsplit hbreak
    exact ⟨'\n' :: mid, by simp⟩

/-- **Where a match lies that holds an `@`**: before the `@` of a line, behind that line, at this
`@`, or across it.

**Proof sketch.** The `@` of the match is compared with the one of the line.  Behind that one, it is
not in the line, so the whole match is below it. -/
lemma tag_cases (heq : pre ++ (fringe ++ '@' :: tag ++ rest) = above ++ '@' :: (line ++ below))
    (hfringe : ∀ c ∈ fringe, Rules.isFringe c = true) (hline : '@' ∉ line)
    (hend : EndsLine below) :
    (∃ mid, above = pre ++ (fringe ++ '@' :: tag ++ mid)) ∨
      (∃ mid, pre = above ++ ('@' :: line ++ mid)) ∨
      (above = pre ++ fringe ∧ tag ++ rest = line ++ below) ∨
      ∃ tag₁ tag₂, above = pre ++ (fringe ++ '@' :: tag₁) ∧ tag = tag₁ ++ '@' :: tag₂ ∧
        tag₂ ++ rest = line ++ below := by
  have heq : (pre ++ fringe) ++ '@' :: (tag ++ rest) = above ++ '@' :: (line ++ below) := by
    simpa using heq
  rcases cases_of_append_cons heq with ⟨more, habove, htag⟩ | ⟨more, hpre, hrest⟩
  · rcases cases_of_append_cons htag.symm with ⟨tag', rfl, hacross⟩ | ⟨mid, rfl, -⟩
    · exact .inr (.inr (.inr ⟨more, tag', by simp [habove], rfl, hacross.symm⟩))
    · exact .inl ⟨mid, by simp [habove]⟩
  · cases more with
    | nil => exact .inr (.inr (.inl ⟨by simpa using hpre.symm, (List.cons.inj hrest).2.symm⟩))
    | cons c more =>
      obtain ⟨rfl, hbehind⟩ := List.cons.inj hrest
      have hpre : pre ++ fringe = (above ++ ['@']) ++ more := by simp [hpre]
      obtain ⟨mid, hmid⟩ := exists_behind hpre hbehind hfringe hline hend
      exact .inr (.inl ⟨mid, by simp [hmid]⟩)

end

/-! ## Guarded lines -/

/-- No match of a rule reaches the line behind its `@`: neither does one begin at this `@`, nor does
one that begins at an earlier `@` reach over it. -/
structure Guarded (rule : Pattern) (above line below : List Char) : Prop where
  here : ∀ (u : Spot) (tag : List Char) (t : Spot),
    (Rules.tagBody rule).Leads u ('@' :: tag) t → tag ++ t.rest ≠ line ++ below
  across : ∀ (u : Spot) (tag₁ tag₂ : List Char) (t : Spot),
    (Rules.tagBody rule).Leads u ('@' :: (tag₁ ++ '@' :: tag₂)) t →
    (∃ front, above = front ++ '@' :: tag₁) → tag₂ ++ t.rest ≠ line ++ below

section

variable {rule : Pattern} {value : Found → List Char} {above line below out : List Char}

/-- A match of a rule, and the place behind it. -/
lemma exists_tag_of_swaps (hrule : rule ∈ Rules.keepRules ++ Rules.dropRules)
    {m v rest : List Char} (h : rule.Swaps value m v rest) :
    ∃ fringe tag u t, m = fringe ++ '@' :: tag ∧ (∀ c ∈ fringe, Rules.isFringe c = true) ∧
      (Rules.tagBody rule).Leads u ('@' :: tag) t ∧ t.rest = rest := by
  obtain ⟨s, f, -, -, hleads, -, hrest, -⟩ :=
    h.exists_leads (Rules.plain_of_isTagRule (Rules.isTagRule_of_mem rule hrule))
  obtain ⟨fringe, tag, u, hm, hfringe, htag⟩ := Rules.exists_tag hrule hleads
  exact ⟨fringe, tag, u, f.after, hm, hfringe, htag, hrest⟩

/-- Rewriting keeps the end of a line, if no match begins with a line break. -/
lemma endsLine_of_rewrites {p : Pattern} (h : p.Rewrites value below out)
    (hmatch : ∀ m v rest, p.Swaps value m v rest → ∃ c cs, m = c :: cs ∧ c ≠ '\n')
    (hend : EndsLine below) : EndsLine out := by
  cases h with
  | nil => exact hend
  | keep _ _ => exact hend
  | swap hm _ =>
    obtain ⟨c, cs, rfl, hc⟩ := hmatch _ _ _ hm
    exact absurd (hend c rfl) hc

/-- A rule keeps the end of a line. -/
lemma endsLine_of_rule (hrule : rule ∈ Rules.keepRules ++ Rules.dropRules)
    (h : rule.Rewrites value below out) (hend : EndsLine below) : EndsLine out := by
  refine endsLine_of_rewrites h ?_ hend
  intro m v rest hm
  obtain ⟨fringe, tag, -, -, rfl, hfringe, -⟩ := exists_tag_of_swaps hrule hm
  cases fringe with
  | nil => exact ⟨'@', tag, rfl, by decide⟩
  | cons c fringe =>
    refine ⟨c, fringe ++ '@' :: tag, rfl, ?_⟩
    rintro rfl
    exact absurd (hfringe '\n' (List.mem_cons_self ..)) (by decide)

/-- A rule keeps what stands before the first `@`, up to the end of a line. -/
lemma exists_kept (hrule : rule ∈ Rules.keepRules ++ Rules.dropRules) (hline : '@' ∉ line)
    (hend : EndsLine below) (h : rule.Rewrites value (line ++ below) out) :
    ∃ below', out = line ++ below' ∧ rule.Rewrites value below below' := by
  refine h.kept ?_
  intro pre m v rest heq hm
  obtain ⟨fringe, tag, -, -, rfl, hfringe, -⟩ := exists_tag_of_swaps hrule hm
  have heq : line ++ below = (pre ++ fringe) ++ '@' :: (tag ++ rest) := by simp [← heq]
  exact exists_behind (List.nil_append _).symm heq hfringe hline hend

/-- **A guarded line stays as it is**, and so does the `@` before it. -/
lemma Guarded.exists_sheltered (hguard : Guarded rule above line below)
    (hrule : rule ∈ Rules.keepRules ++ Rules.dropRules) (hline : '@' ∉ line)
    (hend : EndsLine below) (h : rule.Rewrites value (above ++ '@' :: (line ++ below)) out) :
    ∃ above' below', out = above' ++ '@' :: (line ++ below') ∧
      Edits (rule.Replaces value) above above' ∧ Edits (rule.Replaces value) below below' ∧
      EndsLine below' := by
  have hsides : ∀ pre m v rest, pre ++ (m ++ rest) = above ++ '@' :: (line ++ below) →
      rule.Swaps value m v rest →
      (∃ mid, above = pre ++ (m ++ mid)) ∨ ∃ mid, pre = above ++ ('@' :: line ++ mid) := by
    intro pre m v rest heq hm
    obtain ⟨fringe, tag, u, t, rfl, hfringe, htag, rfl⟩ := exists_tag_of_swaps hrule hm
    rcases tag_cases heq hfringe hline hend with hin | hbehind | ⟨-, hhere⟩ |
      ⟨tag₁, tag₂, habove, rfl, hacross⟩
    · exact .inl hin
    · exact .inr hbehind
    · exact absurd hhere (hguard.here u tag t htag)
    · exact absurd hacross (hguard.across u tag₁ tag₂ t htag ⟨pre ++ fringe, by simp [habove]⟩)
  obtain ⟨above', below', rfl, habove, hbelow⟩ := @Rewrites.spare rule value ('@' :: line) out above
    below h (fun m v rest hm => by
      obtain ⟨fringe, tag, -, -, rfl, -⟩ := exists_tag_of_swaps hrule hm
      simp) hsides
  exact ⟨above', below', rfl, habove, hbelow.edits, endsLine_of_rule hrule hbelow hend⟩

end

/-! ## What a match has behind an inner `@` -/

/-- Whatever comes behind an `@` in the text is closed by a brace, and up to there are only
characters of the class. -/
def Shut (set : CharClass) (text : List Char) : Prop :=
  ∀ front back, text = front ++ '@' :: back →
    ∃ inner after, back = inner ++ '\x7d' :: after ∧ ∀ c ∈ inner, set.has c = true

/-- Characters of the class between braces. -/
def braces (set : CharClass) : Pattern :=
  all [char '\x7b', .span set 0 none .greedy, char '\x7d']

/-- A piece without an `@`, or characters of the class between braces. -/
def shutPiece (set : CharClass) (p : Pattern) : Bool :=
  p.inClass (fun other => !other.has '@') || decide (p = braces set)

section

variable {set : CharClass}

/-- A text without an `@` is shut. -/
lemma shut_of_not_mem {text : List Char} (h : '@' ∉ text) : Shut set text := by
  rintro front back rfl
  simp at h

/-- Shut texts in a row are shut. -/
lemma shut_append (a b : List Char) (ha : Shut set a) (hb : Shut set b) : Shut set (a ++ b) := by
  intro front back heq
  rcases cases_of_append_cons heq.symm with ⟨more, rfl, rfl⟩ | ⟨more, rfl, rfl⟩
  · obtain ⟨inner, after, rfl, hinner⟩ := ha front more rfl
    exact ⟨inner, after ++ b, by simp, hinner⟩
  · exact hb more back rfl

/-- A match of characters between braces is a brace, these characters and a brace. -/
lemma exists_of_leads_braces {s t : Spot} {m : List Char} (h : (braces set).Leads s m t) :
    ∃ inner, m = '\x7b' :: (inner ++ ['\x7d']) ∧ ∀ c ∈ inner, set.has c = true := by
  obtain ⟨_, _, _, ⟨c, _, -, hc, rfl, -⟩, ⟨inner, _, _, ⟨hinner, -⟩, ⟨d, _, -, hd, rfl, -⟩, rfl⟩,
    rfl⟩ := h
  obtain rfl := CharClass.has_char.mp hc
  obtain rfl := CharClass.has_char.mp hd
  exact ⟨inner, rfl, hinner⟩

/-- What is between braces is shut. -/
lemma shut_of_shutPiece (p : Pattern) (s : Spot) (m : List Char) (t : Spot)
    (hp : shutPiece set p = true) (h : p.Leads s m t) : Shut set m := by
  rcases Bool.or_eq_true_iff.mp hp with hp | hp
  · refine shut_of_not_mem fun hat => ?_
    obtain ⟨other, hother, hhas⟩ := h.mem_inClass hp '@' hat
    simp [hhas] at hother
  · obtain rfl := of_decide_eq_true hp
    obtain ⟨inner, rfl, hinner⟩ := exists_of_leads_braces h
    intro front back heq
    have heq : ('\x7b' :: inner) ++ ['\x7d'] = front ++ '@' :: back := heq
    obtain ⟨inner', hfront, rfl⟩ := exists_of_not_mem_right heq (by decide)
    refine ⟨inner', [], rfl, fun c hc => ?_⟩
    cases front with
    | nil => simp at hfront
    | cons e front =>
      obtain ⟨-, rfl⟩ := List.cons.inj hfront
      exact hinner c (by simp [hc])

/-- **What a match has behind an inner `@` is shut**, if it is made of such pieces. -/
lemma shut_of_leads {p : Pattern} {s t : Spot} {tag : List Char}
    (hp : p.opensThen '@' (madeOf (shutPiece set)) = true) (h : p.Leads s ('@' :: tag) t) :
    Shut set tag := by
  obtain ⟨rest, heq, hshut⟩ := h.of_opensThen (shut_of_not_mem (by simp)) shut_append
    (fun p s m t hp h => h.of_madeOf (shut_of_not_mem (by simp)) shut_append shut_of_shutPiece hp)
    hp
  obtain ⟨-, rfl⟩ := List.cons.inj heq
  exact hshut

end

/-! ## The rules for other annotations -/

/-- Any character but a line break. -/
def inLine : CharClass := ⟨true, [.char '\n']⟩

/-- Any character. -/
def anywhere : CharClass := ⟨true, []⟩

/-- The words of the annotations that keep their descriptions. -/
def describedWords : List (List Char) := ["param".toList, "return".toList, "returns".toList]

/-- The word of the annotation whose type may span lines. -/
def typedefWord : List Char := ['t', 'y', 'p', 'e', 'd', 'e', 'f']

/-- The word of a type definition is made of letters. -/
lemma isLetter_of_mem_typedefWord : ∀ w ∈ typedefWord, isLetter w = true :=
  List.all_eq_true.mp (by decide)

/-- The rules that come when the types of described annotations are gone. -/
def otherRules : List Pattern := Rules.typedExport :: Rules.dropRules

/-- The rules that come later are rules of the filter. -/
lemma mem_of_mem_otherRules {rule : Pattern} (h : rule ∈ otherRules) :
    rule ∈ Rules.keepRules ++ Rules.dropRules := by
  rcases List.mem_cons.mp h with rfl | h
  · decide +kernel
  · exact List.mem_append_right _ h

/-- None of these rules has a match at a described annotation. -/
lemma stuckOn_of_mem : ∀ rule ∈ otherRules, ∀ word ∈ describedWords,
    stuckOn ('@' :: word) [Rules.tagBody rule] = true := by
  decide +kernel

/-- The annotations of all rules are free. -/
lemma free_of_mem : ∀ rule ∈ Rules.keepRules ++ Rules.dropRules,
    (Rules.tagBody rule).free = true := by
  decide +kernel

/-- All but one of these rules keep to a line. -/
lemma shut_of_mem : ∀ rule ∈ otherRules, rule = Rules.typedef ∨
    (Rules.tagBody rule).opensThen '@' (madeOf (shutPiece inLine)) = true := by
  decide +kernel

/-- What a type definition reads behind an `@` is shut. -/
lemma shut_typedef :
    (Rules.tagBody Rules.typedef).opensThen '@' (madeOf (shutPiece anywhere)) = true := by
  decide +kernel

section

variable {rule : Pattern} {above line below word tail front tag : List Char}

/-- A rule for another annotation has no match here. -/
lemma ne_of_stuckOn (hrule : rule ∈ Rules.keepRules ++ Rules.dropRules)
    (hstuck : stuckOn ('@' :: word) [Rules.tagBody rule] = true) (u : Spot) (tag : List Char)
    (t : Spot) (h : (Rules.tagBody rule).Leads u ('@' :: tag) t) :
    tag ++ t.rest ≠ (word ++ tail) ++ below := by
  intro heq
  have hread := h.reads (free_of_mem rule hrule)
  have hrest : u.rest = ('@' :: word) ++ (tail ++ below) := by
    rw [h.moves.1, List.cons_append, heq]
    simp
  rw [hrest] at hread
  exact not_reads_of_stuckOn hstuck (List.mem_singleton_self _) _ _ hread

/-- What is shut on its line does not reach over a line without braces. -/
lemma Shut.ne (hshut : Shut inLine (front ++ '@' :: tag)) (hline : '\x7d' ∉ line)
    (hend : EndsLine below) (rest : List Char) : tag ++ rest ≠ line ++ below := by
  intro heq
  obtain ⟨inner, after, rfl, hinner⟩ := hshut front tag rfl
  have hbreak : '\n' ∉ inner ++ ['\x7d'] := by
    have hbreakInner : '\n' ∉ inner := fun hmem => absurd (hinner '\n' hmem) (by decide)
    simp [hbreakInner]
  have heq : (inner ++ ['\x7d']) ++ (after ++ rest) = line ++ below := by simpa using heq
  obtain ⟨more, rfl, -⟩ := exists_of_no_break heq hbreak hend
  simp at hline

/-- A given text matches itself only. -/
lemma eq_of_leads_chars {cs m : List Char} {s t : Spot} (h : (chars cs).Leads s m t) : m = cs := by
  induction cs generalizing s m with
  | nil => exact h.1
  | cons c cs ih =>
    cases cs with
    | nil =>
      obtain ⟨d, -, -, hd, rfl, -⟩ := h
      obtain rfl := CharClass.has_char.mp hd
      rfl
    | cons c' cs =>
      obtain ⟨_, _, _, ⟨d, -, -, hd, rfl, -⟩, hrest, rfl⟩ := h
      obtain rfl := CharClass.has_char.mp hd
      rw [ih hrest]
      rfl

/-- A type that may span lines does not reach a line, if nothing before it opens one or no brace
closes it. -/
lemma typedef_ne {tag₁ tag₂ : List Char} {u t : Spot}
    (h : (Rules.tagBody Rules.typedef).Leads u ('@' :: (tag₁ ++ '@' :: tag₂)) t)
    (habove : ∃ front, above = front ++ '@' :: tag₁) (hline : '\x7d' ∉ line)
    (hopen : mayName typedefWord above = false ∨ '\x7d' ∉ below) :
    tag₂ ++ t.rest ≠ line ++ below := by
  intro heq
  rcases hopen with hname | hbelow
  · -- the match begins with the word, so what stands before the line has it
    obtain ⟨front, rfl⟩ := habove
    obtain ⟨opening, _, more, hopening, -, hm⟩ := h
    have hword : opening = '@' :: typedefWord := eq_of_leads_chars hopening
    rw [hword, List.cons_append] at hm
    obtain ⟨tag, rfl, -⟩ := exists_of_not_mem_left (List.cons.inj hm).2.symm (by decide)
    rw [mayName_of_eq] at hname
    exact absurd hname (by simp)
  · obtain ⟨inner, after, rfl, -⟩ := shut_of_leads shut_typedef h tag₁ tag₂ rfl
    have hmem : '\x7d' ∈ line ++ below := by
      rw [← heq]
      simp
    exact (List.mem_append.mp hmem).elim hline hbelow

/-- **The line of a described annotation is guarded** from the rules for other annotations. -/
lemma guarded_of_mem (hrule : rule ∈ otherRules) (hword : word ∈ describedWords)
    (hline : '\x7d' ∉ word ++ tail) (hend : EndsLine below)
    (hopen : mayName typedefWord above = false ∨ '\x7d' ∉ below) :
    Guarded rule above (word ++ tail) below := by
  constructor
  · exact ne_of_stuckOn (mem_of_mem_otherRules hrule) (stuckOn_of_mem rule hrule word hword)
  · intro u tag₁ tag₂ t h habove
    rcases shut_of_mem rule hrule with rfl | hp
    · exact typedef_ne h habove hline hopen
    · exact (shut_of_leads hp h).ne hline hend t.rest

end

/-! ## What the rules put back names nothing -/

section

variable {rule : Pattern} {f : Found}

/-- The opening of a line holds no `@`. -/
lemma not_mem_block (hrule : Rules.isTagRule rule = true) (hf : f.Matches rule) :
    '@' ∉ f.captured "block" := by
  obtain ⟨body, rfl, -, -, -, -, -, hlabel⟩ := Rules.exists_of_isTagRule hrule
  obtain ⟨s, hs, m₁, u, m₂, hopening, hbody, -⟩ := hf
  have hblock : f.captured "block" <:+: m₁ := by
    rw [Found.captured, Found.captured?, hbody.captured?_eq hlabel]
    exact hopening.getD_captured?_infix (by rw [Spot.captured?, hs]; rfl)
  intro hat
  exact absurd (Rules.isFringe_of_lineStart hopening '@' (hblock.subset hat)) (by decide)

/-- What is put back names nothing, if what is kept names nothing. -/
lemma mayName_of_putsBack {word : List Char} {kept value : Found → List Char}
    (hrule : Rules.isTagRule rule = true) (hf : f.Matches rule)
    (hvalue : Rules.PutsBack kept value)
    (hkept : ∀ back, mayName word (kept f ++ back) = true → mayName word back = true)
    (back : List Char) (h : mayName word (value f ++ back) = true) : mayName word back = true := by
  rcases hvalue with rfl | rfl
  · exact h
  · rw [List.append_assoc] at h
    exact hkept back (mayName_of_append (not_mem_block hrule hf) h)

/-- An `@export` is kept as it is. -/
lemma keep_typedExport (hf : f.Matches Rules.typedExport) :
    f.captured "keep" = '@' :: 'e' :: ['x', 'p', 'o', 'r', 't'] := by
  obtain ⟨s, -, _, _, _, -, ⟨word, u, _, ⟨v, hword, rfl⟩, hrest, -⟩, -⟩ := hf
  have hword : word = '@' :: 'e' :: ['x', 'p', 'o', 'r', 't'] := eq_of_leads_chars hword
  rw [Found.captured, Found.captured?, hrest.captured?_eq (by decide), hword]
  simp [Spot.captured?]

end

/-! ## Sheltered lines -/

/-- The comment has the line behind an `@`, and no type that may span lines reaches it from before:
none is named there, or there is no closing brace below. -/
def Shelters (line text : List Char) : Prop :=
  ∃ above below, text = above ++ '@' :: (line ++ below) ∧ EndsLine below ∧
    (mayName typedefWord above = false ∨ '\x7d' ∉ below)

section

variable {rule : Pattern} {above line below word tail text out : List Char}
  {kept value : Found → List Char}

/-- A rule adds no characters. -/
lemma not_mem_of_rule (hrule : rule ∈ Rules.keepRules ++ Rules.dropRules)
    (hvalue : Rules.PutsBack kept value)
    (hkept : ∀ f : Found, f.Matches rule → kept f = f.captured "keep" ∨ kept f = [])
    (h : Edits (rule.Replaces value) text out) {c : Char} (hc : c ∉ text) : c ∉ out := by
  have htag := Rules.isTagRule_of_mem rule hrule
  refine h.not_mem ?_ hc
  intro m v hm hv
  obtain ⟨f, hf, rfl, rfl⟩ := hm.exists_matches (Rules.plain_of_isTagRule htag)
  exact (hvalue.sublist htag hf (hkept f hf)).subset hv

/-- Edits that put back characters of the matches do not open a type before the line. -/
lemma not_open_of_edits (hrule : rule ∈ Rules.keepRules ++ Rules.dropRules)
    (hvalue : Rules.PutsBack kept value)
    (hkept : ∀ f : Found, f.Matches rule → (kept f = f.captured "keep" ∨ kept f = []) ∧
      ∀ back, mayName typedefWord (kept f ++ back) = true → mayName typedefWord back = true)
    {above' below' : List Char} (habove : Edits (rule.Replaces value) above above')
    (hbelow : Edits (rule.Replaces value) below below')
    (hopen : mayName typedefWord above = false ∨ '\x7d' ∉ below) :
    mayName typedefWord above' = false ∨ '\x7d' ∉ below' := by
  have htag := Rules.isTagRule_of_mem rule hrule
  have hdull : Duller typedefWord above' above := duller_of_rule isLetter_of_mem_typedefWord hrule
    (fun f hf => mayName_of_putsBack htag hf hvalue (hkept f hf).2) habove
  exact hopen.imp hdull.mayName_eq_false
    (not_mem_of_rule hrule hvalue (fun f hf => (hkept f hf).1) hbelow)

/-- The described words have no `@`, no closing brace and no line break. -/
lemma not_mem_of_mem_describedWords : ∀ word ∈ describedWords,
    '@' ∉ word ∧ '\x7d' ∉ word ∧ '\n' ∉ word := by
  decide

/-- **A rule keeps a guarded line sheltered**, if what it keeps of its matches opens no type. -/
lemma shelters_of_guarded (hrule : rule ∈ Rules.keepRules ++ Rules.dropRules)
    (hvalue : Rules.PutsBack kept value)
    (hkept : ∀ f : Found, f.Matches rule → (kept f = f.captured "keep" ∨ kept f = []) ∧
      ∀ back, mayName typedefWord (kept f ++ back) = true → mayName typedefWord back = true)
    (hguard : Guarded rule above line below) (hline : '@' ∉ line) (hend : EndsLine below)
    (hopen : mayName typedefWord above = false ∨ '\x7d' ∉ below)
    (hrewrites : rule.Rewrites value (above ++ '@' :: (line ++ below)) out) :
    Shelters line out := by
  obtain ⟨above', below', rfl, habove, hbelow, hend'⟩ :=
    hguard.exists_sheltered hrule hline hend hrewrites
  exact ⟨above', below', rfl, hend', not_open_of_edits hrule hvalue hkept habove hbelow hopen⟩

/-- **The rules for other annotations keep a sheltered line.** -/
lemma shelters_of_rewrites (hrule : rule ∈ otherRules) (hword : word ∈ describedWords)
    (hat : '@' ∉ tail) (hbrace : '\x7d' ∉ tail) (hvalue : Rules.PutsBack kept value)
    (hkept : ∀ f : Found, f.Matches rule → (kept f = f.captured "keep" ∨ kept f = []) ∧
      ∀ back, mayName typedefWord (kept f ++ back) = true → mayName typedefWord back = true)
    (h : Shelters (word ++ tail) text) (hrewrites : rule.Rewrites value text out) :
    Shelters (word ++ tail) out := by
  obtain ⟨above, below, rfl, hend, hopen⟩ := h
  obtain ⟨hwordAt, hwordBrace, -⟩ := not_mem_of_mem_describedWords word hword
  have hguard : Guarded rule above (word ++ tail) below :=
    guarded_of_mem hrule hword (by simp [hwordBrace, hbrace]) hend hopen
  exact shelters_of_guarded (mem_of_mem_otherRules hrule) hvalue hkept hguard
    (by simp [hwordAt, hat]) hend hopen hrewrites

/-- The rule for exports keeps a sheltered line. -/
lemma shelters_typedExport (hword : word ∈ describedWords) (hat : '@' ∉ tail)
    (hbrace : '\x7d' ∉ tail) (h : Shelters (word ++ tail) text) :
    Shelters (word ++ tail) (Rules.applyKeep Rules.typedExport text) := by
  have hmem : Rules.typedExport ∈ Rules.keepRules := by decide +kernel
  obtain ⟨value, hvalue, hrewrites⟩ := Rules.rewrites_applyKeep hmem text
  refine shelters_of_rewrites (List.mem_cons_self ..) hword hat hbrace hvalue (fun f hf => ?_) h
    hrewrites
  refine ⟨.inl rfl, fun back hname => ?_⟩
  rw [keep_typedExport hf] at hname
  exact mayName_of_other (by decide) (by decide) (by decide) hname

/-- The rules for annotations that go keep a sheltered line. -/
lemma shelters_dropRules (hword : word ∈ describedWords) (hat : '@' ∉ tail) (hbrace : '\x7d' ∉ tail)
    (h : Shelters (word ++ tail) text) :
    Shelters (word ++ tail)
      (Rules.dropRules.foldl (fun text rule => Rules.applyDrop rule text) text) := by
  refine List.foldlRecOn Rules.dropRules _ (motive := Shelters (word ++ tail)) h ?_
  intro text h rule hrule
  obtain ⟨value, hvalue, hrewrites⟩ := Rules.rewrites_applyDrop hrule text
  exact shelters_of_rewrites (List.mem_cons_of_mem _ hrule) hword hat hbrace hvalue
    (fun _ _ => ⟨.inr rfl, fun _ hname => hname⟩) h hrewrites

end

end Marginalia.Filter
