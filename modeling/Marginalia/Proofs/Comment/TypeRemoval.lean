import Marginalia.Proofs.Comment.Rows

/-!
# Taking types away

The rules for annotations without a description do not reach a row that has one, and the rule for
types takes the type of such a row and leaves the rest.  It does so because a type goes up to the
last closing brace of its line, and the row has no brace behind its type.

## Main results

* `Filter.TypedRow.Clear.guarded_bareParam`, `Filter.TypedRow.Clear.guarded_bareReturn` — the rules
  for annotations without a description leave the row alone.
* `Filter.not_closed_of_run_braces` — a type goes up to the last closing brace.
* `Filter.TypedRow.Clear.shelters_typedTag` — the rule for types leaves what comes behind the type.
-/

namespace Marginalia.Filter

open Pattern

/-! ## Braces in a line -/

/-- A brace behind no line break is on the line. -/
lemma exists_of_brace {front back line below : List Char}
    (h : front ++ '\x7d' :: back = line ++ below) (hfront : '\n' ∉ front) (hend : EndsLine below) :
    ∃ y, line = front ++ '\x7d' :: y ∧ back = y ++ below := by
  have heq : (front ++ ['\x7d']) ++ back = line ++ below := by simpa using h
  obtain ⟨y, rfl, rfl⟩ := exists_of_no_break heq (by simpa using hfront) hend
  exact ⟨y, by simp, rfl⟩

/-! ## What annotations without a description look like -/

section

variable {s t u : Spot} {m tag : List Char}

/-- Spaces are blank. -/
lemma isBlank_of_spaces (h : Rules.spaces.Leads s m t) : ∀ b ∈ m, Text.isBlank b = true := by
  have hp : Rules.spaces.madeOf (inClass (CharClass.lists [' ', '\t'])) = true := by decide
  have hblank : ∀ b ∈ [' ', '\t'], Text.isBlank b = true := List.all_eq_true.mp (by decide)
  exact h.forall_mem (fun set b hset hb => hblank b (CharClass.mem_of_lists hset hb)) hp

/-- **A bare result** ends with its type, blanks and what is kept. -/
lemma exists_of_leads_bareReturn (h : (Rules.tagBody Rules.bareReturn).Leads u ('@' :: tag) t) :
    ∃ front gap kept, tag = front ++ '\x7d' :: (gap ++ kept) ∧ '\n' ∉ front ∧
      (∀ b ∈ gap, Text.isBlank b = true) ∧ (kept = ['*', '/'] ∨ kept = ['\n']) := by
  obtain ⟨_, _, _, hat, ⟨word, _, _, hword, ⟨lead, _, _, hlead, ⟨type, _, _, htype,
    ⟨gap, _, kept, hgap, hkept, rfl⟩, rfl⟩, rfl⟩, rfl⟩, heq⟩ := h
  obtain rfl : _ = ['@'] := eq_of_leads_chars hat
  have htype : (braces inLine).Leads _ type _ := htype
  obtain ⟨inner, rfl, hinner⟩ := exists_of_leads_braces htype
  obtain ⟨-, htag⟩ := List.cons.inj heq
  refine ⟨word ++ (lead ++ '\x7b' :: inner), gap, kept, by simp [htag], ?_, isBlank_of_spaces hgap,
    (Rules.keep_of_keptEnd hkept).2⟩
  have hbreakWord : '\n' ∉ word := hword.not_mem (by decide)
  have hbreakLead : '\n' ∉ lead := hlead.not_mem (by decide)
  have hbreakInner : '\n' ∉ inner := fun hmem => absurd (hinner '\n' hmem) (by decide)
  simp [hbreakWord, hbreakLead, hbreakInner]

/-- **A bare parameter** ends with its type, its name, blanks and what is kept, and has no other
`@`. -/
lemma exists_of_leads_bareParam (h : (Rules.tagBody Rules.bareParam).Leads u ('@' :: tag) t) :
    '@' ∉ tag ∧ ∃ front gap name pad kept,
      tag = front ++ '\x7d' :: (gap ++ (name ++ (pad ++ kept))) ∧
      (∀ b ∈ gap, Text.isBlank b = true) ∧ ' ' ∉ name ∧ (∀ b ∈ pad, Text.isBlank b = true) ∧
      (kept = ['*', '/'] ∨ kept = ['\n']) := by
  constructor
  · have hopens : (Rules.tagBody Rules.bareParam).opensThen '@'
        (madeOf (inClass fun set => !set.has '@')) = true := by decide +kernel
    obtain ⟨rest, heq, hat⟩ := h.of_opensThen (Q := fun text => '@' ∉ text) (by simp)
      (fun a b ha hb => by simp [ha, hb]) (fun p s m t hp h => h.not_mem hp) hopens
    obtain ⟨-, rfl⟩ := List.cons.inj heq
    exact hat
  · obtain ⟨_, _, _, hparam, ⟨lead, _, _, -, ⟨type, _, _, htype, ⟨gap, _, _, hgap,
      ⟨name, _, _, hname, ⟨pad, _, kept, hpad, hkept, rfl⟩, rfl⟩, rfl⟩, rfl⟩, rfl⟩, heq⟩ := h
    obtain rfl : _ = '@' :: ['p', 'a', 'r', 'a', 'm'] := eq_of_leads_chars hparam
    have htype : (braces ⟨true, [.char '@']⟩).Leads _ type _ := htype
    obtain ⟨inner, rfl, -⟩ := exists_of_leads_braces htype
    obtain ⟨-, htag⟩ := List.cons.inj heq
    exact ⟨['p', 'a', 'r', 'a', 'm'] ++ (lead ++ '\x7b' :: inner), gap, name, pad, kept,
      by simp [htag], isBlank_of_spaces hgap, hname.not_mem (by decide), isBlank_of_spaces hpad,
      (Rules.keep_of_keptEnd hkept).2⟩

end

/-! ## Annotations without a description do not reach a row that has one -/

/-- What a bare annotation keeps, the end of a line or of the comment, does not begin on a row
before the end of this row. -/
lemma TypedRow.Clear.ne_of_kept {row : TypedRow} (h : row.Clear) {x e kept rest below : List Char}
    (heq : row.line = x ++ e) (hne : e ≠ []) (hend : EndsLine below)
    (hkept : kept = ['*', '/'] ∨ kept = ['\n']) : kept ++ rest ≠ e ++ below := by
  intro hread
  obtain ⟨c, e, rfl⟩ := List.exists_cons_of_ne_nil hne
  rcases hkept with rfl | rfl
  · obtain ⟨rfl, hslash⟩ := List.cons.inj hread
    cases e with
    | nil =>
      have hslash : '/' :: rest = below := hslash
      exact absurd (hend '/' (by rw [← hslash]; rfl)) (by decide)
    | cons c e =>
      obtain ⟨rfl, -⟩ := List.cons.inj hslash
      exact h.not_closed ⟨x, e, by simp [heq]⟩
  · obtain ⟨rfl, -⟩ := List.cons.inj hread
    exact h.not_mem_line.2 (by simp [heq])

namespace TypedRow

variable {row : TypedRow} {above below : List Char}

/-- A bare result does not reach the row. -/
lemma Clear.ne_of_bareReturn (h : row.Clear) (hend : EndsLine below) {front gap kept : List Char}
    (hfront : '\n' ∉ front) (hgap : ∀ b ∈ gap, Text.isBlank b = true)
    (hkept : kept = ['*', '/'] ∨ kept = ['\n']) (rest : List Char) :
    front ++ '\x7d' :: (gap ++ kept) ++ rest ≠ row.line ++ below := by
  intro heq
  rw [List.append_assoc, List.cons_append, List.append_assoc] at heq
  obtain ⟨y, hline, hbehind⟩ := exists_of_brace heq hfront hend
  obtain ⟨e, hne, rfl, hrest⟩ := exists_of_forall_mem hbehind hgap (h.exists_visible_behind hline)
  have hline : row.line = (front ++ '\x7d' :: gap) ++ e := by simp [hline]
  exact h.ne_of_kept hline hne hend hkept hrest

/-- **The rule for bare results leaves the row alone.** -/
lemma Clear.guarded_bareReturn (h : row.Clear) (hend : EndsLine below) :
    Guarded Rules.bareReturn above row.line below := by
  constructor
  · intro u tag t htag
    obtain ⟨front, gap, kept, rfl, hfront, hgap, hkept⟩ := exists_of_leads_bareReturn htag
    exact h.ne_of_bareReturn hend hfront hgap hkept t.rest
  · intro u tag₁ tag₂ t htag _
    obtain ⟨front, gap, kept, heq, hfront, hgap, hkept⟩ := exists_of_leads_bareReturn htag
    -- the inner `@` is in the type
    have hat : '@' ∉ '\x7d' :: (gap ++ kept) := by
      have hgapAt : '@' ∉ gap := fun hmem => absurd (hgap '@' hmem) (by decide)
      have hkeptAt : '@' ∉ kept := by rcases hkept with rfl | rfl <;> decide
      simp [hgapAt, hkeptAt]
    obtain ⟨front', rfl, rfl⟩ := exists_of_not_mem_right heq.symm hat
    exact h.ne_of_bareReturn hend (fun hmem => hfront (by simp [hmem])) hgap hkept t.rest

/-- Behind a brace of a parameter's row there is a blank between visible characters. -/
lemma Clear.exists_words_behind {type name description x y : List Char}
    (h : (param type name description).Clear)
    (heq : (param type name description).line = x ++ '\x7d' :: y) :
    ∃ front back, y = front ++ ' ' :: back ∧ (∃ c ∈ front, Text.isBlank c = false) ∧
      ∃ c ∈ back, Text.isBlank c = false := by
  rcases h.eq_tail_or heq with rfl | ⟨more, rfl⟩
  · obtain ⟨hne, hname, -⟩ := h.name_chars name rfl
    obtain ⟨c, hc⟩ := List.exists_mem_of_ne_nil _ hne
    exact ⟨' ' :: name, description, rfl,
      ⟨c, List.mem_cons_of_mem _ hc, isBlank_eq_false_of_visible hname c hc⟩, h.exists_visible⟩
  · obtain ⟨c, hc, hvisible⟩ := h.exists_visible
    have hc : c ∈ description := hc
    exact ⟨more ++ ['\x7d'], name ++ ' ' :: description, by simp [tail],
      ⟨'\x7d', by simp, by decide⟩, ⟨c, by simp [hc], hvisible⟩⟩

/-- A bare parameter does not reach the row of a parameter, if it would have to reach over an `@`
for a brace below. -/
lemma Clear.ne_of_bareParam {type name description : List Char}
    (h : (param type name description).Clear) (hend : EndsLine below)
    (hlate : closesLate below = true) {front gap word pad kept : List Char} (hfront : '@' ∉ front)
    (hgap : ∀ b ∈ gap, Text.isBlank b = true) (hword : ' ' ∉ word)
    (hpad : ∀ b ∈ pad, Text.isBlank b = true) (hkept : kept = ['*', '/'] ∨ kept = ['\n'])
    (rest : List Char) :
    front ++ '\x7d' :: (gap ++ (word ++ (pad ++ kept))) ++ rest ≠
      (param type name description).line ++ below := by
  intro heq
  simp only [List.append_assoc, List.cons_append] at heq
  rcases cases_of_append_cons heq with ⟨y, hline, hbehind⟩ | ⟨low, rfl, hlow⟩
  · obtain ⟨y₁, y₂, rfl, hseen₁, c, hc, hvisible⟩ := h.exists_words_behind hline
    -- the word ends before the blank, so more than blanks come behind it
    rw [List.append_assoc] at hbehind
    obtain ⟨e, -, rfl, hwordRest⟩ := exists_of_forall_mem hbehind hgap hseen₁
    obtain ⟨e, rfl, hpadRest⟩ := exists_of_not_mem_left hwordRest hword
    have hpadRest : pad ++ (kept ++ rest) = (e ++ ' ' :: y₂) ++ below := by simp [hpadRest]
    obtain ⟨e', hne, he', hrest⟩ :=
      exists_of_forall_mem hpadRest hpad ⟨c, by simp [hc], hvisible⟩
    have hline : (param type name description).line =
        (front ++ '\x7d' :: (gap ++ (word ++ pad))) ++ e' := by simp [hline, he']
    exact h.ne_of_kept hline hne hend hkept hrest
  · exact hfront (List.mem_append_right _ (mem_of_closesLate hlate hlow))

/-- A bare parameter is not read from an annotation of the result. -/
lemma stuckOn_bareParam : ∀ word ∈ ["return".toList, "returns".toList],
    stuckOn ('@' :: word) [Rules.tagBody Rules.bareParam] = true := by
  decide +kernel

/-- **The rule for bare parameters leaves the row alone**, if the next brace below the row of a
parameter comes behind an `@`. -/
lemma Clear.guarded_bareParam (h : row.Clear) (hend : EndsLine below)
    (hlate : row.name?.isSome = true → closesLate below = true) :
    Guarded Rules.bareParam above row.line below := by
  constructor
  · intro u tag t htag
    cases row with
    | param type name description =>
      obtain ⟨hat, front, gap, word, pad, kept, rfl, hgap, hword, hpad, hkept⟩ :=
        exists_of_leads_bareParam htag
      exact h.ne_of_bareParam hend (hlate rfl) (fun hmem => hat (by simp [hmem])) hgap hword hpad
        hkept t.rest
    | result plural type description =>
      have hword : (result plural type description).word ∈ ["return".toList, "returns".toList] := by
        cases plural
        · exact List.mem_cons_self ..
        · exact List.mem_cons_of_mem _ (List.mem_cons_self ..)
      rw [line, List.append_assoc]
      exact ne_of_stuckOn (by decide +kernel) (stuckOn_bareParam _ hword) u tag t htag
  · intro u tag₁ tag₂ t htag _
    exact absurd (by simp) (exists_of_leads_bareParam htag).1

end TypedRow

/-- What a bare annotation keeps holds no `@`. -/
lemma not_mem_keep {rule : Pattern} (hlast : rule.lastPart = Rules.keptEnd) {f : Found}
    (hf : f.Matches rule) : '@' ∉ f.captured "keep" := by
  obtain ⟨s, -, hleads⟩ := hf
  obtain ⟨_, _, kept, hkept, -⟩ := hleads.lastPart
  rw [hlast] at hkept
  obtain ⟨hkeep, hcases⟩ := Rules.keep_of_keptEnd hkept
  rw [Found.captured, Found.captured?, hkeep]
  rcases hcases with rfl | rfl <;> decide

/-- **A rule for bare annotations keeps a guarded line sheltered.** -/
lemma shelters_of_bare {rule : Pattern} (hrule : rule ∈ Rules.keepRules)
    (hlast : rule.lastPart = Rules.keptEnd) {above line below : List Char}
    (hguard : Guarded rule above line below) (hline : '@' ∉ line) (hend : EndsLine below)
    (hopen : mayName typedefWord above = false ∨ '\x7d' ∉ below) :
    Shelters line (Rules.applyKeep rule (above ++ '@' :: (line ++ below))) := by
  obtain ⟨value, hvalue, hrewrites⟩ :=
    Rules.rewrites_applyKeep hrule (above ++ '@' :: (line ++ below))
  refine shelters_of_guarded (List.mem_append_left _ hrule) hvalue (fun f hf => ?_) hguard hline
    hend hopen hrewrites
  exact ⟨.inl rfl, fun back => mayName_of_append (not_mem_keep hlast hf)⟩

/-! ## A type goes up to the last closing brace -/

/-- **A type goes up to the last closing brace** that it can reach. -/
lemma not_closed_of_run_braces {set : CharClass} {k : Spot → Option Spot} {s r : Spot}
    (hset : set.has '\x7d' = true) (hk : ∀ t, k t = some t) (h : (braces set).run k s = some r)
    {inner : List Char} (hinner : ∀ c ∈ inner, set.has c = true) (back : List Char) :
    r.rest ≠ inner ++ '\x7d' :: back := by
  intro hrest
  have h : (char '\x7b').run ((Pattern.span set 0 none .greedy).run ((char '\x7d').run k)) s =
      some r := h
  obtain ⟨_, u, -, hspan⟩ := exists_leads_of_run (by decide) h
  obtain ⟨n, hn, hclass, hclose, hlongest⟩ := exists_longest_of_run_span hspan
  obtain ⟨_, t, ⟨c, cs, hcs, hc, -, ht⟩, hkt⟩ := exists_leads_of_run (by decide) hclose
  obtain rfl := CharClass.has_char.mp hc
  obtain rfl : t = r := by
    rw [hk] at hkt
    exact Option.some.inj hkt
  obtain rfl : cs = inner ++ '\x7d' :: back := by
    rw [ht] at hrest
    exact hrest
  -- a longer run, up to the later brace, would have been tried first
  obtain ⟨front, hfront, hall, hlong⟩ : ∃ front, u.rest = front ++ '\x7d' :: back ∧
      (∀ c ∈ front, set.has c = true) ∧ n < front.length := by
    refine ⟨u.rest.take n ++ '\x7d' :: inner, ?_, ?_, ?_⟩
    · calc u.rest = u.rest.take n ++ (u.skip n).rest := (Spot.skip_eq u hn).1
        _ = (u.rest.take n ++ '\x7d' :: inner) ++ '\x7d' :: back := by rw [hcs]; simp
    · intro c hc
      rcases List.mem_append.mp hc with hc | hc
      · exact hclass c hc
      · rcases List.mem_cons.mp hc with rfl | hc
        · exact hset
        · exact hinner c hc
    · rw [List.length_append, List.length_take_of_le hn, List.length_cons]
      omega
  have hnone := hlongest front _ hfront hall hlong
  simp [char, run, Spot.rest_skip hfront, hk] at hnone

section

variable {m v rest : List Char}

/-- The opening of the line is captured as such, also if it is empty. -/
lemma captured_block {body : Pattern} {s u t : Spot} {m₁ m₂ : List Char} (hs : s.captures = [])
    (hopening : Rules.lineStart.Leads s m₁ u) (hbody : body.Leads u m₂ t)
    (hlabel : .name "block" ∉ body.labels) : (t.captured? (.name "block")).getD [] = m₁ := by
  rw [hbody.captured?_eq hlabel]
  rcases hopening with ⟨w, -, rfl⟩ | ⟨rfl, rfl⟩
  · simp [Spot.captured?]
  · simp [Spot.captured?, hs]

/-- The word of a described annotation. -/
lemma mem_of_leads_word {s t : Spot}
    (h : (first [text "param", Rules.returnWord]).Leads s m t) : m ∈ describedWords := by
  rcases h with hparam | ⟨_, _, _, hreturn, hplural, rfl⟩
  · obtain rfl : m = "param".toList := eq_of_leads_chars hparam
    exact List.mem_cons_self ..
  · obtain rfl : _ = "return".toList := eq_of_leads_chars hreturn
    rcases hplural with ⟨c, _, -, hc, rfl, -⟩ | ⟨rfl, -⟩
    · obtain rfl := CharClass.has_char.mp hc
      exact List.mem_cons_of_mem _ (List.mem_cons_of_mem _ (List.mem_cons_self ..))
    · exact List.mem_cons_of_mem _ (List.mem_cons_self ..)

/-- **What the rule for types matches and captures**: the opening of a line, and an annotation with
a type on its line. -/
lemma exists_of_leads_typedTag {s : Spot} {f : Found} (hs : s.captures = [])
    (h : Rules.typedTag.Leads s m f.after) :
    ∃ fringe word front, m = fringe ++ '@' :: (front ++ ['\x7d']) ∧
      (∀ c ∈ fringe, Rules.isFringe c = true) ∧ word ∈ describedWords ∧ '\n' ∉ front ∧
      f.captured "block" = fringe ∧ f.captured "keep" = '@' :: word := by
  obtain ⟨fringe, u, _, hopening, hbody, rfl⟩ := h
  have hblock : f.captured "block" = fringe := captured_block hs hopening hbody (by decide)
  obtain ⟨_, _, _, ⟨w, ⟨_, _, word, ⟨c, _, -, hc, rfl, -⟩, hword, rfl⟩, rfl⟩, htyped, rfl⟩ := hbody
  obtain rfl := CharClass.has_char.mp hc
  have hkeep : f.captured "keep" = '@' :: word := by
    rw [Found.captured, Found.captured?, htyped.captured?_eq (by decide)]
    simp [Spot.captured?]
  obtain ⟨gap, _, type, hgap, htype, rfl⟩ := htyped
  have htype : (braces inLine).Leads _ type _ := htype
  obtain ⟨inner, rfl, hinner⟩ := exists_of_leads_braces htype
  have hword := mem_of_leads_word hword
  refine ⟨fringe, word, word ++ (gap ++ '\x7b' :: inner), by simp,
    Rules.isFringe_of_lineStart hopening, hword, ?_, hblock, hkeep⟩
  have hbreakWord := (not_mem_of_mem_describedWords word hword).2.2
  have hbreakGap : '\n' ∉ gap := hgap.not_mem (by decide)
  have hbreakInner : '\n' ∉ inner := fun hmem => absurd (hinner '\n' hmem) (by decide)
  simp [hbreakWord, hbreakGap, hbreakInner]

/-- The rule for types leaves no closing brace behind a match on its line. -/
lemma ne_of_swaps_typedTag {value : Found → List Char} (h : Rules.typedTag.Swaps value m v rest)
    {inner : List Char} (hinner : '\n' ∉ inner) (back : List Char) :
    rest ≠ inner ++ '\x7d' :: back := by
  obtain ⟨s, f, -, -, hmatch, -, rfl, -⟩ := h
  obtain ⟨hrun, -⟩ := Option.filter_eq_some_iff.mp hmatch
  -- the type is the last part of the rule
  obtain ⟨_, _, -, hrun⟩ := exists_leads_of_run (p := Rules.lineStart) (by decide) hrun
  obtain ⟨_, _, -, hrun⟩ := exists_leads_of_run (p := .capture _ _) (by decide) hrun
  obtain ⟨_, _, -, hrun⟩ := exists_leads_of_run (p := Rules.spaces) (by decide) hrun
  have hrun : (braces inLine).run _ _ = some f.after := hrun
  refine not_closed_of_run_braces (by decide) (fun t => rfl) hrun (fun c hc => ?_) back
  have hne : c ≠ '\n' := by
    rintro rfl
    exact hinner hc
  simp [inLine, CharClass.has, ClassItem.has, hne]

/-- **The rule for types puts annotations back**: what it keeps is never blank. -/
lemma applyKeep_typedTag (text : List Char) :
    Rules.applyKeep Rules.typedTag text =
      Rules.typedTag.replaceAll (fun f => f.captured "block" ++ f.captured "keep") text := by
  refine (Rules.applyKeep_cases Rules.typedTag text).resolve_left ?_
  rintro ⟨⟨f, hf, hblank⟩, -⟩
  obtain ⟨-, s, hs, hleads⟩ := leads_of_findFrom (by decide) rfl hf
  obtain ⟨_, word, _, -, -, -, -, -, hkeep⟩ := exists_of_leads_typedTag hs hleads
  rw [hkeep] at hblank
  exact absurd (List.all_eq_true.mp hblank '@' (List.mem_cons_self ..)) (by decide)

end

/-! ## The rule for types leaves what comes behind the type -/

/-- A text is read as itself. -/
lemma reads_chars (cs rest : List Char) : (chars cs).Reads (cs ++ rest) rest := by
  induction cs with
  | nil => rfl
  | cons c cs ih =>
    have hc : CharClass.has ⟨false, [.char c]⟩ c = true := CharClass.has_char.mpr rfl
    cases cs with
    | nil => exact ⟨c, hc, rfl⟩
    | cons d cs => exact ⟨_, ⟨c, hc, rfl⟩, ih⟩

/-- The fringe has no `@`. -/
lemma not_mem_of_fringe {fringe : List Char} (h : ∀ c ∈ fringe, Rules.isFringe c = true) :
    '@' ∉ fringe := fun hmem => absurd (h '@' hmem) (by decide)

/-- A described annotation is not the one whose type may span lines. -/
lemma mayName_of_word {word back : List Char} (hword : word ∈ describedWords)
    (h : mayName typedefWord ('@' :: word ++ back) = true) : mayName typedefWord back = true := by
  have hfirst : ∀ word ∈ describedWords,
      (word.head?.all fun c => c != 't' && isLetter c) = true := by decide
  have hat := (not_mem_of_mem_describedWords word hword).1
  cases word with
  | nil => exact absurd hword (by decide)
  | cons c cs =>
    obtain ⟨hne, hc⟩ := Bool.and_eq_true_iff.mp (hfirst _ hword)
    exact mayName_of_other (bne_iff_ne.mp hne) hc (fun hmem => hat (List.mem_cons_of_mem _ hmem)) h

namespace TypedRow

variable {row : TypedRow} {above below text out : List Char}

/-- The word of a row is read as one of the described words. -/
lemma reads_word (row : TypedRow) (rest : List Char) :
    (first [Pattern.text "param", Rules.returnWord]).Reads (row.word ++ rest) rest := by
  match row with
  | .param .. => exact .inl (reads_chars "param".toList rest)
  | .result false .. => exact .inr ⟨rest, reads_chars "return".toList rest, .inr rfl⟩
  | .result true .. =>
    exact .inr ⟨'s' :: rest, reads_chars "return".toList ('s' :: rest),
      .inl ⟨'s', by decide, rfl⟩⟩

/-- The rule for types may read the row. -/
lemma Clear.reads_typedTag (h : row.Clear) (below : List Char) :
    Rules.typedTag.Reads ('@' :: (row.line ++ below)) (row.tail ++ below) := by
  have htype : ∀ c ∈ row.type, inLine.has c = true := by
    intro c hc
    have hne : c ≠ '\n' := fun heq => h.type_chars.2 (heq ▸ hc)
    simp [inLine, CharClass.has, ClassItem.has, hne]
  have hline : '@' :: (row.line ++ below) =
      '@' :: (row.word ++ ([' '] ++ '\x7b' :: (row.type ++ '\x7d' :: (row.tail ++ below)))) := by
    simp [line]
  rw [hline]
  exact ⟨_, .inr rfl, _, ⟨_, ⟨'@', by decide, rfl⟩, row.reads_word _⟩,
    _, ⟨[' '], List.forall_mem_singleton.mpr (by decide), Nat.zero_le _, rfl⟩,
    _, ⟨'\x7b', by decide, rfl⟩, _, ⟨row.type, htype, Nat.zero_le _, rfl⟩, ⟨'\x7d', by decide, rfl⟩⟩

/-- A type that ends on the row ends where the type of the row does. -/
lemma Clear.eq_of_type (h : row.Clear) (hend : EndsLine below) {front rest : List Char}
    (hfront : '\n' ∉ front)
    (hgreedy : ∀ inner back, '\n' ∉ inner → rest ≠ inner ++ '\x7d' :: back)
    (heq : front ++ ['\x7d'] ++ rest = row.line ++ below) : rest = row.tail ++ below := by
  rw [List.append_assoc] at heq
  obtain ⟨y, hline, rfl⟩ := exists_of_brace heq hfront hend
  rcases h.eq_tail_or hline with rfl | ⟨more, rfl⟩
  · rfl
  · have hbreak : '\n' ∉ more := fun hmem => h.not_mem_line.2 (by simp [hline, hmem])
    exact absurd (by simp) (hgreedy more (row.tail ++ below) hbreak)

/-- **Where a match of the rule for types lies that does not begin behind the `@` of the row**:
before the row, or it ends at the type of the row. -/
lemma Clear.cases_of_swaps_typedTag (h : row.Clear) (hend : EndsLine below) {m v rest : List Char}
    (hm : Rules.typedTag.Swaps (fun f => f.captured "block" ++ f.captured "keep") m v rest)
    (heq : m ++ rest = above ++ '@' :: (row.line ++ below)) :
    (∃ mid, above = m ++ mid ∧ ∀ out, Duller typedefWord out mid →
        Duller typedefWord (v ++ out) above) ∨
      rest = row.tail ++ below ∧ ∃ word ∈ describedWords, ∃ above', v = above' ++ '@' :: word ∧
        Duller typedefWord above' above := by
  have hgreedy := fun inner back (hinner : '\n' ∉ inner) => ne_of_swaps_typedTag hm hinner back
  obtain ⟨s, f, hs, -, hleads, -, -, rfl⟩ := hm.exists_leads (by decide)
  obtain ⟨fringe, word, front, rfl, hfringe, hword, hfront, hblock, hkeep⟩ :=
    exists_of_leads_typedTag hs hleads
  rw [hblock, hkeep]
  have heq : [] ++ (fringe ++ '@' :: (front ++ ['\x7d']) ++ rest) =
      above ++ '@' :: (row.line ++ below) := heq
  rcases tag_cases heq hfringe h.not_mem_line.1 hend with ⟨mid, rfl⟩ | ⟨mid, hmid⟩ |
    ⟨rfl, htype⟩ | ⟨tag₁, tag₂, rfl, htag, htype⟩
  · -- before the row
    have hquiet : ∀ back, mayName typedefWord (fringe ++ '@' :: word ++ back) = true →
        mayName typedefWord back = true := fun back hname => by
      rw [List.append_assoc] at hname
      exact mayName_of_word hword (mayName_of_append (not_mem_of_fringe hfringe) hname)
    exact .inl ⟨mid, rfl, fun out hdull =>
      hdull.of_tag isLetter_of_mem_typedefWord (opensTag_of_fringe hfringe _) hquiet⟩
  · simp at hmid
  · -- at the row
    have hdull := Duller.of_append typedefWord above []
    rw [List.append_nil] at hdull
    exact .inr ⟨h.eq_of_type hend hfront hgreedy htype, word, hword, above, rfl, hdull⟩
  · -- the row is in the type of another annotation
    obtain ⟨front', rfl, rfl⟩ := exists_of_not_mem_right htag (by decide)
    have hfront' : '\n' ∉ front' := fun hmem => hfront (by simp [hmem])
    exact .inr ⟨h.eq_of_type hend hfront' hgreedy htype, word, hword, fringe, rfl, .of_append ..⟩

/-- **The rule for types leaves what comes behind the type of the row**, behind an `@` and a word.

**Proof sketch.** By induction on the rewriting.  The rule may read the row, so the `@` of the row
is not kept; it is in a match.  This match ends at the type of the row, wherever it begins. -/
lemma Clear.exists_of_rewrites_typedTag (h : row.Clear) (hend : EndsLine below)
    (hrewrites : Rules.typedTag.Rewrites (fun f => f.captured "block" ++ f.captured "keep")
      (above ++ '@' :: (row.line ++ below)) out) :
    ∃ word ∈ describedWords, ∃ above' below', out = above' ++ '@' :: (word ++ row.tail ++ below') ∧
      Duller typedefWord above' above ∧
      Rules.typedTag.Rewrites (fun f => f.captured "block" ++ f.captured "keep") below below' := by
  have hrule : Rules.typedTag ∈ Rules.keepRules ++ Rules.dropRules := by decide +kernel
  generalize htext : above ++ '@' :: (row.line ++ below) = text at hrewrites
  induction hrewrites generalizing above with
  | nil => simp at htext
  | @keep c cs out hnone hrest ih =>
    cases above with
    | nil =>
      rw [List.nil_append] at htext
      exact absurd (htext ▸ h.reads_typedTag below) (hnone _)
    | cons d above =>
      obtain ⟨rfl, hcs⟩ := List.cons.inj htext
      obtain ⟨word, hword, above', below', rfl, hdull, hbelow⟩ := ih hcs
      exact ⟨word, hword, d :: above', below', rfl, hdull.cons d, hbelow⟩
  | @swap m v rest out hm hrest ih =>
    rcases h.cases_of_swaps_typedTag hend hm htext.symm with ⟨mid, rfl, hdull⟩ |
      ⟨rfl, word, hword, above', rfl, hdull⟩
    · rw [List.append_assoc] at htext
      obtain ⟨word, hword, above', below', rfl, hmid, hbelow⟩ := ih (List.append_cancel_left htext)
      exact ⟨word, hword, v ++ above', below', by simp, hdull above' hmid, hbelow⟩
    · obtain ⟨below', rfl, hbelow⟩ := exists_kept hrule h.not_mem_tail.1 hend hrest
      exact ⟨word, hword, above', below', by simp, hdull, hbelow⟩

/-- **The rule for types leaves what comes behind the type of a sheltered row.** -/
lemma Clear.shelters_typedTag (h : row.Clear) (hs : Shelters row.line text) :
    ∃ word ∈ describedWords, Shelters (word ++ row.tail) (Rules.applyKeep Rules.typedTag text) := by
  have hmem : Rules.typedTag ∈ Rules.keepRules := by decide +kernel
  have hrule : Rules.typedTag ∈ Rules.keepRules ++ Rules.dropRules := List.mem_append_left _ hmem
  obtain ⟨above, below, rfl, hend, hopen⟩ := hs
  rw [applyKeep_typedTag]
  obtain ⟨word, hword, above', below', hout, hdull, hbelow⟩ := h.exists_of_rewrites_typedTag hend
    (rewrites_replaceAll (by decide) (by decide) _ (above ++ '@' :: (row.line ++ below)))
  refine ⟨word, hword, above', below', hout, endsLine_of_rule hrule hbelow hend,
    hopen.imp hdull.mayName_eq_false ?_⟩
  exact not_mem_of_rule hrule (.inr rfl) (fun _ _ => .inl rfl) hbelow.edits

end TypedRow

end Marginalia.Filter
