import Marginalia.Proofs.Comment.Matches
import Marginalia.Proofs.Comment.PullUp

/-!
# Annotations that deletions can spell

Deleting an annotation can bring together the two halves of another one that were not an annotation
before.  This needs a first half: an `@`, a beginning of the word, and then, behind blanks and stars
only, the `@` of an annotation that goes.  A text without such a place, and without the annotation
itself, never comes to have it, whatever the stages of the filter do.

## Main definitions

* `Filter.mayName` — a text names an annotation, or deletions could make it do so.
* `Filter.Duller` — one text names no more than another one.

## Main results

* `Filter.Duller.of_edits` — a text names no more after edits than before.
* `Filter.duller_of_rule`, `Filter.duller_of_proseAfterType`, `Filter.duller_of_proseAfterName` —
  so do the edits of the filter.
-/

namespace Marginalia.Filter

open Pattern

/-! ## Naming an annotation -/

/-- A blank or a star, which may stand between an annotation and what comes before it. -/
def isGap (c : Char) : Bool := Text.isBlank c || c == '*'

/-- The text begins with an `@` behind nothing but blanks and stars. -/
def opensTag : List Char → Bool
  | [] => false
  | c :: cs => if isGap c then opensTag cs else c == '@'

/-- The text begins with the word, or with a beginning of it right before an annotation. -/
def spells : List Char → List Char → Bool
  | [], _ => true
  | _ :: _, [] => false
  | w :: ws, c :: cs => if c = w then spells ws cs else opensTag (c :: cs)

/-- The text has the annotation `word`, or a beginning of it right before another annotation. -/
def mayName (word : List Char) : List Char → Bool
  | [] => false
  | c :: cs => (c == '@' && spells word cs) || mayName word cs

section

variable {word front back gap : List Char}

/-- A text names a word if its end does. -/
lemma mayName_append (h : mayName word back = true) : mayName word (front ++ back) = true := by
  induction front with
  | nil => exact h
  | cons c front ih => exact Bool.or_eq_true_iff.mpr (.inr ih)

/-- Only an `@` can be the start of an annotation. -/
lemma mayName_of_append (hfront : '@' ∉ front) (h : mayName word (front ++ back) = true) :
    mayName word back = true := by
  induction front with
  | nil => exact h
  | cons c front ih =>
    obtain ⟨hc, hfront⟩ := not_or.mp (List.mem_cons.not.mp hfront)
    rcases Bool.or_eq_true_iff.mp h with h | h
    · have hat : c = '@' := by simpa using (Bool.and_eq_true_iff.mp h).1
      exact absurd hat.symm hc
    · exact ih hfront h

/-- A text that begins with a word spells it. -/
lemma spells_append (word back : List Char) : spells word (word ++ back) = true := by
  induction word with
  | nil => rfl
  | cons w word ih => rw [List.cons_append, spells, if_pos rfl, ih]

/-- **A text that has the annotation names it.** -/
lemma mayName_of_eq (word front back : List Char) :
    mayName word (front ++ '@' :: (word ++ back)) = true := by
  refine mayName_append (Bool.or_eq_true_iff.mpr (.inl ?_))
  simp [spells_append]

/-- A gap in front does not change whether a text begins with an annotation. -/
lemma opensTag_append (hgap : ∀ c ∈ gap, isGap c = true) (back : List Char) :
    opensTag (gap ++ back) = opensTag back := by
  induction gap with
  | nil => rfl
  | cons c gap ih =>
    obtain ⟨hc, hgap⟩ := List.forall_mem_cons.mp hgap
    rw [List.cons_append, opensTag, if_pos hc, ih hgap]

/-- The letters of an annotation's word. -/
def isLetter (c : Char) : Bool := !isGap c && c != '@' && c != '\x7d'

/-- Another annotation, with another first letter, is not the one that is named. -/
lemma mayName_of_other {w c : Char} {cs : List Char} (hne : c ≠ w) (hc : isLetter c = true)
    (hcs : '@' ∉ cs) (h : mayName (w :: word) ('@' :: c :: (cs ++ back)) = true) :
    mayName (w :: word) back = true := by
  simp only [isLetter, Bool.and_eq_true, Bool.not_eq_true', bne_iff_ne] at hc
  have hat : '@' ∉ c :: cs := by simpa [hcs] using hc.1.2.symm
  rcases Bool.or_eq_true_iff.mp h with hhere | hbehind
  · have hspells := (Bool.and_eq_true_iff.mp hhere).2
    rw [spells, if_neg hne, opensTag, hc.1.1] at hspells
    exact absurd (by simpa using hspells) hc.1.2
  · exact mayName_of_append hat hbehind

/-- A text that begins with an annotation spells everything. -/
lemma spells_of_opensTag (hword : ∀ w ∈ word, isLetter w = true) (h : opensTag back = true) :
    spells word back = true := by
  cases word with
  | nil => rfl
  | cons w word =>
    cases back with
    | nil => simp [opensTag] at h
    | cons c back =>
      have hw := hword w (List.mem_cons_self ..)
      rw [spells, if_neg, h]
      rintro rfl
      simp only [isLetter, Bool.and_eq_true, Bool.not_eq_true', bne_iff_ne] at hw
      rw [opensTag, hw.1.1] at h
      exact hw.1.2 (by simpa using h)

end

/-! ## Texts that name no more than others -/

/-- The text `out` names no more than `text` does: it begins with an annotation, spells an end of
the word or names the word only if `text` does so. -/
structure Duller (word out text : List Char) : Prop where
  opensTag : opensTag out = true → opensTag text = true
  spells : ∀ ws, ws <:+ word → spells ws out = true → spells ws text = true
  mayName : mayName word out = true → mayName word text = true

namespace Duller

variable {word out text m v : List Char}

/-- The empty text names nothing. -/
lemma nil (word text : List Char) : Duller word [] text where
  opensTag h := by simp [Filter.opensTag] at h
  spells ws _ h := by
    cases ws with
    | nil => rfl
    | cons w ws => simp [Filter.spells] at h
  mayName h := by simp [Filter.mayName] at h

/-- A duller text does not name a word that the text does not name. -/
lemma mayName_eq_false (h : Duller word out text) (hname : Filter.mayName word text = false) :
    Filter.mayName word out = false := by
  by_contra hnot
  rw [Bool.not_eq_false] at hnot
  rw [h.mayName hnot] at hname
  exact absurd hname (by simp)

/-- A character in front keeps a text duller. -/
lemma cons (h : Duller word out text) (c : Char) : Duller word (c :: out) (c :: text) := by
  have hopens : Filter.opensTag (c :: out) = true → Filter.opensTag (c :: text) = true := by
    rw [Filter.opensTag, Filter.opensTag]
    split
    · exact h.opensTag
    · exact id
  refine ⟨hopens, ?_, ?_⟩
  · intro ws hws
    cases ws with
    | nil => exact fun _ => rfl
    | cons w ws =>
      rw [Filter.spells, Filter.spells]
      split
      · exact h.spells ws ((List.suffix_cons w ws).trans hws)
      · exact hopens
  · intro hname
    rcases Bool.or_eq_true_iff.mp hname with hhere | hbehind
    · obtain ⟨hat, hspells⟩ := Bool.and_eq_true_iff.mp hhere
      have hspells := h.spells word (List.suffix_refl _) hspells
      exact Bool.or_eq_true_iff.mpr (.inl (Bool.and_eq_true_iff.mpr ⟨hat, hspells⟩))
    · exact Bool.or_eq_true_iff.mpr (.inr (h.mayName hbehind))

/-- A text in front keeps a text duller. -/
lemma append (h : Duller word out text) (front : List Char) :
    Duller word (front ++ out) (front ++ text) := by
  induction front with
  | nil => exact h
  | cons c front ih => exact ih.cons c

/-- A beginning of a text names no more than the text. -/
lemma of_append (word text more : List Char) : Duller word text (text ++ more) := by
  have happend := (nil word more).append text
  rwa [List.append_nil] at happend

/-- Being duller is transitive. -/
lemma trans {mid : List Char} (h : Duller word out mid) (h' : Duller word mid text) :
    Duller word out text :=
  ⟨h'.opensTag ∘ h.opensTag, fun ws hws => h'.spells ws hws ∘ h.spells ws hws,
    h'.mayName ∘ h.mayName⟩

/-- Blanks and stars at the end name nothing. -/
lemma of_gap {gap : List Char} (hword : ∀ w ∈ word, isLetter w = true)
    (hgap : ∀ c ∈ gap, isGap c = true) : Duller word gap [] := by
  have hopens : Filter.opensTag gap = false := by
    have happend := opensTag_append hgap []
    rwa [List.append_nil] at happend
  refine ⟨fun h => by simp [hopens] at h, ?_, ?_⟩
  · intro ws hws h
    cases ws with
    | nil => rfl
    | cons w ws =>
      cases gap with
      | nil => simp [Filter.spells] at h
      | cons c gap =>
        rw [Filter.spells, if_neg, hopens] at h
        · simp at h
        · rintro rfl
          have hw := hword c (hws.subset (List.mem_cons_self ..))
          simp [isLetter, hgap c (List.mem_cons_self ..)] at hw
  · intro h
    have hat : '@' ∉ gap := fun hat => absurd (hgap '@' hat) (by decide)
    rw [← List.append_nil gap] at h
    exact mayName_of_append hat h

/-- **An annotation gives way** to a text that names nothing. -/
lemma of_tag (h : Duller word out text) (hword : ∀ w ∈ word, isLetter w = true)
    (hm : ∀ back, Filter.opensTag (m ++ back) = true)
    (hv : ∀ back, Filter.mayName word (v ++ back) = true → Filter.mayName word back = true) :
    Duller word (v ++ out) (m ++ text) where
  opensTag _ := hm text
  spells _ hws _ := spells_of_opensTag (fun w hw => hword w (hws.subset hw)) (hm text)
  mayName hname := mayName_append (h.mayName (hv out hname))

/-- What comes behind a closing brace, and no `@` up to there, may be moved. -/
lemma of_brace (h : Duller word out text) (hword : ∀ w ∈ word, isLetter w = true)
    (between : List Char) (hbetween : '@' ∉ between) (front : List Char) :
    Duller word ('\x7d' :: (between ++ out)) (front ++ text) where
  opensTag hopens := by
    have hgap : isGap '\x7d' = false := by decide
    simp [Filter.opensTag, hgap] at hopens
  spells ws hws hspells := by
    cases ws with
    | nil => rfl
    | cons w ws =>
      have hgap : isGap '\x7d' = false := by decide
      have hw := hword w (hws.subset (List.mem_cons_self ..))
      rw [Filter.spells, if_neg] at hspells
      · simp [Filter.opensTag, hgap] at hspells
      · rintro rfl
        simp [isLetter] at hw
  mayName hname := by
    have hat : '@' ∉ '\x7d' :: between := by simpa using hbetween
    exact mayName_append (h.mayName (mayName_of_append hat hname))

/-- Blanks and stars may take the place of blanks and stars. -/
lemma of_gaps (h : Duller word out text) (hword : ∀ w ∈ word, isLetter w = true)
    {gap : List Char} (hgap : ∀ c ∈ gap, isGap c = true) (pad : List Char)
    (hpad : ∀ c ∈ pad, isGap c = true) (hne : pad ≠ []) :
    Duller word (pad ++ out) (gap ++ text) := by
  have hopens : Filter.opensTag (pad ++ out) = true → Filter.opensTag (gap ++ text) = true := by
    rw [opensTag_append hgap, opensTag_append hpad]
    exact h.opensTag
  refine ⟨hopens, ?_, ?_⟩
  · intro ws hws hspells
    cases ws with
    | nil => rfl
    | cons w ws =>
      obtain ⟨c, more, rfl⟩ := List.exists_cons_of_ne_nil hne
      rw [List.cons_append, Filter.spells, if_neg] at hspells
      · exact spells_of_opensTag (fun w hw => hword w (hws.subset hw)) (hopens hspells)
      · rintro rfl
        have hw := hword c (hws.subset (List.mem_cons_self ..))
        simp [isLetter, hpad c (List.mem_cons_self ..)] at hw
  · intro hname
    have hat : '@' ∉ pad := fun hat => absurd (hpad '@' hat) (by decide)
    exact mayName_append (h.mayName (mayName_of_append hat hname))

/-- **A text names no more after edits than before**, if each of them only makes it duller. -/
lemma of_edits {swap : List Char → List Char → Prop}
    (hswap : ∀ m v out text, swap m v → Duller word out text → Duller word (v ++ out) (m ++ text))
    (h : Edits swap text out) : Duller word out text := by
  induction h with
  | nil => exact nil word []
  | keep c _ ih => exact ih.cons c
  | swap hm _ ih => exact hswap _ _ _ _ hm ih

end Duller

/-! ## The edits of the filter -/

/-- A match of a rule begins with an annotation. -/
lemma opensTag_of_fringe {fringe : List Char} (hfringe : ∀ c ∈ fringe, Rules.isFringe c = true)
    (tag back : List Char) : opensTag (fringe ++ '@' :: tag ++ back) = true := by
  have hgap : ∀ c ∈ fringe, isGap c = true := by
    intro c hc
    have hmem := Rules.isFringe_iff.mp (hfringe c hc)
    simp only [List.mem_cons, List.not_mem_nil, or_false] at hmem
    rcases hmem with rfl | rfl | rfl <;> decide
  rw [List.append_assoc, opensTag_append hgap]
  rfl

section

variable {word text out : List Char} (hword : ∀ w ∈ word, isLetter w = true)
include hword

/-- **Moving descriptions up behind a type** names nothing new. -/
lemma duller_of_proseAfterType
    (h : Edits (Rules.proseAfterType.Replaces proseValue) text out) : Duller word out text := by
  refine Duller.of_edits ?_ h
  rintro m v out text hm hdull
  obtain ⟨f, ⟨s, -, hleads⟩, rfl, rfl⟩ := hm.exists_matches (by decide)
  obtain ⟨gap, indent, c, more, hmatched, -, -, -, -, -, hprose⟩ :=
    exists_of_leads_proseAfterType hleads
  have hvalue : proseValue f = '\x7d' :: ([' '] ++ (c :: more)) := by
    rw [proseValue, Found.captured, Found.captured?, hprose]
    rfl
  have hmoved := (hdull.append (c :: more)).of_brace hword [' '] (by decide)
    ('\x7d' :: (gap ++ '*' :: indent))
  rw [hvalue, hmatched]
  simpa using hmoved

/-- **Moving descriptions up behind a name** names nothing new. -/
lemma duller_of_proseAfterName
    (h : Edits (Rules.proseAfterName.Replaces nameValue) text out) : Duller word out text := by
  refine Duller.of_edits ?_ h
  rintro m v out text hm hdull
  obtain ⟨f, ⟨s, -, hleads⟩, rfl, rfl⟩ := hm.exists_matches (by decide)
  obtain ⟨gap, name, pad, b₁, b₂, more, hmatched, -, -, -, -, hpad, hblanks, hname⟩ :=
    exists_of_leads_proseAfterName hleads
  have hvalue : nameValue f = '\x7d' :: ([' '] ++ (name ++ [' '])) := by
    rw [nameValue, Found.captured, Found.captured?, hname]
    rfl
  -- the row's opening between the name and the description gives way to a blank
  have hbehind : ∀ c ∈ pad ++ '*' :: b₁ :: b₂ :: more, isGap c = true := by
    intro c hc
    rcases List.mem_append.mp hc with hc | hc
    · simp [isGap, hpad c hc]
    · rcases List.mem_cons.mp hc with rfl | hc
      · rfl
      · have hinline := hblanks c hc
        simp only [isInlineBlank, Bool.and_eq_true] at hinline
        simp [isGap, hinline.1.1]
  have hgaps :=
    hdull.of_gaps hword hbehind [' '] (List.forall_mem_singleton.mpr (by decide)) (by simp)
  have hmoved := (hgaps.append name).of_brace hword [' '] (by decide) ('\x7d' :: gap)
  rw [hvalue, hmatched]
  simpa using hmoved

/-- **A rule names nothing new**, if what it puts back does not. -/
lemma duller_of_rule {rule : Pattern} (hrule : rule ∈ Rules.keepRules ++ Rules.dropRules)
    {value : Found → List Char}
    (hvalue : ∀ f : Found, f.Matches rule → ∀ back, mayName word (value f ++ back) = true →
      mayName word back = true)
    (h : Edits (rule.Replaces value) text out) : Duller word out text := by
  refine Duller.of_edits ?_ h
  rintro m v out text hm hdull
  obtain ⟨f, hf, rfl, rfl⟩ :=
    hm.exists_matches (Rules.plain_of_isTagRule (Rules.isTagRule_of_mem rule hrule))
  have hquiet := hvalue f hf
  obtain ⟨s, -, hleads⟩ := hf
  obtain ⟨fringe, tag, -, hm, hfringe, -⟩ := Rules.exists_tag hrule hleads
  refine hdull.of_tag hword (fun back => ?_) hquiet
  rw [hm]
  exact opensTag_of_fringe hfringe tag back

end

end Marginalia.Filter
