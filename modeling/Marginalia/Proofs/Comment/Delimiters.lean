import Marginalia.Comment.Filter
import Marginalia.Proofs.Pattern.Cuts
import Mathlib.Data.List.Infix

/-!
# Delimiters under replacement

A block comment or a documentation comment is complete if it begins with its opening delimiter and
ends with its closing one, apart from it.  Whether it stays complete when matches are replaced
depends on the matches that reach into the delimiters: on the first match, if it begins with the
star of the opening delimiter, and on the last one, if it reaches into the closing delimiter.

## Main definitions

* `Filter.Complete` — the text is a comment with both its delimiters.
* `Filter.SparesStart`, `Filter.SparesEnd` — replacing a match spares the delimiters.
* `Filter.LosesOpening`, `Filter.LosesClosing` — deleting all matches loses a delimiter.

## Main results

* `Filter.complete_of_spares` — complete comments stay complete if every match spares the
  delimiters.
* `Filter.not_complete_eraseAll_iff` — deleting matches breaks a comment exactly if it loses a
  delimiter.
-/

namespace Marginalia

open Pattern

namespace Filter

/-! ## Complete comments -/

/-- The text ends with the closing delimiter. -/
def Closed (text : List Char) : Prop := ['*', '/'] <:+ text

/-- The text is a comment with both its delimiters. -/
def Complete (text : List Char) : Prop := ∃ body, text = '/' :: '*' :: (body ++ ['*', '/'])

/-- A complete comment is the opening delimiter and then a text that is closed. -/
lemma complete_iff {text : List Char} :
    Complete text ↔ ∃ inner, text = '/' :: '*' :: inner ∧ Closed inner := by
  constructor
  · rintro ⟨body, rfl⟩
    exact ⟨_, rfl, List.suffix_append ..⟩
  · rintro ⟨_, rfl, body, rfl⟩
    exact ⟨body, rfl⟩

/-- A complete comment is closed. -/
lemma Complete.closed {text : List Char} (h : Complete text) : Closed text := by
  obtain ⟨inner, rfl, hinner⟩ := complete_iff.mp h
  exact hinner.trans (List.suffix_append ['/', '*'] inner)

/-- A closed text stays closed behind another text. -/
lemma Closed.append_left {text : List Char} (h : Closed text) (front : List Char) :
    Closed (front ++ text) :=
  h.trans (List.suffix_append ..)

/-- The end of a closed text is closed, unless it lies inside the delimiter. -/
lemma Closed.of_append {front text : List Char} (h : Closed (front ++ text))
    (hlen : 2 ≤ text.length) : Closed text :=
  List.suffix_of_suffix_length_le h (List.suffix_append ..) hlen

/-! ## Putting values in the place of matches -/

/-- Putting `v` in the place of the match `m` spares the closing delimiter. -/
structure SparesEnd (m v : List Char) : Prop where
  ne_nil : m ≠ []
  ne_slash : m ≠ ['/']
  /-- A match with the closing delimiter leaves one. -/
  closing : Closed m → Closed v
  /-- A match up to the slash leaves the star. -/
  star : ['*'] <:+ m → ['*'] <:+ v

/-- Putting `v` in the place of the match `m` spares the opening delimiter. -/
structure SparesStart (m v : List Char) : Prop where
  ne_opening : ¬ ['/', '*'] <+: m
  /-- A match from the star on leaves the star, and a closing delimiter apart from it. -/
  opening : m.head? = some '*' →
    ¬ ['*'] <:+ m ∧ ∃ inner, v = '*' :: inner ∧ (Closed m → Closed inner)

/-- A match that does not begin with the slash is neither a slash nor begins with the opening
delimiter. -/
lemma ne_slash_and_not_opening {m : List Char} (h : m.head? ≠ some '/') :
    m ≠ ['/'] ∧ ¬ ['/', '*'] <+: m := by
  constructor
  · rintro rfl
    exact h rfl
  · rintro ⟨rest, rfl⟩
    exact h rfl

/-- Where the closing delimiter is: in the last match, across its end, or behind it. -/
lemma closed_cases (front : List Char) {m behind : List Char} (hnil : m ≠ []) (hslash : m ≠ ['/'])
    (hc : Closed (front ++ (m ++ behind))) :
    (behind = [] ∧ Closed m) ∨ (behind = ['/'] ∧ ['*'] <:+ m) ∨ Closed behind := by
  match behind with
  | [] =>
    rw [List.append_nil] at hc
    refine .inl ⟨rfl, hc.of_append ?_⟩
    -- the match has two characters at least
    match m with
    | [] => exact absurd rfl hnil
    | [c] =>
      obtain ⟨body, hbody⟩ := hc
      have hlast : (body ++ ['*', '/']).getLast? = (front ++ [c]).getLast? := by rw [hbody]
      obtain rfl : '/' = c := by simpa using hlast
      exact absurd rfl hslash
    | _ :: _ :: _ => simp
  | [c] =>
    obtain ⟨body, hbody⟩ := hc
    obtain ⟨hm, hlast⟩ : body ++ ['*'] = front ++ m ∧ ['/'] = [c] :=
      List.append_inj' (by simpa using hbody) rfl
    refine .inr (.inl ⟨hlast.symm, ?_⟩)
    exact List.suffix_of_suffix_length_le ⟨body, hm⟩ (List.suffix_append ..)
      (List.length_pos_iff.mpr hnil)
  | _ :: _ :: _ =>
    rw [← List.append_assoc] at hc
    exact .inr (.inr (hc.of_append (by simp)))

/-- The closing delimiter after the last match. -/
lemma SparesEnd.closed {m v behind : List Char} (h : SparesEnd m v) (front : List Char)
    (hc : Closed (front ++ (m ++ behind))) : Closed (v ++ behind) := by
  rcases closed_cases front h.ne_nil h.ne_slash hc with ⟨rfl, hm⟩ | ⟨rfl, hm⟩ | hb
  · rw [List.append_nil]
    exact h.closing hm
  · obtain ⟨rest, hrest⟩ := h.star hm
    exact ⟨rest, by simp [← hrest]⟩
  · exact hb.append_left v

section Cuts

variable {fs : List Found} {value : Found → List Char} {tail text : List Char}

/-- **The closing delimiter is spared** if every match spares it, from the match `m` on. -/
lemma closed_of_sparesEnd {m v : List Char} (front : List Char) (hm : SparesEnd m v)
    (h : ∀ f ∈ fs, SparesEnd f.matched (value f))
    (hc : Closed (front ++ (m ++ (fs.flatMap (fun f => f.before ++ f.matched) ++ tail)))) :
    Closed (v ++ (fs.flatMap (fun f => f.before ++ value f) ++ tail)) := by
  -- only the last match matters
  rcases List.eq_nil_or_concat fs with rfl | ⟨init, f, rfl⟩
  · exact hm.closed front hc
  · have hend : Closed (value f ++ tail) := by
      refine (h f (by simp)).closed
        (front ++ (m ++ (init.flatMap (fun f => f.before ++ f.matched) ++ f.before))) ?_
      simpa [List.append_assoc] using hc
    simpa [List.append_assoc] using
      hend.append_left (v ++ (init.flatMap (fun f => f.before ++ value f) ++ f.before))

/-- If no match ends with the star, the gap behind the last match is empty or closed. -/
lemma closed_tail (hne : fs ≠ [])
    (h : ∀ f ∈ fs, f.matched ≠ [] ∧ f.matched ≠ ['/'] ∧ ¬ ['*'] <:+ f.matched)
    (hc : Closed (fs.flatMap (fun f => f.before ++ f.matched) ++ tail)) :
    tail = [] ∨ Closed tail := by
  obtain ⟨init, f, rfl⟩ := (List.eq_nil_or_concat fs).resolve_left hne
  obtain ⟨hnil, hslash, hstar⟩ := h f (by simp)
  have hc' : Closed ((init.flatMap (fun f => f.before ++ f.matched) ++ f.before) ++
      (f.matched ++ tail)) := by
    simpa [List.append_assoc] using hc
  rcases closed_cases _ hnil hslash hc' with ⟨ht, -⟩ | ⟨-, hm⟩ | ht
  · exact .inl ht
  · exact absurd hm hstar
  · exact .inr ht

/-- The gap before the first match holds the slash at least, and the star too unless the match
begins with it. -/
lemma before_cases {f : Found} {behind : List Char}
    (hc : Complete (f.before ++ f.matched ++ behind))
    (hnil : f.matched ≠ []) (hslash : f.matched ≠ ['/']) (hopen : ¬ ['/', '*'] <+: f.matched) :
    (f.before = ['/'] ∧ f.matched.head? = some '*') ∨ ∃ b, f.before = '/' :: '*' :: b := by
  obtain ⟨inner, hinner, -⟩ := complete_iff.mp hc
  match hb : f.before, hm : f.matched with
  | _, [] => exact absurd hm hnil
  | [], [c] =>
    obtain ⟨rfl, -⟩ : c = '/' ∧ behind = '*' :: inner := by simpa [hb, hm] using hinner
    exact absurd hm hslash
  | [], c :: d :: m =>
    obtain ⟨rfl, rfl, -⟩ : c = '/' ∧ d = '*' ∧ m ++ behind = inner := by
      simpa [hb, hm] using hinner
    exact absurd (hm ▸ ⟨m, rfl⟩) hopen
  | [b], c :: m =>
    obtain ⟨rfl, rfl, -⟩ : b = '/' ∧ c = '*' ∧ m ++ behind = inner := by
      simpa [hb, hm] using hinner
    exact .inl ⟨rfl, rfl⟩
  | b :: b' :: bs, c :: m =>
    obtain ⟨rfl, rfl, -⟩ : b = '/' ∧ b' = '*' ∧ bs ++ c :: (m ++ behind) = inner := by
      simpa [hb, hm] using hinner
    exact .inr ⟨bs, rfl⟩

/-- **Complete comments stay complete** if every match spares both delimiters. -/
lemma complete_of_spares (htext : text = fs.flatMap (fun f => f.before ++ f.matched) ++ tail)
    (hc : Complete text) (hend : ∀ f ∈ fs, SparesEnd f.matched (value f))
    (hstart : ∀ f ∈ fs, SparesStart f.matched (value f)) :
    Complete (fs.flatMap (fun f => f.before ++ value f) ++ tail) := by
  match hfs : fs with
  | [] => rwa [htext] at hc
  | f :: rest =>
    have hef := hend f (by simp)
    have hsf := hstart f (by simp)
    have hrest : ∀ g ∈ rest, SparesEnd g.matched (value g) := fun g hg => hend g (by simp [hg])
    rw [htext, List.flatMap_cons, List.append_assoc] at hc
    have hclosed : Closed (f.before ++
        (f.matched ++ (rest.flatMap (fun f => f.before ++ f.matched) ++ tail))) := by
      rw [← List.append_assoc]
      exact hc.closed
    rw [complete_iff, List.flatMap_cons]
    rcases before_cases hc hef.ne_nil hef.ne_slash hsf.ne_opening with ⟨hb, hm⟩ | ⟨b, hb⟩
    · -- the match takes the star, and its value gives one back
      obtain ⟨hstar, inner, hv, hinner⟩ := hsf.opening hm
      have hlast : SparesEnd f.matched inner :=
        ⟨hef.ne_nil, hef.ne_slash, hinner, fun h => absurd h hstar⟩
      exact ⟨_, by simp [hb, hv], closed_of_sparesEnd _ hlast hrest hclosed⟩
    · refine ⟨_, ?_, (closed_of_sparesEnd _ hef hrest hclosed).append_left b⟩
      simp [hb]

end Cuts

/-! ## Deleting matches -/

/-- Deleting the matches of a rule loses the opening delimiter: the first match begins with the
star, and what is left behind the slash does not make up for it. -/
def LosesOpening (rule : Pattern) (text : List Char) : Prop :=
  ∃ f rest, (rule.cuts text).1 = f :: rest ∧ f.before = ['/'] ∧
    ¬ ∃ inner, rest.flatMap Found.before ++ (rule.cuts text).2 = '*' :: inner ∧ Closed inner

/-- Deleting the matches of a rule loses the closing delimiter: the last match ends the text, and
what is left before it does not make up for it. -/
def LosesClosing (rule : Pattern) (text : List Char) : Prop :=
  (rule.cuts text).2 = [] ∧ ¬ Complete ((rule.cuts text).1.flatMap Found.before)

section Deleting

variable {rule : Pattern} {text : List Char}

/-- **When deleting breaks a comment.**  No match may begin with the slash or end with the star;
then a complete comment is broken exactly if it loses one of its delimiters. -/
lemma not_complete_eraseAll_iff (hp : rule.plain = true) (hc : Complete text)
    (hm : ∀ f ∈ (rule.cuts text).1, f.matched ≠ [] ∧ f.matched.head? ≠ some '/' ∧
      ¬ ['*'] <:+ f.matched) :
    ¬ Complete (rule.eraseAll text) ↔ LosesOpening rule text ∨ LosesClosing rule text := by
  have htext := text_eq_cuts hp text
  rw [eraseAll_eq, LosesOpening, LosesClosing]
  generalize (rule.cuts text).1 = fs at *
  generalize (rule.cuts text).2 = tail at *
  constructor
  · intro hbroken
    by_cases htail : tail = []
    · exact .inr ⟨htail, by rwa [htail, List.append_nil] at hbroken⟩
    left
    match hfs : fs with
    | [] =>
      rw [htext] at hc
      exact absurd hc hbroken
    | f :: rest =>
      obtain ⟨hnil, hslash, -⟩ := hm f (by simp)
      have hclosed : Closed tail := by
        refine (closed_tail (by simp) ?_ (htext ▸ hc.closed)).resolve_left htail
        intro g hg
        obtain ⟨hnil, hslash, hstar⟩ := hm g hg
        exact ⟨hnil, (ne_slash_and_not_opening hslash).1, hstar⟩
      rw [htext, List.flatMap_cons, List.append_assoc] at hc
      obtain ⟨hslash, hopen⟩ := ne_slash_and_not_opening hslash
      rcases before_cases hc hnil hslash hopen with ⟨hb, -⟩ | ⟨b, hb⟩
      · refine ⟨f, rest, rfl, hb, ?_⟩
        rintro ⟨inner, hinner, hcl⟩
        refine hbroken (complete_iff.mpr ⟨inner, ?_, hcl⟩)
        rw [List.flatMap_cons, hb, List.append_assoc, hinner]
        rfl
      · refine absurd (complete_iff.mpr ⟨b ++ rest.flatMap Found.before ++ tail, ?_,
          hclosed.append_left _⟩) hbroken
        simp [hb]
  · rintro (⟨f, rest, rfl, hb, hno⟩ | ⟨rfl, hno⟩)
    · intro hr
      obtain ⟨inner, hinner, hcl⟩ := complete_iff.mp hr
      rw [List.flatMap_cons, hb] at hinner
      exact hno ⟨inner, by simpa using hinner, hcl⟩
    · rwa [List.append_nil]

/-- If no match ends with the slash, the closing delimiter is not lost. -/
lemma not_losesClosing (hp : rule.plain = true) (hc : Complete text)
    (hm : ∀ f ∈ (rule.cuts text).1, f.matched ≠ [] ∧ ¬ ['/'] <:+ f.matched) :
    ¬ LosesClosing rule text := by
  rintro ⟨htail, -⟩
  have htext := text_eq_cuts hp text
  rw [htail, List.append_nil] at htext
  rcases List.eq_nil_or_concat (rule.cuts text).1 with hfs | ⟨init, f, hfs⟩
  · obtain ⟨body, hbody⟩ := hc
    rw [htext, hfs] at hbody
    exact List.cons_ne_nil _ _ hbody.symm
  · obtain ⟨hnil, hslash⟩ := hm f (by simp [hfs])
    have hclosed : Closed ((init.flatMap (fun f => f.before ++ f.matched) ++ f.before) ++
        (f.matched ++ [])) := by
      have h := hc.closed
      rw [htext, hfs] at h
      simpa [List.append_assoc] using h
    have hslash' : f.matched ≠ ['/'] := fun he => hslash (he ▸ List.suffix_refl _)
    rcases closed_cases _ hnil hslash' hclosed with ⟨-, hm⟩ | ⟨h, -⟩ | h
    · exact hslash ((List.suffix_append ['*'] ['/']).trans hm)
    · simp at h
    · simp [Closed] at h

end Deleting

end Filter

end Marginalia
