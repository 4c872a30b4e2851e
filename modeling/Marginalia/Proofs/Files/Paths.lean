import Marginalia.Files.Path
import Mathlib.Data.List.Basic

/-!
# Normal paths

An absolute path is brought into its normal form in one go: the normal form of a normal form is the
form itself.  So it does not matter that the parts of a run make their paths absolute one after the
other.

## Main definitions

* `Path.IsName` — the components of a normal absolute path.

## Main results

* `Text.splitAt_eq_splitOn` — splitting at a separator.
* `Path.exists_normalize_eq` — a normal absolute path is made of slashes and names.
* `Path.absolute_absolute` — an absolute path stays as it is.
-/

namespace Marginalia

namespace Text

variable {α : Type} [DecidableEq α] {separator : α}

/-- Splitting at a separator is the splitting of lists. -/
lemma splitAt_eq_splitOn (separator : α) (xs : List α) :
    splitAt separator xs = List.splitOn separator xs := by
  induction xs with
  | nil => rfl
  | cons x xs ih =>
    rw [splitAt, List.splitOn_cons_eq_if_modifyHead, ih]
    by_cases h : x = separator
    · simp [h]
    · cases hparts : List.splitOn separator xs with
      | nil => exact absurd hparts (List.splitOn_ne_nil _ _)
      | cons part parts => simp [h]

/-- No part holds the separator. -/
lemma not_mem_of_mem_splitAt {part : List α} {xs : List α} (h : part ∈ splitAt separator xs) :
    separator ∉ part := by
  induction xs generalizing part with
  | nil =>
    rw [List.mem_singleton.mp h]
    exact List.not_mem_nil
  | cons x xs ih =>
    rw [splitAt] at h
    split at h
    · rcases List.mem_cons.mp h with rfl | h
      · exact List.not_mem_nil
      · exact ih h
    · next hx =>
      cases hparts : splitAt separator xs with
      | nil =>
        rw [hparts] at h
        simp [List.mem_singleton.mp h, Ne.symm hx]
      | cons first parts =>
        rw [hparts] at h ih
        rcases List.mem_cons.mp h with rfl | h
        · simp [Ne.symm hx, ih (List.mem_cons_self ..)]
        · exact ih (List.mem_cons_of_mem _ h)

end Text

namespace Path

/-- A component of a normal absolute path: a name that stands for itself. -/
structure IsName (component : String) : Prop where
  nonempty : component ≠ ""
  notHere : component ≠ "."
  notAbove : component ≠ ".."
  noSlash : '/' ∉ component.toList

section Normal

variable {path body slashes component : String} {names done : List String}

/-- Components hold no slash. -/
lemma noSlash_of_mem_components (h : component ∈ components path) : '/' ∉ component.toList := by
  obtain ⟨part, hpart, rfl⟩ := List.mem_map.mp h
  rw [String.toList_ofList]
  exact Text.not_mem_of_mem_splitAt hpart

/-- A name is kept. -/
lemma push_of_isName (h : IsName component) (absolute : Bool) :
    push absolute done component = component :: done := by
  simp [push, h.nonempty, h.notHere, h.notAbove]

/-- Names are kept in order. -/
lemma foldl_push_of_isName (h : ∀ name ∈ names, IsName name) (absolute : Bool) :
    names.foldl (push absolute) done = names.reverse ++ done := by
  induction names generalizing done with
  | nil => rfl
  | cons name names ih =>
    rw [List.foldl_cons, push_of_isName (h name (List.mem_cons_self ..)),
      ih fun n hn => h n (List.mem_cons_of_mem _ hn)]
    simp

/-- **Only names are kept** of an absolute path, as there is nothing above its root. -/
lemma isName_of_mem_push (hdone : ∀ name ∈ done, IsName name) (h : '/' ∉ component.toList) :
    ∀ name ∈ push true done component, IsName name := by
  unfold push
  split
  · exact hdone
  · next hkept =>
    split
    · cases done with
      | nil => simp
      | cons top rest =>
        have htop : (top == "..") = false :=
          beq_eq_false_iff_ne.mpr (hdone top (List.mem_cons_self ..)).notAbove
        simp only [htop]
        exact fun name hname => hdone name (List.mem_cons_of_mem _ hname)
    · next habove =>
      intro name hname
      rcases List.mem_cons.mp hname with rfl | hname
      · simp only [Bool.or_eq_true, beq_iff_eq, not_or] at hkept habove
        exact ⟨hkept.1, hkept.2, habove, h⟩
      · exact hdone name hname

/-- What is left of components without slashes are names. -/
lemma isName_of_mem_foldl (components : List String) (hdone : ∀ name ∈ done, IsName name)
    (h : ∀ component ∈ components, '/' ∉ component.toList) :
    ∀ name ∈ components.foldl (push true) done, IsName name := by
  induction components generalizing done with
  | nil => exact hdone
  | cons component components ih =>
    exact ih (isName_of_mem_push hdone (h component (List.mem_cons_self ..)))
      fun c hc => h c (List.mem_cons_of_mem _ hc)

/-- Names one below the other do not start with a slash. -/
lemma head?_intercalate (h : ∀ name ∈ names, IsName name) :
    ("/".intercalate names).toList.head? ≠ some '/' := by
  cases names with
  | nil => simp
  | cons name names =>
    have hname := h name (List.mem_cons_self ..)
    have hne : name.toList ≠ [] := by simpa using hname.nonempty
    obtain ⟨c, cs, hcs⟩ := List.exists_cons_of_ne_nil hne
    have hc : c ≠ '/' := fun hc => hname.noSlash (by simp [hcs, hc])
    cases names <;> simp [hcs, hc]

/-- An absolute path starts with a slash. -/
lemma exists_cons_of_isAbsolute (h : isAbsolute path = true) :
    ∃ rest, path.toList = '/' :: rest := by
  rw [isAbsolute, beq_iff_eq] at h
  exact List.head?_eq_some_iff.mp h

/-- An absolute path keeps one leading slash, or two. -/
lemma leadingSlashes_eq (h : isAbsolute path = true) :
    leadingSlashes path = "/" ∨ leadingSlashes path = "//" := by
  obtain ⟨rest, hrest⟩ := exists_cons_of_isAbsolute h
  unfold leadingSlashes
  split
  · exact .inl rfl
  · exact .inr rfl
  · exact .inl rfl
  · next hnone => exact absurd hrest (hnone rest)

/-- The slashes before something that starts with none. -/
lemma leadingSlashes_append (h : slashes = "/" ∨ slashes = "//")
    (hbody : body.toList.head? ≠ some '/') : leadingSlashes (slashes ++ body) = slashes := by
  cases hchars : body.toList with
  | nil =>
    obtain rfl : body = "" := by simpa using hchars
    rcases h with rfl | rfl <;> rfl
  | cons c cs =>
    have hc : c ≠ '/' := by simpa [hchars] using hbody
    rcases h with rfl | rfl
    · have hlist : ("/" ++ body).toList = '/' :: c :: cs := by simp [hchars]
      simp [leadingSlashes, hlist, hc]
    · have hlist : ("//" ++ body).toList = '/' :: '/' :: c :: cs := by simp [hchars]
      simp [leadingSlashes, hlist, hc]

/-- A slash opens an empty component. -/
lemma components_slash (path : String) : components ("/" ++ path) = "" :: components path := by
  rw [components, String.toList_append]
  rfl

/-- Names one below the other are their own components. -/
lemma components_intercalate (h : ∀ name ∈ names, IsName name) (hne : names ≠ []) :
    components ("/".intercalate names) = names := by
  have hparts : List.splitOn '/' (['/'].intercalate (names.map String.toList)) =
      names.map String.toList := by
    refine List.splitOn_intercalate '/' ?_ (by simpa using hne)
    intro part hpart
    obtain ⟨name, hname, rfl⟩ := List.mem_map.mp hpart
    exact (h name hname).noSlash
  rw [components, Text.splitAt_eq_splitOn, String.toList_intercalate]
  show (List.splitOn '/' (['/'].intercalate (names.map String.toList))).map String.ofList = names
  rw [hparts, List.map_map]
  simp [Function.comp_def]

/-- Of slashes and names the names are kept. -/
lemma foldl_components (h : slashes = "/" ∨ slashes = "//") (hnames : ∀ name ∈ names, IsName name)
    (absolute : Bool) :
    (components (slashes ++ "/".intercalate names)).foldl (push absolute) [] = names.reverse := by
  have hblank : push absolute [] "" = [] := rfl
  have hbody : (components ("/".intercalate names)).foldl (push absolute) [] = names.reverse := by
    by_cases hne : names = []
    · subst hne
      exact hblank
    · rw [components_intercalate hnames hne, foldl_push_of_isName hnames, List.append_nil]
  rcases h with rfl | rfl
  · rw [components_slash, List.foldl_cons, hblank, hbody]
  · have hsplit : "//" ++ "/".intercalate names = "/" ++ ("/" ++ "/".intercalate names) := by
      rw [← String.append_assoc]
      rfl
    rw [hsplit, components_slash, components_slash, List.foldl_cons, hblank, List.foldl_cons,
      hblank, hbody]

/-- **A normal absolute path is made of slashes and names.** -/
lemma exists_normalize_eq (h : isAbsolute path = true) :
    ∃ slashes names, (slashes = "/" ∨ slashes = "//") ∧ (∀ name ∈ names, IsName name) ∧
      normalize path = slashes ++ "/".intercalate names := by
  refine ⟨leadingSlashes path, ((components path).foldl (push true) []).reverse,
    leadingSlashes_eq h, ?_, ?_⟩
  · intro name hname
    refine isName_of_mem_foldl _ (by simp) ?_ name (List.mem_reverse.mp hname)
    exact fun component hcomponent => noSlash_of_mem_components hcomponent
  · unfold normalize
    rw [h]
    refine if_neg ?_
    rcases leadingSlashes_eq h with hslashes | hslashes <;> simp [hslashes]

/-- A path that goes on behind an absolute one is absolute. -/
lemma isAbsolute_append (h : isAbsolute path = true) (body : String) :
    isAbsolute (path ++ body) = true := by
  obtain ⟨rest, hrest⟩ := exists_cons_of_isAbsolute h
  rw [isAbsolute, String.toList_append, hrest]
  rfl

/-- What lies below an absolute folder is absolute. -/
lemma isAbsolute_join {folder : String} (h : isAbsolute folder = true) (path : String) :
    isAbsolute (join folder path) = true := by
  unfold join
  split
  · assumption
  · split
    · exact isAbsolute_append h path
    · exact isAbsolute_append (isAbsolute_append h "/") path

/-- **A normal absolute path stays as it is.** -/
lemma normalize_of_names (h : slashes = "/" ∨ slashes = "//")
    (hnames : ∀ name ∈ names, IsName name) :
    normalize (slashes ++ "/".intercalate names) = slashes ++ "/".intercalate names := by
  unfold normalize
  rw [leadingSlashes_append h (head?_intercalate hnames), foldl_components h hnames]
  simp only [List.reverse_reverse]
  refine if_neg ?_
  rcases h with rfl | rfl <;> simp

/-- **Making a path absolute twice is making it absolute once.** -/
theorem absolute_absolute {folder : String} (h : isAbsolute folder = true) (path : String) :
    absolute folder (absolute folder path) = absolute folder path := by
  obtain ⟨slashes, names, hslashes, hnames, hnormal⟩ :=
    exists_normalize_eq (isAbsolute_join h path)
  have hroot : isAbsolute slashes = true := by
    rcases hslashes with rfl | rfl <;> rfl
  have habsolute : absolute folder path = slashes ++ "/".intercalate names := hnormal
  rw [habsolute, absolute, join, if_pos (isAbsolute_append hroot _),
    normalize_of_names hslashes hnames]

end Normal

end Path

end Marginalia
