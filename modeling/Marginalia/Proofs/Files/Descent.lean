import Marginalia.Proofs.Files.Paths
import Marginalia.Proofs.Files.Storage

/-!
# Going down into a folder

A folder that a path leads to is entered by the path with a name behind it.  Where the path leads
through links, the way is followed afresh from the root, so the names that are still to come are
carried along: with one more name at their end, each step goes as before, and the last one enters
the folder.  The only thing that can come in between is the length of the longer path.

## Main definitions

* `Path.IsFileName` — the names that a file system allows.

## Main results

* `FileSystem.locateFrom_concat` — one more name behind a way that leads to a folder.
* `FileSystem.entry?_join` — what a name in a folder stands for is found by the joined path.
* `FileSystem.isFolder_join_iff` — **a folder in a folder is found exactly if its path is not too
  long**.
-/

namespace Marginalia

/-! ## Joined paths -/

/-- A separator splits a list in two, whose parts are all parts. -/
lemma Text.splitAt_append_separator {α : Type} [DecidableEq α] (separator : α) (xs ys : List α) :
    splitAt separator (xs ++ separator :: ys) = splitAt separator xs ++ splitAt separator ys := by
  induction xs with
  | nil => simp [splitAt]
  | cons x xs ih =>
    rw [List.cons_append, splitAt, splitAt, ih]
    by_cases hx : x = separator
    · simp [hx]
    · obtain ⟨part, parts, hparts⟩ := exists_splitAt_eq_cons separator xs
      simp [hx, hparts]

namespace Path

variable {base folder name path : String}

/-- **The names that a file system allows**: they stand for themselves, hold no null character and
are not too long. -/
structure IsFileName (name : String) : Prop extends IsName name where
  noNull : '\x00' ∉ name.toList
  short : name.utf8ByteSize ≤ FileSystem.nameLimit

/-- A name does not start at the root. -/
lemma isAbsolute_of_isName (h : IsName name) : isAbsolute name = false := by
  rw [isAbsolute, beq_eq_false_iff_ne]
  intro hhead
  exact h.noSlash (List.mem_of_mem_head? hhead)

/-- A text without a slash is its only component. -/
lemma components_of_noSlash (h : '/' ∉ name.toList) : components name = [name] := by
  have hsplit : Text.splitAt '/' (name.toList ++ []) = [name.toList ++ []] :=
    Text.splitAt_append h rfl
  rw [List.append_nil] at hsplit
  rw [components, hsplit, List.map_singleton, String.ofList_toList]

/-- A name behind a slash is one more component. -/
lemma components_append_slash (base : String) (h : '/' ∉ name.toList) :
    components (base ++ "/" ++ name) = components base ++ [name] := by
  have hlist : (base ++ "/" ++ name).toList = base.toList ++ '/' :: name.toList := by simp
  rw [components, hlist, Text.splitAt_append_separator, List.map_append]
  exact congrArg (components base ++ ·) (components_of_noSlash h)

/-- A path and a name have a slash between them, which the path may end with already. -/
lemma join_eq_append (hbase : base ≠ "") (h : IsName name) :
    join base name = base ++ (if base.toList.getLast? == some '/' then "" else "/") ++ name := by
  have hempty : base.isEmpty = false := by simpa using hbase
  unfold join
  rw [isAbsolute_of_isName h, if_neg Bool.false_ne_true, hempty, Bool.false_or]
  split
  · rw [String.append_empty]
  · rfl

/-- The path of what lies in a folder is longer than the name and the path of the folder. -/
lemma utf8ByteSize_le_join (base : String) (h : IsName name) :
    base.utf8ByteSize + name.utf8ByteSize ≤ (join base name).utf8ByteSize := by
  unfold join
  rw [isAbsolute_of_isName h, if_neg Bool.false_ne_true]
  split
  · rw [String.utf8ByteSize_append]
  · rw [String.utf8ByteSize_append, String.utf8ByteSize_append]
    omega

/-- If the path of what lies in a folder is not too long, that of the folder is not. -/
lemma utf8ByteSize_le_of_join {limit : Nat} (h : IsName name)
    (hfits : (join base name).utf8ByteSize ≤ limit) : base.utf8ByteSize ≤ limit := by
  have hlonger := utf8ByteSize_le_join base h
  omega

/-- Whether a path starts at the root shows at its front. -/
lemma isAbsolute_append_of_ne (hpath : path ≠ "") (rest : String) :
    isAbsolute (path ++ rest) = isAbsolute path := by
  have hne : path.toList ≠ [] := by simpa using hpath
  rw [isAbsolute, isAbsolute, String.toList_append, List.head?_append_of_ne_nil _ hne]

/-- An absolute path stands for itself, wherever it is seen from. -/
lemma join_of_isAbsolute (folder : String) (h : isAbsolute path = true) :
    join folder path = path := if_pos h

/-- Any other path is put behind the same text. -/
lemma exists_join_eq (folder : String) :
    ∃ front, ∀ path, isAbsolute path = false → join folder path = front ++ path := by
  by_cases hopen : (folder.isEmpty || folder.toList.getLast? == some '/') = true
  · refine ⟨folder, fun path h => ?_⟩
    rw [join, h, if_neg Bool.false_ne_true, if_pos hopen]
  · refine ⟨folder ++ "/", fun path h => ?_⟩
    rw [join, h, if_neg Bool.false_ne_true, if_neg hopen]

/-- A path below a folder is not empty. -/
lemma join_ne_empty (folder : String) (h : path ≠ "") : join folder path ≠ "" := by
  cases habsolute : isAbsolute path with
  | true => rwa [join_of_isAbsolute folder habsolute]
  | false =>
    obtain ⟨front, hfront⟩ := exists_join_eq folder
    rw [hfront _ habsolute]
    simp [h]

/-- Paths are joined in any order. -/
lemma join_join (folder : String) (hbase : base ≠ "") (h : IsName name) :
    join folder (join base name) = join (join folder base) name := by
  have hlonger : isAbsolute (join base name) = isAbsolute base := by
    rw [join_eq_append hbase h, String.append_assoc, isAbsolute_append_of_ne hbase]
  have hbehind (front : String) : join (front ++ base) name = front ++ join base name := by
    have hne : base.toList ≠ [] := by simpa using hbase
    have hfront : front ++ base ≠ "" := by simp [hbase]
    rw [join_eq_append hfront h, join_eq_append hbase h, String.toList_append,
      List.getLast?_append_of_ne_nil _ hne]
    simp only [String.append_assoc]
  cases habsolute : isAbsolute base with
  | true =>
    rw [join_of_isAbsolute folder (hlonger.trans habsolute), join_of_isAbsolute folder habsolute]
  | false =>
    obtain ⟨front, hfront⟩ := exists_join_eq folder
    rw [hfront _ (hlonger.trans habsolute), hfront _ habsolute, hbehind]

/-- **The components of a path below a folder**: the name comes last, in place of nothing if the
path of the folder ends with a slash. -/
lemma components_join (hbase : base ≠ "") (h : IsName name) :
    components (join base name) = components base ++ [name] ∨
      ∃ front, components base = front ++ [""] ∧ components (join base name) = front ++ [name] := by
  rw [join_eq_append hbase h]
  split
  · next hlast =>
    obtain ⟨front, hfront⟩ := List.getLast?_eq_some_iff.mp (beq_iff_eq.mp hlast)
    obtain rfl : base = String.ofList front ++ "/" := by
      rw [← String.toList_inj, hfront]
      simp
    have hblank : components (String.ofList front ++ "/" ++ "") =
        components (String.ofList front) ++ [""] :=
      components_append_slash _ (by simp)
    rw [String.append_empty] at hblank ⊢
    exact .inr ⟨_, hblank, components_append_slash _ h.noSlash⟩
  · exact .inl (components_append_slash base h.noSlash)

end Path

/-! ## One more name -/

namespace FileSystem

open Entry

variable {root : Entry} {done todo : List String} {name : String}
  {entries inner : List (String × Entry)}

/-- **What one name does on a way to look**, whatever comes behind it: the way is stuck there, goes
on from a place, goes on behind a link, or has come to a name that nothing has. -/
lemma look_cons_cases (root : Entry) (done : List String) (name : String) :
    (∃ reason, ∀ rest, walk root .look done (name :: rest) = .stuck reason) ∨
      (∃ next, ∀ rest, walk root .look done (name :: rest) = walk root .look next rest) ∨
      (∃ start target, ∀ rest, walk root .look done (name :: rest) =
        .diverted start (target ++ rest)) ∨
      (walk root .look done [name] = .arrived ⟨(name :: done).reverse, none⟩ ∧
        ∀ second rest, walk root .look done (name :: second :: rest) = .stuck .missing) := by
  cases hat : root.at? done.reverse with
  | none => exact .inl ⟨.missing, fun rest => by rw [walk, hat]⟩
  | some e =>
    cases e with
    | file | link => exact .inl ⟨.notFolder, fun rest => by rw [walk, hat]⟩
    | folder entries =>
      by_cases hstay : (name == "" || name == ".") = true
      · exact .inr (.inl ⟨done, fun rest => by rw [walk, hat]; exact if_pos hstay⟩)
      by_cases hup : (name == "..") = true
      · refine .inr (.inl ⟨done.tail, fun rest => ?_⟩)
        rw [walk, hat]
        exact (if_neg hstay).trans (if_pos hup)
      by_cases hlong : nameLimit < name.utf8ByteSize
      · refine .inl ⟨.nameTooLong, fun rest => ?_⟩
        rw [walk, hat]
        simp [hstay, hup, hlong]
      -- an ordinary name: what the folder holds under it decides
      have hhere : root.at? (name :: done).reverse = entries.lookup name := by
        rw [List.reverse_cons, at?_concat_of_folder hat]
      have hstep (rest : List String) : walk root .look done (name :: rest) =
          enter root .look done name rest (entries.lookup name) := by
        rw [walk, hat]
        simp only [hstay, hup, hlong, reduceCtorEq, decide_false, Bool.false_and, Bool.and_false,
          Bool.or_false, if_false, Bool.false_eq_true]
        cases entries.lookup name with
        | none => rfl
        | some e => cases e <;> rfl
      cases hlookup : entries.lookup name with
      | none =>
        refine .inr (.inr (.inr ⟨?_, fun second rest => ?_⟩))
        · rw [hstep, hlookup]
          rfl
        · rw [hstep, hlookup]
          rfl
      | some e =>
        have hgo (h : ∀ target, (some e).map shape ≠ some (.link target)) (rest : List String) :
            walk root .look done (name :: rest) = walk root .look (name :: done) rest := by
          rw [hstep, hlookup, enter_of_not_link h]
          cases rest with
          | nil => rw [walk, hhere, hlookup]; rfl
          | cons second rest => rfl
        cases e with
        | link target => exact .inr (.inr (.inl ⟨_, _, fun rest => by rw [hstep, hlookup]; rfl⟩))
        | file | folder => exact .inr (.inl ⟨_, hgo fun target h => by cases h⟩)

/-- A name that a folder holds leads there. -/
lemma walk_name (hname : Path.IsFileName name)
    (hfolder : root.at? done.reverse = some (.folder entries))
    (hlookup : entries.lookup name = some (.folder inner)) :
    walk root .look done [name] = .arrived ⟨done.reverse ++ [name], some (.folder inner)⟩ := by
  have hlong : ¬ nameLimit < name.utf8ByteSize := Nat.not_lt.mpr hname.short
  rw [walk, hfolder]
  simp [hname.nonempty, hname.notHere, hname.notAbove, hlong, hlookup]

/-- A slash behind a way does not change where it leads, if it leads to a folder. -/
lemma walk_of_slash (entries : List (String × Entry)) :
    (∀ place, walk root .look done (todo ++ [""]) = .arrived ⟨place, some (.folder entries)⟩ →
      walk root .look done todo = .arrived ⟨place, some (.folder entries)⟩) ∧
      ∀ done' todo', walk root .look done (todo ++ [""]) = .diverted done' todo' →
        ∃ front, todo' = front ++ [""] ∧ walk root .look done todo = .diverted done' front := by
  induction todo generalizing done with
  | nil =>
    cases hat : root.at? done.reverse with
    | none => simp [walk, hat]
    | some e => cases e <;> simp [walk, hat]
  | cons first rest ih =>
    rw [List.cons_append]
    obtain ⟨reason, hstep⟩ | ⟨next, hstep⟩ | ⟨start, target, hstep⟩ | ⟨-, hstep⟩ :=
      look_cons_cases root done first
    · simp [hstep]
    · rw [hstep, hstep]
      exact ih
    · rw [hstep, hstep]
      refine ⟨fun place hway => (by cases hway), fun done' todo' hway => ?_⟩
      obtain ⟨rfl, rfl⟩ := Walk.diverted.inj hway
      exact ⟨_, (List.append_assoc ..).symm, rfl⟩
    · cases rest <;> simp [hstep]

/-- **One more name behind a way**: each step goes as before, and behind the last one the name is
followed from the folder that was found. -/
lemma walk_concat (hname : Path.IsFileName name)
    (hlookup : entries.lookup name = some (.folder inner)) :
    (∀ place, walk root .look done todo = .arrived ⟨place, some (.folder entries)⟩ →
      walk root .look done (todo ++ [name]) =
        .arrived ⟨place ++ [name], some (.folder inner)⟩) ∧
      ∀ done' todo', walk root .look done todo = .diverted done' todo' →
        walk root .look done (todo ++ [name]) = .diverted done' (todo' ++ [name]) := by
  induction todo generalizing done with
  | nil =>
    refine ⟨fun place hway => ?_, fun done' todo' hway => by cases hway⟩
    obtain ⟨rfl, hfolder⟩ := Located.mk.inj (Walk.arrived.inj hway)
    exact walk_name hname hfolder hlookup
  | cons first rest ih =>
    rw [List.cons_append]
    obtain ⟨reason, hstep⟩ | ⟨next, hstep⟩ | ⟨start, target, hstep⟩ | ⟨hlast, hstep⟩ :=
      look_cons_cases root done first
    · simp [hstep]
    · rw [hstep, hstep]
      exact ih
    · rw [hstep, hstep]
      refine ⟨fun place hway => (by cases hway), fun done' todo' hway => ?_⟩
      obtain ⟨rfl, rfl⟩ := Walk.diverted.inj hway
      rw [List.append_assoc]
    · cases rest with
      | nil => simp [hlast]
      | cons second rest => simp [hstep]

/-- A way without links is at its end. -/
lemma locateFrom_of_arrived {found : Located} (h : walk root .look done todo = .arrived found)
    (links : Nat) : locateFrom root .look links done todo = .ok found := by
  rw [locateFrom.eq_def, h]

/-- A link is followed. -/
lemma locateFrom_of_diverted {done' todo' : List String}
    (h : walk root .look done todo = .diverted done' todo') (links : Nat) :
    locateFrom root .look (links + 1) done todo = locateFrom root .look links done' todo' := by
  rw [locateFrom.eq_def, h]

/-- A slash behind a path to a folder does not matter. -/
lemma locateFrom_of_slash {links : Nat} {front place : List String} (htodo : todo = front ++ [""])
    (h : locateFrom root .look links done todo = .ok ⟨place, some (.folder entries)⟩) :
    locateFrom root .look links done front = .ok ⟨place, some (.folder entries)⟩ := by
  fun_induction locateFrom root .look links done todo generalizing front with
  | case1 links done todo found hway =>
    subst htodo
    obtain rfl := Except.ok.inj h
    exact locateFrom_of_arrived ((walk_of_slash entries).1 _ hway) links
  | case2 => cases h
  | case3 => cases h
  | case4 done todo done' todo' links hway ih =>
    subst htodo
    obtain ⟨rest, rfl, hfront⟩ := (walk_of_slash entries).2 _ _ hway
    rw [locateFrom_of_diverted hfront]
    exact ih rfl h

/-- **One more name behind a way that leads to a folder** leads into it. -/
lemma locateFrom_concat {links : Nat} {place : List String} (hname : Path.IsFileName name)
    (h : locateFrom root .look links done todo = .ok ⟨place, some (.folder entries)⟩)
    (hlookup : entries.lookup name = some (.folder inner)) :
    locateFrom root .look links done (todo ++ [name]) =
      .ok ⟨place ++ [name], some (.folder inner)⟩ := by
  fun_induction locateFrom root .look links done todo with
  | case1 links done todo found hway =>
    obtain rfl := Except.ok.inj h
    exact locateFrom_of_arrived ((walk_concat hname hlookup).1 _ hway) links
  | case2 => cases h
  | case3 => cases h
  | case4 done todo done' todo' links hway ih =>
    rw [locateFrom_of_diverted ((walk_concat hname hlookup).2 _ _ hway)]
    exact ih h

/-! ## Folders in folders -/

variable {fs : FileSystem} {folder : String}

/-- A path that leads somewhere has no fault, and its components lead there. -/
lemma exists_locateFrom_of_found {e : Entry} (h : fs.entry? folder = some e) :
    pathFault? folder = none ∧ ∃ place, locateFrom fs.root .look linkLimit []
      (Path.components (Path.join fs.current folder)) = .ok ⟨place, some e⟩ := by
  unfold entry? locate at h
  cases hfault : pathFault? folder with
  | some reason => simp [hfault] at h
  | none =>
    simp only [hfault] at h
    cases hway : locateFrom fs.root .look linkLimit []
        (Path.components (Path.join fs.current folder)) with
    | error reason => simp [hway] at h
    | ok found =>
      obtain ⟨place, entry⟩ := found
      rw [hway] at h
      obtain rfl : entry = some e := h
      exact ⟨rfl, place, rfl⟩

/-- A path has no fault if it holds no null character, is not empty and is not too long. -/
lemma pathFault?_eq_none_iff {path : String} :
    pathFault? path = none ↔
      '\x00' ∉ path.toList ∧ path ≠ "" ∧ path.utf8ByteSize ≤ pathLimit := by
  by_cases hnull : '\x00' ∈ path.toList <;> by_cases hempty : path = "" <;>
    simp [pathFault?, hnull, hempty]

/-- **What a name in a folder stands for is found by the joined path**, if that is not too long. -/
lemma entry?_join (hname : Path.IsFileName name)
    (hfolder : fs.entry? folder = some (.folder entries))
    (hlookup : entries.lookup name = some (.folder inner))
    (hfits : (Path.join folder name).utf8ByteSize ≤ pathLimit) :
    fs.entry? (Path.join folder name) = some (.folder inner) := by
  obtain ⟨hfault, place, hplace⟩ := exists_locateFrom_of_found hfolder
  obtain ⟨hnull, hne, -⟩ := pathFault?_eq_none_iff.mp hfault
  have hjoined : pathFault? (Path.join folder name) = none := by
    refine pathFault?_eq_none_iff.mpr ⟨?_, Path.join_ne_empty _ hname.nonempty, hfits⟩
    rw [Path.join_eq_append hne hname.toIsName]
    split <;> simp [hnull, hname.noNull]
  have hbelow : Path.join fs.current (Path.join folder name) =
      Path.join (Path.join fs.current folder) name := Path.join_join _ hne hname.toIsName
  have hstart : Path.join fs.current folder ≠ "" := Path.join_ne_empty _ hne
  have hinner : locateFrom fs.root .look linkLimit []
      (Path.components (Path.join fs.current (Path.join folder name))) =
        .ok ⟨place ++ [name], some (.folder inner)⟩ := by
    rw [hbelow]
    rcases Path.components_join hstart hname.toIsName with hjoin | ⟨front, hfront, hjoin⟩
    · rw [hjoin]
      exact locateFrom_concat hname hplace hlookup
    · rw [hjoin]
      exact locateFrom_concat hname (locateFrom_of_slash hfront hplace) hlookup
  unfold entry? locate
  simp only [hjoined, hinner]

/-- A path that leads somewhere is not too long. -/
lemma utf8ByteSize_le_of_found {e : Entry} (h : fs.entry? folder = some e) :
    folder.utf8ByteSize ≤ pathLimit :=
  (pathFault?_eq_none_iff.mp (exists_locateFrom_of_found h).1).2.2

/-- **A folder in a folder is found exactly if its path is not too long.** -/
lemma isFolder_join_iff (hname : Path.IsFileName name)
    (hfolder : fs.entry? folder = some (.folder entries))
    (hlookup : entries.lookup name = some (.folder inner)) :
    fs.isFolder (Path.join folder name) = true ↔
      (Path.join folder name).utf8ByteSize ≤ pathLimit := by
  constructor
  · intro h
    rw [isFolder] at h
    split at h
    · next hentry => exact utf8ByteSize_le_of_found hentry
    · cases h
  · intro hfits
    rw [isFolder, entry?_join hname hfolder hlookup hfits]

end FileSystem

end Marginalia
