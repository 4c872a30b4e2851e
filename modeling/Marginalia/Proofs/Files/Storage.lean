import Marginalia.Files.FileSystem
import Marginalia.Proofs.Text.Breaks

/-!
# Files that are written can be read

A file that was written is found again under its path, also if the path leads through links, and can
be written once more.  Following a path sees little of what lies on the way: which entries are
files and folders, and where links lead.  Writing a file changes nothing of this but at the place of
the file, where then a file is, so the same way leads there again.

## Main definitions

* `Entry.Shape`, `Entry.shape` — what following a path sees of an entry.
* `Entry.HasRoom` — a file can be put at a place.
* `Entry.Filled` — a tree after a file was put at a place.

## Main results

* `Entry.HasRoom.filled` — putting a file at a place changes the shape of nothing else.
* `FileSystem.hasRoom_of_locateFrom` — where a path for writing leads, there is room for a file.
* `FileSystem.locateFrom_of_filled` — the way to a file is the same once it is written.
* `FileSystem.read_of_write` — **what was written is read**.
* `FileSystem.exists_write_of_write` — a file that was written can be written again.
-/

namespace Marginalia

/-! ## Putting a file at a place -/

namespace Entry

/-- What following a path sees of an entry. -/
inductive Shape where
  | file
  | folder
  | link (target : String)

/-- What following a path sees of an entry. -/
def shape : Entry → Shape
  | .file _ => .file
  | .folder _ => .folder
  | .link target => .link target

/-- **A file can be put at a place**: a file is there, or nothing but the folder around it. -/
inductive HasRoom : Entry → List String → Prop
  | onto (content : Bytes) : HasRoom (.file content) []
  | fresh {entries : List (String × Entry)} {name : String} (h : entries.lookup name = none) :
    HasRoom (.folder entries) [name]
  | within {entries : List (String × Entry)} {name : String} {e : Entry} {rest : List String}
    (h : entries.lookup name = some e) (hroom : HasRoom e rest) :
    HasRoom (.folder entries) (name :: rest)

/-- The tree `new` is the tree `old` **after a file was put at a place**, as far as following paths
can tell. -/
structure Filled (old new : Entry) (place : List String) (content : Bytes) : Prop where
  self : new.at? place = some (.file content)
  room : ∀ e, old.at? place = some e → e.shape = .file
  other : ∀ q ≠ place, (new.at? q).map shape = (old.at? q).map shape

variable {tree : Entry} {entries : List (String × Entry)} {name : String} {place : List String}

/-- An entry with the shape of a folder is a folder. -/
lemma eq_folder_of_shape {e : Entry} (h : e.shape = .folder) : ∃ entries, e = .folder entries := by
  cases e with
  | folder entries => exact ⟨entries, rfl⟩
  | _ => cases h

/-- What is at a place below a folder is looked up under the first name of the place. -/
lemma at?_folder_cons (entries : List (String × Entry)) (name : String) (rest : List String) :
    (Entry.folder entries).at? (name :: rest) = (entries.lookup name).bind (·.at? rest) := rfl

/-- Nothing lies below a file. -/
lemma at?_file (content : Bytes) (q : List String) :
    (Entry.file content).at? q = if q = [] then some (.file content) else none := by
  cases q <;> rfl

/-- What lies in a folder is found under its name. -/
lemma at?_concat_of_folder (h : tree.at? place = some (.folder entries)) (name : String) :
    tree.at? (place ++ [name]) = entries.lookup name := by
  induction place generalizing tree with
  | nil =>
    obtain rfl := Option.some.inj h
    rw [List.nil_append, at?_folder_cons]
    cases entries.lookup name <;> rfl
  | cons first rest ih =>
    cases tree with
    | folder outer =>
      obtain ⟨e, hlookup, he⟩ := Option.bind_eq_some_iff.mp h
      rw [List.cons_append, at?_folder_cons, hlookup]
      exact ih he
    | file | link => cases h

/-- Above what is found lies a folder. -/
lemma exists_folder_of_at?_concat {e : Entry} (h : tree.at? (place ++ [name]) = some e) :
    ∃ entries, tree.at? place = some (.folder entries) := by
  induction place generalizing tree with
  | nil =>
    cases tree with
    | folder entries => exact ⟨entries, rfl⟩
    | file | link => cases h
  | cons first rest ih =>
    cases tree with
    | folder outer =>
      obtain ⟨inner, hlookup, hinner⟩ := Option.bind_eq_some_iff.mp h
      obtain ⟨entries, hentries⟩ := ih hinner
      exact ⟨entries, by rw [at?_folder_cons, hlookup]; exact hentries⟩
    | file | link => cases h

/-- There is room in a folder for a name that is free or is the name of a file. -/
lemma hasRoom_concat (hfolder : tree.at? place = some (.folder entries))
    (h : ∀ e, entries.lookup name = some e → e.shape = .file) : tree.HasRoom (place ++ [name]) := by
  induction place generalizing tree with
  | nil =>
    obtain rfl := Option.some.inj hfolder
    cases hlookup : entries.lookup name with
    | none => exact .fresh hlookup
    | some e =>
      cases e with
      | file content => exact .within hlookup (.onto content)
      | folder | link => cases h _ hlookup
  | cons first rest ih =>
    cases tree with
    | folder outer =>
      obtain ⟨e, hlookup, he⟩ := Option.bind_eq_some_iff.mp hfolder
      exact .within hlookup (ih he)
    | file | link => cases hfolder

/-- Putting an entry under a name changes what is looked up under this name only. -/
lemma lookup_putIn (name n : String) (e : Entry) (entries : List (String × Entry)) :
    (putIn name e entries).lookup n = if n = name then some e else entries.lookup n := by
  induction entries with
  | nil =>
    by_cases hn : n = name
    · simp [putIn, hn]
    · simp [putIn, List.lookup_cons, beq_false_of_ne hn, hn]
  | cons entry rest ih =>
    obtain ⟨m, old⟩ := entry
    by_cases hm : m = name
    · subst hm
      by_cases hn : n = m
      · simp [putIn, hn]
      · simp [putIn, List.lookup_cons, beq_false_of_ne hn, hn]
    · by_cases hn : n = m
      · simp [putIn, hm, hn]
      · simp [putIn, List.lookup_cons, beq_false_of_ne hn, hm, ih]

/-- Putting an entry at a place below a folder changes what is below the first name of the place
only. -/
lemma at?_putAt_cons (entries : List (String × Entry)) (name n : String) (rest q : List String)
    (e : Entry) :
    ((Entry.folder entries).putAt (name :: rest) e).at? (n :: q) =
      if n = name then (((entries.lookup name).getD (.folder [])).putAt rest e).at? q
      else (Entry.folder entries).at? (n :: q) := by
  rw [putAt, at?_folder_cons, lookup_putIn]
  split <;> rfl

/-- **Putting a file at a place changes the shape of nothing else.** -/
lemma HasRoom.filled (h : tree.HasRoom place) (content : Bytes) :
    Filled tree (tree.putAt place (.file content)) place content := by
  induction h with
  | onto old =>
    refine ⟨rfl, ?_, ?_⟩
    · intro e he
      obtain rfl := Option.some.inj he
      rfl
    · intro q hq
      rw [putAt, at?_file, at?_file, if_neg hq, if_neg hq]
  | @fresh entries name hlookup =>
    refine ⟨?_, ?_, ?_⟩
    · rw [at?_putAt_cons, if_pos rfl]
      rfl
    · intro e he
      simp [at?_folder_cons, hlookup] at he
    · rintro (_ | ⟨n, q⟩) hq
      · rfl
      · rw [at?_putAt_cons]
        split
        next hn =>
          -- below the new file there is as little as there was before
          subst hn
          rw [at?_folder_cons, hlookup, putAt, at?_file, if_neg fun h => hq (by rw [h])]
          rfl
        next => rfl
  | @within entries name e rest hlookup _ ih =>
    refine ⟨?_, ?_, ?_⟩
    · rw [at?_putAt_cons, if_pos rfl, hlookup]
      exact ih.self
    · intro e' he'
      rw [at?_folder_cons, hlookup] at he'
      exact ih.room e' he'
    · rintro (_ | ⟨n, q⟩) hq
      · rfl
      · rw [at?_putAt_cons]
        split
        next hn =>
          subst hn
          rw [at?_folder_cons, hlookup]
          exact ih.other q fun h => hq (by rw [h])
        next => rfl

/-- Folders stay folders, and what lies in them keeps its shape, but for the new file. -/
lemma Filled.folder {new : Entry} {q : List String} {content : Bytes}
    (h : Filled tree new place content) (hq : tree.at? q = some (.folder entries)) :
    ∃ entries', new.at? q = some (.folder entries') ∧ ∀ name,
      (entries'.lookup name).map shape =
        if q ++ [name] = place then some .file else (entries.lookup name).map shape := by
  have hne : q ≠ place := by
    rintro rfl
    cases h.room _ hq
  have hshape := h.other q hne
  rw [hq] at hshape
  obtain ⟨e, he, hfolder⟩ := Option.map_eq_some_iff.mp hshape
  obtain ⟨entries', rfl⟩ := eq_folder_of_shape hfolder
  refine ⟨entries', he, fun name => ?_⟩
  rw [← at?_concat_of_folder he name, ← at?_concat_of_folder hq name]
  split
  next hplace =>
    rw [hplace, h.self]
    rfl
  next hother => exact h.other _ hother

end Entry

/-! ## Following the same way again -/

namespace FileSystem

open Entry

variable {root new : Entry} {done todo : List String} {found : Located}

/-- Follows an ordinary name, with the entry of that name in the folder where the way has come
to. -/
def enter (root : Entry) (purpose : Purpose) (done : List String) (name : String)
    (rest : List String) (entry : Option Entry) : Walk :=
  match entry.map shape with
  | some (.link target) =>
    .diverted (if Path.isAbsolute target then [] else done) (Path.components target ++ rest)
  | _ =>
    if rest.isEmpty then .arrived ⟨(name :: done).reverse, entry⟩
    else if entry.isNone then .stuck .missing
    else walk root purpose (name :: done) rest

/-- A link diverts the way to its target. -/
lemma enter_of_link {entry : Option Entry} {target : String}
    (h : entry.map shape = some (.link target)) (root : Entry) (purpose : Purpose)
    (done : List String) (name : String) (rest : List String) :
    enter root purpose done name rest entry =
      .diverted (if Path.isAbsolute target then [] else done) (Path.components target ++ rest) := by
  rw [enter, h]

/-- What is no link is arrived at, or passed through. -/
lemma enter_of_not_link {entry : Option Entry}
    (h : ∀ target, entry.map shape ≠ some (.link target)) (root : Entry) (purpose : Purpose)
    (done : List String) (name : String) (rest : List String) :
    enter root purpose done name rest entry =
      if rest.isEmpty then .arrived ⟨(name :: done).reverse, entry⟩
      else if entry.isNone then .stuck .missing
      else walk root purpose (name :: done) rest := by
  rw [enter]
  split
  next target htarget => exact absurd htarget (h target)
  next => rfl

/-- Names are only followed from folders. -/
lemma exists_stuck_or_folder (root : Entry) (purpose : Purpose) (done : List String) (name : String)
    (rest : List String) :
    (∃ reason, walk root purpose done (name :: rest) = .stuck reason) ∨
      ∃ entries, root.at? done.reverse = some (.folder entries) := by
  rw [walk]
  cases root.at? done.reverse with
  | none => exact .inl ⟨.missing, rfl⟩
  | some e =>
    cases e with
    | file | link => exact .inl ⟨.notFolder, rfl⟩
    | folder entries => exact .inr ⟨entries, rfl⟩

/-- **What one name does on a way for writing** that does not get stuck: it leads from a folder to
that folder or the one around it, or it is the name of an entry.  It does the same in every tree
with a folder there. -/
lemma walk_cons_cases {name : String} {rest : List String}
    (h : ∀ reason, walk root .write done (name :: rest) ≠ .stuck reason) :
    (∃ next, (next = done ∨ next = done.tail) ∧
      ∀ tree purpose entries, tree.at? done.reverse = some (.folder entries) →
        walk tree purpose done (name :: rest) = walk tree purpose next rest) ∨
    ∀ tree purpose entries, purpose ≠ .make → tree.at? done.reverse = some (.folder entries) →
      walk tree purpose done (name :: rest) =
        enter tree purpose done name rest (entries.lookup name) := by
  obtain ⟨reason, hstuck⟩ | ⟨entries, hfolder⟩ := exists_stuck_or_folder root .write done name rest
  · exact absurd hstuck (h reason)
  by_cases hstay : (name == "" || name == ".") = true
  · refine .inl ⟨done, .inl rfl, fun tree purpose entries hfolder => ?_⟩
    rw [walk, hfolder]
    exact if_pos hstay
  by_cases hup : (name == "..") = true
  · refine .inl ⟨done.tail, .inr rfl, fun tree purpose entries hfolder => ?_⟩
    rw [walk, hfolder]
    exact (if_neg hstay).trans (if_pos hup)
  have hslashes : ¬ (!rest.isEmpty && rest.all (· == "")) = true := fun hslashes => by
    refine h .isFolder ?_
    rw [walk, hfolder]
    exact (if_neg hstay).trans ((if_neg hup).trans (if_pos hslashes))
  have hlong : ¬ nameLimit < name.utf8ByteSize := fun hlong => by
    refine h .nameTooLong ?_
    rw [walk, hfolder]
    exact (if_neg hstay).trans ((if_neg hup).trans ((if_neg hslashes).trans (if_pos hlong)))
  refine .inr fun tree purpose entries hp hfolder => ?_
  rw [walk, hfolder]
  simp only [hstay, hup, hslashes, hlong, hp, decide_false, Bool.and_false, Bool.or_false,
    if_false, Bool.false_eq_true]
  cases entries.lookup name with
  | none => rfl
  | some e => cases e <;> rfl

/-- Around a folder is a folder; the root is around itself. -/
lemma exists_folder_tail {entries : List (String × Entry)}
    (h : root.at? done.reverse = some (.folder entries)) :
    ∃ entries, root.at? done.tail.reverse = some (.folder entries) := by
  cases done with
  | nil => exact ⟨entries, h⟩
  | cons name done =>
    rw [List.reverse_cons] at h
    exact exists_folder_of_at?_concat h

/-- Every path has a component. -/
lemma components_ne_nil (path : String) : Path.components path ≠ [] := by
  obtain ⟨first, others, h⟩ := Text.exists_splitAt_eq_cons '/' path.toList
  rw [Path.components, h]
  nofun

/-- Where a way for writing leads: to a folder, to a place with **room for a file**, or on from
another place with names to follow. -/
def Walk.Fits (root : Entry) : Walk → Prop
  | .arrived found =>
    (∀ entries, found.entry ≠ some (.folder entries)) → root.HasRoom found.place
  | .diverted _ todo => todo ≠ []
  | .stuck _ => True

/-- An ordinary name leads to a folder, to a place with room, or on. -/
lemma fits_enter {entries : List (String × Entry)} {name : String} {rest : List String}
    (hfolder : root.at? done.reverse = some (.folder entries))
    (hrest : rest ≠ [] → (walk root .write (name :: done) rest).Fits root) :
    (enter root .write done name rest (entries.lookup name)).Fits root := by
  by_cases hlink : ∃ target, (entries.lookup name).map shape = some (.link target)
  · obtain ⟨target, hlink⟩ := hlink
    rw [enter_of_link hlink]
    exact List.append_ne_nil_of_left_ne_nil (components_ne_nil target) rest
  · rw [enter_of_not_link (not_exists.mp hlink)]
    split
    next =>
      refine fun hno => List.reverse_cons ▸ hasRoom_concat hfolder fun e he => ?_
      cases e with
      | file => rfl
      | folder inner => exact absurd he (hno inner)
      | link target => exact absurd ⟨target, by rw [he]; rfl⟩ hlink
    next hlast =>
      split
      · trivial
      · exact hrest (mt List.isEmpty_iff.mpr hlast)

/-- A walk towards a file to write ends at a place for which there is room, if it ends. -/
lemma fits_walk (h : todo ≠ [] ∨ ∃ entries, root.at? done.reverse = some (.folder entries)) :
    (walk root .write done todo).Fits root := by
  induction todo generalizing done with
  | nil =>
    obtain h | ⟨entries, hfolder⟩ := h
    · exact absurd rfl h
    · exact fun hno => absurd hfolder (hno entries)
  | cons name rest ih =>
    by_cases hway : ∃ reason, walk root .write done (name :: rest) = .stuck reason
    · obtain ⟨reason, hstuck⟩ := hway
      rw [hstuck]
      trivial
    obtain ⟨entries, hfolder⟩ :=
      (exists_stuck_or_folder root .write done name rest).resolve_left hway
    obtain ⟨next, hnext, hstep⟩ | hstep := walk_cons_cases (not_exists.mp hway)
    · rw [hstep root .write entries hfolder]
      refine ih (.inr ?_)
      obtain rfl | rfl := hnext
      · exact ⟨entries, hfolder⟩
      · exact exists_folder_tail hfolder
    · rw [hstep root .write entries nofun hfolder]
      exact fits_enter hfolder fun hrest => ih (.inl hrest)

/-- The way arrives at a place, or meets a link before. -/
def Walk.Reaches (place : List String) : Walk → Prop
  | .arrived found => found.place = place
  | .diverted _ _ => True
  | .stuck _ => False

/-- A walk that reaches a place is not stuck. -/
lemma Walk.Reaches.ne_stuck {way : Walk} {place : List String} (h : way.Reaches place)
    (reason : SystemReason) : way ≠ .stuck reason := by
  rintro rfl
  exact h

/-- Where a way leads once a file is written at its end. -/
def Walk.filled (content : Bytes) : Walk → Walk
  | .arrived found => .arrived ⟨found.place, some (.file content)⟩
  | way => way

section Filled

variable {place : List String} {content : Bytes} {purpose : Purpose}

/-- **One name leads on as before**, if the names behind it do. -/
lemma enter_of_filled {entries entries' : List (String × Entry)} {name : String}
    {rest : List String} (hf : Filled root new place content)
    (hfolder : root.at? done.reverse = some (.folder entries))
    (hnew : new.at? done.reverse = some (.folder entries'))
    (hname : (entries'.lookup name).map shape =
      if (name :: done).reverse = place then some .file else (entries.lookup name).map shape)
    (hrest : (walk root .write (name :: done) rest).Reaches place →
      walk new purpose (name :: done) rest = (walk root .write (name :: done) rest).filled content)
    (h : (enter root .write done name rest (entries.lookup name)).Reaches place) :
    enter new purpose done name rest (entries'.lookup name) =
      (enter root .write done name rest (entries.lookup name)).filled content := by
  by_cases hlink : ∃ target, (entries.lookup name).map shape = some (.link target)
  · obtain ⟨target, hlink⟩ := hlink
    have hhere : (name :: done).reverse ≠ place := fun hhere => by
      obtain ⟨e, he, hshape⟩ := Option.map_eq_some_iff.mp hlink
      rw [← at?_concat_of_folder hfolder, ← List.reverse_cons, hhere] at he
      cases hshape.symm.trans (hf.room e he)
    rw [if_neg hhere, hlink] at hname
    rw [enter_of_link hlink, enter_of_link hname]
    rfl
  · have hlink' : ∀ target, (entries'.lookup name).map shape ≠ some (.link target) := by
      intro target htarget
      rw [htarget] at hname
      split at hname
      · cases hname
      · exact hlink ⟨target, hname.symm⟩
    rw [enter_of_not_link (not_exists.mp hlink)] at h ⊢
    rw [enter_of_not_link hlink']
    by_cases hlast : rest.isEmpty
    · -- the way ends here, so here is the new file
      rw [if_pos hlast] at h ⊢
      obtain rfl : (name :: done).reverse = place := h
      rw [if_pos hlast, ← at?_concat_of_folder hnew, ← List.reverse_cons, hf.self]
      rfl
    · rw [if_neg hlast] at h ⊢
      rw [if_neg hlast]
      cases hlookup : entries.lookup name with
      | none =>
        rw [hlookup] at h
        exact h.elim
      | some e =>
        rw [hlookup] at hname h
        cases hlookup' : entries'.lookup name with
        | none =>
          rw [hlookup'] at hname
          split at hname <;> cases hname
        | some e' => exact hrest h

/-- **The same names lead to the same place**, or to the same link, once the file is written. -/
lemma walk_of_filled (hf : Filled root new place content) (hp : purpose ≠ .make)
    (h : (walk root .write done todo).Reaches place) :
    walk new purpose done todo = (walk root .write done todo).filled content := by
  induction todo generalizing done with
  | nil =>
    obtain rfl : done.reverse = place := h
    rw [walk, hf.self]
    rfl
  | cons name rest ih =>
    obtain ⟨reason, hstuck⟩ | ⟨entries, hfolder⟩ :=
      exists_stuck_or_folder root .write done name rest
    · exact absurd hstuck (h.ne_stuck reason)
    obtain ⟨entries', hnew, hentries⟩ := hf.folder hfolder
    obtain ⟨next, -, hstep⟩ | hstep := walk_cons_cases h.ne_stuck
    · rw [hstep root .write entries hfolder] at h ⊢
      rw [hstep new purpose entries' hnew]
      exact ih h
    · rw [hstep root .write entries nofun hfolder] at h ⊢
      rw [hstep new purpose entries' hp hnew]
      have hname := hentries name
      rw [← List.reverse_cons] at hname
      exact enter_of_filled hf hfolder hnew hname ih h

end Filled

/-! ## Following links on the way -/

/-- A way for writing ends without a link, or it goes on behind one. -/
lemma walk_of_locateFrom {links : Nat} (h : locateFrom root .write links done todo = .ok found) :
    walk root .write done todo = .arrived found ∨
      ∃ rest done' todo', links = rest + 1 ∧ walk root .write done todo = .diverted done' todo' ∧
        locateFrom root .write rest done' todo' = .ok found := by
  unfold locateFrom at h
  split at h
  next hw => exact .inl (hw.trans (congrArg _ (Except.ok.inj h)))
  next => cases h
  next => cases h
  next done' todo' rest hw => exact .inr ⟨rest, done', todo', rfl, hw, h⟩

/-- **Where a path for writing leads, there is room for a file**, unless a folder is there. -/
lemma hasRoom_of_locateFrom {links : Nat} (htodo : todo ≠ [])
    (h : locateFrom root .write links done todo = .ok found)
    (hno : ∀ entries, found.entry ≠ some (.folder entries)) : root.HasRoom found.place := by
  induction links using Nat.strongRecOn generalizing done todo with
  | ind links ih =>
    have hfits : (walk root .write done todo).Fits root := fits_walk (.inl htodo)
    obtain hw | ⟨rest, done', todo', rfl, hw, hrest⟩ := walk_of_locateFrom h
    · rw [hw] at hfits
      exact hfits hno
    · rw [hw] at hfits
      exact ih rest (Nat.lt_succ_self rest) hfits hrest

/-- **The way to a file is the same once it is written.** -/
lemma locateFrom_of_filled {links : Nat} {content : Bytes} {purpose : Purpose}
    (hf : Filled root new found.place content) (hp : purpose ≠ .make)
    (h : locateFrom root .write links done todo = .ok found) :
    locateFrom new purpose links done todo = .ok ⟨found.place, some (.file content)⟩ := by
  induction links using Nat.strongRecOn generalizing done todo with
  | ind links ih =>
    obtain hw | ⟨rest, done', todo', rfl, hw, hrest⟩ := walk_of_locateFrom h
    · have hnew : walk new purpose done todo = .arrived ⟨found.place, some (.file content)⟩ := by
        rw [walk_of_filled hf hp (by rw [hw]; rfl), hw]
        rfl
      unfold locateFrom
      rw [hnew]
    · have hnew : walk new purpose done todo = .diverted done' todo' := by
        rw [walk_of_filled hf hp (by rw [hw]; trivial), hw]
        rfl
      unfold locateFrom
      rw [hnew]
      exact ih rest (Nat.lt_succ_self rest) hrest

variable {fs fs' : FileSystem} {path : String} {content : Bytes}

/-- A file is written where its path leads, unless a folder is there. -/
lemma exists_located_of_write (h : fs.write path content = .ok fs') :
    ∃ found, fs.locate .write path = .ok found ∧
      (∀ entries, found.entry ≠ some (.folder entries)) ∧
      fs' = { fs with root := fs.root.putAt found.place (.file content) } := by
  rw [write] at h
  split at h
  next => cases h
  next found hfound =>
    split at h
    next => cases h
    next hno => exact ⟨found, hfound, hno, (Except.ok.inj h).symm⟩

/-- A file that was written is found under its path. -/
lemma locate_of_write {purpose : Purpose} (h : fs.write path content = .ok fs')
    (hp : purpose ≠ .make) :
    ∃ place, fs'.locate purpose path = .ok ⟨place, some (.file content)⟩ := by
  obtain ⟨found, hfound, hno, rfl⟩ := exists_located_of_write h
  rw [locate] at hfound ⊢
  cases hfault : pathFault? path with
  | some reason =>
    rw [hfault] at hfound
    cases hfound
  | none =>
    rw [hfault] at hfound
    have hroom := hasRoom_of_locateFrom (components_ne_nil _) hfound hno
    exact ⟨found.place, locateFrom_of_filled (hroom.filled content) hp hfound⟩

/-- **What was written is read.** -/
lemma read_of_write (h : fs.write path content = .ok fs') : fs'.read path = .ok content := by
  obtain ⟨place, hplace⟩ := locate_of_write h (show Purpose.look ≠ .make from nofun)
  rw [read, hplace]

/-- A file that was written can be written again. -/
lemma exists_write_of_write (h : fs.write path content = .ok fs') (other : Bytes) :
    ∃ fs'', fs'.write path other = .ok fs'' := by
  obtain ⟨place, hplace⟩ := locate_of_write h (show Purpose.write ≠ .make from nofun)
  rw [write, hplace]
  exact ⟨_, rfl⟩

end FileSystem

end Marginalia
