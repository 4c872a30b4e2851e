import Marginalia.Files.Batch
import Marginalia.Proofs.Files.Paths
import Marginalia.Proofs.Link.Placing
import Mathlib.Algebra.Ring.Nat
import Mathlib.Data.List.Induction

/-!
# Files of a batch are linked on their own

A batch over a folder links its files one after the other, and hands on statistics and records from
file to file.  Still each file comes out as if it were linked alone: linking a file only adds to the
records, and never reads them.  A file that fails is counted and reported, and then either the batch
goes on, or it stops with the failure of that file.

## Main definitions

* `Filing.Additive` — an operation on files adds to the records and does not depend on them.
* `linkAlone` — what linking a file on its own comes to.
* `LinkStats.Counts` — how counters grow over linked and failed files.
* `Batch.after` — a batch after one more file.
* `Batch.Covers` — what a batch has done after some files.

## Main results

* `additive_linkFile` — linking a file only adds to the records.
* `Batch.linkEach_of_goesOn`, `Batch.linkEach_stops` — a batch over files, with and without a stop.
* `Batch.linkFolder_isolates` — the files of a folder are linked on their own.
-/

namespace Marginalia

/-! ## Operations that only add records -/

namespace Filing

variable {α β : Type}

/-- How an operation ends, with these records. -/
def finish : Except FileFailure α → Records → EStateM.Result FileFailure Records α
  | .ok a, records => .ok a records
  | .error failure, records => .error failure records

/-- What an operation comes to if nothing is recorded yet. -/
def outcome (operation : Filing α) : Except FileFailure α :=
  match operation #[] with
  | .ok a _ => .ok a
  | .error failure _ => .error failure

/-- What an operation records. -/
def noted (operation : Filing α) : Records :=
  match operation #[] with
  | .ok _ records => records
  | .error _ records => records

/-- The operation **adds to the records** and does not depend on them. -/
def Additive (operation : Filing α) : Prop :=
  ∃ result more, ∀ records, operation records = finish result (records ++ more)

/-- An operation that adds to the records comes everywhere to what it comes to on its own. -/
lemma Additive.apply_eq {operation : Filing α} (h : Additive operation) (records : Records) :
    operation records = finish operation.outcome (records ++ operation.noted) := by
  obtain ⟨result, more, hop⟩ := h
  have hstart := hop #[]
  rw [Array.empty_append] at hstart
  rw [hop, outcome, noted, hstart]
  cases result <;> rfl

/-- Returning a value is additive. -/
lemma additive_pure (a : α) : Additive (pure a : Filing α) :=
  ⟨.ok a, #[], fun records => by rw [Array.append_empty]; rfl⟩

/-- Failing is additive. -/
lemma additive_throw (failure : FileFailure) : Additive (throw failure : Filing α) :=
  ⟨.error failure, #[], fun records => by rw [Array.append_empty]; rfl⟩

/-- Noting an event is additive. -/
lemma additive_noteIn (file : String) (e : Event) : Additive (noteIn file e) :=
  ⟨.ok (), #[⟨file, e⟩], fun _ => rfl⟩

/-- Work on one source is additive. -/
lemma additive_onSource (file : String) (operation : Sourcing α) :
    Additive (onSource file operation) := by
  unfold onSource
  cases operation #[] with
  | ok a journal => exact ⟨.ok a, _, fun _ => rfl⟩
  | error cause journal => exact ⟨.error (.source cause), _, fun _ => rfl⟩

/-- One operation that adds to the records, and then another one. -/
lemma Additive.bind {operation : Filing α} {next : α → Filing β} (h : Additive operation)
    (hn : ∀ a, Additive (next a)) : Additive (operation >>= next) := by
  obtain ⟨result, more, hop⟩ := h
  cases result with
  | error failure =>
    exact ⟨.error failure, more, fun records => bind_apply_of_error (hop records)⟩
  | ok a =>
    obtain ⟨result', more', hnext⟩ := hn a
    refine ⟨result', more ++ more', fun records => ?_⟩
    rw [bind_apply_of_ok (hop records), hnext, Array.append_assoc]

/-- A choice between operations that add to the records. -/
lemma Additive.ite {c : Prop} [Decidable c] {operation other : Filing α} (h : Additive operation)
    (h' : Additive other) : Additive (if c then operation else other) := by
  split
  · exact h
  · exact h'

end Filing

open Filing

/-- Parsing a file is additive. -/
lemma additive_parseFile (w : Workspace) (scope path : String) :
    Additive (parseFile w scope path) := by
  unfold parseFile
  split
  · split
    · exact (additive_noteIn _ _).bind fun _ => additive_throw _
    · exact (additive_pure _).bind fun _ => additive_throw _
    · exact (additive_noteIn _ _).bind fun _ => additive_throw _
  · refine (additive_onSource _ _).bind fun parsed => ?_
    exact (additive_noteIn _ _).bind fun _ => additive_pure _

/-- Linking a parsed file is additive. -/
lemma additive_linkParsed (settings : LinkSettings) (path : String) (bytes : Bytes)
    (parsed : ParseTree) : Additive (linkParsed settings path bytes parsed) := by
  obtain ⟨result, more, h⟩ := additive_onSource path (Source.linkTree settings path bytes parsed)
  cases result with
  | ok r =>
    refine ⟨.ok r, more.push ⟨path, .fileLinked r.comments.length r.map.size path⟩,
      fun records => ?_⟩
    simp only [linkParsed, h, finish, Array.append_push]
  | error failure =>
    by_cases hlinking : failure.category = .linking
    · refine ⟨.error failure, more.push ⟨path, .fileFailed path failure.message⟩, fun records => ?_⟩
      simp only [linkParsed, h, finish, hlinking, Array.append_push]
    · refine ⟨.error failure, more, fun records => ?_⟩
      simp only [linkParsed, h, finish]

/-- **Linking a file only adds to the records.** -/
lemma additive_linkFile (w : Workspace) (settings : FileSettings) (path : String) :
    Additive (linkFile w settings path) := by
  unfold linkFile
  dsimp only
  refine Additive.ite (additive_throw _) (Additive.ite (additive_throw _) ?_)
  refine (additive_parseFile w _ _).bind ?_
  rintro ⟨parsed, bytes⟩
  exact additive_linkParsed ..

-- irreducible, as unfolding it sets out to link the file
/-- What linking a file on its own comes to. -/
@[irreducible] def linkAlone (w : Workspace) (settings : FileSettings) (path : String) :
    Except FileFailure LinkResult :=
  (linkFile w settings path).outcome

/-! ## Counting files -/

/-- The counters **grow by what the linked files hold and by the failed files**. -/
structure LinkStats.Counts (before after : LinkStats) (linked : List LinkResult) (failed : Nat) :
    Prop where
  filesProcessed : after.filesProcessed = before.filesProcessed + linked.length
  filesFailed : after.filesFailed = before.filesFailed + failed
  commentsSeen : after.commentsSeen =
    before.commentsSeen + (linked.map fun r => r.comments.length).sum
  entriesWritten : after.entriesWritten =
    before.entriesWritten + (linked.map fun r => r.map.size).sum
  placeholdersInserted : after.placeholdersInserted =
    before.placeholdersInserted + (linked.map fun r => r.tree.placeholderCount).sum
  parseErrors : after.parseErrors = before.parseErrors + (linked.map fun r => r.parseErrors).sum

namespace LinkStats.Counts

variable {before after : LinkStats} {linked : List LinkResult} {failed : Nat}

/-- Statistics count nothing towards themselves. -/
lemma refl (stats : LinkStats) : Counts stats stats [] 0 := by
  constructor <;> rfl

/-- Recording a result counts one more linked file. -/
lemma record (h : Counts before after linked failed) (r : LinkResult) :
    Counts before (after.record r) (linked ++ [r]) failed := by
  obtain ⟨hprocessed, hfailed, hcomments, hentries, hplaceholders, herrors⟩ := h
  constructor <;> simp [LinkStats.record, *] <;> omega

/-- Recording a failure counts one more failed file. -/
lemma recordFailure (h : Counts before after linked failed) :
    Counts before after.recordFailure linked (failed + 1) := by
  obtain ⟨hprocessed, hfailed, hcomments, hentries, hplaceholders, herrors⟩ := h
  constructor <;> simp [LinkStats.recordFailure, *]
  omega

end LinkStats.Counts

/-! ## One file after the other -/

namespace Batch

section

variable (w : Workspace) (settings : FileSettings)

/-- What a batch records about a file. -/
def reported (path : String) : Records :=
  match linkAlone w settings path with
  | .ok _ => (linkFile w settings path).noted
  | .error failure => (linkFile w settings path).noted.push ⟨noFile, skipped path failure⟩

/-- A batch after one more file. -/
def after (b : Batch) (path : String) : Batch :=
  let records := b.records ++ reported w settings path
  match linkAlone w settings path with
  | .ok r => ⟨b.results.push r, b.stats.record r, records⟩
  | .error _ => ⟨b.results, b.stats.recordFailure, records⟩

/-- The results of those files that can be linked on their own. -/
def linked (paths : List String) : List LinkResult :=
  paths.filterMap fun path => (linkAlone w settings path).toOption

/-- The files that cannot be linked on their own. -/
def failing (paths : List String) : List String :=
  paths.filter fun path => !(linkAlone w settings path).isOk

end

section Each

variable {w : Workspace} {settings : FileSettings} {goOn : Bool} {b : Batch} {path : String}
  {rest before : List String} {r : LinkResult} {failure : FileFailure}

/-- Noting an event only adds a record. -/
lemma note_apply (e : Event) (b : Batch) :
    note e b = .ok () { b with records := b.records.push ⟨noFile, e⟩ } := rfl

/-- An operation that adds to the records is tried in a batch as on its own. -/
lemma attempt_of_additive {α : Type} {operation : Filing α} (h : Additive operation) (b : Batch) :
    attempt operation b = .ok operation.outcome
      { b with records := b.records ++ operation.noted } := by
  rw [attempt, h.apply_eq b.records]
  cases operation.outcome <;> rfl

/-- A file is tried in a batch as on its own. -/
lemma attempt_linkFile (w : Workspace) (settings : FileSettings) (path : String) (b : Batch) :
    attempt (linkFile w settings path) b = .ok (linkAlone w settings path)
      { b with records := b.records ++ (linkFile w settings path).noted } := by
  have h := attempt_of_additive (additive_linkFile w settings path) b
  unfold linkAlone
  exact h

/-- After a file that can be linked the batch holds its result. -/
lemma after_of_ok (h : linkAlone w settings path = .ok r) :
    b.after w settings path = ⟨b.results.push r, b.stats.record r,
      b.records ++ (linkFile w settings path).noted⟩ := by
  simp only [after, reported, h]

/-- After a file that cannot be linked the batch holds a failure and a note that it is skipped. -/
lemma after_of_error (h : linkAlone w settings path = .error failure) :
    b.after w settings path = ⟨b.results, b.stats.recordFailure,
      (b.records ++ (linkFile w settings path).noted).push ⟨noFile, skipped path failure⟩⟩ := by
  simp only [after, reported, h, Array.append_push]

/-- A file that can be linked is taken in, and the batch goes on. -/
lemma linkEach_cons_ok (h : linkAlone w settings path = .ok r) :
    linkEach (View.still w) settings goOn (path :: rest) b =
      linkEach (View.still w) settings goOn rest (b.after w settings path) := by
  have hattempt := attempt_linkFile w settings path b
  have haccept : ∀ c : Batch, accept r c = .ok () ⟨c.results.push r, c.stats.record r, c.records⟩ :=
    fun _ => rfl
  rw [h] at hattempt
  rw [linkEach, get_bind_apply, View.still, bind_apply_of_ok hattempt]
  dsimp only
  rw [bind_apply_of_ok (haccept _), after_of_ok h]

/-- A file that fails is reported and counted, and the batch goes on or stops with its failure. -/
lemma linkEach_cons_error (h : linkAlone w settings path = .error failure) :
    linkEach (View.still w) settings goOn (path :: rest) b =
      if goOn then linkEach (View.still w) settings goOn rest (b.after w settings path)
      else .error failure (b.after w settings path) := by
  have hattempt := attempt_linkFile w settings path b
  have hcount : ∀ c : Batch, countFailure c = .ok () { c with stats := c.stats.recordFailure } :=
    fun _ => rfl
  rw [h] at hattempt
  rw [linkEach, get_bind_apply, View.still, bind_apply_of_ok hattempt]
  dsimp only
  rw [bind_apply_of_ok (note_apply _ _), bind_apply_of_ok (hcount _), after_of_error h]
  cases goOn with
  | true => rfl
  | false => rfl

/-- **A batch that goes on, or that meets no failure, gets through all files.** -/
lemma linkEach_of_goesOn {paths : List String}
    (h : goOn = true ∨ ∀ path ∈ paths, ∃ r, linkAlone w settings path = .ok r) :
    linkEach (View.still w) settings goOn paths b =
      .ok () (paths.foldl (after w settings) b) := by
  induction paths generalizing b with
  | nil => rfl
  | cons path rest ih =>
    have hrest := ih (b := b.after w settings path)
      (h.imp_right fun hall p hp => hall p (List.mem_cons_of_mem _ hp))
    rw [List.foldl_cons, ← hrest]
    cases halone : linkAlone w settings path with
    | ok r => exact linkEach_cons_ok halone
    | error failure =>
      rcases h with rfl | hall
      · exact (linkEach_cons_error halone).trans (if_pos rfl)
      · obtain ⟨r, hr⟩ := hall path (List.mem_cons_self ..)
        rw [halone] at hr
        cases hr

/-- **A batch that does not go on stops at the first failure**, whatever comes behind it. -/
lemma linkEach_stops (hbefore : ∀ p ∈ before, ∃ r, linkAlone w settings p = .ok r)
    (h : linkAlone w settings path = .error failure) :
    linkEach (View.still w) settings false (before ++ path :: rest) b =
      .error failure ((before ++ [path]).foldl (after w settings) b) := by
  induction before generalizing b with
  | nil =>
    rw [List.nil_append, List.nil_append, linkEach_cons_error h, if_neg Bool.false_ne_true,
      List.foldl_cons, List.foldl_nil]
  | cons p before ih =>
    obtain ⟨r, hr⟩ := hbefore p (List.mem_cons_self ..)
    rw [List.cons_append, linkEach_cons_ok hr, ih fun q hq => hbefore q (List.mem_cons_of_mem _ hq),
      List.cons_append, List.foldl_cons]

/-- What a batch `c` has done more than the batch `b`, after some files. -/
structure Covers (w : Workspace) (settings : FileSettings) (b c : Batch) (paths : List String) :
    Prop where
  results : c.results.toList = b.results.toList ++ linked w settings paths
  counts : b.stats.Counts c.stats (linked w settings paths) (failing w settings paths).length
  records : c.records.toList =
    b.records.toList ++ paths.flatMap fun path => (reported w settings path).toList

/-- A file that can be linked comes last among the linked ones. -/
lemma linked_concat_of_ok (paths : List String) (h : linkAlone w settings path = .ok r) :
    linked w settings (paths ++ [path]) = linked w settings paths ++ [r] ∧
      failing w settings (paths ++ [path]) = failing w settings paths := by
  simp [linked, failing, h, Except.toOption, Except.isOk, Except.toBool]

/-- A file that cannot be linked comes last among the failing ones. -/
lemma linked_concat_of_error (paths : List String)
    (h : linkAlone w settings path = .error failure) :
    linked w settings (paths ++ [path]) = linked w settings paths ∧
      failing w settings (paths ++ [path]) = failing w settings paths ++ [path] := by
  simp [linked, failing, h, Except.toOption, Except.isOk, Except.toBool]

/-- Among files that can all be linked none fails. -/
lemma failing_eq_nil {paths : List String}
    (h : ∀ path ∈ paths, ∃ r, linkAlone w settings path = .ok r) :
    failing w settings paths = [] := by
  refine List.filter_eq_nil_iff.mpr fun path hpath => ?_
  obtain ⟨r, hr⟩ := h path hpath
  simp [hr, Except.isOk, Except.toBool]

/-- Each file is linked or fails. -/
lemma length_linked_add_failing (w : Workspace) (settings : FileSettings) (paths : List String) :
    (linked w settings paths).length + (failing w settings paths).length = paths.length := by
  induction paths using List.reverseRecOn with
  | nil => rfl
  | append_singleton paths path ih =>
    cases halone : linkAlone w settings path with
    | ok r =>
      obtain ⟨hlinked, hfailing⟩ := linked_concat_of_ok paths halone
      simp only [hlinked, hfailing, List.length_append, List.length_singleton]
      omega
    | error failure =>
      obtain ⟨hlinked, hfailing⟩ := linked_concat_of_error paths halone
      simp only [hlinked, hfailing, List.length_append, List.length_singleton]
      omega

/-- **One more file** is covered. -/
lemma Covers.after {c : Batch} {paths : List String} (h : Covers w settings b c paths)
    (path : String) : Covers w settings b (c.after w settings path) (paths ++ [path]) := by
  obtain ⟨hresults, hcounts, hrecords⟩ := h
  cases halone : linkAlone w settings path with
  | ok r =>
    obtain ⟨hlinked, hfailing⟩ := linked_concat_of_ok paths halone
    refine ⟨?_, ?_, ?_⟩
    · rw [after_of_ok halone, hlinked]
      simp [hresults]
    · rw [after_of_ok halone, hlinked, hfailing]
      exact hcounts.record r
    · rw [after_of_ok halone, List.flatMap_append, ← List.append_assoc, ← hrecords]
      simp [reported, halone]
  | error failure =>
    obtain ⟨hlinked, hfailing⟩ := linked_concat_of_error paths halone
    refine ⟨?_, ?_, ?_⟩
    · rw [after_of_error halone, hlinked, hresults]
    · rw [after_of_error halone, hlinked, hfailing, List.length_append]
      exact hcounts.recordFailure
    · rw [after_of_error halone, List.flatMap_append, ← List.append_assoc, ← hrecords]
      simp [reported, halone]

/-- **All files** are covered, one after the other. -/
lemma covers_foldl (w : Workspace) (settings : FileSettings) (b : Batch) (paths : List String) :
    Covers w settings b (paths.foldl (Batch.after w settings) b) paths := by
  induction paths using List.reverseRecOn with
  | nil => exact ⟨by simp [linked], LinkStats.Counts.refl _, by simp⟩
  | append_singleton paths path ih =>
    rw [List.foldl_append]
    exact ih.after path

/-- Settings with which each file is linked alike give the same batch. -/
lemma linkEach_congr {other : FileSettings}
    (h : ∀ path, linkFile w other path = linkFile w settings path) (paths : List String) :
    linkEach (View.still w) other goOn paths = linkEach (View.still w) settings goOn paths := by
  induction paths with
  | nil => rfl
  | cons path rest ih => simp only [linkEach, View.still, h, ih]

end Each

/-! ## Folders -/

section Folder

variable {w : Workspace} {settings : FileSettings} {goOn : Bool} {b : Batch} {folder : String}
  {found : List String}

/-- The files below a folder that exists can be listed. -/
lemma exists_discover (extensions : List String)
    (hfolder : w.files.isFolder (w.files.absolute folder) = true) :
    ∃ found, Discovery.discover w.files extensions folder = .ok found := by
  unfold FileSystem.isFolder FileSystem.entry? at hfolder
  unfold Discovery.discover
  cases hlocate : w.files.locate .look (w.files.absolute folder) with
  | error reason => simp [hlocate] at hfolder
  | ok place =>
    obtain ⟨names, entry⟩ := place
    cases entry with
    | none => simp [hlocate] at hfolder
    | some e =>
      simp only [hlocate]
      exact ⟨_, rfl⟩

/-- The files below a folder do not depend on how it is named. -/
lemma discover_absolute (hcurrent : Path.isAbsolute w.files.current = true)
    (extensions : List String) (folder : String) :
    Discovery.discover w.files extensions (w.files.absolute folder) =
      Discovery.discover w.files extensions folder := by
  have habsolute : w.files.absolute (w.files.absolute folder) = w.files.absolute folder :=
    Path.absolute_absolute hcurrent folder
  unfold Discovery.discover
  rw [habsolute]

/-- Reported paths do not depend on how their folder is named. -/
lemma linkFile_absolute (hcurrent : Path.isAbsolute w.files.current = true) (base path : String) :
    linkFile w { settings with base := some (w.files.absolute base) } path =
      linkFile w { settings with base := some base } path := by
  have habsolute : w.files.absolute (w.files.absolute base) = w.files.absolute base :=
    Path.absolute_absolute hcurrent base
  unfold linkFile
  dsimp only
  rw [habsolute]

/-- What a batch records while it lists the files of a folder. -/
def listing (folder : String) (count : Nat) : Records :=
  #[⟨noFile, .discovering folder⟩, ⟨noFile, .discovered count⟩]

/-- The settings with which the files of a folder are linked one by one. -/
def singly (settings : FileSettings) (folder : String) : FileSettings :=
  { settings with base := some (settings.base.getD folder) }

/-- The files of a folder are listed in a batch. -/
lemma filing_discoverFiles (hcurrent : Path.isAbsolute w.files.current = true)
    (hfound : Discovery.discover w.files settings.extensions folder = .ok found) :
    filing (discoverFiles w settings.extensions (w.files.absolute folder)) b = .ok found
      { b with records := b.records ++ listing (w.files.absolute folder) found.length } := by
  have habsolute : w.files.absolute (w.files.absolute folder) = w.files.absolute folder :=
    Path.absolute_absolute hcurrent folder
  have hnote : ∀ (e : Event) (records : Records),
      Filing.note e records = .ok () (records.push ⟨noFile, e⟩) := fun _ _ => rfl
  rw [filing, discoverFiles, discover_absolute hcurrent, hfound, habsolute,
    bind_apply_of_ok (hnote _ _)]
  dsimp only
  rw [bind_apply_of_ok (hnote _ _)]
  rfl

/-- **A batch over a folder** lists the files and links one after the other. -/
lemma linkFolder_eq (hcurrent : Path.isAbsolute w.files.current = true)
    (hfolder : w.files.isFolder (w.files.absolute folder) = true)
    (hfound : Discovery.discover w.files settings.extensions folder = .ok found) :
    linkFolder (View.still w) settings goOn folder b =
      (if found.isEmpty then note (.nothingDiscovered (w.files.absolute folder))
      else do
        note (.processing found.length (w.files.absolute folder))
        linkEach (View.still w) (singly settings folder) goOn found
        note (.batchEnded (← get).stats.describe) : Batching Unit)
      { b with records := b.records ++ listing (w.files.absolute folder) found.length } := by
  have hopen : ¬(!w.files.isFolder (w.files.absolute folder)) = true := by simp [hfolder]
  have heach : ∀ base, base = w.files.absolute (settings.base.getD folder) →
      linkEach (View.still w) { settings with base := some base } goOn found =
        linkEach (View.still w) (singly settings folder) goOn found := by
    rintro _ rfl
    exact linkEach_congr (linkFile_absolute hcurrent _) found
  rw [linkFolder, get_bind_apply, View.still, if_neg hopen,
    bind_apply_of_ok (filing_discoverFiles hcurrent hfound), heach]
  cases settings.base <;> rfl

/-- What a batch over a folder with files records before the first of them. -/
def opening (folder : String) (count : Nat) : Records :=
  (listing folder count).push ⟨noFile, .processing count folder⟩

/-- A batch over a folder with files, after what it records first. -/
lemma linkFolder_of_ne_nil (hcurrent : Path.isAbsolute w.files.current = true)
    (hfolder : w.files.isFolder (w.files.absolute folder) = true)
    (hfound : Discovery.discover w.files settings.extensions folder = .ok found)
    (hne : found ≠ []) :
    linkFolder (View.still w) settings goOn folder b =
      (do
        linkEach (View.still w) (singly settings folder) goOn found
        note (.batchEnded (← get).stats.describe) : Batching Unit)
      { b with records := b.records ++ opening (w.files.absolute folder) found.length } := by
  rw [linkFolder_eq hcurrent hfolder hfound, if_neg (by simpa using hne),
    bind_apply_of_ok (note_apply _ _), opening, Array.append_push]

/-- A batch over a folder that gets through all files. -/
lemma linkFolder_of_goesOn (hcurrent : Path.isAbsolute w.files.current = true)
    (hfolder : w.files.isFolder (w.files.absolute folder) = true)
    (hfound : Discovery.discover w.files settings.extensions folder = .ok found)
    (h : goOn = true ∨ ∀ path ∈ found, ∃ r, linkAlone w (singly settings folder) path = .ok r) :
    ∃ c, linkFolder (View.still w) settings goOn folder b = .ok () c ∧
      c.results.toList = b.results.toList ++ linked w (singly settings folder) found ∧
      b.stats.Counts c.stats (linked w (singly settings folder) found)
        (failing w (singly settings folder) found).length := by
  by_cases hne : found = []
  · subst hne
    rw [linkFolder_eq hcurrent hfolder hfound]
    exact ⟨_, rfl, by simp [linked], .refl _⟩
  · rw [linkFolder_of_ne_nil hcurrent hfolder hfound hne, bind_apply_of_ok (linkEach_of_goesOn h)]
    have hcovers := covers_foldl w (singly settings folder)
      { b with records := b.records ++ opening (w.files.absolute folder) found.length } found
    exact ⟨_, rfl, hcovers.results, hcovers.counts⟩

end Folder

/-- **The files of a folder are linked on their own.**  The files below a folder that exists can be
listed.  A batch that goes on behind failing files, or that meets none, ends without a failure; its
results are those of the files that can be linked alone, in order, and its counters have grown by
the number of files and by what these results hold.  A batch that does not go on links the files
before the first one that fails, ends with the failure of that file and counts it once; what it
records about files is about those up to the failing one. -/
theorem linkFolder_isolates (w : Workspace) (hcurrent : Path.isAbsolute w.files.current = true)
    (settings : FileSettings) {folder : String}
    (hfolder : w.files.isFolder (w.files.absolute folder) = true) (b : Batch) :
    let single := singly settings folder
    ∃ found, Discovery.discover w.files settings.extensions folder = .ok found ∧
      (∀ goOn, goOn = true ∨ (∀ path ∈ found, ∃ r, linkAlone w single path = .ok r) →
        ∃ c, linkFolder (View.still w) settings goOn folder b = .ok () c ∧
          c.results.toList = b.results.toList ++ linked w single found ∧
          b.stats.Counts c.stats (linked w single found) (failing w single found).length ∧
          c.stats.filesProcessed + c.stats.filesFailed =
            b.stats.filesProcessed + b.stats.filesFailed + found.length) ∧
      ∀ before path rest failure, found = before ++ path :: rest →
        (∀ p ∈ before, ∃ r, linkAlone w single p = .ok r) →
        linkAlone w single path = .error failure →
        ∃ c, linkFolder (View.still w) settings false folder b = .error failure c ∧
          c.results.toList = b.results.toList ++ linked w single before ∧
          b.stats.Counts c.stats (linked w single before) 1 ∧
          c.records.toList = b.records.toList ++
            (opening (w.files.absolute folder) found.length).toList ++
            (before ++ [path]).flatMap fun p => (reported w single p).toList := by
  intro single
  obtain ⟨found, hfound⟩ := exists_discover settings.extensions hfolder
  refine ⟨found, hfound, ?_, ?_⟩
  · intro goOn hgoes
    obtain ⟨c, hrun, hresults, hcounts⟩ :=
      linkFolder_of_goesOn (b := b) hcurrent hfolder hfound hgoes
    refine ⟨c, hrun, hresults, hcounts, ?_⟩
    have htotal := length_linked_add_failing w (singly settings folder) found
    rw [hcounts.filesProcessed, hcounts.filesFailed]
    omega
  · rintro before path rest failure rfl hbefore hfails
    obtain ⟨hresults, hcounts, hrecords⟩ := covers_foldl w single
      { b with records := b.records ++
          opening (w.files.absolute folder) (before ++ path :: rest).length } (before ++ [path])
    obtain ⟨hlinked, hfailing⟩ := linked_concat_of_error before hfails
    rw [hlinked] at hresults hcounts
    rw [hfailing, failing_eq_nil hbefore] at hcounts
    refine ⟨_, ?_, hresults, hcounts, ?_⟩
    · rw [linkFolder_of_ne_nil hcurrent hfolder hfound (by simp),
        bind_apply_of_error (linkEach_stops hbefore hfails)]
    · rw [hrecords, Array.toList_append]

/-- A folder with two sources and, between them, a link that leads nowhere; the parser takes every
source for an empty one. -/
def sampleWorkspace : Workspace where
  files := ⟨.folder [("w", .folder [("a.js", .file []), ("b.js", .link "gone"),
    ("c.js", .file [])])], "/w"⟩
  parser := fun _ => .ok .blank

/-- The built-in settings. -/
def sampleSettings : FileSettings := ⟨.standard, Discovery.standardExtensions, none⟩

/-- The files of the sample workspace. -/
lemma discover_sampleWorkspace :
    Discovery.discover sampleWorkspace.files sampleSettings.extensions "." =
      .ok ["/w/a.js", "/w/b.js", "/w/c.js"] := by
  have habsolute : sampleWorkspace.files.absolute "." = "/w" := by decide +kernel
  have hlocate : sampleWorkspace.files.locate .look "/w" = .ok ⟨["w"], some (.folder
      [("a.js", .file []), ("b.js", .link "gone"), ("c.js", .file [])])⟩ := rfl
  have hbelow : Discovery.filesBelow sampleWorkspace.files sampleSettings.extensions "/w" (.folder
      [("a.js", .file []), ("b.js", .link "gone"), ("c.js", .file [])]) =
        ["/w/a.js", "/w/b.js", "/w/c.js"] := by
    decide +kernel
  have hsorted : ["/w/a.js", "/w/b.js", "/w/c.js"].Pairwise
      fun a b => (!decide (b < a)) = true := by
    decide +kernel
  unfold Discovery.discover
  simp only [habsolute, hlocate, hbelow]
  rw [List.mergeSort_of_pairwise hsorted]

/-- The link fails and the sources around it are linked; without going on only the first of them is,
as `linkFolder_isolates` says. -/
theorem linkFolder_isolates_sample :
    Path.isAbsolute sampleWorkspace.files.current = true ∧
      sampleWorkspace.files.isFolder (sampleWorkspace.files.absolute ".") = true ∧
      (∃ c, linkFolder (View.still sampleWorkspace) sampleSettings true "." (start .zero) =
          .ok () c ∧
        c.results.toList.map LinkResult.path = ["a.js", "c.js"] ∧
        c.stats.filesProcessed + c.stats.filesFailed = 3) ∧
      ∃ c, linkFolder (View.still sampleWorkspace) sampleSettings false "." (start .zero) =
          .error (.missingFile "/w/b.js") c ∧
        c.results.toList.map LinkResult.path = ["a.js"] ∧ c.stats.filesFailed = 1 := by
  have hcurrent : Path.isAbsolute sampleWorkspace.files.current = true := by decide +kernel
  have hfolder : sampleWorkspace.files.isFolder (sampleWorkspace.files.absolute ".") = true := by
    decide +kernel
  obtain ⟨found, hfound, hall, hstop⟩ :=
    linkFolder_isolates sampleWorkspace hcurrent sampleSettings hfolder (start .zero)
  obtain rfl := Except.ok.inj (discover_sampleWorkspace.symm.trans hfound)
  refine ⟨hcurrent, hfolder, ?_, ?_⟩
  · obtain ⟨c, hrun, hresults, -, htotal⟩ := hall true (.inl rfl)
    have hpaths : (linked sampleWorkspace (singly sampleSettings ".")
        ["/w/a.js", "/w/b.js", "/w/c.js"]).map LinkResult.path = ["a.js", "c.js"] := by
      decide +kernel
    exact ⟨c, hrun, (congrArg _ hresults).trans hpaths, htotal⟩
  · have hok : (linkAlone sampleWorkspace (singly sampleSettings ".") "/w/a.js").isOk = true := by
      decide +kernel
    have hbefore : ∀ p ∈ ["/w/a.js"],
        ∃ r, linkAlone sampleWorkspace (singly sampleSettings ".") p = .ok r := by
      intro p hp
      rw [List.mem_singleton.mp hp]
      cases halone : linkAlone sampleWorkspace (singly sampleSettings ".") "/w/a.js" with
      | ok r => exact ⟨r, rfl⟩
      | error failure => simp [halone, Except.isOk, Except.toBool] at hok
    have hfails : linkAlone sampleWorkspace (singly sampleSettings ".") "/w/b.js" =
        .error (.missingFile "/w/b.js") := by
      decide +kernel
    have hpaths : (linked sampleWorkspace (singly sampleSettings ".") ["/w/a.js"]).map
        LinkResult.path = ["a.js"] := by
      decide +kernel
    obtain ⟨c, hrun, hresults, hcounts, -⟩ :=
      hstop ["/w/a.js"] "/w/b.js" ["/w/c.js"] _ rfl hbefore hfails
    exact ⟨c, hrun, (congrArg _ hresults).trans hpaths, hcounts.filesFailed⟩

end Batch

end Marginalia
