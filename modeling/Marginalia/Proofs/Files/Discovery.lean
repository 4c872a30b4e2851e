import Marginalia.Files.Discovery
import Marginalia.Proofs.Files.Descent
import Mathlib.Data.List.Nodup

/-!
# What discovery finds

Discovery goes down from a folder, leaves out what lies in hidden and skipped folders, and sorts the
paths that it gathers.  Which paths these are is said without the walk: those of the files, and of
the links that lead to no folder, in the folders that can be reached and whose paths are not too
long to be opened.  As the names in a folder differ and hold no slash, a path tells the names on the
way to it, and no path is found twice.

A folder may be reached although its path is too long, as names are followed one by one then.  What
lies in such a folder is not found.

## Main definitions

* `Path.parts` — the names on a path.
* `Entry.Proper` — folders as a file system has them.
* `Discovery.Reached` — the folders that are searched, with their paths.
* `Discovery.Listed` — the entries that count as files.

## Main results

* `Path.parts_join` — the last name on a path below a folder.
* `Discovery.mem_filesAmong_iff` — the paths gathered are those of the files in reached folders.
* `Discovery.nodup_filesAmong` — no path is gathered twice.
* `Discovery.discover_exact` — what discovery finds, and in which order.
* `Discovery.discover_nested` — a source that is too deep to be found.
-/

namespace Marginalia

/-! ## The names on a path -/

namespace Path

/-- The names on a path: its components without the empty ones. -/
def parts (path : String) : List String := (components path).filter (· != "")

variable {base name : String}

/-- **The last name on a path below a folder** is the name there. -/
lemma parts_join (base : String) (h : IsName name) :
    parts (join base name) = parts base ++ [name] := by
  have hname : [name].filter (· != "") = [name] := by simp [h.nonempty]
  by_cases hbase : base = ""
  · subst hbase
    have hself : join "" name = name := by simp [join, isAbsolute_of_isName h]
    rw [hself, parts, components_of_noSlash h.noSlash, hname]
    rfl
  · rcases components_join hbase h with hjoin | ⟨front, hfront, hjoin⟩
    · rw [parts, hjoin, List.filter_append, hname, parts]
    · rw [parts, hjoin, List.filter_append, hname, parts, hfront]
      simp

end Path

/-! ## Folders and what is reached in them -/

/-- **Folders as a file system has them**: the names in a folder differ and are such as the file
system allows, and so are those in the folders below it. -/
inductive Entry.Proper : List (String × Entry) → Prop
  | folder {entries : List (String × Entry)} (distinct : (entries.map Prod.fst).Nodup)
    (named : ∀ entry ∈ entries, Path.IsFileName entry.1)
    (below : ∀ name inner, (name, .folder inner) ∈ entries → Proper inner) : Proper entries

/-- An entry of a folder is found under its name, as no other one has it. -/
lemma Entry.lookup_of_mem {entries : List (String × Entry)} {name : String} {e : Entry}
    (hdistinct : (entries.map Prod.fst).Nodup) (h : (name, e) ∈ entries) :
    entries.lookup name = some e := by
  induction entries with
  | nil => cases h
  | cons entry rest ih =>
    obtain ⟨hfresh, hrest⟩ := List.nodup_cons.mp hdistinct
    rcases List.mem_cons.mp h with rfl | h
    · exact List.lookup_cons_self
    · have hne : name ≠ entry.1 := fun hname => hfresh (List.mem_map.mpr ⟨_, h, hname⟩)
      rw [List.lookup_cons, beq_false_of_ne hne]
      exact ih hrest h

namespace Discovery

/-- The folders to be searched below the folder `start`, with their paths: the folder itself, and
the folders in such a one that are neither hidden nor skipped. -/
inductive Reached (start : String) (entries : List (String × Entry)) :
    String → List (String × Entry) → Prop
  | start : Reached start entries start entries
  | enter {folder name : String} {outer inner : List (String × Entry)}
    (reached : Reached start entries folder outer) (mem : (name, .folder inner) ∈ outer)
    (visible : name.toList.head? ≠ some '.') (kept : name ∉ skippedFolders) :
    Reached start entries (Path.join folder name) inner

/-- Whether what stands at a path counts as a file: a file, or a link that leads to no folder. -/
def Listed (fs : FileSystem) (path : String) : Entry → Prop
  | .file _ => True
  | .folder _ => False
  | .link _ => fs.isFolder path = false

section Gathering

variable {fs : FileSystem} {extensions : List String} {folder start name path : String}
  {entries outer inner : List (String × Entry)} {e : Entry}

/-- A folder is searched if its name neither starts with a dot nor is one of the skipped names. -/
lemma isSearched_iff :
    isSearched name = true ↔ name.toList.head? ≠ some '.' ∧ name ∉ skippedFolders := by
  simp [isSearched]

/-- What is reached from a folder is reached from the one around it. -/
lemma Reached.trans {searched : String} (h : Reached start entries folder outer)
    (h' : Reached folder outer searched inner) : Reached start entries searched inner := by
  induction h' with
  | start => exact h
  | enter _ mem visible kept ih => exact .enter ih mem visible kept

/-- The source files that a name in a folder stands for. -/
def filesAt (fs : FileSystem) (extensions : List String) (folder name : String) :
    Entry → List String
  | .folder inner =>
    if isSearched name && fs.isFolder (Path.join folder name) then
      filesAmong fs extensions (Path.join folder name) inner
    else []
  | .link _ =>
    if fs.isFolder (Path.join folder name) then []
    else if extensions.contains (Path.extension name) then [Path.join folder name] else []
  | .file _ => if extensions.contains (Path.extension name) then [Path.join folder name] else []

/-- The files among entries are those at the first entry, and then those among the rest. -/
lemma filesAmong_cons (name : String) (e : Entry) (rest : List (String × Entry)) :
    filesAmong fs extensions folder ((name, e) :: rest) =
      filesAt fs extensions folder name e ++ filesAmong fs extensions folder rest := by
  cases e with
  | folder | file | link => rfl

/-- A name stands for itself, or for what is in its folder. -/
lemma mem_filesAt_iff :
    path ∈ filesAt fs extensions folder name e ↔
      (∃ inner, e = .folder inner ∧ isSearched name = true ∧
        fs.isFolder (Path.join folder name) = true ∧
        path ∈ filesAmong fs extensions (Path.join folder name) inner) ∨
      path = Path.join folder name ∧ Path.extension name ∈ extensions ∧ Listed fs path e := by
  cases e with
  | folder inner =>
    by_cases hsearched : isSearched name = true <;>
      by_cases hopens : fs.isFolder (Path.join folder name) = true <;>
        simp [filesAt, Listed, hsearched, hopens]
  | file content =>
    by_cases hextension : Path.extension name ∈ extensions <;> simp [filesAt, Listed, hextension]
  | link target =>
    by_cases hfolder : fs.isFolder (Path.join folder name) = true
    · have hnot : ¬ (path = Path.join folder name ∧ Path.extension name ∈ extensions ∧
          fs.isFolder path = false) := by
        rintro ⟨rfl, -, hno⟩
        rw [hfolder] at hno
        exact Bool.noConfusion hno
      simpa [filesAt, Listed, hfolder] using hnot
    · by_cases hextension : Path.extension name ∈ extensions
      · have hiff : path = Path.join folder name ↔
            path = Path.join folder name ∧ fs.isFolder path = false :=
          ⟨fun h => ⟨h, by rw [h]; simpa using hfolder⟩, And.left⟩
        simpa [filesAt, Listed, hfolder, hextension] using hiff
      · simp [filesAt, Listed, hfolder, hextension]

/-- The files among entries are those at each of them, one after another. -/
lemma filesAmong_eq_flatMap :
    filesAmong fs extensions folder entries =
      entries.flatMap fun entry => filesAt fs extensions folder entry.1 entry.2 := by
  induction entries with
  | nil => rfl
  | cons entry rest ih => rw [filesAmong_cons, ih, List.flatMap_cons]

/-- A file among entries is a file at one of them. -/
lemma mem_filesAmong :
    path ∈ filesAmong fs extensions folder entries ↔
      ∃ name e, (name, e) ∈ entries ∧ path ∈ filesAt fs extensions folder name e := by
  simp [filesAmong_eq_flatMap]

/-- The folders that are reached in proper folders are proper. -/
lemma Reached.proper (h : Reached start entries folder inner) (hproper : Entry.Proper entries) :
    Entry.Proper inner := by
  induction h with
  | start => exact hproper
  | enter _ mem _ _ ih =>
    obtain ⟨_, _, below⟩ := ih
    exact below _ _ mem

/-- A reached folder is found by its path, if that is not too long. -/
lemma Reached.found (h : Reached start entries folder inner) (hproper : Entry.Proper entries)
    (hstart : fs.entry? start = some (.folder entries))
    (hfits : folder.utf8ByteSize ≤ FileSystem.pathLimit) :
    fs.entry? folder = some (.folder inner) := by
  induction h with
  | start => exact hstart
  | @enter folder name outer inner reached mem _ _ ih =>
    obtain ⟨distinct, named, _⟩ := reached.proper hproper
    have hname : Path.IsFileName name := named _ mem
    have houter := ih (Path.utf8ByteSize_le_of_join hname.toIsName hfits)
    exact FileSystem.entry?_join hname houter (Entry.lookup_of_mem distinct mem) hfits

/-- What a reached folder holds is gathered, if its path is not too long. -/
lemma Reached.mem_filesAmong (h : Reached start entries folder inner)
    (hproper : Entry.Proper entries) (hstart : fs.entry? start = some (.folder entries))
    (hfits : folder.utf8ByteSize ≤ FileSystem.pathLimit)
    (hpath : path ∈ filesAmong fs extensions folder inner) :
    path ∈ filesAmong fs extensions start entries := by
  induction h with
  | start => exact hpath
  | @enter folder name outer inner reached mem visible kept ih =>
    have hopens : fs.isFolder (Path.join folder name) = true := by
      rw [FileSystem.isFolder, (Reached.enter reached mem visible kept).found hproper hstart hfits]
    obtain ⟨_, named, _⟩ := reached.proper hproper
    refine ih (Path.utf8ByteSize_le_of_join (named _ mem).toIsName hfits)
      (Discovery.mem_filesAmong.mpr ⟨_, _, mem, mem_filesAt_iff.mpr (.inl ?_)⟩)
    exact ⟨_, rfl, isSearched_iff.mpr ⟨visible, kept⟩, hopens, hpath⟩

/-- **The paths gathered below a folder are those of the files in the folders reached from it**, as
far as the paths of these folders are not too long. -/
lemma mem_filesAmong_iff (h : Entry.Proper entries)
    (hstart : fs.entry? start = some (.folder entries)) :
    path ∈ filesAmong fs extensions start entries ↔
      ∃ folder inner name e, Reached start entries folder inner ∧
        folder.utf8ByteSize ≤ FileSystem.pathLimit ∧ (name, e) ∈ inner ∧
        path = Path.join folder name ∧ Path.extension name ∈ extensions ∧ Listed fs path e := by
  constructor
  · intro hpath
    -- induction over the folders: a name stands for a file here, or for files in its own folder
    induction h generalizing start with
    | folder distinct named below ih =>
      obtain ⟨name, e, hmem, hat⟩ := mem_filesAmong.mp hpath
      rcases mem_filesAt_iff.mp hat with ⟨inner, rfl, hsearched, hopens, hbelow⟩ | hself
      · obtain ⟨visible, kept⟩ := isSearched_iff.mp hsearched
        have hname := named _ hmem
        have hlookup := Entry.lookup_of_mem distinct hmem
        have hfits := (FileSystem.isFolder_join_iff hname hstart hlookup).mp hopens
        obtain ⟨folder, deep, n, d, hreached, hrest⟩ :=
          ih name inner hmem (FileSystem.entry?_join hname hstart hlookup hfits) hbelow
        exact ⟨folder, deep, n, d, Reached.trans (.enter .start hmem visible kept) hreached, hrest⟩
      · exact ⟨start, _, name, e, .start, FileSystem.utf8ByteSize_le_of_found hstart, hmem, hself⟩
  · rintro ⟨folder, inner, name, e, hreached, hfits, hmem, hself⟩
    refine hreached.mem_filesAmong h hstart hfits (mem_filesAmong.mpr ⟨name, e, hmem, ?_⟩)
    exact mem_filesAt_iff.mpr (.inr hself)

/-- The paths gathered below a folder go on from its own. -/
lemma parts_of_mem_filesAmong (h : Entry.Proper entries)
    (hpath : path ∈ filesAmong fs extensions start entries) :
    Path.parts start <+: Path.parts path := by
  induction h generalizing start with
  | folder _ named _ ih =>
    obtain ⟨name, e, hmem, hat⟩ := mem_filesAmong.mp hpath
    have hname : Path.parts start <+: Path.parts (Path.join start name) := by
      rw [Path.parts_join start (named _ hmem).toIsName]
      exact List.prefix_append ..
    rcases mem_filesAt_iff.mp hat with ⟨inner, rfl, -, -, hbelow⟩ | ⟨rfl, -⟩
    · exact hname.trans (ih name inner hmem hbelow)
    · exact hname

/-- **A path tells the name in the folder** that it was gathered for. -/
lemma parts_of_mem_filesAt (h : Entry.Proper entries) (hmem : (name, e) ∈ entries)
    (hpath : path ∈ filesAt fs extensions folder name e) :
    Path.parts folder ++ [name] <+: Path.parts path := by
  obtain ⟨_, named, below⟩ := h
  rw [← Path.parts_join folder (named _ hmem).toIsName]
  rcases mem_filesAt_iff.mp hpath with ⟨inner, rfl, -, -, hbelow⟩ | ⟨rfl, -⟩
  · exact parts_of_mem_filesAmong (below _ _ hmem) hbelow
  · exact List.prefix_rfl

/-- **No path is gathered twice**: names that differ in a folder make different paths. -/
lemma nodup_filesAmong (h : Entry.Proper entries) :
    (filesAmong fs extensions start entries).Nodup := by
  induction h generalizing start with
  | @folder entries distinct named below ih =>
    rw [filesAmong_eq_flatMap, List.nodup_flatMap]
    constructor
    · rintro ⟨name, e⟩ hmem
      cases e with
      | folder inner =>
        rw [filesAt]
        split
        · exact ih name inner hmem
        · exact List.nodup_nil
      | file | link => grind [filesAt]
    · have hnames : entries.Pairwise fun a b => a.1 ≠ b.1 := List.pairwise_map.mp distinct
      refine hnames.imp_of_mem fun {a b} ha hb hne path hpa hpb => hne ?_
      have hproper : Entry.Proper entries := .folder distinct named below
      have ha' := parts_of_mem_filesAt hproper ha hpa
      have hb' := parts_of_mem_filesAt hproper hb hpb
      have heq := (List.prefix_of_prefix_length_le ha' hb' (by simp)).eq_of_length (by simp)
      simpa using heq

end Gathering

/-! ## What discovery finds -/

/-- The files of a folder that is there are those below it, sorted. -/
lemma discover_of_found {fs : FileSystem} {folder : String} {e : Entry}
    (h : fs.entry? (fs.absolute folder) = some e) (extensions : List String) :
    discover fs extensions folder = .ok ((filesBelow fs extensions (fs.absolute folder) e).mergeSort
      fun a b => !decide (b < a)) := by
  unfold FileSystem.entry? at h
  unfold discover
  cases hlocate : fs.locate .look (fs.absolute folder) with
  | error reason => simp [hlocate] at h
  | ok place =>
    obtain ⟨names, entry⟩ := place
    rw [hlocate] at h
    obtain rfl : entry = some e := h
    simp only [hlocate]

/-- The order in which files are sorted is that no later path comes before an earlier one. -/
lemma not_decide_lt_iff {a b : String} : (!decide (b < a)) = true ↔ ¬ b < a := by
  rw [Bool.not_eq_true', decide_eq_false_iff_not]

/-- Texts that are sorted and differ are strictly increasing. -/
lemma pairwise_lt_mergeSort {paths : List String} (h : paths.Nodup) :
    (paths.mergeSort fun a b => !decide (b < a)).Pairwise (· < ·) := by
  have htrans : ∀ a b c : String, (!decide (b < a)) = true → (!decide (c < b)) = true →
      (!decide (c < a)) = true := by
    intro a b c hab hbc
    rw [not_decide_lt_iff] at *
    exact String.not_lt.mpr (String.le_trans (String.not_lt.mp hab) (String.not_lt.mp hbc))
  have htotal : ∀ a b : String, (!decide (b < a) || !decide (a < b)) = true := by
    intro a b
    rw [Bool.or_eq_true, not_decide_lt_iff, not_decide_lt_iff]
    exact (String.le_total a b).imp String.not_lt.mpr String.not_lt.mpr
  have hsorted := List.pairwise_mergeSort htrans htotal paths
  have hdistinct := (List.mergeSort_perm paths fun a b => !decide (b < a)).nodup_iff.mpr h
  refine (hsorted.and hdistinct).imp fun {a b} hab => ?_
  obtain ⟨hle, hne⟩ := hab
  by_contra hlt
  exact hne (String.le_antisymm (String.not_lt.mp (not_decide_lt_iff.mp hle))
    (String.not_lt.mp hlt))

/-- **Discovery finds exactly the right files.**  Below a folder of a file system, for every set of
extensions, it returns paths in strictly increasing order: those of the files and of the links that
lead to no folder, with an extension that is asked for, in the folders that are reached without a
link through folders that are neither hidden nor skipped, as long as the path of the folder is not
too long to be opened. -/
theorem discover_exact (fs : FileSystem) (extensions : List String) (folder : String)
    (entries : List (String × Entry))
    (hstart : fs.entry? (fs.absolute folder) = some (.folder entries))
    (hproper : Entry.Proper entries) :
    ∃ found, discover fs extensions folder = .ok found ∧ found.Pairwise (· < ·) ∧
      ∀ path, path ∈ found ↔
        ∃ searched inner name e, Reached (fs.absolute folder) entries searched inner ∧
          searched.utf8ByteSize ≤ FileSystem.pathLimit ∧ (name, e) ∈ inner ∧
          path = Path.join searched name ∧ Path.extension name ∈ extensions ∧
          Listed fs path e := by
  have hbelow : filesBelow fs extensions (fs.absolute folder) (.folder entries) =
      filesAmong fs extensions (fs.absolute folder) entries := rfl
  refine ⟨_, discover_of_found hstart extensions, ?_, fun path => ?_⟩
  · exact pairwise_lt_mergeSort (hbelow ▸ nodup_filesAmong hproper)
  · rw [List.mem_mergeSort, hbelow]
    exact mem_filesAmong_iff hproper hstart

/-- What a folder may hold: a hidden folder, a skipped one and one with a source, a hidden source, a
link that leads nowhere and one that leads to a folder. -/
def sampleEntries : List (String × Entry) :=
  [(".git", .folder [("hook.js", .file [])]),
    ("dist", .folder [("a.js", .file [])]),
    ("lib", .folder [("b.js", .file [])]),
    (".rc.js", .file []), ("gone.js", .link "nowhere"), ("lib.js", .link "lib")]

/-- The sample entries are proper. -/
lemma proper_sampleEntries : Entry.Proper sampleEntries := by
  have hsource : ∀ name content, Path.IsFileName name → Entry.Proper [(name, .file content)] :=
    fun name content h => .folder (by simp) (by simpa using h) (by simp)
  refine .folder (by decide) ?_ ?_
  · simp only [sampleEntries, List.forall_mem_cons]
    refine ⟨?_, ?_, ?_, ?_, ?_, ?_, by simp⟩ <;>
      exact ⟨⟨by decide, by decide, by decide, by decide⟩, by decide, by decide⟩
  · intro name inner hmem
    simp only [sampleEntries, List.mem_cons, Prod.mk.injEq, Entry.folder.injEq, List.not_mem_nil,
      reduceCtorEq, and_false, or_false] at hmem
    rcases hmem with ⟨-, rfl⟩ | ⟨-, rfl⟩ | ⟨-, rfl⟩ <;>
      exact hsource _ _ ⟨⟨by decide, by decide, by decide, by decide⟩, by decide, by decide⟩

/-- A file system with these entries in one folder. -/
def sampleFiles : FileSystem := ⟨.folder [("w", .folder sampleEntries)], "/w"⟩

/-- The source in the folder that is searched, the hidden one and the link that leads nowhere are
found and nothing else is, as `discover_exact` says. -/
theorem discover_exact_sample :
    sampleFiles.entry? (sampleFiles.absolute ".") = some (.folder sampleEntries) ∧
      Entry.Proper sampleEntries ∧
      ∃ found, discover sampleFiles standardExtensions "." = .ok found ∧ found.Pairwise (· < ·) ∧
        ∀ path, path ∈ found ↔ path ∈ ["/w/lib/b.js", "/w/.rc.js", "/w/gone.js"] := by
  have habsolute : sampleFiles.absolute "." = "/w" := by decide +kernel
  have hentry : sampleFiles.entry? "/w" = some (.folder sampleEntries) := rfl
  have hfiles : filesAmong sampleFiles standardExtensions "/w" sampleEntries =
      ["/w/lib/b.js", "/w/.rc.js", "/w/gone.js"] := by
    decide +kernel
  obtain ⟨found, hfound, hsorted, hmem⟩ := discover_exact sampleFiles standardExtensions "."
    sampleEntries (habsolute ▸ hentry) proper_sampleEntries
  rw [habsolute] at hmem ⊢
  refine ⟨hentry, proper_sampleEntries, found, hfound, hsorted, fun path => ?_⟩
  rw [hmem, ← mem_filesAmong_iff proper_sampleEntries hentry, hfiles]

/-! ### Deep folders -/

/-- A name of 250 characters. -/
def longName : String := String.ofList (List.replicate 250 'd')

/-- Folders with that name, one in the other, with a source in the innermost one. -/
def nest : Nat → List (String × Entry)
  | 0 => [("a.js", .file [])]
  | depth + 1 => [(longName, .folder (nest depth))]

/-- The name consists of one letter. -/
lemma eq_of_mem_longName {c : Char} (h : c ∈ longName.toList) : c = 'd' := by
  have hchars : longName.toList = List.replicate 250 'd' := String.toList_ofList
  exact List.eq_of_mem_replicate (hchars ▸ h)

/-- The name has as many bytes as characters. -/
lemma utf8ByteSize_longName : longName.utf8ByteSize = 250 := by decide +kernel

/-- The name differs from those that are shorter. -/
lemma longName_ne {name : String} (h : name.utf8ByteSize < 250) : longName ≠ name := by
  rintro rfl
  exact Nat.ne_of_lt h utf8ByteSize_longName

/-- The name is one that a file system allows. -/
lemma isFileName_longName : Path.IsFileName longName where
  nonempty := longName_ne (by decide)
  notHere := longName_ne (by decide)
  notAbove := longName_ne (by decide)
  noSlash h := absurd (eq_of_mem_longName h) (by decide)
  noNull h := absurd (eq_of_mem_longName h) (by decide)
  short := by rw [utf8ByteSize_longName]; decide

/-- A folder with the name is searched. -/
lemma isSearched_longName : isSearched longName = true := by
  have hshort : ∀ name ∈ skippedFolders, name.utf8ByteSize < 250 := by decide
  refine isSearched_iff.mpr ⟨fun hhidden => ?_, fun hskipped => ?_⟩
  · exact absurd (eq_of_mem_longName (List.mem_of_mem_head? hhidden)) (by decide)
  · exact longName_ne (hshort _ hskipped) rfl

/-- The folders are such as a file system has them. -/
lemma proper_nest (depth : Nat) : Entry.Proper (nest depth) := by
  induction depth with
  | zero =>
    have hname : Path.IsFileName "a.js" :=
      ⟨⟨by decide, by decide, by decide, by decide⟩, by decide, by decide⟩
    exact .folder (by simp [nest]) (by simpa [nest] using hname) (by simp [nest])
  | succ depth ih =>
    refine .folder (by simp [nest]) (by simpa [nest] using isFileName_longName) ?_
    intro name inner hmem
    obtain ⟨-, rfl⟩ : name = longName ∧ inner = nest depth := by simpa [nest] using hmem
    exact ih

/-- The innermost folder is reached. -/
lemma exists_reached_nest (start : String) (depth : Nat) :
    ∃ folder, Reached start (nest depth) folder (nest 0) := by
  induction depth generalizing start with
  | zero => exact ⟨start, .start⟩
  | succ depth ih =>
    obtain ⟨folder, hfolder⟩ := ih (Path.join start longName)
    obtain ⟨hvisible, hkept⟩ := isSearched_iff.mp isSearched_longName
    exact ⟨folder, Reached.trans (.enter .start (by simp [nest]) hvisible hkept) hfolder⟩

/-- Each folder makes the path longer. -/
lemma le_of_reached_nest {start folder : String} {depth : Nat} {inner : List (String × Entry)}
    (h : Reached start (nest depth) folder inner) :
    ∃ left, inner = nest left ∧ 250 * depth ≤ folder.utf8ByteSize + 250 * left := by
  induction h with
  | start => exact ⟨depth, rfl, Nat.le_add_left ..⟩
  | @enter folder name outer inner _ mem _ _ ih =>
    obtain ⟨left, rfl, hle⟩ := ih
    cases left with
    | zero => simp [nest] at mem
    | succ left =>
      obtain ⟨rfl, rfl⟩ : name = longName ∧ inner = nest left := by simpa [nest] using mem
      have hlonger := Path.utf8ByteSize_le_join folder isFileName_longName.toIsName
      rw [utf8ByteSize_longName] at hlonger
      exact ⟨left, rfl, by omega⟩

/-- A file system with eighteen such folders. -/
def nestedFiles : FileSystem := ⟨.folder (nest 18), "/"⟩

/-- **A source that is too deep is not found**, although its folder is reached through folders that
are neither hidden nor skipped. -/
theorem discover_nested :
    nestedFiles.entry? (nestedFiles.absolute ".") = some (.folder (nest 18)) ∧
      Entry.Proper (nest 18) ∧
      (∃ searched inner name e, Reached (nestedFiles.absolute ".") (nest 18) searched inner ∧
        (name, e) ∈ inner ∧ Path.extension name ∈ standardExtensions ∧
        Listed nestedFiles (Path.join searched name) e) ∧
      discover nestedFiles standardExtensions "." = .ok [] := by
  have habsolute : nestedFiles.absolute "." = "/" := by decide +kernel
  have hentry : nestedFiles.entry? (nestedFiles.absolute ".") = some (.folder (nest 18)) := by
    rw [habsolute]
    rfl
  have hnone : filesAmong nestedFiles standardExtensions (nestedFiles.absolute ".") (nest 18) =
      [] := by
    refine List.eq_nil_iff_forall_not_mem.mpr fun path hpath => ?_
    obtain ⟨folder, inner, name, e, hreached, hfits, hmem, -, -, hlisted⟩ :=
      (mem_filesAmong_iff (proper_nest 18) hentry).mp hpath
    obtain ⟨left, rfl, hle⟩ := le_of_reached_nest hreached
    cases left with
    | zero =>
      unfold FileSystem.pathLimit at hfits
      omega
    | succ left =>
      obtain ⟨rfl, rfl⟩ : name = longName ∧ e = .folder (nest left) := by simpa [nest] using hmem
      exact hlisted
  obtain ⟨folder, hfolder⟩ := exists_reached_nest (nestedFiles.absolute ".") 18
  have hextension : Path.extension "a.js" ∈ standardExtensions := by decide +kernel
  refine ⟨hentry, proper_nest 18,
    ⟨folder, nest 0, "a.js", .file [], hfolder, List.mem_singleton_self _, hextension, trivial⟩, ?_⟩
  rw [discover_of_found hentry, filesBelow, hnone, List.mergeSort_nil]

end Discovery

end Marginalia
