import Marginalia.Files.Discovery
import Marginalia.Source.Stats

/-!
# Linking files and folders

Each file is linked on its own, and a file that fails does not affect the others.  A batch over a
folder either goes on behind a failing file, or stops there with that file's failure; in both cases
what was linked before stays.

## Main definitions

* `FileFailure` — why a file or a folder cannot be linked.
* `Workspace` — the file system and the parser.
* `Filing`, `linkFile`, `parseFile` — single files.
* `Batch`, `Batching`, `linkFolder`, `linkPath` — many files.
-/

namespace Marginalia

/-- Why a file or a folder cannot be linked. -/
inductive FileFailure where
  | missingFile (path : String)
  | missingFolder (path : String)
  | missingSource (path : String)
  /-- No path is given for the source. -/
  | noSource
  /-- No path is given for the output. -/
  | noOutput
  /-- A file has none of the extensions asked for. -/
  | wrongExtension (path : String) (extensions : List String)
  | system (fault : SystemFault)
  | source (cause : SourceError)
deriving Repr, DecidableEq

namespace FileFailure

/-- The wording of a failure. -/
def message : FileFailure → String
  | .missingFile path => "File not found: " ++ path
  | .missingFolder path => "Directory not found: " ++ path
  | .missingSource path => "Source not found: " ++ path
  | .noSource => "stat: path should be string, bytes, os.PathLike or integer, not list"
  | .noOutput => Path.notGiven
  | .wrongExtension path extensions =>
    let names := (Discovery.sortedNames extensions).map Text.quoted
    "File " ++ path ++ " is not a JavaScript source file. Expected one of: [" ++
      ", ".intercalate names ++ "]"
  | .system fault => fault.message
  | .source cause => cause.message

/-- What a failure means to whoever asked. -/
inductive Category where
  /-- Something was not found. -/
  | missing
  /-- The linking itself failed. -/
  | linking
  /-- What was given is not suitable. -/
  | unsuitable
  /-- Anything else. -/
  | other
deriving Repr, DecidableEq

/-- What a failure means to whoever asked. -/
def category : FileFailure → Category
  | .missingFile _ | .missingFolder _ | .missingSource _ => .missing
  | .noSource | .noOutput => .other
  | .wrongExtension .. => .unsuitable
  | .system ⟨.missing, _⟩ => .missing
  | .system ⟨.nullCharacter, _⟩ => .unsuitable
  | .system _ => .other
  | .source (.link _) => .linking
  | .source (.parser (.rejected _)) => .unsuitable
  | .source _ => .other

end FileFailure

/-- Where files are read from, and how they are parsed. -/
structure Workspace where
  files : FileSystem
  parser : SourceParser

/-- Records of what has happened, in order. -/
abbrev Records := Array LogRecord

/-! ## Single files -/

/-- An operation on files.  A failed operation keeps its records. -/
abbrev Filing := EStateM FileFailure Records

namespace Filing

/-- Notes an event outside of any file. -/
def note (e : Event) : Filing Unit := modify fun records => records.push ⟨noFile, e⟩

/-- Notes an event while a file is worked on. -/
def noteIn (file : String) (e : Event) : Filing Unit :=
  modify fun records => records.push ⟨file, e⟩

/-- An operation on the source of a file. -/
def onSource {α : Type} (file : String) (operation : Sourcing α) : Filing α := fun records =>
  let tagged (journal : Journal) : Records := records ++ journal.map (LogRecord.mk file)
  match operation #[] with
  | .ok a journal => .ok a (tagged journal)
  | .error cause journal => .error (.source cause) (tagged journal)

end Filing

open Filing

/-- Reads and parses a file, while the file `scope` is worked on. -/
def parseFile (w : Workspace) (scope path : String) : Filing (ParseTree × Bytes) := do
  match w.files.read path with
  | .error fault =>
    match fault.reason with
    | .missing => noteIn scope (.parseFileMissing path)
    | .nullCharacter => pure ()
    | _ => noteIn scope (.parseFileUnreadable path fault.message)
    throw (.system fault)
  | .ok bytes =>
    let parsed ← onSource scope (Source.parse w.parser bytes)
    noteIn scope (.fileParsed path)
    return (parsed, bytes)

/-- How files are linked. -/
structure FileSettings where
  link : LinkSettings
  extensions : List String
  /-- The folder from which paths are reported; by default the folder of the file, or the folder
  that is linked. -/
  base : Option String
deriving Repr, DecidableEq

/-- Links a parsed file, and notes how it went. -/
def linkParsed (settings : LinkSettings) (path : String) (bytes : Bytes) (parsed : ParseTree) :
    Filing LinkResult := fun records =>
  match (onSource path (Source.linkTree settings path bytes parsed)) records with
  | .ok r records =>
    .ok r (records.push ⟨path, .fileLinked r.comments.length r.map.size path⟩)
  | .error failure records =>
    match failure.category with
    | .linking => .error failure (records.push ⟨path, .fileFailed path failure.message⟩)
    | _ => .error failure records

/-- Links the comments of a file. -/
def linkFile (w : Workspace) (settings : FileSettings) (path : String) : Filing LinkResult := do
  let path := w.files.absolute path
  if !w.files.isFile path then throw (.missingFile path)
  else if !settings.extensions.contains (Path.extension path) then
    throw (.wrongExtension path settings.extensions)
  else
    let base := match settings.base with
      | some folder => w.files.absolute folder
      | none => Path.folder path
    let shown := Path.relative path base
    let (parsed, bytes) ← parseFile w shown path
    linkParsed settings.link shown bytes parsed

/-- The source files below a folder. -/
def discoverFiles (w : Workspace) (extensions : List String) (folder : String) :
    Filing (List String) := do
  note (.discovering (w.files.absolute folder))
  match Discovery.discover w.files extensions folder with
  | .error fault => throw (.system fault)
  | .ok found =>
    note (.discovered found.length)
    return found

/-! ## Many files -/

/-- What a batch has done so far. -/
structure Batch where
  /-- The linked files, in order. -/
  results : Array LinkResult
  stats : LinkStats
  records : Records
deriving Repr, Inhabited

/-- An operation of a batch.  A failed operation keeps what was done before. -/
abbrev Batching := EStateM FileFailure Batch

namespace Batch

/-- A batch that has done nothing yet, counting on from some statistics. -/
def start (stats : LinkStats) : Batch := ⟨#[], stats, #[]⟩

/-- Notes an event outside of any file. -/
def note (e : Event) : Batching Unit :=
  modify fun b => { b with records := b.records.push ⟨noFile, e⟩ }

/-- An operation on files within a batch. -/
def filing {α : Type} (operation : Filing α) : Batching α := fun b =>
  match operation b.records with
  | .ok a records => .ok a { b with records }
  | .error failure records => .error failure { b with records }

/-- An operation on files within a batch, of which a failure is handed back. -/
def attempt {α : Type} (operation : Filing α) : Batching (Except FileFailure α) := fun b =>
  match operation b.records with
  | .ok a records => .ok (.ok a) { b with records }
  | .error failure records => .ok (.error failure) { b with records }

/-- Takes a linked file in. -/
def accept (r : LinkResult) : Batching Unit :=
  modify fun b => { b with results := b.results.push r, stats := b.stats.record r }

/-- Counts a file that could not be linked. -/
def countFailure : Batching Unit :=
  modify fun b => { b with stats := b.stats.recordFailure }

/-- How the failure of a file is reported. -/
def skipped (path : String) (failure : FileFailure) : Event :=
  match failure.category with
  | .missing => .missingSkipped failure.message
  | .linking => .failureSkipped path failure.message
  | .unsuitable | .other => .surpriseSkipped path failure.message

/-- What a batch finds when it has come so far: what it writes may be among the files it reads. -/
abbrev View := Batch → Workspace

/-- A view of a workspace that does not change. -/
def View.still (w : Workspace) : View := fun _ => w

/-- Links files one after the other; with `goOn` set, also behind a failing one. -/
def linkEach (view : View) (settings : FileSettings) (goOn : Bool) : List String → Batching Unit
  | [] => return ()
  | path :: rest => do
    match (← attempt (linkFile (view (← get)) settings path)) with
    | .ok r => accept r
    | .error failure =>
      note (skipped path failure)
      countFailure
      if !goOn then throw failure
    linkEach view settings goOn rest

/-- Links the files below a folder. -/
def linkFolder (view : View) (settings : FileSettings) (goOn : Bool) (folder : String) :
    Batching Unit := do
  let w := view (← get)
  let folder := w.files.absolute folder
  if !w.files.isFolder folder then throw (.missingFolder folder)
  else
    let base := match settings.base with
      | some base => w.files.absolute base
      | none => folder
    let found ← filing (discoverFiles w settings.extensions folder)
    if found.isEmpty then note (.nothingDiscovered folder)
    else
      note (.processing found.length folder)
      linkEach view { settings with base := some base } goOn found
      note (.batchEnded (← get).stats.describe)

/-- Links a file, or the files below a folder. -/
def linkPath (view : View) (settings : FileSettings) (goOn : Bool) (path : String) :
    Batching Unit := do
  let w := view (← get)
  let path := w.files.absolute path
  if w.files.isFile path then
    match (← attempt (linkFile w settings path)) with
    | .ok r => accept r
    | .error failure =>
      countFailure
      throw failure
  else if w.files.isFolder path then linkFolder view settings goOn path
  else throw (.missingSource path)

/-- The linked comments of a batch, file by file in source order. -/
def entries (b : Batch) : List LinkEntry := b.results.toList.flatMap LinkResult.entries

end Batch

end Marginalia
