import Marginalia.Command.Arguments
import Marginalia.Config.Load
import Marginalia.Console
import Marginalia.Files.Batch
import Marginalia.Files.Output
import Marginalia.Source.Record

/-!
# A run

A run loads the configuration, links the source, writes the linked comments into the output file,
and ends with a report.  Files are a value that the run changes; what the clock and the generator of
run names say is given to it.

## Main definitions

* `Surroundings` — what a run takes from outside.
* `RunState`, `Running` — the state of a run.
* `Run.prepare`, `Run.link`, `Run.conclude` — the stages.
* `Run.run`, `Run.command` — a whole run, and a run from the command line.
-/

namespace Marginalia

/-- What a run takes from outside. -/
structure Surroundings where
  platform : Platform
  environment : Environment
  parser : SourceParser
  /-- The name of the run. -/
  runId : String
  /-- The time of the report. -/
  timestamp : String

/-- The state of a run. -/
structure RunState where
  files : FileSystem
  console : Console
  /-- The records that were printed. -/
  records : Records
  /-- The printed lines. -/
  lines : Array String

/-- Why a run ends without an exit code. -/
inductive RunFailure where
  | config (failure : ConfigFailure)
  /-- The report cannot be written. -/
  | report (fault : SystemFault)
  /-- No path is given for the source, the output or the report. -/
  | noPath
deriving Repr, DecidableEq

/-- The wording of a failure. -/
def RunFailure.message : RunFailure → String
  | .config failure => failure.message
  | .report fault => fault.message
  | .noPath => Path.notGiven

/-- A stage of a run.  A failed stage keeps the state. -/
abbrev Running := EStateM RunFailure RunState

/-- How a run went. -/
inductive RunStatus where
  | success
  /-- Some files failed. -/
  | partly
  | failed
deriving Repr, DecidableEq

/-- The name of a status in reports. -/
def RunStatus.name : RunStatus → String
  | .success => "success"
  | .partly => "partial"
  | .failed => "failed"

/-- What came of linking: the statistics, and the failure that ended it. -/
structure LinkOutcome where
  stats : LinkStats
  failure : Option FileFailure
deriving Repr, DecidableEq

/-- How a run went. -/
def LinkOutcome.status (o : LinkOutcome) : RunStatus :=
  if o.failure.isSome then .failed
  else if o.stats.filesFailed = 0 then .success else .partly

namespace Run

/-- A run at its start. -/
def start (files : FileSystem) (console : Console) : RunState := ⟨files, console, #[], #[]⟩

/-- Prints a record, unless it is below the console's level. -/
def print (r : LogRecord) : Running Unit :=
  modify fun s =>
    let level := r.event.level.severity
    if s.console.passes level then
      let lines := (s.console.enter r.file).lines level r.event.channel r.event.message
      { s with records := s.records.push r, lines := s.lines ++ lines }
    else s

/-- Prints records in order. -/
def printAll (rs : List LogRecord) : Running Unit := rs.forM print

/-- Prints an event outside of any file. -/
def note (e : Event) : Running Unit := print ⟨noFile, e⟩

/-- Changes the console. -/
def adjust (f : Console → Console) : Running Unit :=
  modify fun s => { s with console := f s.console }

/-- Loads the configuration; nothing, if it is refused. -/
def prepare (w : Surroundings) (args : Arguments) : Running (Option Config) := do
  let loaded := Config.load w.platform (← get).files w.environment
    (args.config.bind SwitchValue.text?) args.strictConfig #[]
  let warnings (faults : Array ConfigFault) : List LogRecord :=
    faults.toList.map fun f => ⟨noFile, .configWarning f.warning⟩
  match loaded with
  | .ok config faults =>
    printAll (warnings faults)
    adjust fun c => (c.configure config.level.severity).nameRun none w.runId
    return some config
  | .error (.rejected fault) faults =>
    printAll (warnings faults)
    adjust fun c => c.configure Level.info.severity
    note (.configRejected fault.message)
    return none
  | .error failure faults =>
    printAll (warnings faults)
    throw (.config failure)

/-- Changes the files, and gives the fault if that fails. -/
def store (operation : Storing Unit) : Running (Option SystemFault) := fun s =>
  match operation s.files with
  | .ok _ files => .ok none { s with files }
  | .error fault files => .ok (some fault) { s with files }

/-- Makes an empty output file, with its folder. -/
def openOutput (path : String) : Running (Option SystemFault) := do
  let folder := Path.folder ((← get).files.absolute path)
  store do
    Storing.makeFolders folder
    Storing.write path []

/-- Fills the output file. -/
def fillOutput (path : String) (entries : List LinkEntry) : Running Unit := do
  discard (store (Storing.write path (Utf8.encode (LinkEntry.lines entries))))

/-- What a run finds while it writes the output file. -/
def viewDuring (parser : SourceParser) (files : FileSystem) (output : String) : Batch.View :=
  fun b =>
    let written := Output.ofPieces (b.entries.map fun e => Utf8.encode e.line)
    ⟨files.after (Storing.write output written.arrived), parser⟩

/-- Links a source that exists into the output file.  What was linked before a failure is written,
too. -/
def linkInto (w : Surroundings) (config : Config) (goOn : Bool) (source output : String) :
    Running LinkOutcome := do
  note (.runOutput ((← get).files.absolute output))
  match (← openOutput output) with
  | some fault => return ⟨.zero, some (.system fault)⟩
  | none =>
    let view := viewDuring w.parser (← get).files output
    let settings : FileSettings := ⟨config.linkSettings, config.extensions, none⟩
    let (batch, failure) :=
      match Batch.linkPath view settings goOn source (.start .zero) with
      | .ok _ b => (b, none)
      | .error failure b => (b, some failure)
    printAll batch.records.toList
    fillOutput output batch.entries
    if failure.isNone then note (.recordsWritten batch.entries.length output)
    return ⟨batch.stats, failure⟩

/-- Links the source into the output file, if the source exists. -/
def link (w : Surroundings) (args : Arguments) (config : Config) : Running LinkOutcome := do
  match args.source with
  | .nothing => return ⟨.zero, some .noSource⟩
  | .text source =>
    let files := (← get).files
    if !files.exists? source then return ⟨.zero, some (.missingSource source)⟩
    else
      note (.runSource (files.absolute source))
      match args.outputFile with
      | .nothing => return ⟨.zero, some .noOutput⟩
      | .text output => linkInto w config (config.goOn && !args.failFast) source output

/-- How the failure of a run is reported. -/
def failureEvent (failure : FileFailure) : Event :=
  match failure.category with
  | .missing => .runFileMissing failure.message
  | .linking | .unsuitable => .runLinkingFailed failure.message
  | .other => .runFailed failure.message

/-- The report of a run. -/
def reportOf (files : FileSystem) (config : Config) (duration : Duration) (o : LinkOutcome)
    (source output : String) : RunReport where
  source := files.absolute source
  status := o.status.name
  duration
  stats := o.stats.fields.map fun (name, n) => (name, .int n)
  outputFile := some (files.absolute output)
  configPath := config.path
  error := o.failure.map FileFailure.message

/-- Writes the report, and gives the exit code. -/
def conclude (w : Surroundings) (args : Arguments) (config : Config) (duration : Duration)
    (o : LinkOutcome) : Running Nat := do
  if let some failure := o.failure then note (failureEvent failure)
  match args.source, args.outputFile, args.reportDir with
  | .text source, .text output, .text folder =>
    let report := reportOf (← get).files config duration o source output
    match (← store (Report.write folder w.runId w.timestamp report.document)) with
    | some fault => throw (.report fault)
    | none =>
      note (.reportWritten (Report.path folder w.runId))
      note (.finalStats o.stats.describe)
      return if o.status = .success then 0 else 1
  | _, _, _ => throw .noPath

/-- A whole run that takes a given time. -/
def run (w : Surroundings) (args : Arguments) (duration : Duration) : Running Nat := do
  match (← prepare w args) with
  | none => return 1
  | some config => conclude w args config duration (← link w args config)

/-- A run from the command line. -/
def command (w : Surroundings) (words : List String) (duration : Duration) : Running Nat :=
  match Arguments.parse words with
  | .error stop => return stop.exitCode
  | .ok args => run w args duration

end Run

end Marginalia
