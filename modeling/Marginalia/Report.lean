import Marginalia.Decimal.Round
import Marginalia.Files.FileSystem
import Marginalia.Value.Json

/-!
# Run reports

A run ends with a report: a document that says what was linked, how it went and how long it took.

## Main definitions

* `RunReport` — a report.
* `RunReport.document` — the report as a document.
* `Report.write` — writes a report into a folder.
-/

namespace Marginalia

/-- How long something took, in seconds. -/
inductive Duration where
  | whole (seconds : Int)
  | exact (seconds : Float)
deriving Repr

/-- A duration to three places; whole seconds stay whole. -/
def Duration.rounded : Duration → Value
  | .whole n => .int n
  | .exact x => .float (Decimal.roundPlaces 3 x)

/-- What a run reports. -/
structure RunReport where
  source : String
  status : String
  duration : Duration
  stats : List (String × Value)
  outputFile : Option String
  configPath : Option String
  error : Option String
deriving Repr

/-- A report as a document.  An error is mentioned only if there is one. -/
def RunReport.document (r : RunReport) : List (String × Value) :=
  [("source", .text r.source), ("status", .text r.status),
    ("duration_seconds", r.duration.rounded), ("stats", .object r.stats),
    ("output_file", .ofText? r.outputFile), ("config_path", .ofText? r.configPath)] ++
  match r.error with
  | some e => [("error", .text e)]
  | none => []

namespace Report

/-- The folder of reports. -/
def standardFolder : String := "output/run_reports"

/-- Adds an entry unless the key is there. -/
def addMissing (key : String) (v : Value) (entries : List (String × Value)) :
    List (String × Value) :=
  if entries.any (·.1 == key) then entries else entries ++ [(key, v)]

/-- A report with the run and the time added, unless it names its own. -/
def stamped (report : List (String × Value)) (runId timestamp : String) :
    List (String × Value) :=
  addMissing "timestamp_utc" (.text timestamp) (addMissing "run_id" (.text runId) report)

/-- The path of a run's report. -/
def path (folder runId : String) : String := Path.join folder ("linking-" ++ runId ++ ".json")

/-- The text of a report. -/
def text (report : List (String × Value)) (runId timestamp : String) : String :=
  Json.pages (.object (stamped report runId timestamp))

/-- Writes a report into a folder, which is made if it does not exist. -/
def write (folder runId timestamp : String) (report : List (String × Value)) : Storing Unit := do
  Storing.makeFolders folder
  Storing.write (path folder runId) (Utf8.encode (text report runId timestamp))

end Report

end Marginalia
