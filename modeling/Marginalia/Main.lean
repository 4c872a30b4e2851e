import Marginalia.Command.Run
import Marginalia.Files.Bundle
import Std.Time.Format

/-!
# The command

The command reads a bundle of files from standard input, runs on it with the words on the command
line and with the environment, and writes each file that the run added as a document on a line of
standard output.  What is reported goes to standard error.

## Main definitions

* `main` — the command.
-/

namespace Marginalia

/-- How the command is used. -/
def usage : String :=
  "usage: marginalia [-h] --source SOURCE [--output-file OUTPUT_FILE] [--config CONFIG] " ++
    "[--report-dir REPORT_DIR] [--fail-fast] [--strict-config]"

/-- The name of a new run. -/
def newRunId : IO String := do
  let n ← IO.rand 0 (Nat.pow 2 64 - 1)
  return String.ofList (Text.hexPadded 16 n)

/-- The time as a text. -/
def timestamp : IO String := do
  let now ← Std.Time.Timestamp.now
  return (Std.Time.DateTime.ofTimestamp now Std.Time.TimeZone.ZoneRules.UTC).toISO8601String

/-- A stage of a run, in sequence with reading the clock. -/
def perform {α : Type} (stage : Running α) (s : RunState) : IO (Except RunFailure α × RunState) :=
  match stage s with
  | .ok a s => return (.ok a, s)
  | .error failure s => return (.error failure, s)

/-- Prints the lines of a run, and the files it added. -/
def publish (b : Bundle) (s : RunState) : IO Unit := do
  for line in s.lines do
    IO.eprintln line
  for (path, content) in s.files.addedSince b.files do
    IO.println (Json.line .minimal (Bundle.fileValue path content))

/-- Ends the command with what a run has come to. -/
def finish (b : Bundle) (result : Except RunFailure Nat) (s : RunState) : IO UInt32 := do
  publish b s
  match result with
  | .ok code => return code.toUInt32
  | .error failure =>
    IO.eprintln failure.message
    return 1

/-- Runs with arguments on the bundle on standard input. -/
def runArguments (args : Arguments) : IO UInt32 := do
  let text ← (← IO.getStdin).readToEnd
  let b := Bundle.ofValue ((Json.parse? text).getD .null)
  let config ← IO.getEnv Environment.configName
  let level ← IO.getEnv Environment.levelName
  let strict ← IO.getEnv Environment.strictName
  let w : Surroundings :=
    ⟨.plain, ⟨config, level, strict⟩, b.parser, ← newRunId, ← timestamp⟩
  let began ← IO.monoMsNow
  match (← perform (Run.prepare w args) (Run.start b.files Console.initial.addHandler)) with
  | (.error failure, s) => finish b (.error failure) s
  | (.ok none, s) => finish b (.ok 1) s
  | (.ok (some config), s) =>
    match (← perform (Run.link w args config) s) with
    | (.error failure, s) => finish b (.error failure) s
    | (.ok outcome, s) =>
      let ended ← IO.monoMsNow
      let duration := Duration.exact ((ended - began).toFloat / 1000)
      let (result, s) ← perform (Run.conclude w args config duration outcome) s
      finish b result s

end Marginalia

/-- The command. -/
def main (words : List String) : IO UInt32 := do
  match Marginalia.Arguments.parse words with
  | .ok args => Marginalia.runArguments args
  | .error stop =>
    match stop with
    | .help => IO.println Marginalia.usage
    | .refused fault =>
      IO.eprintln Marginalia.usage
      IO.eprintln ("error: " ++ fault.message)
    return stop.exitCode.toUInt32
