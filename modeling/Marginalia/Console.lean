import Marginalia.Journal
import Marginalia.Text.Capital

/-!
# The console

Records are printed by handlers.  A console has a level below which nothing is printed, and it knows
the run and the file that are being worked on, so that each line can name them.

## Main definitions

* `Handler` — how records are printed.
* `Console` — the handlers with the level and the context.
* `Console.configure` — sets the level, and has all handlers print full lines.
* `Console.lines` — what the handlers print for a record.
-/

namespace Marginalia

/-- How records are printed. -/
structure Handler where
  /-- Whether full lines are printed, and not the messages alone. -/
  fullLines : Bool
  /-- Whether records get the run and the file. -/
  hasContext : Bool
deriving Repr, DecidableEq

/-- A handler that prints messages alone. -/
def Handler.bare : Handler := ⟨false, false⟩

/-- The parts of a full line. -/
def Handler.lineFormat : String :=
  "%(asctime)s | %(levelname)s | run_id=%(run_id)s | file=%(source_file)s | %(name)s | %(message)s"

/-- The handlers with the level and the context. -/
structure Console where
  /-- The least serious level that is printed. -/
  level : Int
  handlers : List Handler
  runId : String
  /-- The files being worked on, the innermost one first. -/
  files : List String
deriving Repr, DecidableEq

namespace Console

/-- A console without handlers that lets warnings pass. -/
def initial : Console := ⟨Level.warning.severity, [], "-", []⟩

/-- The names of levels, with their numbers; of two names with one number the first is printed. -/
def levelNames : List (String × Int) := [
  ("NOTSET", 0), ("DEBUG", 10), ("INFO", 20), ("WARNING", 30), ("WARN", 30), ("ERROR", 40),
  ("CRITICAL", 50), ("FATAL", 50)]

/-- The level that a text names, whatever the case of its letters; an unknown one counts as
`INFO`. -/
def levelOf (text : String) : Int :=
  (levelNames.lookup (String.ofList (Text.capitals text.toList))).getD Level.info.severity

/-- The name of a level. -/
def levelName (level : Int) : String :=
  match levelNames.find? (·.2 == level) with
  | some (name, _) => name
  | none => "Level " ++ toString level

/-- Adds a handler that prints messages alone. -/
def addHandler (c : Console) : Console := { c with handlers := c.handlers ++ [.bare] }

/-- Sets the level, and has all handlers print full lines with the context.  If there is no handler,
one is added. -/
def configure (c : Console) (level : Int) : Console :=
  let handlers := if c.handlers.isEmpty then [.bare] else c.handlers
  { c with level, handlers := handlers.map fun _ => ⟨true, true⟩ }

/-- Names the run: as it is given, or else as it is generated. -/
def nameRun (c : Console) (given : Option String) (generated : String) : Console :=
  { c with runId := (given.filter (!·.isEmpty)).getD generated }

/-- Starts to work on a file. -/
def enter (c : Console) (file : String) : Console := { c with files := file :: c.files }

/-- Ends the work on the innermost file. -/
def leave (c : Console) : Console := { c with files := c.files.tail }

/-- The file being worked on. -/
def file (c : Console) : String := c.files.head?.getD noFile

/-- Whether a record at a level is printed; one without a positive level never is. -/
def passes (c : Console) (level : Int) : Bool := decide (0 < level) && decide (c.level ≤ level)

/-- What a handler prints, apart from the time. -/
def line (c : Console) (level : Int) (channel message : String) (h : Handler) : String :=
  if h.fullLines then
    levelName level ++ " | run_id=" ++ c.runId ++ " | file=" ++ c.file ++ " | " ++ channel ++
      " | " ++ message
  else message

/-- What the handlers print for a record, apart from the time. -/
def lines (c : Console) (level : Int) (channel message : String) : List String :=
  if c.passes level then c.handlers.map (c.line level channel message) else []

end Console

end Marginalia
