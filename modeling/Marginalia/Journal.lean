import Marginalia.Position

/-!
# The journal of a run

What happens during a run is noted as a list of events.  An event has a level, the channel it is
reported on, and a wording.

## Main definitions

* `Level` — how serious an event is.
* `Event` — what happened.
* `Event.level`, `Event.channel`, `Event.message` — how it is reported.
* `LogRecord` — an event with the file that was being worked on.
-/

namespace Marginalia

/-- How serious an event is. -/
inductive Level where
  | debug
  | info
  | warning
  | error
  | critical
deriving Repr, DecidableEq, Inhabited

namespace Level

/-- The name of a level. -/
def name : Level → String
  | .debug => "DEBUG"
  | .info => "INFO"
  | .warning => "WARNING"
  | .error => "ERROR"
  | .critical => "CRITICAL"

/-- The number of a level. -/
def severity : Level → Int
  | .debug => 10
  | .info => 20
  | .warning => 30
  | .error => 40
  | .critical => 50

/-- The level with a name. -/
def ofName? : String → Option Level
  | "DEBUG" => some .debug
  | "INFO" => some .info
  | "WARNING" => some .warning
  | "ERROR" => some .error
  | "CRITICAL" => some .critical
  | _ => none

end Level

/-- What happened during a run. -/
inductive Event where
  /-- Nothing was left of a comment. -/
  | shellDropped
  /-- A node received another text. -/
  | entryExtended (id : Nat)
  | placeholderInserted (id : Nat) (kind : String) (line : Int)
  | placeholderAppended (id : Nat) (kind : String)
  /-- A group was stored on a node. -/
  | groupLinked (kind : String) (id : Nat) (place : Position)
  /-- A group was stored on a placeholder. -/
  | groupAnchored (id : Nat) (line : Int)
  /-- A comment stands behind an argument. -/
  | argumentDeferred (column : Int) (id : Nat)
  | passEnded (comments entries placeholders : Nat)
  | parserCreated
  | bytesParsed (count : Nat)
  | fileParsed (path : String)
  | parseFileMissing (path : String)
  | parseFileUnreadable (path reason : String)
  | commentsCollected (count : Nat)
  | treeBuilt (nodes : Nat)
  | syntaxErrors (path : String) (count : Nat)
  | fileFailed (path reason : String)
  | fileLinked (comments entries : Nat) (path : String)
  | discovering (folder : String)
  | discovered (count : Nat)
  | nothingDiscovered (folder : String)
  | processing (count : Nat) (folder : String)
  | missingSkipped (reason : String)
  | failureSkipped (path reason : String)
  | surpriseSkipped (path reason : String)
  | batchEnded (stats : String)
  | configWarning (text : String)
  | configRejected (reason : String)
  | runSource (path : String)
  | runOutput (path : String)
  | recordsWritten (count : Nat) (path : String)
  | runFileMissing (reason : String)
  | runLinkingFailed (reason : String)
  | runFailed (reason : String)
  | reportWritten (path : String)
  | finalStats (stats : String)
deriving Repr, DecidableEq

namespace Event

/-- How serious an event is. -/
def level : Event → Level
  | .shellDropped | .entryExtended .. | .placeholderInserted .. | .placeholderAppended ..
  | .groupLinked .. | .groupAnchored .. | .argumentDeferred .. | .passEnded .. | .parserCreated
  | .bytesParsed .. | .fileParsed .. | .commentsCollected .. | .treeBuilt .. => .debug
  | .fileLinked .. | .discovering .. | .discovered .. | .processing .. | .batchEnded ..
  | .runSource .. | .runOutput .. | .recordsWritten .. | .reportWritten .. | .finalStats .. => .info
  | .syntaxErrors .. | .nothingDiscovered .. | .configWarning .. => .warning
  | .parseFileMissing .. | .parseFileUnreadable .. | .fileFailed .. | .missingSkipped ..
  | .failureSkipped .. | .surpriseSkipped .. | .configRejected .. | .runFileMissing ..
  | .runLinkingFailed .. | .runFailed .. => .error

/-- The channel on which an event is reported. -/
def channel : Event → String
  | .shellDropped => "linking.content_filter"
  | .entryExtended .. | .placeholderInserted .. | .placeholderAppended .. => "linking.models"
  | .groupLinked .. => "linking.attachment"
  | .groupAnchored .. => "linking.floating"
  | .argumentDeferred .. => "linking.call_args"
  | .passEnded .. => "linking.walker"
  | .parserCreated | .bytesParsed .. | .fileParsed .. | .parseFileMissing ..
  | .parseFileUnreadable .. | .commentsCollected .. | .treeBuilt .. => "linking.parser"
  | .syntaxErrors .. | .fileFailed .. | .fileLinked .. | .discovering .. | .discovered ..
  | .nothingDiscovered .. | .processing .. | .missingSkipped .. | .failureSkipped ..
  | .surpriseSkipped .. | .batchEnded .. => "linking.linker"
  | .configWarning .. => "core.settings"
  | .configRejected .. | .runSource .. | .runOutput .. | .recordsWritten .. | .runFileMissing ..
  | .runLinkingFailed .. | .runFailed .. | .reportWritten .. | .finalStats .. => "run_linking"

/-- The wording of an event. -/
def message : Event → String
  | .shellDropped => "Comment reduced to an empty shell; dropping"
  | .entryExtended id => "Node " ++ toString id ++ " already holds a comment; appending"
  | .placeholderInserted id kind line =>
    "Inserted placeholder " ++ toString id ++ " before " ++ kind ++ " at line " ++ toString line
  | .placeholderAppended id kind => "Appended placeholder " ++ toString id ++ " to " ++ kind
  | .groupLinked kind id place =>
    "Linked comment to " ++ kind ++ " " ++ toString id ++ " at " ++ place.describe
  | .groupAnchored id line =>
    "Floating comment anchored on empty " ++ toString id ++ " at line " ++ toString line
  | .argumentDeferred column id =>
    "Comment ending at column " ++ toString column ++ " follows argument " ++ toString id ++
      "; deferring"
  | .passEnded comments entries placeholders =>
    "Linked " ++ toString comments ++ " comments into " ++ toString entries ++ " entries (" ++
      toString placeholders ++ " placeholders)"
  | .parserCreated => "Created tree-sitter JavaScript parser"
  | .bytesParsed count => "Parsed " ++ toString count ++ " bytes of JavaScript code"
  | .fileParsed path => "Parsed file: " ++ path
  | .parseFileMissing path => "File not found: " ++ path
  | .parseFileUnreadable path reason => "Error reading file " ++ path ++ ": " ++ reason
  | .commentsCollected count => "Collected " ++ toString count ++ " comments"
  | .treeBuilt nodes => "Built syntax tree with " ++ toString nodes ++ " nodes"
  | .syntaxErrors path count =>
    "File " ++ path ++ " contains syntax errors (" ++ toString count ++ " error nodes)"
  | .fileFailed path reason => "Error linking comments in " ++ path ++ ": " ++ reason
  | .fileLinked comments entries path =>
    "Linked " ++ toString comments ++ " comments into " ++ toString entries ++ " entries in " ++
      path
  | .discovering folder => "Discovering JavaScript files in " ++ folder
  | .discovered count => "Found " ++ toString count ++ " JavaScript files"
  | .nothingDiscovered folder => "No JavaScript files found in " ++ folder
  | .processing count folder =>
    "Processing " ++ toString count ++ " JavaScript files from " ++ folder
  | .missingSkipped reason => "File not found: " ++ reason
  | .failureSkipped path reason => "Linking failed for " ++ path ++ ": " ++ reason
  | .surpriseSkipped path reason => "Unexpected error processing " ++ path ++ ": " ++ reason
  | .batchEnded stats => "Linking complete: " ++ stats
  | .configWarning text => text
  | .configRejected reason => "Configuration error: " ++ reason
  | .runSource path => "Source           : " ++ path
  | .runOutput path => "Output file      : " ++ path
  | .recordsWritten count path => "Wrote " ++ toString count ++ " lines to " ++ path
  | .runFileMissing reason => "File error: " ++ reason
  | .runLinkingFailed reason => "Linking failed: " ++ reason
  | .runFailed reason => "Run failed: " ++ reason
  | .reportWritten path => "Run report written to " ++ path
  | .finalStats stats => "Final stats: " ++ stats

end Event

/-- What has happened, in order. -/
abbrev Journal := Array Event

/-- The file named in records outside of any file. -/
def noFile : String := "-"

/-- An event with the file that was being worked on. -/
structure LogRecord where
  file : String
  event : Event
deriving Repr, DecidableEq

/-- Whether an event is at least as serious as a level. -/
def Event.reaches (level : Int) (e : Event) : Bool := decide (level ≤ e.level.severity)

end Marginalia
