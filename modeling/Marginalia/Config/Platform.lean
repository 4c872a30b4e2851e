import Marginalia.Pattern.Match
import Marginalia.Text.Utf8
import Marginalia.Value.Json

/-!
# What loading rests on

Besides files, loading a configuration rests on environment variables and on parts that are not
described here: a reader of documents, a loader of further variables, and an engine for patterns.
They are given as functions.  Nothing is assumed of them; in particular each of the first two may
fail in a way of its own.

## Main definitions

* `Environment` — the variables that matter.
* `DocumentReader` — a reader of documents.
* `Platform` — the parts that loading rests on.
* `DocumentReader.json`, `Platform.plain` — JSON as the only form of documents.
-/

namespace Marginalia

/-! ## The environment -/

/-- The environment variables that matter. -/
structure Environment where
  configPath : Option String
  logLevel : Option String
  strict : Option String
deriving Repr, DecidableEq

namespace Environment

/-- No variable is set. -/
def empty : Environment := ⟨none, none, none⟩

/-- The variable that names the configuration file. -/
def configName : String := "COMMENT_LINKING_CONFIG"

/-- The variable that names the level to report. -/
def levelName : String := "COMMENT_LINKING_LOG_LEVEL"

/-- The variable that asks for strict loading. -/
def strictName : String := "STRICT_CONFIG_VALIDATION"

/-- The environment in which a variable has the value that `lookup` gives. -/
def ofLookup (lookup : String → Option String) : Environment :=
  ⟨lookup configName, lookup levelName, lookup strictName⟩

/-- Whether a text means yes. -/
def isYes (text : String) : Bool :=
  let word := String.ofList ((Text.trimBlank text.toList).map Char.toLower)
  ["1", "true", "yes", "on"].contains word

/-- Whether loading is strict, with the answer for when nothing is said. -/
def isStrict (env : Environment) (default : Bool) : Bool :=
  match env.strict with
  | some text => isYes text
  | none => default

end Environment

/-! ## Parts from outside -/

/-- Why a reader gives no document. -/
inductive ReaderFault where
  /-- The text is no document, as the reader words it. -/
  | complaint (text : String)
  /-- The reader itself fails. -/
  | crash (cause : Crash)
deriving Repr, DecidableEq

/-- A reader of documents. -/
abbrev DocumentReader := Bytes → Except ReaderFault Value

/-- The parts that loading rests on. -/
structure Platform where
  /-- The reader of documents. -/
  reader : DocumentReader
  /-- The environment with the variables that are set by a file. -/
  settle : Environment → Except Crash Environment
  /-- The engine that matches patterns. -/
  engine : Pattern.Engine
  /-- How deeply nested a value may be to be shown. -/
  room : Nat

/-- The crash of a reader at bytes that are not UTF-8. -/
def Crash.ofUtf8 (fault : Utf8.Fault) : Crash := ⟨"UnicodeDecodeError", fault.message⟩

/-- A reader that understands JSON only.  A file of blanks holds nothing. -/
def DocumentReader.json : DocumentReader := fun raw =>
  match Utf8.firstFault? raw with
  | some fault => .error (.crash (.ofUtf8 fault))
  | none =>
    let text := Utf8.decode raw
    if Text.allBlank text then .ok .null
    else
      match Json.parse? (String.ofList text) with
      | some v => .ok v
      | none => .error (.complaint "not a document")

/-- Documents in JSON, and no further variables. -/
def Platform.plain : Platform := ⟨.json, .ok, .standard, 1000⟩

end Marginalia
