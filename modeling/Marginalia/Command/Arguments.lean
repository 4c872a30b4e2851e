import Marginalia.Command.Switch
import Marginalia.Report

/-!
# Arguments of a run

The words on the command line are read from left to right.  All of them are read before any takes
effect; then each switch takes the value it needs, help ends the reading, and words that belong to
nothing are refused in the end.

## Main definitions

* `SwitchValue` — the value of a switch.
* `Arguments` — what a run is asked to do.
* `ArgumentFault`, `ArgumentStop` — why there is no run.
* `Arguments.parse` — the arguments that words stand for.
-/

namespace Marginalia

/-- The value of a switch. -/
inductive SwitchValue where
  | text (s : String)
  /-- A divider stood for the value, and a divider never counts as one. -/
  | nothing
deriving Repr, DecidableEq

namespace SwitchValue

/-- The value that is attached to a switch. -/
def ofAttached (s : String) : SwitchValue :=
  if s == Word.dividerText then .nothing else .text s

/-- The text of a value. -/
def text? : SwitchValue → Option String
  | .text s => some s
  | .nothing => none

end SwitchValue

/-- What a run is asked to do. -/
structure Arguments where
  /-- The file or the folder to link. -/
  source : SwitchValue
  outputFile : SwitchValue
  /-- The configuration file. -/
  config : Option SwitchValue
  reportDir : SwitchValue
  /-- Whether the run stops at the first failing file. -/
  failFast : Bool
  /-- Whether an unusable configuration is refused; if nothing is said, the environment decides. -/
  strictConfig : Option Bool
deriving Repr, DecidableEq

/-- What is wrong with the words on the command line. -/
inductive ArgumentFault where
  /-- A name could be cut short from several. -/
  | ambiguous (word : String) (switches : List Switch)
  | missingValue (s : Switch)
  /-- A switch takes no value. -/
  | unusedValue (s : Switch) (text : String)
  | missingSource
  | unrecognized (words : List String)
deriving Repr, DecidableEq

/-- The wording of a fault. -/
def ArgumentFault.message : ArgumentFault → String
  | .ambiguous word switches =>
    "ambiguous option: " ++ word ++ " could match " ++ ", ".intercalate (switches.map Switch.name)
  | .missingValue s => "argument " ++ s.label ++ ": expected one argument"
  | .unusedValue s text =>
    "argument " ++ s.label ++ ": ignored explicit argument " ++ Text.quoted text
  | .missingSource => "the following arguments are required: " ++ Switch.source.label
  | .unrecognized words => "unrecognized arguments: " ++ " ".intercalate words

/-- Why there is no run. -/
inductive ArgumentStop where
  /-- Help is asked for. -/
  | help
  | refused (fault : ArgumentFault)
deriving Repr, DecidableEq

namespace ArgumentStop

/-- The exit code of the command. -/
def exitCode : ArgumentStop → Nat
  | .help => 0
  | .refused _ => 2

/-- What is said about a refusal. -/
def message : ArgumentStop → String
  | .help => ""
  | .refused fault => fault.message

end ArgumentStop

namespace Arguments

/-- What the words read so far ask for, and those that belong to nothing. -/
structure Draft where
  source : Option SwitchValue
  outputFile : SwitchValue
  config : Option SwitchValue
  reportDir : SwitchValue
  failFast : Bool
  strictConfig : Option Bool
  extras : List String
deriving Repr, DecidableEq

/-- No word asks for anything. -/
def Draft.empty : Draft where
  source := none
  outputFile := .text "output/linked_comments.jsonl"
  config := none
  reportDir := .text Report.standardFolder
  failFast := false
  strictConfig := none
  extras := []

/-- Gives a switch its value. -/
def Draft.setValue (d : Draft) (v : SwitchValue) : Switch → Draft
  | .source => { d with source := some v }
  | .outputFile => { d with outputFile := v }
  | .config => { d with config := some v }
  | .reportDir => { d with reportDir := v }
  | .help | .failFast | .strictConfig => d

/-- Turns a switch on. -/
def Draft.turnOn (d : Draft) : Switch → Draft
  | .failFast => { d with failFast := true }
  | .strictConfig => { d with strictConfig := some true }
  | .help | .source | .outputFile | .config | .reportDir => d

/-- Adds a word that belongs to nothing. -/
def Draft.addExtra (d : Draft) (text : String) : Draft := { d with extras := d.extras ++ [text] }

/-- Reads the words; behind a divider all are values. -/
def readWords : List String → Except ArgumentStop (List Word)
  | [] => .ok []
  | text :: rest =>
    match Word.read text with
    | .error switches => .error (.refused (.ambiguous text switches))
    | .ok .divider => .ok (.divider :: rest.map .value)
    | .ok word => (readWords rest).map (word :: ·)

/-- The letters behind the short name for help: each may be that name again, and the first one that
is not starts a value, which help does not take. -/
def readLetters : List Char → ArgumentStop
  | [] => .help
  | 'h' :: rest => readLetters rest
  | rest => .refused (.unusedValue .help (String.ofList rest))

/-- Lets words take effect. -/
def consume (d : Draft) : List Word → Except ArgumentStop Draft
  | [] => .ok d
  | .value text :: rest => consume (d.addExtra text) rest
  | .divider :: rest => consume (d.addExtra Word.dividerText) rest
  | .unknown text :: rest => consume (d.addExtra text) rest
  | .letters letters :: _ => .error (readLetters letters)
  | .switch s (some text) :: rest =>
    if s.takesValue then consume (d.setValue (.ofAttached text) s) rest
    else .error (.refused (.unusedValue s text))
  | .switch s none :: rest =>
    if s.takesValue then
      match rest with
      | .value text :: rest => consume (d.setValue (.text text) s) rest
      | _ => .error (.refused (.missingValue s))
    else if s = .help then .error .help
    else consume (d.turnOn s) rest

/-- The arguments that a draft stands for. -/
def ofDraft (d : Draft) : Except ArgumentStop Arguments :=
  match d.source with
  | none => .error (.refused .missingSource)
  | some source =>
    if d.extras.isEmpty then
      .ok ⟨source, d.outputFile, d.config, d.reportDir, d.failFast, d.strictConfig⟩
    else .error (.refused (.unrecognized d.extras))

/-- The arguments that words stand for. -/
def parse (words : List String) : Except ArgumentStop Arguments := do
  ofDraft (← consume .empty (← readWords words))

end Arguments

end Marginalia
