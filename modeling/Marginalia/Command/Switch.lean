import Marginalia.Pattern.Replace

/-!
# Words on the command line

A word on the command line is a value or the name of a switch.  A long name may be cut short as long
as only one switch starts so, and a value may stand behind the name and an equals sign.

## Main definitions

* `Switch` — the switches.
* `Word` — what a word on the command line means.
* `Word.read` — the meaning of a word.
-/

namespace Marginalia

/-- The switches of the command line. -/
inductive Switch where
  | help
  | source
  | outputFile
  | config
  | reportDir
  | failFast
  | strictConfig
deriving Repr, DecidableEq

namespace Switch

/-- The name of a switch. -/
def name : Switch → String
  | .help => "--help"
  | .source => "--source"
  | .outputFile => "--output-file"
  | .config => "--config"
  | .reportDir => "--report-dir"
  | .failFast => "--fail-fast"
  | .strictConfig => "--strict-config"

/-- The names of a switch as messages show them. -/
def label : Switch → String
  | .help => "-h/--help"
  | s => s.name

/-- Whether a switch takes a value. -/
def takesValue : Switch → Bool
  | .source | .outputFile | .config | .reportDir => true
  | .help | .failFast | .strictConfig => false

/-- All switches. -/
def all : List Switch :=
  [.help, .source, .outputFile, .config, .reportDir, .failFast, .strictConfig]

/-- The switch with a name. -/
def ofName? (text : String) : Option Switch :=
  if text == "-h" then some .help else all.find? fun s => s.name == text

end Switch

/-- What a word on the command line means. -/
inductive Word where
  | value (text : String)
  /-- The word behind which all words are values. -/
  | divider
  /-- A switch, with the value behind its equals sign. -/
  | switch (s : Switch) (attached : Option String)
  /-- The short name for help, with letters behind it or behind its equals sign. -/
  | letters (rest : List Char)
  /-- A switch that does not exist. -/
  | unknown (text : String)
deriving Repr, DecidableEq

namespace Word

/-- The text of a divider. -/
def dividerText : String := "--"

open Pattern in
/-- A negative number, with or without a point. -/
def negativeNumber : Pattern :=
  let digit := Pattern.one ⟨false, [.category .digit false]⟩
  all [.anchor .textStart, char '-',
    first [some₁ digit, all [many digit, char '.', some₁ digit]], .anchor .lastLineEnd]

/-- A text up to its first equals sign, and what stands behind that. -/
def splitEquals (text : String) : String × Option String :=
  let cs := text.toList
  let name := String.ofList (cs.takeWhile (· != '='))
  match cs.dropWhile (· != '=') with
  | _ :: rest => (name, some (String.ofList rest))
  | [] => (name, none)

/-- The switches whose long name starts with a text. -/
def candidates (text : String) : List Switch :=
  Switch.all.filter fun s => text.toList.isPrefixOf s.name.toList

/-- The meaning of a text that starts with a dash and names no switch exactly: a value if it is a
negative number or holds a space. -/
def readStranger (text : String) : Word :=
  if (negativeNumber.find? text.toList).isSome || text.toList.contains ' ' then .value text
  else .unknown text

/-- The meaning of a name with what is attached to it.  A short name, whose second character is no
dash, takes that for letters. -/
def ofAttached (second : Char) (s : Switch) (attached : Option String) : Word :=
  match attached.map String.toList with
  | some (c :: cs) => if second == '-' then .switch s attached else .letters (c :: cs)
  | _ => .switch s attached

/-- The meaning of a word; of a name that is cut too short, the switches that it could be. -/
def read (text : String) : Except (List Switch) Word :=
  if text == dividerText then .ok .divider
  else
    match Switch.ofName? text, text.toList with
    | some s, _ => .ok (.switch s none)
    | none, '-' :: second :: rest =>
      let (name, attached) := splitEquals text
      match Switch.ofName? name with
      | some s => .ok (ofAttached second s attached)
      | none =>
        if second == '-' then
          match candidates name with
          | [] => .ok (readStranger text)
          | [s] => .ok (.switch s attached)
          | more => .error more
        else if second == 'h' then .ok (.letters rest)
        else .ok (readStranger text)
    | none, _ => .ok (.value text)

end Word

end Marginalia
