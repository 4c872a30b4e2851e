import Marginalia.Config.Basic
import Marginalia.Config.Fault
import Marginalia.Config.Platform
import Marginalia.Pattern.Parser
import Marginalia.Text.Capital

/-!
# Loading a configuration

A configuration comes from an optional file and from the environment, to which variables may be
added first.  Strict and lenient loading read the same entries in the same order; strict loading
stops at the first fault, lenient loading notes it and takes the default.

## Main definitions

* `Configuring` — loading, with the faults noted so far.
* `Config.readDocument` — the mapping in a configuration file.
* `Config.loadIn`, `Config.load` — the configuration.
-/

namespace Marginalia

/-! ## Loading -/

/-- Loading a configuration.  The faults met so far are noted, also when loading fails. -/
abbrev Configuring := EStateM ConfigFailure (Array ConfigFault)

namespace Config

/-- Meets a fault: strict loading stops, lenient loading notes it. -/
def meet (strict : Bool) (fault : ConfigFault) : Configuring Unit :=
  if strict then throw (.rejected fault) else modify fun faults => faults.push fault

/-- The entries of a mapping. -/
abbrev Section := List (Value × Value)

/-- The value under a key. -/
def Section.get? (s : Section) (key : String) : Option Value := (Value.mapping s).get? key

/-- The mapping in a configuration file; empty if there is none. -/
def readDocument (platform : Platform) (files : FileSystem) (strict : Bool) (path : String) :
    Configuring Section := do
  match files.read path with
  | .error fault =>
    if fault.reason = .missing then
      meet strict (.missingFile path)
      return []
    else throw (.system fault)
  | .ok raw =>
    match platform.reader raw with
    | .error (.crash cause) => throw (.crashed cause)
    | .error (.complaint text) =>
      meet strict (.unreadable path text)
      return []
    | .ok .null =>
      meet strict (.emptyFile path)
      return []
    | .ok (.mapping entries) => return entries
    | .ok v =>
      meet strict (.notMapping v.kindName)
      return []

/-- The section on linking. -/
def readSection (platform : Platform) (files : FileSystem) (strict : Bool) :
    Option String → Configuring Section
  | none => return []
  | some path => do
    let entries ← readDocument platform files strict path
    match Section.get? entries "linking" with
    | none => return []
    | some (.mapping entries) => return entries
    | some _ =>
      meet strict .noSection
      return []

/-- The keys of the section on linking. -/
def knownKeys : List String :=
  ["extensions", "block_like_kinds", "ignore_comment_kinds", "extra_plain_markers",
    "continue_on_error", "log_level"]

/-- Whether a key is known. -/
def isKnown : Value → Bool
  | .text s => knownKeys.contains s
  | _ => false

/-- Puts a key into sorted keys. -/
def insertKey (key : Value) : List Value → Except ConfigFailure (List Value)
  | [] => .ok [key]
  | k :: rest =>
    match key.keyBefore? k with
    | none => .error (.keysUnordered key.fullKindName k.fullKindName)
    | some true => .ok (key :: k :: rest)
    | some false => (insertKey key rest).map (k :: ·)

/-- The keys in increasing order. -/
def sortKeys (keys : List Value) : Except ConfigFailure (List Value) :=
  keys.foldlM (fun sorted key => insertKey key sorted) []

/-- The texts among keys in front of the first key that is no text, which fails. -/
def keyTexts : List Value → Except ConfigFailure (List String)
  | [] => .ok []
  | .text s :: rest => (keyTexts rest).map (s :: ·)
  | v :: _ => .error (.keyNotText v.fullKindName)

/-- Meets unknown keys. -/
def checkKeys (strict : Bool) (s : Section) : Configuring Unit := do
  match (sortKeys ((s.map Prod.fst).filter fun k => !isKnown k)).bind keyTexts with
  | .error failure => throw failure
  | .ok [] => return ()
  | .ok keys => meet strict (.unknownKeys keys)

/-- Whether a run goes on behind a failing file. -/
def readGoOn (strict : Bool) (s : Section) : Configuring Bool := do
  match s.get? "continue_on_error" with
  | none => return standard.goOn
  | some (.bool b) => return b
  | some _ =>
    meet strict .goOnNotBool
    return standard.goOn

/-- The texts under a key. -/
def readTexts (strict : Bool) (s : Section) (key : String) (default : List String) :
    Configuring (List String) := do
  match s.get? key with
  | none => return default
  | some v =>
    match v.texts? with
    | some texts => return texts
    | none =>
      meet strict (.notTexts key)
      return default

/-- The markers written as patterns; those that are none are left out. -/
def readMarkerTexts (engine : Pattern.Engine) (strict : Bool) :
    List String → Configuring (List Marker)
  | [] => return []
  | text :: rest => do
    match Pattern.parse text with
    | .ok pattern => return ⟨text, engine.adapt pattern⟩ :: (← readMarkerTexts engine strict rest)
    | .error (.refused refusal) => throw (.refusedMarker refusal)
    | .error fault =>
      meet strict (.badMarker text fault)
      readMarkerTexts engine strict rest

/-- The extra markers. -/
def readMarkers (engine : Pattern.Engine) (strict : Bool) (s : Section) :
    Configuring (List Marker) := do
  readMarkerTexts engine strict (← readTexts strict s "extra_plain_markers" [])

/-- The level that a text names, whatever the case of its letters. -/
def levelOf? (text : String) : Option Level :=
  Level.ofName? (String.ofList (Text.capitals (Text.trimBlank text.toList)))

/-- How a value is shown, which may fail. -/
def shown (text : Except ShowFault String) : Configuring String :=
  match text with
  | .ok text => return text
  | .error fault => throw (.unshowable fault)

/-- The value that names the level: the environment wins over the file. -/
def levelValue (env : Environment) (s : Section) : Value :=
  match env.logLevel.filter (!·.isEmpty) with
  | some text => .text text
  | none => (s.get? "log_level").getD (.text Level.info.name)

/-- The level that a value names. -/
def readLevel (room : Nat) (strict : Bool) (v : Value) : Configuring Level := do
  match levelOf? (← shown (v.display room)) with
  | some level => return level
  | none =>
    meet strict (.unknownLevel (← shown (v.literal room)))
    return standard.level

/-- The path of the configuration file: the one given, or else the one in the environment. -/
def choosePath (env : Environment) (path : Option String) : Option String :=
  (path.filter (!·.isEmpty)).or (env.configPath.filter (!·.isEmpty))

/-- The configuration that a section describes. -/
def readConfig (platform : Platform) (env : Environment) (path : Option String) (s : Section)
    (strict : Bool) : Configuring Config := do
  let goOn ← readGoOn strict s
  let extensions ← readTexts strict s "extensions" standard.extensions
  let blockLike ← readTexts strict s "block_like_kinds" standard.blockLike
  let ignored ← readTexts strict s "ignore_comment_kinds" standard.ignored
  let extraMarkers ← readMarkers platform.engine strict s
  let level ← readLevel platform.room strict (levelValue env s)
  return { extensions, blockLike, ignored, extraMarkers, goOn, level, path }

/-- Loads a configuration in a settled environment. -/
def loadIn (platform : Platform) (files : FileSystem) (env : Environment) (path : Option String)
    (strict : Bool) : Configuring Config := do
  let path := choosePath env path
  let s ← readSection platform files strict path
  checkKeys strict s
  readConfig platform env path s strict

/-- Loads a configuration.  Without a word on strictness the settled environment decides. -/
def load (platform : Platform) (files : FileSystem) (env : Environment) (path : Option String)
    (strict : Option Bool) : Configuring Config :=
  match platform.settle env with
  | .error cause => throw (.crashed cause)
  | .ok env => loadIn platform files env path (strict.getD (env.isStrict false))

end Config

end Marginalia
