import Marginalia.Files.FileSystem
import Marginalia.Pattern.Fault
import Marginalia.Value.Basic

/-!
# Faults in configurations

An unusable entry of a configuration is a fault.  Strict loading refuses it; lenient loading warns
of it and takes the default.  Other failures end both.

## Main definitions

* `ConfigFault` — what is wrong with a configuration.
* `ConfigFault.message`, `ConfigFault.warning` — how it is refused, and how it is warned of.
* `ConfigFailure` — why no configuration was loaded.
-/

namespace Marginalia

/-- What is wrong with a configuration. -/
inductive ConfigFault where
  | missingFile (path : String)
  | unreadable (path complaint : String)
  | emptyFile (path : String)
  /-- The document is no mapping. -/
  | notMapping (kind : String)
  /-- The section on linking is no mapping. -/
  | noSection
  | unknownKeys (keys : List String)
  /-- The entry on failing files is neither true nor false. -/
  | goOnNotBool
  /-- An entry is no list of texts. -/
  | notTexts (key : String)
  | badMarker (text : String) (fault : Pattern.Fault)
  /-- A level is not known; it is given as it is shown in messages. -/
  | unknownLevel (shown : String)
deriving Repr, DecidableEq

namespace ConfigFault

/-- The wording of a fault. -/
def message : ConfigFault → String
  | .missingFile path => "Linking config file not found: " ++ path
  | .unreadable path complaint =>
    "Failed to parse linking config YAML at " ++ path ++ ": " ++ complaint
  | .emptyFile path => "Linking config file is empty: " ++ path
  | .notMapping kind => "Unexpected linking config payload type: " ++ kind
  | .noSection => "linking config missing a 'linking' mapping"
  | .unknownKeys keys => "Unknown linking config keys: " ++ ", ".intercalate keys
  | .goOnNotBool => "linking.continue_on_error must be a boolean"
  | .notTexts key => "linking." ++ key ++ " must be a list of strings"
  | .badMarker text fault =>
    "Invalid plain marker pattern " ++ Text.quoted text ++ ": " ++ fault.message text.toList
  | .unknownLevel shown => "Unknown log level " ++ shown

/-- What lenient loading does about a fault. -/
def remedy : ConfigFault → String
  | .missingFile _ | .unreadable .. | .emptyFile _ | .notMapping _ => "continuing with defaults"
  | .unknownKeys _ => "ignoring them"
  | .noSection | .goOnNotBool | .notTexts _ | .badMarker .. | .unknownLevel _ => "using defaults"

/-- The warning of a fault. -/
def warning (f : ConfigFault) : String := f.message ++ "; " ++ f.remedy

end ConfigFault

/-- Why no configuration was loaded. -/
inductive ConfigFailure where
  /-- Strict loading met a fault. -/
  | rejected (fault : ConfigFault)
  | system (fault : SystemFault)
  /-- A part that is not described here fails. -/
  | crashed (cause : Crash)
  /-- The first of the unknown keys, in order, is no text. -/
  | keyNotText (kind : String)
  /-- Unknown keys of two kinds have no order. -/
  | keysUnordered (left right : String)
  /-- A marker is refused. -/
  | refusedMarker (refusal : Pattern.Refusal)
  /-- The value that names the level cannot be shown. -/
  | unshowable (fault : ShowFault)
deriving Repr, DecidableEq

/-- The wording of a failure. -/
def ConfigFailure.message : ConfigFailure → String
  | .rejected fault => fault.message
  | .system fault => fault.message
  | .crashed cause => cause.message
  | .keyNotText kind => "sequence item 0: expected str instance, " ++ kind ++ " found"
  | .keysUnordered left right =>
    "'<' not supported between instances of '" ++ left ++ "' and '" ++ right ++ "'"
  | .refusedMarker refusal => refusal.message
  | .unshowable fault => fault.message

end Marginalia
