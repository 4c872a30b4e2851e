import Marginalia.Link.Error
import Marginalia.Text.Slice

/-!
# Faults of sources

The causes for which a single source cannot be linked.

## Main definitions

* `ParserFault` — the parser itself gave up.
* `SourceError` — the causes.
* `SourceError.message` — their wording.
-/

namespace Marginalia

/-- How the parser gave up, with its own wording. -/
inductive ParserFault where
  /-- It refused the source. -/
  | rejected (reason : String)
  /-- It broke down. -/
  | crashed (reason : String)
deriving Repr, DecidableEq

/-- Why a source cannot be linked. -/
inductive SourceError where
  /-- What was given is no source but a value of another kind. -/
  | notBytes (kind : String)
  | parser (fault : ParserFault)
  /-- There is no row as given by a point. -/
  | row (fault : Text.IndexFault)
  | link (cause : LinkError)
deriving Repr, DecidableEq

/-- The wording of a cause. -/
def SourceError.message : SourceError → String
  | .notBytes kind => "Source must be bytes, got " ++ kind
  | .parser (.rejected reason) | .parser (.crashed reason) => reason
  | .row fault => fault.message "list"
  | .link cause => cause.message

end Marginalia
