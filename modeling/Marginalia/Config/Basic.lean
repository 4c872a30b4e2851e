import Marginalia.Files.Discovery
import Marginalia.Journal
import Marginalia.Link.Pass

/-!
# Configurations

A configuration says which files are linked, how, and what is reported.

## Main definitions

* `Config` — a configuration.
* `Config.standard` — the configuration used when nothing else is said.
* `Config.linkSettings` — the settings of the pass.
-/

namespace Marginalia

/-- The configuration of a run. -/
structure Config where
  /-- The extensions of source files. -/
  extensions : List String
  /-- Containers that may take an empty child more. -/
  blockLike : List String
  /-- Kinds whose comments would not be printed. -/
  ignored : List String
  /-- Markers deleted besides the built-in ones. -/
  extraMarkers : List Marker
  /-- Whether a run goes on behind a failing file. -/
  goOn : Bool
  /-- The least serious level that is reported. -/
  level : Level
  /-- The file the configuration comes from. -/
  path : Option String
deriving Repr, DecidableEq

/-- The configuration used when nothing else is said. -/
def Config.standard : Config where
  extensions := Discovery.standardExtensions
  blockLike := KindPolicy.standard.blockLike
  ignored := KindPolicy.standard.ignored
  extraMarkers := []
  goOn := true
  level := .info
  path := none

/-- The settings of the pass; the extra markers come after the built-in ones. -/
def Config.linkSettings (c : Config) : LinkSettings where
  policy := { KindPolicy.standard with blockLike := c.blockLike, ignored := c.ignored }
  markers := Marker.builtIn ++ c.extraMarkers

end Marginalia
