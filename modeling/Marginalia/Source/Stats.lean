import Marginalia.Source.Link

/-!
# Statistics of a run

## Main definitions

* `LinkStats` — the counters.
* `LinkStats.record` — counts a linked source.
* `LinkStats.fields`, `LinkStats.describe` — the counters for people and for reports.
-/

namespace Marginalia

/-- The counters of a run. -/
structure LinkStats where
  filesProcessed : Nat
  filesFailed : Nat
  commentsSeen : Nat
  entriesWritten : Nat
  placeholdersInserted : Nat
  parseErrors : Nat
deriving Repr, DecidableEq, Inhabited

namespace LinkStats

/-- All counters at zero. -/
def zero : LinkStats := ⟨0, 0, 0, 0, 0, 0⟩

/-- Counts a linked source. -/
def record (s : LinkStats) (r : LinkResult) : LinkStats :=
  { s with
    filesProcessed := s.filesProcessed + 1
    commentsSeen := s.commentsSeen + r.comments.length
    entriesWritten := s.entriesWritten + r.map.size
    placeholdersInserted := s.placeholdersInserted + r.tree.placeholderCount
    parseErrors := s.parseErrors + r.parseErrors }

/-- Counts a source that could not be linked. -/
def recordFailure (s : LinkStats) : LinkStats := { s with filesFailed := s.filesFailed + 1 }

/-- The counters by name. -/
def fields (s : LinkStats) : List (String × Nat) := [
  ("files_processed", s.filesProcessed),
  ("files_failed", s.filesFailed),
  ("comments_seen", s.commentsSeen),
  ("entries_written", s.entriesWritten),
  ("placeholders_inserted", s.placeholdersInserted),
  ("parse_errors", s.parseErrors)]

/-- The counters on one line. -/
def describe (s : LinkStats) : String :=
  "LinkingStats(processed=" ++ toString s.filesProcessed ++
    ", failed=" ++ toString s.filesFailed ++
    ", comments=" ++ toString s.commentsSeen ++
    ", entries=" ++ toString s.entriesWritten ++
    ", placeholders=" ++ toString s.placeholdersInserted ++
    ", parse_errors=" ++ toString s.parseErrors ++ ")"

end LinkStats

end Marginalia
