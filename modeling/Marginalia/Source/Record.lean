import Marginalia.Source.Link
import Marginalia.Value.Json

/-!
# Records of linked comments

A linked comment is written as a document on one line.

## Main definitions

* `LinkEntry.document` — the document.
* `LinkEntry.lines` — the lines of many linked comments.
-/

namespace Marginalia.LinkEntry

/-- A linked comment as a document. -/
def document (e : LinkEntry) : Value :=
  .object [("file_path", .text e.path), ("node_id", .int e.node), ("node_kind", .text e.kind),
    ("line", .int e.start.line), ("column", .int e.start.column),
    ("placeholder", .bool e.placeholder), ("text", .text e.text)]

/-- A linked comment on a line of its own. -/
def line (e : LinkEntry) : String := Json.line .minimal e.document ++ "\n"

/-- Linked comments, each on a line of its own. -/
def lines (entries : List LinkEntry) : String := String.join (entries.map line)

end Marginalia.LinkEntry
