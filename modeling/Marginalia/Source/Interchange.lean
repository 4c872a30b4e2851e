import Marginalia.Source.ParseTree
import Marginalia.Value.Basic

/-!
# Parse trees as documents

A parse tree comes from a parser outside of this library, as a document.  A node is a list of its
type, whether it is named, whether it is missing, its start, its end, its field and its children; a
place is a list of its byte offset, its row and its byte column.

## Main definitions

* `Mark.ofValue` — the place that a document describes.
* `ParseTree.ofValue` — the tree that a document describes.
-/

namespace Marginalia

/-- The whole number that a value stands for. -/
def Value.toInt : Value → Int
  | .int n => n
  | .bool b => if b then 1 else 0
  | _ => 0

/-- The place that a document describes. -/
def Mark.ofValue : Value → Mark
  | .list [offset, row, column] => ⟨offset.toInt, ⟨row.toInt, column.toInt⟩⟩
  | _ => default

namespace ParseTree

mutual

/-- The tree that a document describes; anything else describes the tree of an empty source. -/
def ofValue : Value → ParseTree
  | .list [.text type, named, missing, start, stop, field, .list children] =>
    .node
      { type
        named := named.toInt != 0
        missing := missing.toInt != 0
        start := .ofValue start
        stop := .ofValue stop
        field := match field with
          | .text s => some s
          | _ => none }
      (ofValues children)
  | _ => .blank

/-- The trees that documents describe. -/
def ofValues : List Value → List ParseTree
  | [] => []
  | v :: vs => ofValue v :: ofValues vs

end

end ParseTree

end Marginalia
