import Marginalia.Source.Rows

/-!
# Parse trees

A parse tree is what a parser makes of the bytes of a source: nodes with a type, their span, and the
field they fill in their parent.  Comments are nodes like others.  Nodes that stand for punctuation
are not named, and a node may be missing from the source.

## Main definitions

* `Mark` — a place by its byte offset and its point.
* `ParseTree` — the trees.
* `ParseTree.nodes` — all nodes in source order.
* `ParseTree.errorCount` — the number of syntax errors.
* `SourceParser` — a parser.
-/

namespace Marginalia

/-- A place in a source. -/
structure Mark where
  /-- How many bytes stand before it. -/
  offset : Int
  point : Point
deriving Repr, DecidableEq, Inhabited

/-- What a parser says about one node. -/
structure ParseNode where
  type : String
  named : Bool
  missing : Bool
  start : Mark
  /-- The place just behind it. -/
  stop : Mark
  field : Option String
deriving Repr, DecidableEq, Inhabited

/-- The tree that a parser makes of a source. -/
inductive ParseTree where
  | node (label : ParseNode) (children : List ParseTree)
deriving Repr, Inhabited

/-- The type of comment nodes. -/
def commentType : String := "comment"

/-- The type of nodes that hold what could not be parsed. -/
def errorType : String := "ERROR"

/-- Whether a node stands for a syntax error. -/
def ParseNode.isError (n : ParseNode) : Bool := n.type == errorType || n.missing

/-- Whether a node is a comment. -/
def ParseNode.isComment (n : ParseNode) : Bool := n.type == commentType

/-- Whether a node belongs to the syntax: it is named and no comment. -/
def ParseNode.isSyntax (n : ParseNode) : Bool := n.named && !n.isComment

namespace ParseTree

/-- What a parser says about the root of a tree. -/
def label : ParseTree → ParseNode
  | .node label _ => label

/-- The trees below the root. -/
def children : ParseTree → List ParseTree
  | .node _ children => children

mutual

/-- All nodes in source order, each before its children. -/
def nodes : ParseTree → List ParseNode
  | .node label children => label :: nodesOf children

/-- All nodes of a list of trees in source order. -/
def nodesOf : List ParseTree → List ParseNode
  | [] => []
  | t :: ts => t.nodes ++ nodesOf ts

end

mutual

/-- The number of nodes. -/
def size : ParseTree → Nat
  | .node _ children => sizeOfAll children + 1

/-- The number of nodes of a list of trees. -/
def sizeOfAll : List ParseTree → Nat
  | [] => 0
  | t :: ts => t.size + sizeOfAll ts

end

/-- The number of syntax errors. -/
def errorCount (t : ParseTree) : Nat := (t.nodes.filter (·.isError)).length

/-- The tree of a source without content. -/
def blank : ParseTree :=
  .node ⟨"program", true, false, ⟨0, ⟨0, 0⟩⟩, ⟨0, ⟨0, 0⟩⟩, none⟩ []

end ParseTree

/-- A parser: the tree of the bytes of a source, or how it gave up on them. -/
abbrev SourceParser := Bytes → Except ParserFault ParseTree

end Marginalia
