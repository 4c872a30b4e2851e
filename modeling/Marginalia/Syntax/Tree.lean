import Marginalia.Link.Error
import Marginalia.Position
import Marginalia.Syntax.Policy

/-!
# Syntax trees

The syntax tree of a source is an arena: nodes are numbered in the order of their creation, and a
node holds the numbers of its parent and its children.  A tree grows only: nodes are added below
nodes that exist, and placeholders, which are empty nodes that carry a comment of their own, are
added among the children of a node.  So a parent is always older than its children.

## Main definitions

* `NodeId`, `Node`, `SyntaxTree` — the tree.
* `SyntaxTree.addRoot`, `SyntaxTree.addChild` — growing it.
* `SyntaxTree.insertPlaceholderBefore`, `SyntaxTree.appendPlaceholder` — adding placeholders.
* `SyntaxTree.indexInParent`, `SyntaxTree.nextSibling`, `SyntaxTree.ancestors` — moving in it.
* `SyntaxTree.preorder` — its nodes in source order.
-/

namespace Marginalia

/-- The number of a node in its tree. -/
abbrev NodeId := Nat

/-- A node of a syntax tree. -/
structure Node where
  /-- Its type in the grammar. -/
  kind : String
  start : Position
  /-- The place just behind it. -/
  stop : Position
  /-- The field it fills in its parent. -/
  field : Option String
  /-- Whether a comment may be stored on it. -/
  accepts : Bool
  /-- Whether an empty child may be added to it. -/
  tolerates : Bool
  placeholder : Bool
  parent : Option NodeId
  children : List NodeId
  /-- Its place among its parent's children. -/
  index : Option Nat
deriving Repr, DecidableEq, Inhabited

/-- What a node is made from. -/
structure NodeSpec where
  kind : String
  start : Position
  stop : Position
  field : Option String
deriving Repr, DecidableEq, Inhabited

/-- The syntax tree of one source. -/
structure SyntaxTree where
  policy : KindPolicy
  /-- The lines of the source. -/
  lines : List String
  /-- The nodes, by number. -/
  nodes : Array Node
  /-- How many placeholders were added. -/
  placeholderCount : Nat
deriving Repr, DecidableEq, Inhabited

/-- The kind of placeholders. -/
def placeholderKind : String := "empty"

namespace SyntaxTree

/-- A tree without nodes. -/
def empty (policy : KindPolicy) (lines : List String) : SyntaxTree := ⟨policy, lines, #[], 0⟩

/-! ## Looking at a tree -/

/-- The number of nodes. -/
def size (t : SyntaxTree) : Nat := t.nodes.size

/-- The root, which is the first node. -/
def root? (t : SyntaxTree) : Option NodeId := if t.nodes.isEmpty then none else some 0

/-- The node with a number. -/
def node? (t : SyntaxTree) (id : NodeId) : Option Node := t.nodes[id]?

/-- The node with a number; an empty one if there is none. -/
def node (t : SyntaxTree) (id : NodeId) : Node := t.nodes.getD id default

/-- The parent of a node. -/
def parent? (t : SyntaxTree) (id : NodeId) : Option NodeId := (t.node id).parent

/-- The children of a node. -/
def children (t : SyntaxTree) (id : NodeId) : List NodeId := (t.node id).children

/-- A line of the source, counted from one; empty outside of it. -/
def sourceLine (t : SyntaxTree) (line : Int) : String :=
  if line < 1 then "" else t.lines.getD (line - 1).toNat ""

/-- The nodes above a node, nearest first.  As a parent is older than its children, there are at
most `id` of them. -/
def ancestorsFrom (t : SyntaxTree) : Nat → NodeId → List NodeId
  | 0, _ => []
  | steps + 1, id =>
    match t.parent? id with
    | none => []
    | some p => p :: ancestorsFrom t steps p

/-- The nodes above a node, nearest first. -/
def ancestors (t : SyntaxTree) (id : NodeId) : List NodeId := t.ancestorsFrom id id

/-- A node and the nodes above it, nearest first. -/
def upward (t : SyntaxTree) (id : NodeId) : List NodeId := id :: t.ancestors id

/-- The place of a node among its parent's children; none for the root. -/
def indexInParent (t : SyntaxTree) (id : NodeId) : Except LinkError (Option Nat) :=
  match t.parent? id with
  | none => .ok none
  | some p =>
    match (t.node id).index with
    | some i =>
      if (t.children p)[i]? == some id then .ok (some i)
      else .error (.notAmongSiblings id (t.node id).kind)
    | none => .error (.notAmongSiblings id (t.node id).kind)

/-- The child of its parent behind a node. -/
def nextSibling (t : SyntaxTree) (id : NodeId) : Except LinkError (Option NodeId) := do
  match t.parent? id, (← t.indexInParent id) with
  | some p, some i => return (t.children p)[i + 1]?
  | _, _ => return none

/-- Visits the nodes on a stack, each before its children. -/
def walk (t : SyntaxTree) : Nat → List NodeId → List NodeId
  | 0, _ => []
  | _, [] => []
  | steps + 1, id :: stack => id :: walk t steps (t.children id ++ stack)

/-- The nodes in source order, each before its children. -/
def preorder (t : SyntaxTree) : List NodeId :=
  match t.root? with
  | none => []
  | some r => t.walk t.size [r]

/-! ## Changing a tree -/

/-- Changes one node. -/
def modify (t : SyntaxTree) (id : NodeId) (f : Node → Node) : SyntaxTree :=
  { t with nodes := t.nodes.modify id f }

/-- Whether a comment may be stored on a node of a kind that fills a field of `parent`. -/
def acceptsComments (t : SyntaxTree) (kind : String) (parent : Node) (field : Option String) :
    Bool :=
  !(t.policy.ignored.contains kind) &&
    !(t.policy.memberAccess.contains parent.kind && field == some t.policy.propertyField)

/-- Adds the root to an empty tree.  The root accepts comments. -/
def addRoot (t : SyntaxTree) (spec : NodeSpec) : Except LinkError (NodeId × SyntaxTree) :=
  if t.nodes.isEmpty then
    let node : Node :=
      { kind := spec.kind, start := spec.start, stop := spec.stop, field := spec.field,
        accepts := true, tolerates := t.policy.blockLike.contains spec.kind, placeholder := false,
        parent := none, children := [], index := none }
    .ok (t.size, { t with nodes := t.nodes.push node })
  else .error .secondRoot

/-- Adds a node behind the children of `parent`. -/
def addChild (t : SyntaxTree) (parent : NodeId) (spec : NodeSpec) : NodeId × SyntaxTree :=
  let above := t.node parent
  let node : Node :=
    { kind := spec.kind, start := spec.start, stop := spec.stop, field := spec.field,
      accepts := t.acceptsComments spec.kind above spec.field,
      tolerates := t.policy.blockLike.contains spec.kind, placeholder := false,
      parent := some parent, children := [], index := some above.children.length }
  let id := t.size
  let t := t.modify parent fun n => { n with children := n.children ++ [id] }
  (id, { t with nodes := t.nodes.push node })

/-- A placeholder at a place. -/
def placeholderAt (parent : NodeId) (place : Position) (index : Nat) : Node :=
  { kind := placeholderKind, start := place, stop := place, field := none, accepts := true,
    tolerates := false, placeholder := true, parent := some parent, children := [],
    index := some index }

/-- Adds a placeholder to the children `children` of `parent`, among which it already stands. -/
def addPlaceholder (t : SyntaxTree) (parent : NodeId) (place : Position) (index : Nat)
    (children : List NodeId) : SyntaxTree :=
  let t := t.modify parent fun n => { n with children := children }
  { t with
    nodes := t.nodes.push (placeholderAt parent place index)
    placeholderCount := t.placeholderCount + 1 }

/-- Writes their places into the nodes of a list of children, from the place `i` on. -/
def reindex (t : SyntaxTree) : Nat → List NodeId → SyntaxTree
  | _, [] => t
  | i, id :: rest => reindex (t.modify id fun n => { n with index := some i }) (i + 1) rest

/-- Inserts a placeholder just before a node. -/
def insertPlaceholderBefore (t : SyntaxTree) (anchor : NodeId) :
    Except LinkError (NodeId × SyntaxTree) := do
  match t.parent? anchor with
  | none => .error .beforeRoot
  | some p =>
    match (← t.indexInParent anchor) with
    | none => .error .beforeRoot
    | some i =>
      let id := t.size
      let children := (t.children p).insertIdx i id
      let t := t.addPlaceholder p (t.node anchor).start i children
      return (id, t.reindex i (children.drop i))

/-- Appends a placeholder to the children of a node, at the end of the node. -/
def appendPlaceholder (t : SyntaxTree) (parent : NodeId) : NodeId × SyntaxTree :=
  let children := t.children parent
  let id := t.size
  (id, t.addPlaceholder parent (t.node parent).stop children.length (children ++ [id]))

/-- Takes a node out of its parent's children, and changes nothing else. -/
def detach (t : SyntaxTree) (id : NodeId) : SyntaxTree :=
  match t.parent? id with
  | none => t
  | some p => t.modify p fun n => { n with children := n.children.erase id }

/-- Sets whether a node accepts comments. -/
def setAccepts (t : SyntaxTree) (id : NodeId) (accepts : Bool) : SyntaxTree :=
  t.modify id fun n => { n with accepts := accepts }

end SyntaxTree

end Marginalia
