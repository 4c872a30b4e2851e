import Marginalia.Comment.Filter
import Marginalia.Comment.Map
import Marginalia.Journal
import Marginalia.Syntax.Tree

/-!
# Placing a group

A group of comments is placed on a node: its filtered text goes into the comment map, under the
node itself or under the nearest node above it that accepts comments.  A floating group, which
touches no node, goes on a placeholder before the node, if the parent tolerates one, and the groups
left at the end of a source go on placeholders behind the last node.

An operation that fails keeps what it did before it failed.

## Main definitions

* `Placement`, `Placing` — what an operation works on, and the operations.
* `CommentGroup.compose` — the text of a group.
* `SyntaxTree.destination?` — the nearest node that accepts comments.
* `Placement.linkGroup` — places a group on a node.
* `Placement.placeFloating` — places a floating group before a node.
* `Placement.placeTrailing` — places a group at the end of the source.
-/

namespace Marginalia

/-- The filtered texts of the comments of a group, without the empty ones. -/
def CommentGroup.survivors (markers : List Marker) (group : CommentGroup) : List String :=
  (group.map (Comment.filtered markers)).filter fun text => !text.isEmpty

/-- The text of a group: the filtered texts of its comments, one below the other. -/
def CommentGroup.compose (markers : List Marker) (group : CommentGroup) : String :=
  "\n".intercalate (group.survivors markers)

/-- The nearest node, from `id` upward, that accepts comments. -/
def SyntaxTree.destination? (t : SyntaxTree) (id : NodeId) : Option NodeId :=
  (t.upward id).find? fun n => (t.node n).accepts

/-- Whether the parent of a node tolerates placeholders. -/
def SyntaxTree.parentTolerates (t : SyntaxTree) (id : NodeId) : Bool :=
  match t.parent? id with
  | some p => (t.node p).tolerates
  | none => false

/-- Where a floating group before a node goes: the nearest node, from `id` upward, that is the root,
or whose parent tolerates placeholders, or that accepts comments. -/
def SyntaxTree.floatingSite? (t : SyntaxTree) (id : NodeId) : Option NodeId :=
  (t.upward id).find? fun n =>
    (t.parent? n).isNone || t.parentTolerates n || (t.node n).accepts

/-- What the placing of groups works on. -/
structure Placement where
  tree : SyntaxTree
  /-- The group under way. -/
  group : CommentGroup
  map : CommentMap
  journal : Journal
deriving Repr, DecidableEq, Inhabited

/-- An operation on a placement.  A failed operation keeps what it did before. -/
abbrev Placing := EStateM LinkError Placement

namespace Placement

/-- Notes an event. -/
def note (e : Event) : Placing Unit :=
  modify fun p => { p with journal := p.journal.push e }

/-- The value of a computation that may fail. -/
def ofExcept {α : Type} : Except LinkError α → Placing α
  | .ok a => pure a
  | .error e => throw e

/-- The text of the group under way, noting the comments of which nothing is left. -/
def composeGroup (markers : List Marker) : Placing String := do
  let group := (← get).group
  let dropped := group.filter fun c => (c.filtered markers).isEmpty
  modify fun p => { p with journal := p.journal ++ (dropped.map fun _ => Event.shellDropped) }
  return group.compose markers

/-- Takes the text of the group under way, which is empty afterwards. -/
def takeGroup (markers : List Marker) : Placing String := do
  let text ← composeGroup markers
  modify fun p => { p with group := [] }
  return text

/-- Adds a text to a node's entry. -/
def addEntry (id : NodeId) (text : String) : Placing Unit := do
  let map := (← get).map
  let extended ← ofExcept (map.add id text)
  if map.contains id then note (.entryExtended id)
  modify fun p => { p with map := extended }

/-- The nearest node, from `id` upward, that accepts comments. -/
def destination (id : NodeId) : Placing NodeId := do
  let tree := (← get).tree
  match tree.destination? id with
  | some target => return target
  | none => throw (.noDestination id (tree.node id).kind)

/-- Places the group under way on a node or the nearest one above it that accepts comments, and
tells whether anything was left of the group. -/
def linkGroup (markers : List Marker) (id : NodeId) : Placing Bool := do
  let target ← destination id
  let text ← takeGroup markers
  if text.isEmpty then return false
  else
    addEntry target text
    let node := (← get).tree.node target
    note (.groupLinked node.kind target node.start)
    return true

/-- Stores a text on a placeholder. -/
def anchor (id : NodeId) (text : String) : Placing NodeId := do
  addEntry id text
  note (.groupAnchored id ((← get).tree.node id).start.line)
  return id

/-- Inserts a placeholder before a node. -/
def insertBefore (id : NodeId) : Placing NodeId := do
  let tree := (← get).tree
  let (placeholder, grown) ← ofExcept (tree.insertPlaceholderBefore id)
  modify fun p => { p with tree := grown }
  note (.placeholderInserted placeholder (tree.node id).kind (tree.node id).start.line)
  return placeholder

/-- Appends a placeholder to the children of a node. -/
def append (parent : NodeId) : Placing NodeId := do
  let tree := (← get).tree
  let (placeholder, grown) := tree.appendPlaceholder parent
  modify fun p => { p with tree := grown }
  note (.placeholderAppended placeholder (tree.node parent).kind)
  return placeholder

/-- Places the group under way as a floating one before a node, and tells which node holds it. -/
def placeFloating (markers : List Marker) (id : NodeId) : Placing (Option NodeId) := do
  let tree := (← get).tree
  let site := (tree.floatingSite? id).getD id
  if tree.parentTolerates site then
    let text ← takeGroup markers
    if text.isEmpty then return none
    else
      let placeholder ← insertBefore site
      return some (← anchor placeholder text)
  else
    let written ← linkGroup markers site
    return if written then some site else none

/-- Places the group under way on a placeholder behind the last node of the source. -/
def placeTrailing (markers : List Marker) : Placing (Option NodeId) := do
  match (← get).tree.root? with
  | none => throw .noRootForTrailing
  | some root =>
    let text ← takeGroup markers
    if text.isEmpty then return none
    else
      let placeholder ← append root
      return some (← anchor placeholder text)

end Placement

end Marginalia
