import Marginalia.Comment.Stream
import Marginalia.Link.Argument

/-!
# The linking pass

One walk over a syntax tree in source order places all comments of a source.  At each node the group
under way is compared with the line on which the node starts.  A group that ends on the line above,
or earlier on the same line, goes on the node.  A group that a blank line separates from the next
comment, and that touches no node, floats before the node.  A group further down waits for a later
node.  What is left when the walk ends goes on placeholders at the end of the source.

The walk reads the children of a node only after the node was visited, from the tree as it then is.

## Main definitions

* `LinkSettings` — the policy and the markers of a pass.
* `Move` — a visit, a flush or a question about arguments, as it is noted in the trace of a pass.
* `Pass`, `Linking` — the state of a pass, and its operations.
* `Pass.visit` — what happens at a node.
* `Pass.run`, `linkComments` — the whole pass.
-/

namespace Marginalia

/-- The policy and the markers of a pass. -/
structure LinkSettings where
  policy : KindPolicy
  markers : List Marker
deriving Repr, DecidableEq

/-- The built-in settings. -/
def LinkSettings.standard : LinkSettings := ⟨.standard, Marker.builtIn⟩

/-- A step of a pass. -/
inductive Move where
  /-- A node is visited. -/
  | visit (id : NodeId)
  /-- A comment on the line of an argument was asked for the argument it belongs to. -/
  | resolve (id : NodeId) (comment : Comment) (target : Option NodeId)
  /-- A group goes on a node. -/
  | link (id : NodeId) (group : CommentGroup)
  /-- A group floats before a node. -/
  | float (id : NodeId) (group : CommentGroup)
  /-- A group goes to the end of the source. -/
  | trail (group : CommentGroup)
deriving Repr, DecidableEq

/-- The group that a step places. -/
def Move.group? : Move → Option CommentGroup
  | .visit _ | .resolve .. => none
  | .link _ group | .float _ group | .trail group => some group

/-- The state of a pass. -/
structure Pass extends Placement where
  stream : CommentStream
  /-- The steps so far, in order. -/
  trace : Array Move
deriving Repr, DecidableEq, Inhabited

/-- An operation of a pass.  A failed operation keeps what it did before. -/
abbrev Linking := EStateM LinkError Pass

namespace Pass

/-! ## Parts of the state -/

/-- Notes a step in the trace. -/
def record (move : Move) : Linking Unit := modify fun p => { p with trace := p.trace.push move }

/-- An operation on the placement of a pass. -/
def place {α : Type} (operation : Placing α) : Linking α := fun p =>
  match operation p.toPlacement with
  | .ok a placement => .ok a { p with toPlacement := placement }
  | .error e placement => .error e { p with toPlacement := placement }

/-- A question to the stream of a pass. -/
def ask {α : Type} (question : CommentStream → Except LinkError α) : Linking α := do
  match question (← get).stream with
  | .ok a => return a
  | .error e => throw e

/-- Moves on by one comment, which joins the group under way. -/
def advance : Linking Unit :=
  modify fun p =>
    let (stream, group) := p.stream.advance p.group
    { p with stream, group }

/-- Places the group under way on a node. -/
def link (settings : LinkSettings) (id : NodeId) : Linking Unit := do
  record (.link id (← get).group)
  let _ ← place (Placement.linkGroup settings.markers id)

/-- Places the group under way as a floating one before a node. -/
def float (settings : LinkSettings) (id : NodeId) : Linking Unit := do
  record (.float id (← get).group)
  let _ ← place (Placement.placeFloating settings.markers id)

/-- Places the group under way at the end of the source. -/
def trail (settings : LinkSettings) : Linking Unit := do
  record (.trail (← get).group)
  let _ ← place (Placement.placeTrailing settings.markers)

/-! ## At a node -/

/-- Where a node's visit stands after it has caught up with the comments above it. -/
inductive CaughtUp where
  /-- The current comment lies below the node. -/
  | passed
  /-- The current comment is to be compared with the node; `moved` tells whether comments were read
  to get there. -/
  | here (moved : Bool)
deriving Repr, DecidableEq

/-- Reads comments until the current one touches the line of a node, is the last one, or lies below
the line.  A group that ends on the way floats before the node. -/
def catchUp (settings : LinkSettings) (id : NodeId) (line : Int) : Nat → Bool → Linking CaughtUp
  | 0, moved => return .here moved
  | steps + 1, moved => do
    if !(← get).stream.hasRemaining then return .here moved
    else if (← ask (·.isAdjacentTo line)) then return .here moved
    else if line < (← ask (·.lastLine)) then return .passed
    else
      if (← ask (·.breaksGroup)) then float settings id
      advance
      catchUp settings id line steps true

/-- Asks which argument the current comment belongs to. -/
def resolve (id : NodeId) (line : Int) : Linking (Option NodeId) := do
  let comment ← ask (·.current)
  let sourceLine := (← get).tree.sourceLine line
  let target ← place (Placement.resolveArgument id comment sourceLine)
  record (.resolve id comment target)
  return target

/-- Compares the group under way with a node, whose parent is `parent`, and tells whether the node
is done with it. -/
def settle (settings : LinkSettings) (id parent : NodeId) (line : Int) (moved : Bool) :
    Linking Bool := do
  let last ← ask (·.lastLine)
  let tree := (← get).tree
  if last = line then
    if settings.policy.argumentLists.contains (tree.node parent).kind then
      match (← resolve id line) with
      | none => return false
      | some target =>
        link settings target
        return true
    else if (← ask (·.current)).stop.column < (tree.node id).start.column then
      link settings id
      return true
    else return false
  else if last = line - 1 then
    link settings id
    return true
  else if !(← get).stream.hasRemaining && !moved then
    float settings id
    return true
  else return true

/-- What happens at a node.  The root is never a target itself. -/
def visit (settings : LinkSettings) (id : NodeId) : Linking Unit := do
  record (.visit id)
  let tree := (← get).tree
  match tree.parent? id with
  | none => return ()
  | some parent =>
    let line := (tree.node id).start.line
    if line < (← ask (·.lastLine)) then return ()
    else
      match (← catchUp settings id line (← get).stream.comments.length false) with
      | .passed => return ()
      | .here moved =>
        let settled ← settle settings id parent line moved
        if settled && !moved then advance

/-! ## The whole pass -/

/-- Visits the nodes on a stack, each before its children, until all comments are read. -/
def walk (settings : LinkSettings) : Nat → List NodeId → Linking Unit
  | 0, _ => return ()
  | _, [] => return ()
  | steps + 1, id :: stack => do
    if (← get).stream.isDone then return ()
    else
      visit settings id
      walk settings steps ((← get).tree.children id ++ stack)

/-- Places what is left at the end of the source, group by group. -/
def flushEnd (settings : LinkSettings) : Nat → Linking Unit
  | 0 => return ()
  | steps + 1 => do
    if (← get).stream.hasRemaining then
      if (← ask (·.breaksGroup)) then trail settings
      advance
      flushEnd settings steps
    else
      trail settings
      advance

/-- Closes the map. -/
def freeze : Linking Unit := modify fun p => { p with map := p.map.freeze }

/-- The whole pass. -/
def run (settings : LinkSettings) : Linking Unit := do
  let p ← get
  if p.stream.isDone then freeze
  else
    match p.tree.root? with
    | none => throw .noRoot
    | some root =>
      walk settings p.tree.size [root]
      if !(← get).stream.isDone then flushEnd settings p.stream.comments.length
      freeze
      let p ← get
      place (Placement.note
        (.passEnded p.stream.comments.length p.map.size p.tree.placeholderCount))

/-- The state in which a pass over a tree starts. -/
def start (tree : SyntaxTree) (stream : CommentStream) : Pass :=
  { tree, group := stream.firstGroup, map := .empty, journal := #[], stream, trace := #[] }

end Pass

/-- What a pass leaves behind, also when it fails: the tree with its placeholders, the comment map
and the journal. -/
structure PassOutcome where
  tree : SyntaxTree
  map : CommentMap
  journal : Journal
  /-- Why the pass stopped early, if it did. -/
  failure : Option LinkError
deriving Repr, DecidableEq

/-- Places the comments of a source on the nodes of its tree. -/
def linkComments (settings : LinkSettings) (tree : SyntaxTree) (comments : List Comment) :
    PassOutcome :=
  match CommentStream.ofComments comments with
  | .error e => ⟨tree, .empty, #[], some e⟩
  | .ok stream =>
    match Pass.run settings (Pass.start tree stream) with
    | .ok _ p => ⟨p.tree, p.map, p.journal, none⟩
    | .error e p => ⟨p.tree, p.map, p.journal, some e⟩

end Marginalia
