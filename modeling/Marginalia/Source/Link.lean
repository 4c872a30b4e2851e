import Marginalia.Link.Pass
import Marginalia.Source.Outline

/-!
# Linking a source

The bytes of a source are parsed, its comments and its syntax tree are read off the parse tree, and
the comments are placed.

## Main definitions

* `Sourcing` — operations on sources, which note events.
* `Source.parse`, `Source.comments`, `Source.outline` — the stages.
* `LinkResult` — a linked source.
* `LinkEntry`, `LinkResult.entries` — the linked comments in source order.
* `Source.linkTree`, `Source.linkBytes` — linking.
-/

namespace Marginalia

/-- An operation on sources.  A failed operation keeps the events it noted. -/
abbrev Sourcing := EStateM SourceError Journal

/-- A linked source. -/
structure LinkResult where
  path : String
  tree : SyntaxTree
  comments : List Comment
  map : CommentMap
  parseErrors : Nat
deriving Repr, DecidableEq, Inhabited

/-- A linked comment: the node that holds it, and its text. -/
structure LinkEntry where
  path : String
  node : NodeId
  kind : String
  start : Position
  placeholder : Bool
  text : String
deriving Repr, DecidableEq, Inhabited

/-- The linked comments in source order. -/
def LinkResult.entries (r : LinkResult) : List LinkEntry :=
  r.tree.preorder.filterMap fun (id : NodeId) =>
    (r.map.get? id).map fun text =>
      let node := r.tree.node id
      ⟨r.path, id, node.kind, node.start, node.placeholder, text⟩

namespace Source

/-- The name of a source that has no file. -/
def memory : String := "<memory>"

/-- Notes an event. -/
def note (e : Event) : Sourcing Unit := modify fun journal => journal.push e

/-- The value of a computation that may fail. -/
def ofExcept {α : Type} : Except SourceError α → Sourcing α
  | .ok a => pure a
  | .error e => throw e

/-- Parses the bytes of a source. -/
def parse (parser : SourceParser) (bytes : Bytes) : Sourcing ParseTree := do
  note .parserCreated
  match parser bytes with
  | .error fault => throw (.parser fault)
  | .ok parsed =>
    note (.bytesParsed bytes.length)
    return parsed

/-- The comment nodes of a parse tree in the order of their first bytes. -/
def commentNodes (parsed : ParseTree) : List ParseNode :=
  (parsed.nodes.filter (·.isComment)).mergeSort fun a b =>
    decide (a.start.offset ≤ b.start.offset)

/-- The comment of a comment node. -/
def comment (bytes : Bytes) (rows : SourceRows) (label : ParseNode) :
    Except SourceError Comment := do
  let text := String.ofList
    (Utf8.decode (Text.slice bytes label.start.offset label.stop.offset))
  let start ← rows.convert label.start.point
  let stop ← rows.convert label.stop.point
  return ⟨CommentKind.classify text, start, stop, text⟩

/-- The comments of a source, in order. -/
def comments (bytes : Bytes) (rows : SourceRows) (parsed : ParseTree) :
    Sourcing (List Comment) := do
  let found ← ofExcept ((commentNodes parsed).mapM (comment bytes rows))
  note (.commentsCollected found.length)
  return found

/-- The syntax tree of a source. -/
def outline (policy : KindPolicy) (bytes : Bytes) (rows : SourceRows) (parsed : ParseTree) :
    Sourcing SyntaxTree := do
  let tree ← ofExcept (Outline.build policy (sourceLines bytes) rows parsed)
  if !parsed.children.isEmpty then note (.treeBuilt tree.size)
  return tree

/-- Places the comments of a source. -/
def place (settings : LinkSettings) (tree : SyntaxTree) (comments : List Comment) :
    Sourcing (SyntaxTree × CommentMap) := do
  let outcome := linkComments settings tree comments
  modify fun journal => journal ++ outcome.journal
  match outcome.failure with
  | some cause => throw (.link cause)
  | none => return (outcome.tree, outcome.map)

/-- Links the comments of a parsed source. -/
def linkTree (settings : LinkSettings) (path : String) (bytes : Bytes) (parsed : ParseTree) :
    Sourcing LinkResult := do
  let parseErrors := parsed.errorCount
  if parseErrors ≠ 0 then note (.syntaxErrors path parseErrors)
  let rows := SourceRows.ofBytes bytes
  let comments ← comments bytes rows parsed
  let tree ← outline settings.policy bytes rows parsed
  let (tree, map) ← place settings tree comments
  return ⟨path, tree, comments, map, parseErrors⟩

/-- Parses a source and links its comments. -/
def linkBytes (parser : SourceParser) (settings : LinkSettings) (path : String) (bytes : Bytes) :
    Sourcing LinkResult := do
  linkTree settings path bytes (← parse parser bytes)

end Source

end Marginalia
