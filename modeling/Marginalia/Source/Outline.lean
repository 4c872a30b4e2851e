import Marginalia.Source.ParseTree
import Marginalia.Syntax.Tree

/-!
# Outlines of parse trees

The syntax tree of a source holds the named nodes of its parse tree, without the comments.  What
hangs below a node that is left out is left out too.  A cursor walks over the parse tree, and each
node that is kept is added below the last node that is kept and not yet finished.

## Main definitions

* `ParseCursor` — a place in a parse tree.
* `Outline.build` — the syntax tree, by walking a cursor.
-/

namespace Marginalia

/-- A place in a parse tree: a node, the siblings behind it, and for each node above it the siblings
behind that one. -/
structure ParseCursor where
  focus : ParseTree
  right : List ParseTree
  above : List (ParseTree × List ParseTree)
deriving Repr, Inhabited

namespace ParseCursor

/-- The root of a tree. -/
def atRoot (t : ParseTree) : ParseCursor := ⟨t, [], []⟩

/-- The first child. -/
def firstChild? (c : ParseCursor) : Option ParseCursor :=
  match c.focus.children with
  | [] => none
  | child :: rest => some ⟨child, rest, (c.focus, c.right) :: c.above⟩

/-- The next sibling. -/
def nextSibling? (c : ParseCursor) : Option ParseCursor :=
  match c.right with
  | [] => none
  | sibling :: rest => some ⟨sibling, rest, c.above⟩

/-- The parent. -/
def parent? (c : ParseCursor) : Option ParseCursor :=
  match c.above with
  | [] => none
  | (focus, right) :: above => some ⟨focus, right, above⟩

end ParseCursor

namespace Outline

/-- What a syntax node is made from. -/
def spec (rows : SourceRows) (label : ParseNode) : Except SourceError NodeSpec := do
  return ⟨label.type, ← rows.convert label.start.point, ← rows.convert label.stop.point,
    label.field⟩

/-- The next place that is no descendant of the cursor's node, and the unfinished nodes there.  The
unfinished nodes are those above the place, nearest first. -/
def onward (c : ParseCursor) : List NodeId → Option (ParseCursor × List NodeId)
  | [] => none
  | parent :: parents =>
    match c.nextSibling? with
    | some next => some (next, parent :: parents)
    | none =>
      match parents, c.parent? with
      | [], _ => none
      | _, none => none
      | _, some up => onward up parents

/-- Walks on from a place below the unfinished nodes `parents`, nearest first. -/
def walk (rows : SourceRows) :
    Nat → SyntaxTree → ParseCursor → List NodeId → Except SourceError SyntaxTree
  | 0, t, _, _ => .ok t
  | steps + 1, t, c, parents => do
    let moveOn (t : SyntaxTree) (c : ParseCursor) : Except SourceError SyntaxTree :=
      match onward c parents with
      | some (next, parents) => walk rows steps t next parents
      | none => .ok t
    let parent := parents.headD 0
    if c.focus.label.isSyntax then
      let (id, t) := t.addChild parent (← spec rows c.focus.label)
      match c.firstChild? with
      | some child => walk rows steps t child (id :: parents)
      | none => moveOn t c
    else moveOn t c

/-- The syntax tree of a parse tree. -/
def build (policy : KindPolicy) (lines : List String) (rows : SourceRows) (parsed : ParseTree) :
    Except SourceError SyntaxTree := do
  let root ← spec rows parsed.label
  match (SyntaxTree.empty policy lines).addRoot { root with field := none } with
  | .error e => .error (.link e)
  | .ok (id, t) =>
    match (ParseCursor.atRoot parsed).firstChild? with
    | none => return t
    | some child => walk rows parsed.size t child [id]

end Outline

end Marginalia
