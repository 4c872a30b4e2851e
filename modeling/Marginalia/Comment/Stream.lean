import Marginalia.Comment.Basic
import Marginalia.Link.Error

/-!
# Comment streams

The comments of a source are read in order.  The cursor stands on the last comment that was pulled
into the group under way; that group may have been placed already.

## Main definitions

* `CommentStream` — the comments and the cursor.
* `CommentStream.ofComments` — the stream of comments that are in order.
* `CommentStream.current`, `CommentStream.following` — the comments at and behind the cursor.
* `CommentStream.isAdjacentTo` — whether the current comment touches a line.
* `CommentStream.advance` — pulls the next comment into a group.
-/

namespace Marginalia

/-- Comments in order, and the place reached among them. -/
structure CommentStream where
  comments : List Comment
  cursor : Nat
deriving Repr, DecidableEq, Inhabited

namespace CommentStream

/-- Checks that each comment starts at or behind the end of the one before it. -/
def checkOrder : List Comment → Except LinkError Unit
  | previous :: following :: rest =>
    if following.start.before previous.stop then
      .error (.outOfOrder previous.start following.start)
    else checkOrder (following :: rest)
  | _ => .ok ()

/-- The stream of comments that are in order, standing on the first one. -/
def ofComments (comments : List Comment) : Except LinkError CommentStream := do
  checkOrder comments
  return ⟨comments, 0⟩

/-- The group that a new stream starts with. -/
def firstGroup (s : CommentStream) : CommentGroup := s.comments.take 1

/-- Whether every comment was read. -/
def isDone (s : CommentStream) : Bool := decide (s.comments.length ≤ s.cursor)

/-- Whether comments behind the current one are left. -/
def hasRemaining (s : CommentStream) : Bool := decide (s.cursor + 1 < s.comments.length)

/-- The comment at the cursor. -/
def current (s : CommentStream) : Except LinkError Comment :=
  match s.comments[s.cursor]? with
  | some c => .ok c
  | none => .error (.pastEnd s.cursor)

/-- The comment behind the cursor. -/
def following (s : CommentStream) : Except LinkError Comment :=
  match s.comments[s.cursor + 1]? with
  | some c => .ok c
  | none => .error (.nothingFollows s.cursor)

/-- The line on which the current comment ends. -/
def lastLine (s : CommentStream) : Except LinkError Int := do return (← s.current).stop.line

/-- Whether the current comment touches a line: it ends on the line, or on the line above, where
then no other comment starts. -/
def isAdjacentTo (s : CommentStream) (line : Int) : Except LinkError Bool := do
  let last ← s.lastLine
  if last = line then return true
  else if last = line - 1 then return decide (last ≠ (← s.following).start.line)
  else return false

/-- Whether a blank line or code lies between the current comment and the next one. -/
def breaksGroup (s : CommentStream) : Except LinkError Bool := do
  return (← s.current).startsNewGroup (← s.following)

/-- Moves on by one comment, which joins the group if there is one. -/
def advance (s : CommentStream) (group : CommentGroup) : CommentStream × CommentGroup :=
  ({ s with cursor := s.cursor + 1 }, group ++ s.comments[s.cursor + 1]?.toList)

end CommentStream

end Marginalia
