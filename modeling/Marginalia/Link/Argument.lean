import Marginalia.Link.Placement
import Marginalia.Text.Slice

/-!
# Comments between arguments

A comment on the line of an argument may belong to that argument or to the next one.  The comma
tells: if one stands between the comment and the next argument, the comment belongs to the argument
before it.

## Main definitions

* `Placement.resolveArgument` — the argument a comment belongs to; none if the comment stands behind
  the next argument's start.
-/

namespace Marginalia

/-- Where the search for a comma stops: at the next argument, if it starts on the line on which the
comment ends, and otherwise at the end of the source line. -/
def searchStop (comment : Comment) (following : Node) (sourceLine : String) : Int :=
  if comment.stop.line = following.start.line then following.start.column
  else sourceLine.length

/-- Whether a comma stands between a comment and the next argument. -/
def commaBetween (comment : Comment) (following : Node) (sourceLine : String) : Bool :=
  (Text.slice sourceLine.toList comment.stop.column
    (searchStop comment following sourceLine)).contains ','

namespace Placement

/-- The argument that a comment on the line of the argument `id` belongs to: `id` itself, the next
argument, or none when the comment ends behind the start of the next argument. -/
def resolveArgument (id : NodeId) (comment : Comment) (sourceLine : String) :
    Placing (Option NodeId) := do
  let tree := (← get).tree
  match (← ofExcept (tree.nextSibling id)) with
  | none => return some id
  | some next =>
    let following := tree.node next
    if following.start.column ≤ comment.stop.column then
      note (.argumentDeferred comment.stop.column id)
      return none
    else if commaBetween comment following sourceLine then return some id
    else return some next

end Placement

end Marginalia
