import Marginalia.Comment.Stream
import Marginalia.Link.Pass
import Marginalia.Proofs.Syntax.Shift

/-!
# Comments further down

A source with empty lines put before it has the same comments, each as many lines further down.
What a pass asks of its comments are gaps between lines, and these do not change.

## Main definitions

* `Comment.shift`, `CommentStream.shift` — a comment and a stream, some lines further down.
* `Event.shift`, `Move.shift`, `LinkError.shift` — what is noted about them.

## Main results

* `CommentStream.checkOrder_shift` — moving comments keeps their order, and the fault in it.
* `CommentGroup.compose_shift` — moving a group keeps its text.
-/

namespace Marginalia

/-- A comment some lines further down. -/
def Comment.shift (k : Int) (c : Comment) : Comment :=
  { c with start := c.start.shift k, stop := c.stop.shift k }

/-- A group of comments some lines further down. -/
def CommentGroup.shift (k : Int) (group : CommentGroup) : CommentGroup :=
  group.map (Comment.shift k)

/-- A fault, with the places it names some lines further down. -/
def LinkError.shift (k : Int) : LinkError → LinkError
  | .outOfOrder previous following => .outOfOrder (previous.shift k) (following.shift k)
  | e => e

/-- An event of a pass, with the places it names some lines further down. -/
def Event.shift (k : Int) : Event → Event
  | .placeholderInserted id kind line => .placeholderInserted id kind (line + k)
  | .groupLinked kind id place => .groupLinked kind id (place.shift k)
  | .groupAnchored id line => .groupAnchored id (line + k)
  | e => e

/-- A step of a pass, with its comments some lines further down. -/
def Move.shift (k : Int) : Move → Move
  | .visit id => .visit id
  | .resolve id comment target => .resolve id (comment.shift k) target
  | .link id group => .link id (group.shift k)
  | .float id group => .float id (group.shift k)
  | .trail group => .trail (group.shift k)

namespace CommentGroup

variable (markers : List Marker) (k : Int) (group : CommentGroup)

/-- Moving a group keeps its text. -/
@[simp] lemma compose_shift : (group.shift k).compose markers = group.compose markers := by
  have hfiltered : Comment.filtered markers ∘ Comment.shift k = Comment.filtered markers := rfl
  simp only [compose, survivors, shift, List.map_map, hfiltered]

/-- Nothing is left of as many comments of a moved group. -/
lemma length_dropped_shift :
    ((group.shift k).filter fun c => (c.filtered markers).isEmpty).length =
      (group.filter fun c => (c.filtered markers).isEmpty).length := by
  rw [shift, List.filter_map, List.length_map]
  rfl

end CommentGroup

namespace CommentStream

/-- A stream some lines further down. -/
def shift (k : Int) (s : CommentStream) : CommentStream :=
  { s with comments := s.comments.map (Comment.shift k) }

variable (k : Int)

/-- Moving comments keeps their order, and the fault in it. -/
lemma checkOrder_shift (comments : List Comment) :
    checkOrder (comments.map (Comment.shift k)) =
      (checkOrder comments).mapError (LinkError.shift k) := by
  fun_induction checkOrder comments with
  | case1 previous following rest hbefore =>
    have hmoved : ((following.shift k).start).before (previous.shift k).stop = true := by
      simpa [Comment.shift] using hbefore
    simp only [List.map_cons, checkOrder, if_pos hmoved]
    rfl
  | case2 previous following rest hbefore ih =>
    have hmoved : ¬((following.shift k).start).before (previous.shift k).stop = true := by
      simpa [Comment.shift] using hbefore
    rw [List.map_cons] at ih
    simp only [List.map_cons, checkOrder, if_neg hmoved, ih]
  | case3 comments hshort =>
    match comments with
    | [] => rfl
    | [_] => rfl
    | previous :: following :: rest => exact absurd rfl (hshort previous following rest)

section Questions

variable (s : CommentStream)

/-- Moving a stream keeps the number of its comments. -/
@[simp] lemma length_comments_shift : (s.shift k).comments.length = s.comments.length :=
  List.length_map ..

/-- Moving a stream keeps whether it is at its end. -/
@[simp] lemma isDone_shift : (s.shift k).isDone = s.isDone := by
  simp [isDone, shift]

/-- Moving a stream keeps whether comments are left. -/
@[simp] lemma hasRemaining_shift : (s.shift k).hasRemaining = s.hasRemaining := by
  simp [hasRemaining, shift]

/-- The first group of a moved stream is moved. -/
lemma firstGroup_shift : (s.shift k).firstGroup = s.firstGroup.shift k := by
  simp [firstGroup, shift, CommentGroup.shift]

/-- The current comment of a moved stream is moved. -/
lemma current_shift : (s.shift k).current = s.current.map (Comment.shift k) := by
  simp only [current, shift, List.getElem?_map]
  cases s.comments[s.cursor]? <;> rfl

/-- The following comment of a moved stream is moved. -/
lemma following_shift : (s.shift k).following = s.following.map (Comment.shift k) := by
  simp only [following, shift, List.getElem?_map]
  cases s.comments[s.cursor + 1]? <;> rfl

/-- The last line of a moved stream is moved. -/
lemma lastLine_shift : (s.shift k).lastLine = s.lastLine.map (· + k) := by
  simp only [lastLine, current_shift]
  cases s.current <;> rfl

/-- Moving the comments and the line keeps what touches the line. -/
lemma isAdjacentTo_shift (line : Int) :
    (s.shift k).isAdjacentTo (line + k) = s.isAdjacentTo line := by
  simp only [isAdjacentTo, lastLine_shift, following_shift]
  cases s.lastLine with
  | error e => rfl
  | ok last =>
    show (if last + k = line + k then _ else if last + k = line + k - 1 then _ else _) =
      (if last = line then _ else if last = line - 1 then _ else _)
    have hsame : last + k = line + k ↔ last = line := by omega
    have habove : last + k = line + k - 1 ↔ last = line - 1 := by omega
    simp only [hsame, habove]
    split
    · rfl
    · split
      · cases s.following with
        | error e => rfl
        | ok c =>
          show Except.ok (decide (last + k ≠ c.start.line + k)) =
            Except.ok (decide (last ≠ c.start.line))
          have hne : last + k ≠ c.start.line + k ↔ last ≠ c.start.line := by omega
          simp only [hne]
      · rfl

/-- Moving comments keeps the gaps between them. -/
lemma startsNewGroup_shift (previous following : Comment) :
    (previous.shift k).startsNewGroup (following.shift k) = previous.startsNewGroup following := by
  rw [Comment.startsNewGroup, Comment.startsNewGroup, decide_eq_decide]
  show 1 < following.start.line + k - (previous.stop.line + k) ↔
    1 < following.start.line - previous.stop.line
  omega

/-- Moving a stream keeps where a group ends. -/
lemma breaksGroup_shift : (s.shift k).breaksGroup = s.breaksGroup := by
  simp only [breaksGroup, current_shift, following_shift]
  cases s.current with
  | error e => rfl
  | ok c =>
    cases s.following with
    | error e => rfl
    | ok d => exact congrArg Except.ok (startsNewGroup_shift k c d)

/-- A moved stream advances as the stream does, moved. -/
lemma advance_shift (group : CommentGroup) :
    (s.shift k).advance (group.shift k) =
      ((s.advance group).1.shift k, (s.advance group).2.shift k) := by
  simp only [advance, shift, CommentGroup.shift, List.getElem?_map, List.map_append]
  cases s.comments[s.cursor + 1]? <;> rfl

end Questions

end CommentStream

end Marginalia
