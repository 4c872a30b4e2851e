import Marginalia.Position

/-!
# Comments

A comment is a piece of source text with its delimiters and its place.  The opening delimiter
tells its kind: `//` a line comment, `/**` a documentation comment, anything else a block comment;
`/**/` is an ordinary block comment.

## Main definitions

* `CommentKind`, `CommentKind.classify` — the kinds, and the kind of a text.
* `Comment` — a comment with its place.
* `Comment.lineGap`, `Comment.startsNewGroup` — how far apart two comments are.
* `CommentGroup` — a run of adjacent comments.
-/

namespace Marginalia

/-- The kinds of comments. -/
inductive CommentKind where
  | line
  | block
  | doc
deriving Repr, DecidableEq, Inhabited

namespace CommentKind

/-- The kind that the opening delimiter of a text tells. -/
def classifyChars : List Char → CommentKind
  | '/' :: '/' :: _ => .line
  | '/' :: '*' :: '*' :: '/' :: _ => .block
  | '/' :: '*' :: '*' :: _ => .doc
  | _ => .block

/-- The kind that the opening delimiter of a text tells. -/
def classify (text : String) : CommentKind := classifyChars text.toList

/-- The name of a kind. -/
def name : CommentKind → String
  | .line => "line"
  | .block => "block"
  | .doc => "doc"

/-- The kind with a name. -/
def ofName? : String → Option CommentKind
  | "line" => some .line
  | "block" => some .block
  | "doc" => some .doc
  | _ => none

end CommentKind

/-- A comment of a source. -/
structure Comment where
  kind : CommentKind
  /-- Where its first character stands. -/
  start : Position
  /-- The place just behind its last character. -/
  stop : Position
  /-- Its text with the delimiters. -/
  text : String
deriving Repr, DecidableEq, Inhabited

namespace Comment

/-- Whether this is a documentation comment. -/
def isDoc (c : Comment) : Bool := c.kind == .doc

/-- The number of lines from the end of one comment to the start of the next. -/
def lineGap (previous following : Comment) : Int := following.start.line - previous.stop.line

/-- Whether a blank line or a line of code lies between two comments. -/
def startsNewGroup (previous following : Comment) : Bool := decide (1 < lineGap previous following)

end Comment

/-- A run of adjacent comments, which are placed together. -/
abbrev CommentGroup := List Comment

/-- The lines that each comment of a group spans. -/
def CommentGroup.describe (group : CommentGroup) : String :=
  let spans := group.map fun c => toString c.start.line ++ "-" ++ toString c.stop.line
  "CommentGroup(" ++ ", ".intercalate spans ++ ")"

end Marginalia
