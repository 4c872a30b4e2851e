import Marginalia.Comment.Basic
import Marginalia.Comment.Rules

/-!
# Filtering comments

The text of a comment is filtered before it is placed: a documentation comment goes through the
rules for annotations, any other comment loses the markers of the build system, and a comment of
which nothing is left is dropped.

## Main definitions

* `Marker` — a pattern that is deleted from plain comments, with its text.
* `Filter.pullUpProse` — moves a description onto the line of its annotation.
* `Filter.isEmptyShell` — whether nothing is left of a comment.
* `Filter.filterChars`, `Filter.filter` — the filtered text; empty if the comment is dropped.
-/

namespace Marginalia

/-- A pattern deleted from plain comments. -/
structure Marker where
  text : String
  pattern : Pattern
deriving Repr, DecidableEq

/-- The built-in markers. -/
def Marker.builtIn : List Marker := [⟨Rules.scopeMarkerText, Rules.scopeMarker⟩]

namespace Filter

/-- Moves a description that starts on the line after an annotation onto the annotation's line.  A
comment on one line stays as it is. -/
def pullUpProse (comment : List Char) : List Char :=
  if comment.contains '\n' then
    let comment := Rules.proseAfterType.replaceAll
      (fun f => ['\x7d', ' '] ++ f.captured "prose") comment
    Rules.proseAfterName.replaceAll
      (fun f => ['\x7d', ' '] ++ f.captured "identifier" ++ [' ']) comment
  else comment

/-- Whether a comment is nothing but its delimiters, blanks and stars. -/
def isEmptyShell (comment : List Char) : Bool := (Rules.emptyShell.find? comment).isSome

/-- Applies all rules for documentation comments. -/
def filterDoc (comment : List Char) : List Char :=
  let comment := pullUpProse comment
  let comment := Rules.keepRules.foldl (fun text rule => Rules.applyKeep rule text) comment
  Rules.dropRules.foldl (fun text rule => Rules.applyDrop rule text) comment

/-- Deletes all markers from a plain comment. -/
def filterPlain (markers : List Marker) (comment : List Char) : List Char :=
  markers.foldl (fun text marker => marker.pattern.eraseAll text) comment

/-- Nothing, if nothing is left of a comment. -/
def dropEmpty (comment : List Char) : List Char :=
  if Text.allBlank comment || isEmptyShell comment then [] else comment

/-- The filtered text of a comment; empty if the comment is dropped. -/
def filterChars (kind : CommentKind) (markers : List Marker) (comment : List Char) : List Char :=
  match kind with
  | .doc => dropEmpty (filterDoc comment)
  | _ => dropEmpty (filterPlain markers comment)

/-- The filtered text of a comment; empty if the comment is dropped. -/
def filter (kind : CommentKind) (markers : List Marker) (comment : String) : String :=
  String.ofList (filterChars kind markers comment.toList)

end Filter

/-- The filtered text of a comment; empty if the comment is dropped. -/
def Comment.filtered (markers : List Marker) (c : Comment) : String :=
  Filter.filter c.kind markers c.text

end Marginalia
