import Marginalia.Pattern.Replace

/-!
# Rules for documentation comments

A documentation comment loses the annotations that the code itself already states: types,
visibility, constructor marks.  Each rule is a pattern with named parts:

* `block` — the ` * ` that opens a line of the comment;
* `keep` — what stays of an annotation;
* `eol` — the end of the line, when the annotation reaches up to it.

A rule looks at its first match to decide what replaces all its matches.

## Main definitions

* `Rules.keepRules`, `Rules.applyKeep` — annotations of which a part stays.
* `Rules.dropRules`, `Rules.applyDrop` — annotations that go.
* `Rules.proseAfterType`, `Rules.proseAfterName` — descriptions that start on the next line.
* `Rules.emptyShell` — a comment without content.
* `Rules.scopeMarker` — a marker of the build system in plain comments.
-/

namespace Marginalia.Rules

open Pattern

/-! ## Parts of patterns -/

/-- A space or a tab. -/
def space : Pattern := oneOf [' ', '\t']

/-- Spaces and tabs. -/
def spaces : Pattern := many space

/-- The ` * ` that opens a line, if it is there. -/
def lineStart : Pattern := optional (named "block" (all [spaces, char '*', spaces]))

/-- The end of a line with the spaces before it, if it is there. -/
def lineEnd : Pattern := optional (named "eol" (all [spaces, char '\n']))

/-- A type between braces that stays on one line. -/
def typeOnLine : Pattern := all [char '\x7b', many notNewline, char '\x7d']

/-- A type between braces without an `@` in it. -/
def typeBeforeAt : Pattern := all [char '\x7b', many (noneOf ['@']), char '\x7d']

/-- A type between braces that may span lines. -/
def typeAcrossLines : Pattern := all [char '\x7b', many anyChar, char '\x7d']

/-- `return` or `returns`. -/
def returnWord : Pattern := .seq (text "return") (optional (char 's'))

/-- The end of the comment or of the line, which stays. -/
def keptEnd : Pattern := named "keep" (first [text "*/", char '\n'])

/-! ## Annotations of which a part stays -/

/-- `@param {T} name` without a description. -/
def bareParam : Pattern :=
  all [lineStart, text "@param", spaces, typeBeforeAt, spaces,
    some₁ (.one ⟨false, [.category .word false, .char '$']⟩), spaces, keptEnd]

/-- `@return {T}` without a description. -/
def bareReturn : Pattern :=
  all [lineStart, text "@", returnWord, spaces, typeOnLine, spaces, keptEnd]

/-- The type of a `@param` or `@return` with a description. -/
def typedTag : Pattern :=
  all [lineStart, named "keep" (.seq (char '@') (first [text "param", returnWord])), spaces,
    typeOnLine]

/-- The type of an `@export`. -/
def typedExport : Pattern := all [lineStart, named "keep" (text "@export"), spaces, typeOnLine]

/-- The rules that keep a part of an annotation, in the order in which they are applied. -/
def keepRules : List Pattern := [bareParam, bareReturn, typedTag, typedExport]

/-- Applies a rule that keeps a part.  When the kept part of the first match is not blank, every
match leaves its line opening and its kept part; otherwise every match is deleted. -/
def applyKeep (rule : Pattern) (comment : List Char) : List Char :=
  match rule.find? comment with
  | none => comment
  | some f =>
    if Text.allBlank (f.captured "keep") then rule.eraseAll comment
    else rule.replaceAll (fun f => f.captured "block" ++ f.captured "keep") comment

/-! ## Annotations that go -/

/-- `@extends`, `@implements` and `@type`. -/
def heritage : Pattern :=
  all [lineStart, char '@', first [text "extends", text "implements", text "type"], spaces,
    typeBeforeAt, spaces, lineEnd]

/-- `@constructor`, `@interface` and `@record`. -/
def classMark : Pattern :=
  all [lineStart, char '@', first [text "constructor", text "interface", text "record"], spaces,
    lineEnd]

/-- Visibility, `@const` and `@enum`, with a type or without one. -/
def visibility : Pattern :=
  all [lineStart, char '@',
    first [text "private", text "protected", text "public", text "package", text "const",
      text "enum"],
    spaces, optional typeOnLine, spaces, lineEnd]

/-- `@suppress {extraRequire}`. -/
def suppress : Pattern :=
  all [lineStart, text "@suppress", spaces, text "\x7bextraRequire\x7d", spaces, lineEnd]

/-- `@typedef` with its type. -/
def typedef : Pattern := all [lineStart, text "@typedef", spaces, typeAcrossLines, lineEnd]

/-- `@abstract`. -/
def abstractMark : Pattern := all [lineStart, text "@abstract", lineEnd]

/-- The rules that delete an annotation, in the order in which they are applied. -/
def dropRules : List Pattern := [heritage, classMark, visibility, suppress, typedef, abstractMark]

/-- Applies a rule that deletes.  When the first match reaches the end of its line, every match is
deleted; otherwise every match leaves its line opening. -/
def applyDrop (rule : Pattern) (comment : List Char) : List Char :=
  match rule.find? comment with
  | none => comment
  | some f =>
    match f.captured? "eol" with
    | some _ => rule.eraseAll comment
    | none => rule.replaceAll (fun f => f.captured "block") comment

/-! ## Descriptions on the next line -/

/-- The start of a description on the line after a type. -/
def proseAfterType : Pattern :=
  all [char '\x7d', many blank, char '*', rounds 2 none .greedy blank,
    .look false 0 (oneOf ['@', ',', '/', '\n']), named "prose" (some₁ notBlank)]

/-- The opening of the line after a type and a name. -/
def proseAfterName : Pattern :=
  all [char '\x7d', some₁ blank, named "identifier" (some₁ notBlank), many blank, char '*',
    .span ⟨true, [.category .blank true, .char '\n', .char '\r', .char '@', .char '/']⟩ 2 none
      .greedy]

/-! ## Comments without content -/

/-- A blank character or a star. -/
def blankOrStar : Pattern := .one ⟨false, [.category .blank false, .char '*']⟩

/-- `//`, `/* */` or `/** */` with nothing but blanks and stars inside. -/
def emptyShell : Pattern :=
  all [.anchor .textStart, many blank,
    first [text "//", all [text "/*", many blankOrStar, text "*/"]],
    many blank, .anchor .lastLineEnd]

/-- The text of the built-in marker in plain comments. -/
def scopeMarkerText : String := "//\\s*goog.scope\\s*"

/-- The built-in marker in plain comments. -/
def scopeMarker : Pattern :=
  all [text "//", many blank, text "goog", notNewline, text "scope", many blank]

end Marginalia.Rules
