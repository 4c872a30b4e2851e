import Marginalia.Proofs.Link.Placing
import Marginalia.Proofs.Syntax.Arranged

/-!
# Arguments on different lines

A comment behind an argument may belong to the next one, which a comma tells.  If the next argument
starts on a later line, all of the rest of the comment's own line lies before it, and the comma is
looked for there.  But whether the comment lies before the next argument at all is decided by the
columns of the two alone, although these count on different lines: an argument on a later line
takes part only if it is indented further than the comment reaches.

## Main definitions

* `restOfLine` — what is left of a line from a column on.

## Main results

* `commaBetween_of_later` — the comma is looked for in the rest of the line.
* `Placement.resolveArgument_across_lines` — which argument a comment belongs to.
-/

namespace Marginalia

/-- What is left of a line from a column on; a negative column counts from the end. -/
def restOfLine (line : String) (column : Int) : List Char :=
  line.toList.drop (Text.clampBound line.length column)

/-- **The comma is looked for in the rest of the line**, if the next argument starts on a later
one. -/
lemma commaBetween_of_later {comment : Comment} {following : Node}
    (h : comment.stop.line < following.start.line) (sourceLine : String) :
    commaBetween comment following sourceLine = true ↔
      ',' ∈ restOfLine sourceLine comment.stop.column := by
  have hstop : searchStop comment following sourceLine = (sourceLine.length : Nat) :=
    if_neg (Int.ne_of_lt h)
  have hlength : sourceLine.toList.length = sourceLine.length := String.length_toList
  rw [commaBetween, hstop, Text.slice, hlength, Text.clampBound_of_le (Nat.le_refl _),
    List.take_of_length_le (Nat.le_of_eq (by rw [List.length_drop, hlength])),
    List.contains_iff_mem, restOfLine]

namespace Placement

/-- **The next argument on a later line**: in every tree, an argument with a next one that starts
below the comment is given the comment if the rest of the source line holds a comma, and the next
one is if not, as long as the comment ends in a column before that of the next argument.  If it does
not, neither of them is.  Nothing but the journal changes. -/
theorem resolveArgument_across_lines (p : Placement) (harranged : p.tree.Arranged)
    {list id next : NodeId} {left right : List NodeId}
    (hsiblings : p.tree.children list = left ++ id :: next :: right) (comment : Comment)
    (hlater : comment.stop.line < (p.tree.node next).start.line) (sourceLine : String) :
    ∃ journal, resolveArgument id comment sourceLine p =
      .ok (if comment.stop.column < (p.tree.node next).start.column then
          some (if ',' ∈ restOfLine sourceLine comment.stop.column then id else next)
        else none) { p with journal := journal } := by
  have hnext : p.tree.nextSibling id = .ok (some next) := harranged.nextSibling_eq hsiblings
  have hcomma := commaBetween_of_later hlater sourceLine
  rw [resolveArgument_of_nextSibling hnext]
  by_cases hcolumn : comment.stop.column < (p.tree.node next).start.column
  · refine ⟨p.journal, ?_⟩
    rw [if_pos hcolumn, if_pos hcolumn]
    simp only [hcomma]
  · rw [if_neg hcolumn, if_neg hcolumn]
    exact ⟨_, rfl⟩

/-- A call whose arguments stand on three lines, the second of them far to the right. -/
def callLines : List String :=
  ["foo(a /* x */,", "                        b /* y */,", "  c);"]

/-- The tree of that call. -/
def callAcrossLines : SyntaxTree :=
  let root : Node :=
    { kind := "program", start := ⟨1, 0⟩, stop := ⟨3, 5⟩, field := none, accepts := true,
      tolerates := true, placeholder := false, parent := none, children := [], index := none }
  let t := (SyntaxTree.empty .standard callLines).push root
  let t := (t.addChild 0 ⟨"arguments", ⟨1, 3⟩, ⟨3, 4⟩, some "arguments"⟩).2
  let t := (t.addChild 1 ⟨"identifier", ⟨1, 4⟩, ⟨1, 5⟩, none⟩).2
  let t := (t.addChild 1 ⟨"identifier", ⟨2, 24⟩, ⟨2, 25⟩, none⟩).2
  (t.addChild 1 ⟨"identifier", ⟨3, 2⟩, ⟨3, 3⟩, none⟩).2

/-- The tree of the call is arranged. -/
lemma arranged_callAcrossLines : callAcrossLines.Arranged :=
  have hroot := @SyntaxTree.Built.addRoot _ _ ⟨"program", ⟨1, 0⟩, ⟨3, 5⟩, none⟩ 0
    (.empty .standard callLines) rfl
  have hbuilt : callAcrossLines.Built :=
    .addChild _ (.addChild _ (.addChild _ (.addChild _ hroot (by decide)) (by decide))
      (by decide)) (by decide)
  hbuilt.wellFormed_and_plain.1.arranged

/-- That tree, before any group is placed. -/
def callPlacement : Placement := ⟨callAcrossLines, [], .empty, #[]⟩

/-- The comment behind the first argument has a comma behind it and belongs to that argument, as
`resolveArgument_across_lines` says, since the second one is indented far enough. -/
theorem resolveArgument_across_lines_call :
    callPlacement.tree.Arranged ∧ callPlacement.tree.children 1 = [] ++ 2 :: 3 :: [4] ∧
      ∃ journal, resolveArgument 2 ⟨.block, ⟨1, 6⟩, ⟨1, 13⟩, "/* x */"⟩
          (callPlacement.tree.sourceLine 1) callPlacement =
        .ok (some 2) { callPlacement with journal := journal } := by
  have hsiblings : callPlacement.tree.children 1 = [] ++ 2 :: 3 :: [4] := by decide
  exact ⟨arranged_callAcrossLines, hsiblings,
    resolveArgument_across_lines callPlacement arranged_callAcrossLines hsiblings
      ⟨.block, ⟨1, 6⟩, ⟨1, 13⟩, "/* x */"⟩ (by decide) (callPlacement.tree.sourceLine 1)⟩

/-- **The indentation of the next line decides**: the comment behind the second argument has a comma
behind it as well, but the third one is not indented as far as the comment reaches, and no argument
is told. -/
theorem resolveArgument_defers_to_indentation :
    let comment : Comment := ⟨.block, ⟨2, 26⟩, ⟨2, 33⟩, "/* y */"⟩
    callPlacement.tree.children 1 = [2] ++ 3 :: 4 :: [] ∧
      comment.stop.line = (callPlacement.tree.node 3).start.line ∧
      comment.stop.line < (callPlacement.tree.node 4).start.line ∧
      ',' ∈ restOfLine (callPlacement.tree.sourceLine 2) comment.stop.column ∧
      ∃ journal, resolveArgument 3 comment (callPlacement.tree.sourceLine 2) callPlacement =
        .ok none { callPlacement with journal := journal } :=
  ⟨by decide, rfl, by decide, by decide, _, rfl⟩

end Placement

end Marginalia
