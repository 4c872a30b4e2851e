/-!
# Positions

A position in a source is a line, counted from one, and a column, counted from zero in characters.
Positions are compared line first.  Both numbers are integers, since a position may be asked for
that lies in no source.

## Main definitions

* `Position` — a line and a column.
* `Position.before` — whether one position lies strictly before another.
-/

namespace Marginalia

/-- A line and a column. -/
structure Position where
  line : Int
  column : Int
deriving Repr, DecidableEq, Inhabited

namespace Position

/-- Whether a position lies strictly before another, line first. -/
def before (p q : Position) : Bool :=
  decide (p.line < q.line) || (p.line == q.line && decide (p.column < q.column))

/-- The position some lines further down. -/
def shift (k : Int) (p : Position) : Position := ⟨p.line + k, p.column⟩

/-- A position as `line:column`. -/
def describe (p : Position) : String := toString p.line ++ ":" ++ toString p.column

/-- `before` is the lexicographic order. -/
theorem before_iff (p q : Position) :
    p.before q = true ↔ p.line < q.line ∨ (p.line = q.line ∧ p.column < q.column) := by
  simp [before]

/-- No position lies before itself. -/
@[simp] theorem before_irrefl (p : Position) : p.before p = false := by simp [before]

end Position

end Marginalia
