import Marginalia.Proofs.Link.Progress

/-!
# Comments in order

A stream accepts comments of which each starts at or behind the end of the one before it.  If in
addition no comment ends before it starts, then all comments are in order, near or far: of two of
them, the earlier one ends at or before the start of the later one.

## Main definitions

* `Forward` — no comment ends before it starts.

## Main results

* `not_before_of_lt` — the later of two comments starts at or behind the end of the earlier one.
* `not_before_of_le` — and it ends at or behind that end.
-/

namespace Marginalia

namespace Position

variable {p q r : Position}

/-- A position is not before another one if it is on a later line, or on the same line and not to
the left. -/
lemma before_eq_false_iff :
    p.before q = false ↔ q.line < p.line ∨ (q.line = p.line ∧ q.column ≤ p.column) := by
  rw [← Bool.not_eq_true, before_iff]
  omega

/-- Being not before is transitive. -/
lemma not_before_trans (h : q.before p = false) (h' : r.before q = false) :
    r.before p = false := by
  rw [before_eq_false_iff] at *
  omega

/-- What lies at or before a position lies before all that this one lies before. -/
lemma before_of_not_before (h : q.before p = false) (h' : q.before r = true) :
    p.before r = true := by
  rw [before_eq_false_iff] at h
  rw [before_iff] at *
  omega

/-- A position that is not before another one is not on an earlier line. -/
lemma line_le_of_not_before (h : q.before p = false) : p.line ≤ q.line := by
  rw [before_eq_false_iff] at h
  omega

end Position

/-- No comment ends before it starts. -/
def Forward (comments : List Comment) : Prop := ∀ c ∈ comments, c.stop.before c.start = false

section

variable {comments : List Comment} {c d : Comment} {i j : Nat}

/-- **The later of two comments starts at or behind the end of the earlier one.**

**Proof sketch.** Induction on the place of the later one.  Neighbours are in order by the check of
the stream, and the comment in between starts no later than it ends. -/
lemma not_before_of_lt (horder : CommentStream.checkOrder comments = .ok ())
    (hforward : Forward comments) (hij : i < j) (hc : comments[i]? = some c)
    (hd : comments[j]? = some d) : d.start.before c.stop = false := by
  have hneighbours := (CommentStream.checkOrder_eq_ok_iff comments).mp horder
  induction j generalizing d with
  | zero => omega
  | succ j ih =>
    have hj : j < comments.length := by
      have := (List.getElem?_eq_some_iff.mp hd).1
      omega
    have he := List.getElem?_eq_getElem hj
    have hnext : d.start.before comments[j].stop = false := by
      rw [← Bool.not_eq_true]
      intro hbefore
      exact hneighbours ⟨j, comments[j], d, he, hd, hbefore⟩
    rcases Nat.lt_or_eq_of_le (Nat.le_of_lt_succ hij) with hlt | rfl
    · refine Position.not_before_trans (ih hlt he) ?_
      exact Position.not_before_trans (hforward _ (List.getElem_mem hj)) hnext
    · rw [he] at hc
      rwa [← Option.some.inj hc]

/-- **The later of two comments ends at or behind the end of the earlier one.** -/
lemma not_before_of_le (horder : CommentStream.checkOrder comments = .ok ())
    (hforward : Forward comments) (hij : i ≤ j) (hc : comments[i]? = some c)
    (hd : comments[j]? = some d) : d.stop.before c.stop = false := by
  rcases Nat.lt_or_eq_of_le hij with hlt | rfl
  · exact Position.not_before_trans (not_before_of_lt horder hforward hlt hc hd)
      (hforward d (List.mem_of_getElem? hd))
  · rw [Option.some.inj (hc.symm.trans hd)]
    exact Position.before_irrefl _

/-- **The later of two comments starts at or behind the start of the earlier one.** -/
lemma start_not_before_of_le (horder : CommentStream.checkOrder comments = .ok ())
    (hforward : Forward comments) (hij : i ≤ j) (hc : comments[i]? = some c)
    (hd : comments[j]? = some d) : d.start.before c.start = false := by
  rcases Nat.lt_or_eq_of_le hij with hlt | rfl
  · exact Position.not_before_trans (hforward c (List.mem_of_getElem? hc))
      (not_before_of_lt horder hforward hlt hc hd)
  · rw [Option.some.inj (hc.symm.trans hd)]
    exact Position.before_irrefl _

end

end Marginalia
