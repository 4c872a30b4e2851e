/-!
# Splitting at a separator

## Main definitions

* `Text.splitAt` — the parts of a list between the places of a separator.
-/

namespace Marginalia.Text

variable {α : Type} [DecidableEq α]

/-- The parts of a list between the places of a separator; there is one part more than there are
separators. -/
def splitAt (separator : α) : List α → List (List α)
  | [] => [[]]
  | x :: xs =>
    if x = separator then [] :: splitAt separator xs
    else
      match splitAt separator xs with
      | [] => [[x]]
      | part :: parts => (x :: part) :: parts

/-- There is one part more than there are separators. -/
theorem length_splitAt (separator : α) (xs : List α) :
    (splitAt separator xs).length = xs.count separator + 1 := by
  induction xs with
  | nil => rfl
  | cons x xs ih =>
    by_cases h : x = separator
    · simp [splitAt, h, ih]
    · have hne : (x == separator) = false := by simpa using h
      cases hs : splitAt separator xs with
      | nil => simp [hs] at ih
      | cons part parts => simp_all [splitAt]

end Marginalia.Text
