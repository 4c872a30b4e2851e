import Marginalia.Proofs.Comment.Order
import Marginalia.Proofs.Syntax.Preorder

/-!
# Trees in source order

In a tree read from a source, every node has a span, the spans of children lie inside that of their
parent, and siblings follow each other.  The nodes of such a tree then start one after another in
the order of the walk.

## Main definitions

* `SyntaxTree.SourceOrdered` — spans nest and siblings are in order.

## Main results

* `SyntaxTree.SourceOrdered.inside_of_mem_subtree` — all of a subtree lies inside the span of its
  node.
* `SyntaxTree.SourceOrdered.start_of_notAfter` — a node that does not come after another does not
  start after it.
-/

namespace Marginalia

namespace SyntaxTree

/-- The positions of a tree follow the source. -/
structure SourceOrdered (t : SyntaxTree) : Prop where
  /-- No node ends before it starts. -/
  forward : ∀ id < t.size, (t.node id).stop.before (t.node id).start = false
  /-- Children lie inside the span of their parent. -/
  inside : ∀ p < t.size, ∀ c ∈ t.children p,
    (t.node c).start.before (t.node p).start = false ∧
      (t.node p).stop.before (t.node c).stop = false
  /-- A sibling starts at or behind the end of those before it. -/
  siblings : ∀ p < t.size,
    (t.children p).Pairwise fun a b => (t.node b).start.before (t.node a).stop = false

/-- Whether a tree is in source order can be decided. -/
instance (t : SyntaxTree) : Decidable t.SourceOrdered :=
  decidable_of_iff
    ((∀ id < t.size, (t.node id).stop.before (t.node id).start = false) ∧
      (∀ p < t.size, ∀ c ∈ t.children p,
        (t.node c).start.before (t.node p).start = false ∧
          (t.node p).stop.before (t.node c).stop = false) ∧
      ∀ p < t.size,
        (t.children p).Pairwise fun a b => (t.node b).start.before (t.node a).stop = false)
    ⟨fun h => ⟨h.1, h.2.1, h.2.2⟩, fun h => ⟨h.forward, h.inside, h.siblings⟩⟩

namespace SourceOrdered

variable {t : SyntaxTree} {a b x y : NodeId}

/-- **All of a subtree lies inside the span of its node.** -/
lemma inside_of_mem_subtree (h : t.SourceOrdered) (hwf : t.WellFormed) (hx : x < t.size)
    (hy : y ∈ t.subtree x) :
    (t.node y).start.before (t.node x).start = false ∧
      (t.node x).stop.before (t.node y).stop = false := by
  revert hx hy
  refine hwf.downward_induction (motive := fun x => x < t.size → y ∈ t.subtree x →
    (t.node y).start.before (t.node x).start = false ∧
      (t.node x).stop.before (t.node y).stop = false) ?_ x
  intro x ih hx hy
  rw [hwf.subtree_eq] at hy
  rcases List.mem_cons.mp hy with rfl | hy
  · exact ⟨Position.before_irrefl _, Position.before_irrefl _⟩
  · obtain ⟨c, hc, hyc⟩ := List.mem_flatMap.mp hy
    obtain ⟨hstart, hstop⟩ := ih c hc (hwf.lt_size_of_mem hc) hyc
    obtain ⟨hcstart, hcstop⟩ := h.inside x hx c hc
    exact ⟨Position.not_before_trans hcstart hstart, Position.not_before_trans hstop hcstop⟩

/-- The nodes of a subtree start one after another.

**Proof sketch.** Induction from the children.  The node itself starts no later than what is below
it.  Of two nodes below different children, the first ends inside the span of its child, which ends
before the other child starts. -/
lemma pairwise_subtree (h : t.SourceOrdered) (hwf : t.WellFormed) (hx : x < t.size) :
    (t.subtree x).Pairwise fun a b => (t.node b).start.before (t.node a).start = false := by
  revert hx
  refine hwf.downward_induction (motive := fun x => x < t.size →
    (t.subtree x).Pairwise fun a b => (t.node b).start.before (t.node a).start = false) ?_ x
  intro x ih hx
  have hinside : ∀ y ∈ (t.children x).flatMap t.subtree,
      (t.node y).start.before (t.node x).start = false := by
    intro y hy
    refine (h.inside_of_mem_subtree hwf hx ?_).1
    rw [hwf.subtree_eq]
    exact List.mem_cons_of_mem _ hy
  rw [hwf.subtree_eq, List.pairwise_cons]
  refine ⟨hinside, List.pairwise_flatMap.mpr ⟨?_, ?_⟩⟩
  · intro c hc
    exact ih c hc (hwf.lt_size_of_mem hc)
  · refine (h.siblings x hx).imp_of_mem ?_
    intro c d hc hd hcd a ha b hb
    have hcsize := hwf.lt_size_of_mem hc
    have hastop := (h.inside_of_mem_subtree hwf hcsize ha).2
    have hbstart := (h.inside_of_mem_subtree hwf (hwf.lt_size_of_mem hd) hb).1
    have haspan := h.forward a (hwf.lt_size_of_mem_subtree hcsize ha)
    exact Position.not_before_trans haspan
      (Position.not_before_trans hastop (Position.not_before_trans hcd hbstart))

/-- **A node that does not come after another does not start after it.** -/
lemma start_of_notAfter (h : t.SourceOrdered) (hwf : t.WellFormed) (hab : t.NotAfter a b) :
    (t.node b).start.before (t.node a).start = false := by
  obtain ⟨ha, hb, hle⟩ := hab
  rcases Nat.eq_zero_or_pos t.size with hzero | hpos
  · rw [preorder, root?, if_pos (Array.isEmpty_iff_size_eq_zero.mpr hzero)] at ha
    exact absurd ha List.not_mem_nil
  · rcases Nat.lt_or_eq_of_le hle with hlt | heq
    · have hpair := h.pairwise_subtree hwf hpos
      rw [← hwf.preorder_eq hpos] at hpair
      exact List.pairwise_iff_forall_sublist.mp hpair (sublist_of_idxOf_lt hb hlt)
    · rw [(List.idxOf_inj ha).mp heq]
      exact Position.before_irrefl _

end SourceOrdered

end SyntaxTree

end Marginalia
