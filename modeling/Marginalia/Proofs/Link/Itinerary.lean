import Marginalia.Proofs.Link.Course
import Marginalia.Proofs.Syntax.Preorder

/-!
# The nodes that a pass visits

A pass reads the children of a node from the tree as it is after the visit, when placeholders may
have been put into it.  None of them is ever below a node that is still to come, so the nodes are
visited in the order of the tree before the pass.

## Main results

* `Pass.Underway.children_eq` — the children read after a visit are those of the source.
* `Pass.Reached.itinerary` — the nodes visited and the subtrees on the stack are the whole source.
* `Pass.Reached.notAfter_of_mem`, `Pass.Reached.notAfter_of_not_mem` — the visited nodes come first.
* `Pass.Runs.preorder_sublist` — placeholders do not change the order of the nodes of the source.
-/

namespace Marginalia

open scoped List

/-- The genuine children of a genuine node are its children in the source. -/
lemma SyntaxTree.Framed.children_eq {source t : SyntaxTree} (h : Framed source t) {id : NodeId}
    (hid : id < t.size) (hgenuine : (t.node id).placeholder = false) :
    source.children id = t.genuineChildren id := by
  have hlt := (h.core_eq hid hgenuine).1
  have hpruned := h.pruned?_eq id
  rw [pruned?, if_pos ⟨hid, by rw [genuine, hgenuine]; rfl⟩, node?_of_lt hlt] at hpruned
  have hchildren := congrArg Node.children (Option.some.inj hpruned)
  exact hchildren.symm

namespace Pass

/-- **Placeholders do not change the order of the other nodes.** -/
lemma Runs.preorder_sublist {markers : List Marker} {p q : Pass} (h : Runs markers p q)
    (hp : p.Sound) : p.tree.preorder <+ q.tree.preorder := by
  induction h with
  | refl => exact List.Sublist.refl _
  | tail hpq hs ih =>
    have hwf := (Runs.sound hpq hp).wellFormed
    obtain ⟨visited, hs⟩ := hs
    cases hs with
    | note => exact ih
    | advance => exact ih
    | flush move flushed flush =>
      cases flush with
      | dissolve => exact ih
      | deliver => exact ih
      | insert journal text visiting onWay tolerates count graft =>
        exact ih.trans (graft.preorder_sublist hwf)
      | append journal text ended count graft => exact ih.trans (graft.preorder_sublist hwf)

section

variable {settings : LinkSettings} {tree : SyntaxTree} {comments : List Comment} {p q : Pass}
  {x parent : NodeId} {visited stack rest : List NodeId}

/-- **The children read after a visit are those of the source.** -/
lemma Underway.children_eq (h : Underway settings tree comments visited (x :: rest) p) :
    p.tree.children x = tree.children x := by
  have htop := List.mem_cons_self (a := x) (l := rest)
  rw [h.framed.children_eq (h.frontier.stack_lt htop) (h.frontier.genuine htop),
    SyntaxTree.genuineChildren, List.filter_eq_self.mpr]
  intro c hc
  rw [SyntaxTree.genuine, h.frontier.untouched (h.frontier.ahead htop) hc]
  rfl

/-- The node behind the visited one among its siblings is the same as in the source. -/
lemma Underway.nextSibling_eq (h : Underway settings tree comments visited (x :: rest) p)
    (hwf : tree.WellFormed) (hparent : p.tree.parent? x = some parent) :
    p.tree.nextSibling x = tree.nextSibling x ∧
      ∀ y, p.tree.nextSibling x = .ok (some y) → y ∈ x :: rest := by
  have htop := List.mem_cons_self (a := x) (l := rest)
  obtain ⟨done, todo, hchildren, hpart, -⟩ :=
    h.frontier.split_top h.sound.wellFormed hparent
  have hstack : ∀ y ∈ todo, y ∈ x :: rest := fun y hy =>
    List.mem_cons_of_mem _ (hpart.subset hy)
  have hgenuine : ∀ y ∈ x :: rest, p.tree.genuine y = true := by
    intro y hy
    rw [SyntaxTree.genuine, h.frontier.genuine hy]
    rfl
  have hsource : tree.children parent = done.filter p.tree.genuine ++ x :: todo := by
    rw [h.framed.children_eq (h.sound.wellFormed.parent_lt_size hparent)
      (h.genuine_parent hparent), SyntaxTree.genuineChildren, hchildren, List.filter_append,
      List.filter_cons_of_pos (hgenuine x htop),
      List.filter_eq_self.mpr fun y hy => hgenuine y (hstack y hy)]
  have hp := h.sound.wellFormed.nextSibling_eq hparent hchildren
  have htree := hwf.nextSibling_eq ((h.parent?_eq htop).symm.trans hparent) hsource
  refine ⟨hp.trans htree.symm, fun y hy => hstack y ?_⟩
  exact List.mem_of_mem_head? (Except.ok.inj (hp.symm.trans hy))

/-- **The nodes visited and the subtrees on the stack are, in this order, the whole source.** -/
lemma Reached.itinerary (h : Reached settings tree comments p visited stack) (hb : tree.Built)
    (hsize : 0 < tree.size) : tree.preorder = visited.reverse ++ stack.flatMap tree.subtree := by
  obtain ⟨hwf, -, -⟩ := hb.wellFormed_and_plain
  induction h with
  | start => rw [hwf.preorder_eq hsize, List.flatMap_singleton, List.reverse_nil, List.nil_append]
  | @visit p q x visited rest reached unread visits ih =>
    have hu := reached.underway hb hsize
    have hq := hu.steps ((achieves_visit hu.sound unread hu.frontier).of_eq_ok visits)
    rw [ih, hq.children_eq, List.flatMap_cons, hwf.subtree_eq x, List.reverse_cons,
      List.flatMap_append, List.append_assoc]
    rfl

/-- The walk of the source, split at the node that is visited. -/
lemma Reached.preorder_split (h : Reached settings tree comments p visited (x :: rest))
    (hb : tree.Built) (hsize : 0 < tree.size) :
    ∃ after, tree.preorder = visited.reverse ++ x :: after := by
  rw [h.itinerary hb hsize, List.flatMap_cons, (hb.wellFormed_and_plain).1.subtree_eq x]
  exact ⟨_, rfl⟩

/-- **Visited nodes do not come after the node that is visited.** -/
lemma Reached.notAfter_of_mem (h : Reached settings tree comments p visited (x :: rest))
    (hb : tree.Built) (hsize : 0 < tree.size) {y : NodeId} (hy : y ∈ x :: visited) :
    tree.NotAfter y x := by
  obtain ⟨hwf, -, -⟩ := hb.wellFormed_and_plain
  obtain ⟨after, hsplit⟩ := h.preorder_split hb hsize
  rcases List.mem_cons.mp hy with rfl | hy
  · have hmem : y ∈ tree.preorder := by
      rw [hsplit]
      exact List.mem_append_right _ (List.mem_cons_self ..)
    exact ⟨hmem, hmem, Nat.le_refl _⟩
  · refine hwf.notAfter_of_sublist ?_
    rw [hsplit]
    show [y] ++ [x] <+ _
    refine List.Sublist.append ?_ ?_
    · exact List.singleton_sublist.mpr (List.mem_reverse.mpr hy)
    · exact List.singleton_sublist.mpr (List.mem_cons_self ..)

/-- **The node that is visited does not come after those that are still to come.** -/
lemma Reached.notAfter_of_not_mem (h : Reached settings tree comments p visited (x :: rest))
    (hb : tree.Built) (hsize : 0 < tree.size) {n : NodeId} (hn : n < tree.size)
    (hnew : n ∉ visited) : tree.NotAfter x n := by
  obtain ⟨hwf, -, -⟩ := hb.wellFormed_and_plain
  obtain ⟨after, hsplit⟩ := h.preorder_split hb hsize
  have hmem := hwf.mem_preorder hn
  have hnodup := hwf.nodup_preorder
  rw [hsplit] at hmem hnodup
  have hlater : n ∈ x :: after := by
    rcases List.mem_append.mp hmem with hv | hl
    · exact absurd (List.mem_reverse.mp hv) hnew
    · exact hl
  rw [SyntaxTree.NotAfter, hsplit]
  exact ⟨List.mem_append_right _ (List.mem_cons_self ..), hmem, idxOf_le_of_mem_cons hnodup hlater⟩

/-- Once no node is left, or as many were visited as there are, all were visited. -/
lemma Reached.mem_visited (h : Reached settings tree comments p visited stack) (hb : tree.Built)
    (hsize : 0 < tree.size) (hend : stack = [] ∨ visited.length = tree.size) {n : NodeId}
    (hn : n < tree.size) : n ∈ visited := by
  obtain ⟨hwf, -, -⟩ := hb.wellFormed_and_plain
  have hsplit := h.itinerary hb hsize
  have hmem := hwf.mem_preorder hn
  have hrest : stack.flatMap tree.subtree = [] := by
    rcases hend with rfl | hlength
    · rfl
    · have htotal := hwf.length_subtree_root hsize
      rw [← hwf.preorder_eq hsize, hsplit, List.length_append, List.length_reverse,
        hlength] at htotal
      exact List.length_eq_zero_iff.mp (Nat.add_left_cancel (htotal.trans (Nat.add_zero _).symm))
  rw [hsplit, hrest, List.append_nil] at hmem
  exact List.mem_reverse.mp hmem

end

end Pass

end Marginalia
