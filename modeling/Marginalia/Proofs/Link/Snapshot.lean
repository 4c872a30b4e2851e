import Marginalia.Proofs.Link.Conservation
import Marginalia.Proofs.Link.Itinerary

/-!
# A pass over a list made beforehand

A pass looks up the children of a node only after it has visited the node, in a tree that it changes
on its way: a group that floats puts a placeholder into a list of children, of the parent of the
visited node or of a node further up.  All these lists were looked up before, and the ones still to
be looked up are those of the source.  So the pass could as well have made a list of all nodes at
the start and gone through that.

## Main definitions

* `Move.visited?`, `Pass.visits` — the nodes visited so far.
* `Pass.leftBy` — the state that an operation leaves behind.
* `Pass.tour` — visits the nodes of a list until all comments are read.

## Main results

* `Pass.Reached.visits_eq` — what was visited, as the trace has it.
* `Pass.Reached.walk_eq_tour` — from any state between visits the walk is a tour.
* `linkComments_walks_snapshot` — a pass visits the nodes as they were listed before it.
-/

namespace Marginalia

open scoped List

/-- The node that a step visits. -/
def Move.visited? : Move → Option NodeId
  | .visit id => some id
  | .resolve .. | .link .. | .float .. | .trail _ => none

namespace Pass

/-- The nodes visited so far, in the order of the visits. -/
def visits (p : Pass) : List NodeId := p.trace.toList.filterMap Move.visited?

/-- The state that an operation leaves behind, whether it succeeds or fails. -/
def leftBy (operation : Linking Unit) (p : Pass) : Pass :=
  match operation p with
  | .ok _ q | .error _ q => q

/-- Visits the nodes of a list, one after the other, until all comments are read. -/
def tour (settings : LinkSettings) : List NodeId → Linking Unit
  | [] => return ()
  | id :: rest => do
    if (← get).stream.isDone then return ()
    else
      visit settings id
      tour settings rest

/-! ## The visits in a trace -/

section Visits

variable {settings : LinkSettings} {tree : SyntaxTree} {comments : List Comment} {p q : Pass}
  {x parent : NodeId} {line : Int} {moved : Bool} {move : Move} {visited stack : List NodeId}

/-- Noting a visit adds its node to those visited. -/
lemma visits_noted (p : Pass) (x : NodeId) : (p.noted (.visit x)).visits = p.visits ++ [x] := by
  simp [visits, Move.visited?]

/-- Other steps than visits leave the visits as they are. -/
lemma visits_of_push (htrace : q.trace = p.trace.push move) (hmove : move.visited? = none) :
    q.visits = p.visits := by
  simp [visits, htrace, hmove]

/-- Moving on behind a flush visits no node. -/
lemma visits_movedOn (moved : Bool) (p : Pass) : (p.movedOn moved).visits = p.visits := by
  cases moved with
  | true => rfl
  | false => rfl

/-- Reading on visits no node. -/
lemma Rounds.visits_eq (h : Rounds settings x line p q) : q.visits = p.visits := by
  induction h with
  | refl => rfl
  | tail _ hround ih =>
    cases hround with
    | join => exact ih
    | float current following above apart gap flush =>
      exact (visits_of_push (flushed_of_float flush).trace_eq rfl).trans ih

/-- However a visit ends, it visits no other node. -/
lemma Ending.visits_eq (h : Ending settings x parent line moved p q) : q.visits = p.visits := by
  cases h with
  | wait => rfl
  | behind => rfl
  | leave => rfl
  | defer current level argument asked =>
    obtain ⟨c, after, -, -, rfl⟩ := exists_of_resolve asked
    exact visits_of_push rfl rfl
  | argue current level argument asked flush =>
    obtain ⟨c, after, -, -, rfl⟩ := exists_of_resolve asked
    rw [visits_movedOn, visits_of_push (flushed_of_link flush).trace_eq rfl]
    exact visits_of_push rfl rfl
  | link current near touches flush =>
    rw [visits_movedOn, visits_of_push (flushed_of_link flush).trace_eq rfl]
  | float current last above unmoved flush =>
    exact visits_of_push (flushed_of_float flush).trace_eq rfl

/-- **The trace tells which nodes were visited**, and in which order. -/
lemma Reached.visits_eq (h : Reached settings tree comments p visited stack) (hb : tree.Built)
    (hsize : 0 < tree.size) : p.visits = visited.reverse := by
  induction h with
  | start => rfl
  | @visit p q x visited rest reached unread visits ih =>
    have hnoted : (p.noted (.visit x)).visits = (x :: visited).reverse := by
      rw [visits_noted, ih, List.reverse_cons]
    rcases (reached.underway hb hsize).exists_ending unread visits with
      ⟨-, rfl⟩ | ⟨parent, r, -, -, -, hrounds, hending⟩
    · exact hnoted
    · exact (hending.visits_eq.trans (Rounds.visits_eq hrounds)).trans hnoted

/-- No node is visited after the walk. -/
lemma Ends.visits_eq (h : Ends settings p q) : q.visits = p.visits :=
  h.keeps (motive := fun r => r.visits = p.visits) rfl (fun hr _ _ _ => hr)
    fun hr _ _ flush => (visits_of_push (flushed_of_trail flush).trace_eq rfl).trans hr

end Visits

/-! ## The walk as a tour -/

section Tour

variable {settings : LinkSettings} {tree : SyntaxTree} {comments : List Comment} {p q : Pass}
  {x : NodeId} {visited stack rest : List NodeId}

/-- A visit on a walk succeeds, and its node has the same children afterwards as in the source. -/
lemma Reached.exists_visit (h : Reached settings tree comments p visited (x :: rest))
    (hb : tree.Built) (hsize : 0 < tree.size) (hu : p.Unread) :
    ∃ q, Pass.visit settings x p = .ok () q ∧ q.tree.children x = tree.children x := by
  have hunder := h.underway hb hsize
  obtain ⟨_, q, hvisit, hsteps⟩ := achieves_visit hunder.sound hu hunder.frontier
  exact ⟨q, hvisit, (hunder.steps hsteps).children_eq⟩

/-- **From any state between visits the walk is a tour** through the subtrees on the stack, as they
are in the source, if the walk may take a step for each of their nodes.

**Proof sketch.** Induction on the number of steps.  The walk replaces the node on top of the stack
by its children, looked up after the visit, and these are the roots of what the subtree in the
source has below the node. -/
lemma Reached.walk_eq_tour (hb : tree.Built) (hsize : 0 < tree.size) :
    ∀ (steps : Nat) {p : Pass} {visited stack : List NodeId},
      Reached settings tree comments p visited stack →
      (stack.flatMap tree.subtree).length ≤ steps →
      walk settings steps stack p = tour settings (stack.flatMap tree.subtree) p := by
  obtain ⟨hwf, -, -⟩ := hb.wellFormed_and_plain
  intro steps
  induction steps with
  | zero =>
    intro p visited stack h hsteps
    have hnone : stack.flatMap tree.subtree = [] := List.length_eq_zero_iff.mp (by omega)
    rw [hnone]
    rfl
  | succ steps ih =>
    intro p visited stack h hsteps
    cases stack with
    | nil => rfl
    | cons x rest =>
      have hlist : (x :: rest).flatMap tree.subtree =
          x :: (tree.children x ++ rest).flatMap tree.subtree := by
        rw [List.flatMap_cons, hwf.subtree_eq x, List.flatMap_append]
        rfl
      rw [hlist, List.length_cons] at hsteps
      rw [hlist]
      unfold walk tour
      rw [get_bind_apply, get_bind_apply]
      by_cases hdone : p.stream.isDone = true
      · rw [if_pos hdone, if_pos hdone]
      · rw [if_neg hdone, if_neg hdone]
        have hu : p.Unread := by simpa [CommentStream.isDone, Unread] using hdone
        obtain ⟨q, hvisit, hchildren⟩ := h.exists_visit hb hsize hu
        show EStateM.bind (Pass.visit settings x) _ p = EStateM.bind (Pass.visit settings x) _ p
        rw [EStateM.bind, EStateM.bind, hvisit]
        have hnext := Reached.visit h hu hvisit
        rw [hchildren] at hnext
        show walk settings steps (q.tree.children x ++ rest) q = _
        rw [hchildren]
        exact ih hnext (by omega)

/-- The walk from the root is a tour through the whole source. -/
lemma walk_root_eq_tour (hb : tree.Built) (settings : LinkSettings) (comments : List Comment) :
    walk settings tree.size tree.root?.toList (start tree ⟨comments, 0⟩) =
      tour settings (tree.root?.toList.flatMap tree.subtree) (start tree ⟨comments, 0⟩) := by
  obtain ⟨hwf, -, -⟩ := hb.wellFormed_and_plain
  rcases Nat.eq_zero_or_pos tree.size with hzero | hpos
  · have hnone : tree.root? = none := by simpa [SyntaxTree.root?, SyntaxTree.size] using hzero
    rw [hzero, hnone]
    rfl
  · rw [SyntaxTree.root?_of_pos hpos]
    refine Reached.start.walk_eq_tour hb hpos tree.size ?_
    rw [List.flatMap_singleton, hwf.length_subtree_root hpos]

/-- The nodes that a pass has visited are the first ones of the source. -/
lemma visits_of_run (hb : tree.Built) (hne : comments ≠ []) (hsize : 0 < tree.size)
    (h : run settings (start tree ⟨comments, 0⟩) = .ok () p) : p.visits <+: tree.subtree 0 := by
  obtain ⟨hwf, -, -⟩ := hb.wellFormed_and_plain
  obtain ⟨q, visited, stack, final, hreached, -, hends, journal, rfl⟩ :=
    exists_reached_of_run hb hne hsize h
  have hvisits : final.visits = visited.reverse :=
    hends.visits_eq.trans (hreached.visits_eq hb hsize)
  rw [← hwf.preorder_eq hsize, hreached.itinerary hb hsize, ← hvisits]
  exact List.prefix_append ..

/-- An operation that succeeds leaves its final state behind. -/
lemma leftBy_of_ok {operation : Linking Unit} (h : operation p = .ok () q) :
    leftBy operation p = q := by
  rw [leftBy, h]

/-- What a pass leaves behind: either it visited no node, or it succeeded at a tree with a root. -/
lemma leftBy_run_cases (hb : tree.Built) (settings : LinkSettings)
    (horder : CommentStream.checkOrder comments = .ok ()) :
    (leftBy (run settings) (start tree ⟨comments, 0⟩)).visits = [] ∨
      0 < tree.size ∧ (leftBy (run settings) (start tree ⟨comments, 0⟩)).visits <+: tree.subtree 0 ∧
        SyntaxTree.Framed tree (leftBy (run settings) (start tree ⟨comments, 0⟩)).tree := by
  obtain ⟨hwf, hplain, -⟩ := hb.wellFormed_and_plain
  by_cases hnil : comments = []
  · subst hnil
    rw [leftBy_of_ok (run_start_nil settings tree)]
    exact .inl rfl
  · rcases Nat.eq_zero_or_pos tree.size with hzero | hpos
    · have hroot : tree.root? = none := by simpa [SyntaxTree.root?, SyntaxTree.size] using hzero
      rw [leftBy, run_of_rootless settings hnil hroot]
      exact .inl rfl
    · obtain ⟨p, q, hrun, hruns, -, -, ⟨journal, hp⟩, -⟩ :=
        exists_runs_of_linkComments settings hb horder (.inr hpos)
      have hframed := hruns.framed (sound_start hwf hplain _) hb.framed
      rw [leftBy_of_ok hrun]
      refine .inr ⟨hpos, visits_of_run hb hnil hpos hrun, ?_⟩
      rw [hp]
      exact hframed

end Tour

end Pass

/-! ## Whole passes -/

/-- **A pass visits the nodes as they were listed before it.**  The walk over the tree, into which
it puts placeholders meanwhile, does the same as a tour through the list of all nodes, each before
what is below it, that was made at the start.  The nodes that the whole pass visits, whether it
succeeds or fails, are the first ones of this list; so none is left out or visited twice, and none
is a placeholder. -/
theorem linkComments_walks_snapshot (settings : LinkSettings) {tree : SyntaxTree} (hb : tree.Built)
    {comments : List Comment} {stream : CommentStream}
    (hstream : CommentStream.ofComments comments = .ok stream) :
    (∀ id, tree.subtree id = id :: (tree.children id).flatMap tree.subtree) ∧
      Pass.walk settings tree.size tree.root?.toList (Pass.start tree stream) =
        Pass.tour settings (tree.root?.toList.flatMap tree.subtree) (Pass.start tree stream) ∧
      ∃ p, Pass.leftBy (Pass.run settings) (Pass.start tree stream) = p ∧
        p.visits <+: tree.root?.toList.flatMap tree.subtree ∧ p.visits.Nodup ∧
        ∀ id ∈ p.visits, id < tree.size ∧ (p.tree.node id).placeholder = false := by
  obtain rfl := CommentStream.eq_of_ofComments hstream
  have horder := CommentStream.checkOrder_of_ofComments hstream
  obtain ⟨hwf, -, -⟩ := hb.wellFormed_and_plain
  refine ⟨hwf.subtree_eq, Pass.walk_root_eq_tour hb settings comments, _, rfl, ?_⟩
  rcases Pass.leftBy_run_cases hb settings horder with hnone | ⟨hpos, hstart, hframed⟩
  · rw [hnone]
    exact ⟨List.nil_prefix, List.nodup_nil, fun id hid => absurd hid List.not_mem_nil⟩
  · rw [SyntaxTree.root?_of_pos hpos, Option.toList_some, List.flatMap_singleton]
    refine ⟨hstart, (hwf.nodup_subtree 0).sublist hstart.sublist, fun id hid => ?_⟩
    have hlt : id < tree.size := hwf.lt_size_of_mem_subtree hpos (hstart.subset hid)
    refine ⟨hlt, ?_⟩
    -- a placeholder would have a number that no node of the source has
    rw [← Bool.not_eq_true]
    exact fun hplaceholder => Nat.not_le.mpr hlt (hframed.fresh id hplaceholder)

/-- Three statements, on the lines 3, 6 and 9. -/
def SyntaxTree.spread : SyntaxTree :=
  let root : Node :=
    { kind := "program", start := ⟨1, 0⟩, stop := ⟨9, 2⟩, field := none, accepts := true,
      tolerates := true, placeholder := false, parent := none, children := [], index := none }
  let t := (empty .standard []).push root
  let t := (t.addChild 0 ⟨"expression_statement", ⟨3, 0⟩, ⟨3, 2⟩, none⟩).2
  let t := (t.addChild 0 ⟨"expression_statement", ⟨6, 0⟩, ⟨6, 2⟩, none⟩).2
  (t.addChild 0 ⟨"expression_statement", ⟨9, 0⟩, ⟨9, 2⟩, none⟩).2

/-- The tree with three statements is built. -/
lemma SyntaxTree.built_spread : spread.Built :=
  have hroot := @Built.addRoot _ _ ⟨"program", ⟨1, 0⟩, ⟨9, 2⟩, none⟩ 0 (.empty .standard []) rfl
  .addChild _ (.addChild _ (.addChild _ hroot (by decide)) (by decide)) (by decide)

/-- A comment that floats before the first statement, and one on the second. -/
def spreadComments : List Comment :=
  [⟨.line, ⟨1, 0⟩, ⟨1, 4⟩, "// a"⟩, ⟨.line, ⟨5, 0⟩, ⟨5, 4⟩, "// b"⟩]

/-- While the statements below the root are visited, a placeholder is put before the first of them.
It is not visited, and the third statement is not either, as all comments are read before. -/
theorem linkComments_walks_snapshot_spread :
    SyntaxTree.spread.Built ∧
      CommentStream.ofComments spreadComments = .ok ⟨spreadComments, 0⟩ ∧
      SyntaxTree.spread.root?.toList.flatMap SyntaxTree.spread.subtree = [0, 1, 2, 3] ∧
      ∃ p, Pass.leftBy (Pass.run .standard) (Pass.start SyntaxTree.spread ⟨spreadComments, 0⟩) = p ∧
        p.tree.children 0 = [4, 1, 2, 3] ∧ p.visits = [0, 1, 2] ∧
        ∀ id ∈ p.visits, (p.tree.node id).placeholder = false := by
  have hstream : CommentStream.ofComments spreadComments = .ok ⟨spreadComments, 0⟩ := rfl
  obtain ⟨-, -, p, hp, -, -, hgenuine⟩ :=
    linkComments_walks_snapshot .standard SyntaxTree.built_spread hstream
  refine ⟨SyntaxTree.built_spread, hstream, by decide +kernel, p, hp, ?_, ?_,
    fun id hid => (hgenuine id hid).2⟩
  · rw [← hp]
    decide +kernel
  · rw [← hp]
    decide +kernel

end Marginalia
