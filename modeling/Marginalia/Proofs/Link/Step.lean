import Marginalia.Link.Pass
import Marginalia.Proofs.Link.Placing
import Mathlib.Logic.Relation

/-!
# The steps of a pass

A pass consists of three kinds of steps: it notes something in its trace, it moves on to the next
comment, or it flushes the group under way.  Everything that holds of each step holds of the whole
pass, so the properties of a pass are proved step by step.

A step that moves past the last comment is taken only when no group is under way.  This is why no
comment is lost.

## Main definitions

* `Pass.Step` — a step of a pass.
* `Pass.Sound` — what the tree and the map of a pass satisfy all along.

## Main results

* `Pass.Step.sound` — steps keep a pass sound.
* `Pass.achieves_link`, `Pass.achieves_float`, `Pass.achieves_trail` — the flushes of a sound pass
  succeed and are steps.
-/

namespace Marginalia

namespace Pass

/-! ## Steps -/

/-- The state after moving on by one comment. -/
def advanced (p : Pass) : Pass :=
  { p with
    stream := { p.stream with cursor := p.stream.cursor + 1 }
    group := p.group ++ p.stream.comments[p.stream.cursor + 1]?.toList }

/-- A step of a pass while the node `visited` is visited; at the end of the source none is. -/
inductive Step (markers : List Marker) (visited : Option NodeId) (p : Pass) : Pass → Prop
  /-- Something is noted that places no group. -/
  | note (move : Move) (journal : Journal) (silent : move.group? = none) :
    Step markers visited p { p with trace := p.trace.push move, journal := journal }
  /-- The group under way is flushed. -/
  | flush (move : Move) {q : Placement} (flushed : move.group? = some p.group)
    (flush : Placement.Flush markers visited p.toPlacement q) :
    Step markers visited p { p with toPlacement := q, trace := p.trace.push move }
  /-- The next comment joins the group under way, or there is neither a comment nor a group. -/
  | advance (unread : p.stream.cursor < p.stream.comments.length)
    (kept : p.stream.hasRemaining = true ∨ p.group = []) : Step markers visited p p.advanced

/-- Any number of steps. -/
abbrev Steps (markers : List Marker) (visited : Option NodeId) : Pass → Pass → Prop :=
  Relation.ReflTransGen (Step markers visited)

/-- What the tree and the map of a pass satisfy all along. -/
structure Sound (p : Pass) : Prop where
  wellFormed : p.tree.WellFormed
  root_genuine : (p.tree.node 0).placeholder = false
  /-- Placeholders have no children. -/
  leaf : ∀ {id : NodeId}, (p.tree.node id).placeholder = true → p.tree.children id = []
  unfrozen : p.map.frozen = false

section

variable {markers : List Marker} {visited : Option NodeId} {p q : Pass}

/-- A graft of a placeholder below a genuine node keeps placeholders without children. -/
lemma leaf_of_graft {t t' : SyntaxTree} {parent : NodeId} {left right : List NodeId} {fresh : Node}
    (g : t.Graft t' parent left right fresh)
    (leaf : ∀ {id : NodeId}, (t.node id).placeholder = true → t.children id = [])
    (genuine : (t.node parent).placeholder = false) {id : NodeId}
    (hid : (t'.node id).placeholder = true) : t'.children id = [] := by
  by_cases hfresh : id = t.size
  · rw [hfresh]
    exact g.children_fresh
  · rw [g.placeholder_eq hfresh] at hid
    have hne : id ≠ parent := by
      rintro rfl
      rw [genuine] at hid
      exact Bool.noConfusion hid
    rw [g.children_eq hne hfresh]
    exact leaf hid

/-- **Steps keep a pass sound.** -/
lemma Step.sound (h : Step markers visited p q) (hp : p.Sound) : q.Sound := by
  cases h with
  | note => exact ⟨hp.wellFormed, hp.root_genuine, hp.leaf, hp.unfrozen⟩
  | advance => exact ⟨hp.wellFormed, hp.root_genuine, hp.leaf, hp.unfrozen⟩
  | flush move flushed flush =>
    cases flush with
    | dissolve => exact ⟨hp.wellFormed, hp.root_genuine, hp.leaf, hp.unfrozen⟩
    | deliver => exact ⟨hp.wellFormed, hp.root_genuine, hp.leaf, hp.unfrozen⟩
    | insert journal text visiting onWay tolerates count graft =>
      have hpos := Nat.lt_of_le_of_lt (Nat.zero_le _) graft.parent_lt
      refine ⟨graft.wellFormed hp.wellFormed, ?_, ?_, hp.unfrozen⟩
      · exact (graft.placeholder_eq (Nat.ne_of_lt hpos)).trans hp.root_genuine
      · intro id hid
        refine leaf_of_graft graft hp.leaf ?_ hid
        -- the parent has a child, so it is no placeholder
        rw [← Bool.not_eq_true]
        intro hparent
        have hnil := hp.leaf hparent
        rw [graft.children_before] at hnil
        simp at hnil
    | append journal text ended count graft =>
      refine ⟨graft.wellFormed hp.wellFormed, ?_, ?_, hp.unfrozen⟩
      · exact (graft.placeholder_eq (Nat.ne_of_lt graft.parent_lt)).trans hp.root_genuine
      · intro id hid
        exact leaf_of_graft graft hp.leaf hp.root_genuine hid

/-- Steps keep a pass sound. -/
lemma Steps.sound (h : Steps markers visited p q) (hp : p.Sound) : q.Sound := by
  induction h with
  | refl => exact hp
  | tail _ hs ih => exact hs.sound ih

/-- Trees only grow. -/
lemma Step.size_le (h : Step markers visited p q) : p.tree.size ≤ q.tree.size := by
  cases h with
  | note => exact Nat.le_refl _
  | advance => exact Nat.le_refl _
  | flush move flushed flush =>
    cases flush with
    | dissolve => exact Nat.le_refl _
    | deliver => exact Nat.le_refl _
    | insert journal text visiting onWay tolerates count graft =>
      exact Nat.le_of_lt (graft.size_eq ▸ Nat.lt_succ_self _)
    | append journal text ended count graft =>
      exact Nat.le_of_lt (graft.size_eq ▸ Nat.lt_succ_self _)

/-- The comments of a pass stay the same, and the cursor never leaves them by more than one. -/
lemma Step.stream (h : Step markers visited p q) :
    q.stream.comments = p.stream.comments ∧
      (p.stream.cursor ≤ p.stream.comments.length →
        q.stream.cursor ≤ q.stream.comments.length) := by
  cases h with
  | note => exact ⟨rfl, id⟩
  | flush => exact ⟨rfl, id⟩
  | advance unread kept => exact ⟨rfl, fun _ => unread⟩

/-- Steps remove no node. -/
lemma Steps.size_le (h : Steps markers visited p q) : p.tree.size ≤ q.tree.size := by
  induction h with
  | refl => exact Nat.le_refl _
  | tail _ hs ih => exact Nat.le_trans ih hs.size_le

/-- A step changes only the places of older nodes. -/
lemma Step.core_eq (h : Step markers visited p q) {id : NodeId} (hid : id < p.tree.size) :
    (q.tree.node id).core = (p.tree.node id).core := by
  cases h with
  | note => rfl
  | advance => rfl
  | flush move flushed flush =>
    cases flush with
    | dissolve => rfl
    | deliver => rfl
    | insert journal text visiting onWay tolerates count graft =>
      exact graft.core_eq (Nat.ne_of_lt hid)
    | append journal text ended count graft => exact graft.core_eq (Nat.ne_of_lt hid)

/-- Steps keep the parents of the nodes that are there. -/
lemma Steps.parent?_eq (h : Steps markers visited p q) {id : NodeId} (hid : id < p.tree.size) :
    q.tree.parent? id = p.tree.parent? id := by
  induction h with
  | refl => rfl
  | tail hs hstep ih =>
    have hc := congrArg Node.parent (hstep.core_eq (Nat.lt_of_lt_of_le hid (Steps.size_le hs)))
    exact Eq.trans hc ih

end

/-! ## The parts of the operations -/

section Operations

variable {settings : LinkSettings} {visited : Option NodeId} {p : Pass} {id : NodeId}

/-- An operation of placing achieves in a pass what it achieves on its own. -/
lemma achieves_place {α : Type} {operation : Placing α} {post : α → Placement → Prop}
    (h : Achieves operation p.toPlacement post) :
    Achieves (place operation) p fun a q =>
      ∃ placement, post a placement ∧ q = { p with toPlacement := placement } := by
  obtain ⟨a, placement, he, hpost⟩ := h
  refine ⟨a, { p with toPlacement := placement }, ?_, placement, hpost, rfl⟩
  simp only [place, he]

/-- A question that has an answer is answered, and the state is kept. -/
lemma achieves_ask {α : Type} {question : CommentStream → Except LinkError α} {a : α}
    (h : question p.stream = .ok a) : Achieves (ask question) p fun b q => b = a ∧ q = p := by
  refine Achieves.get_bind ?_
  rw [h]
  exact .pure ⟨rfl, rfl⟩

/-- Moving on by one comment succeeds. -/
lemma achieves_advance : Achieves advance p fun _ q => q = p.advanced := ⟨_, _, rfl, rfl⟩

/-- A step can be recorded. -/
lemma achieves_record (move : Move) :
    Achieves (record move) p fun _ q => q = { p with trace := p.trace.push move } :=
  ⟨_, _, rfl, rfl⟩

/-- Nodes above a genuine node are genuine, as they have children. -/
lemma Sound.genuine_upward (hp : p.Sound) (hid : id < p.tree.size)
    (hgenuine : (p.tree.node id).placeholder = false) :
    ∀ a ∈ p.tree.upward id, (p.tree.node a).placeholder = false := by
  revert hgenuine
  refine hp.wellFormed.upward_induction (motive := fun id =>
    (p.tree.node id).placeholder = false →
      ∀ a ∈ p.tree.upward id, (p.tree.node a).placeholder = false) ?_ ?_ id hid
  · intro hpos h0 a ha
    rw [SyntaxTree.upward_of_orphan ((hp.wellFormed.orphan hpos).mpr rfl)] at ha
    rw [List.mem_singleton.mp ha]
    exact h0
  · intro id parent hparent ih hgenuine a ha
    rw [SyntaxTree.upward_of_parent? hp.wellFormed hparent] at ha
    rcases List.mem_cons.mp ha with rfl | ha
    · exact hgenuine
    · refine ih ?_ a ha
      rw [← Bool.not_eq_true]
      intro hpl
      have hmem := hp.wellFormed.mem_children hparent
      rw [hp.leaf hpl] at hmem
      simp at hmem

/-- A flush inside a pass, and the note of it in the trace. -/
lemma achieves_flush {α : Type} {operation : Placing α} {move : Move}
    (hmove : move.group? = some p.group)
    (h : Achieves operation p.toPlacement fun _ q =>
      Placement.Flush settings.markers visited p.toPlacement q) :
    Achieves (do record move; let _ ← place operation) p fun _ q =>
      Step settings.markers visited p q ∧ q.group = [] ∧ q.stream = p.stream := by
  refine (achieves_record move).bind ?_
  rintro _ _ rfl
  refine Achieves.bind (achieves_place h) ?_
  rintro _ _ ⟨placement, hflush, rfl⟩
  exact .pure ⟨.flush move hmove hflush, hflush.group_eq, rfl⟩

/-- **Placing the group under way on a node succeeds.** -/
lemma achieves_link (visited : Option NodeId) (hp : p.Sound) (hid : id < p.tree.size)
    (hgenuine : (p.tree.node id).placeholder = false) :
    Achieves (link settings id) p fun _ q =>
      Step settings.markers visited p q ∧ q.group = [] ∧ q.stream = p.stream := by
  obtain ⟨target, hway, hd, haccepts⟩ := hp.wellFormed.exists_destination hid
  refine Achieves.get_bind (achieves_flush rfl ?_)
  exact Placement.achieves_linkGroup visited hd hp.unfrozen
    (hp.wellFormed.lt_size_of_mem_upward hid hway) haccepts
    (hp.genuine_upward hid hgenuine target hway)

/-- **Placing the group under way before a node succeeds.** -/
lemma achieves_float (hp : p.Sound) (hid : id < p.tree.size)
    (hgenuine : (p.tree.node id).placeholder = false) :
    Achieves (float settings id) p fun _ q =>
      Step settings.markers (some id) p q ∧ q.group = [] ∧ q.stream = p.stream := by
  refine Achieves.get_bind (achieves_flush rfl ?_)
  exact Placement.achieves_placeFloating hp.wellFormed hid hp.unfrozen
    (hp.genuine_upward hid hgenuine)

/-- **Placing the group under way at the end of the source succeeds.** -/
lemma achieves_trail (hp : p.Sound) (hsize : 0 < p.tree.size) :
    Achieves (trail settings) p fun _ q =>
      Step settings.markers none p q ∧ q.group = [] ∧ q.stream = p.stream := by
  refine Achieves.get_bind (achieves_flush rfl ?_)
  exact Placement.achieves_placeTrailing hsize hp.unfrozen

end Operations

end Pass

end Marginalia
