import Marginalia.Proofs.Link.Conservation

/-!
# A pass only adds placeholders

Deleting the placeholders from the tree that a pass leaves behind gives back the tree it started
with, number by number.  The placeholders themselves are leaves, stand where placeholders may stand,
and hold one group each.

## Main definitions

* `SyntaxTree.pruned?` — the nodes that are left when the placeholders are deleted.
* `SyntaxTree.Framed` — a tree is another one with placeholders added.

## Main results

* `SyntaxTree.Framed.graft` — grafting one more placeholder keeps this so.
* `linkComments_frames` — a pass adds placeholders only, and each holds one group.
-/

namespace Marginalia

namespace SyntaxTree

/-! ## Deleting placeholders -/

/-- Whether a number is that of a node that is no placeholder. -/
def genuine (t : SyntaxTree) (id : NodeId) : Bool := !(t.node id).placeholder

/-- The children of a node that are no placeholders. -/
def genuineChildren (t : SyntaxTree) (id : NodeId) : List NodeId := (t.children id).filter t.genuine

/-- The place of a node among the children that its parent has left when the placeholders are
deleted. -/
def prunedIndex (t : SyntaxTree) (id : NodeId) : Option Nat :=
  match t.parent? id with
  | none => (t.node id).index
  | some p => some ((t.genuineChildren p).idxOf id)

/-- The node with a number, when the placeholders are deleted; no number changes. -/
def pruned? (t : SyntaxTree) (id : NodeId) : Option Node :=
  if id < t.size ∧ t.genuine id = true then
    some { t.node id with children := t.genuineChildren id, index := t.prunedIndex id }
  else none

/-- There is a node for each number below the size of the tree. -/
lemma node?_of_lt {t : SyntaxTree} {id : NodeId} (h : id < t.size) :
    t.node? id = some (t.node id) := by
  have hget : t.nodes[id]? = some t.nodes[id] := Array.getElem?_eq_getElem h
  simp [node?, node, hget]

/-- There is no node for a number that is not below the size of the tree. -/
lemma node?_of_size_le {t : SyntaxTree} {id : NodeId} (h : t.size ≤ id) : t.node? id = none :=
  Array.getElem?_eq_none h

/-- **Without placeholders, deleting them changes nothing.** -/
lemma WellFormed.pruned?_eq {t : SyntaxTree} (h : t.WellFormed)
    (hplain : ∀ id, (t.node id).placeholder = false) (id : NodeId) : t.pruned? id = t.node? id := by
  have hgenuine : ∀ c, t.genuine c = true := by
    intro c
    rw [genuine, hplain c]
    rfl
  have hchildren : ∀ q, t.genuineChildren q = t.children q := fun q =>
    List.filter_eq_self.mpr fun c _ => hgenuine c
  have hindex : t.prunedIndex id = (t.node id).index := by
    rw [prunedIndex]
    cases hp : t.parent? id with
    | none => rfl
    | some p =>
      obtain ⟨i, hi, hget⟩ := h.indexed hp
      obtain ⟨hlt, rfl⟩ := List.getElem?_eq_some_iff.mp hget
      show some ((t.genuineChildren p).idxOf _) = _
      rw [hi, hchildren, (h.nodup p).idxOf_getElem i hlt]
  by_cases hid : id < t.size
  · rw [pruned?, if_pos ⟨hid, hgenuine id⟩, node?_of_lt hid, hchildren, hindex]
    rfl
  · rw [pruned?, if_neg (fun hc => hid hc.1), node?_of_size_le (Nat.not_lt.mp hid)]

section Graft

variable {t t' : SyntaxTree} {p : NodeId} {left right : List NodeId} {fresh : Node}

/-- A placeholder that is grafted is not genuine. -/
lemma Graft.genuine_fresh (g : t.Graft t' p left right fresh)
    (hfresh : fresh.placeholder = true) : t'.genuine t.size = false := by
  rw [genuine, g.placeholder_fresh, hfresh]
  rfl

/-- A graft of a placeholder leaves the same genuine nodes below each node. -/
lemma Graft.genuineChildren_eq (g : t.Graft t' p left right fresh) (h : t.WellFormed)
    (hfresh : fresh.placeholder = true) {id : NodeId} (hid : id ≠ t.size) :
    t'.genuineChildren id = t.genuineChildren id := by
  have hnew := g.genuine_fresh hfresh
  have hold : ∀ q, ∀ c ∈ t.children q, t'.genuine c = t.genuine c := by
    intro q c hc
    rw [genuine, genuine, g.placeholder_eq (Nat.ne_of_lt (h.lt_size_of_mem hc))]
  rw [genuineChildren, genuineChildren]
  by_cases hp : id = p
  · subst hp
    rw [← List.filter_congr (hold id), g.children_after, g.children_before]
    simp [hnew]
  · rw [g.children_eq hp hid]
    exact List.filter_congr (hold id)

/-- The place of a node among the children left is the same after the graft of a placeholder. -/
lemma Graft.prunedIndex_eq (g : t.Graft t' p left right fresh) (h : t.WellFormed)
    (hfresh : fresh.placeholder = true) {id : NodeId} (hid : id ≠ t.size) :
    t'.prunedIndex id = t.prunedIndex id := by
  rw [prunedIndex, prunedIndex, g.parent?_eq hid]
  cases hp : t.parent? id with
  | none =>
    refine g.index_eq hid fun hr => ?_
    -- a child of `p` has a parent
    have hmem : id ∈ t.children p := g.children_before ▸ List.mem_append_right left hr
    rw [h.parent_of_mem hmem] at hp
    simp at hp
  | some q =>
    have hq : q ≠ t.size := Nat.ne_of_lt (h.parent_lt_size hp)
    show some _ = some _
    rw [g.genuineChildren_eq h hfresh hq]

/-- **A graft of a placeholder is undone by deleting placeholders.** -/
lemma Graft.pruned?_eq (g : t.Graft t' p left right fresh) (h : t.WellFormed)
    (hfresh : fresh.placeholder = true) (id : NodeId) : t'.pruned? id = t.pruned? id := by
  by_cases hid : id = t.size
  · have hnew := g.genuine_fresh hfresh
    subst hid
    rw [pruned?, pruned?, if_neg (by simp [hnew]), if_neg (fun hc => Nat.lt_irrefl _ hc.1)]
  · have hlt : id < t'.size ↔ id < t.size := by
      have hne : id ≠ t.size := hid
      rw [g.size_eq]
      exact ⟨fun h => Nat.lt_of_le_of_ne (Nat.le_of_lt_succ h) hne, fun h => Nat.lt_succ_of_lt h⟩
    have hnode : { t'.node id with children := t'.genuineChildren id, index := t'.prunedIndex id } =
        { t.node id with children := t.genuineChildren id, index := t.prunedIndex id } := by
      rw [g.genuineChildren_eq h hfresh hid, g.prunedIndex_eq h hfresh hid]
      exact congrArg (fun n : Node =>
        { n with children := t.genuineChildren id, index := t.prunedIndex id }) (g.core_eq hid)
    have hgenuine : t'.genuine id = t.genuine id := by
      rw [genuine, genuine, g.placeholder_eq hid]
    rw [pruned?, pruned?, hnode, hgenuine]
    simp only [hlt]

end Graft

/-! ## Trees with placeholders added -/

/-- The tree `t` is `source` with placeholders added. -/
structure Framed (source t : SyntaxTree) : Prop where
  policy_eq : t.policy = source.policy
  lines_eq : t.lines = source.lines
  /-- Deleting the placeholders gives back the source. -/
  pruned?_eq : ∀ id, t.pruned? id = source.node? id
  /-- Placeholders have numbers of their own. -/
  fresh : ∀ id, (t.node id).placeholder = true → source.size ≤ id
  /-- Placeholders stand below the root or below nodes that tolerate them. -/
  parent : ∀ id, (t.node id).placeholder = true →
    ∃ p, t.parent? id = some p ∧ ((t.node p).tolerates = true ∨ p = 0)
  count_eq : t.placeholderCount = t.placeholders
  size_eq : t.size = source.size + t.placeholders

/-- A tree that is built is framed by itself. -/
lemma Built.framed {t : SyntaxTree} (h : t.Built) : Framed t t := by
  obtain ⟨hwf, hplain, hcount⟩ := h.wellFormed_and_plain
  have hnone : t.placeholders = 0 := by
    rw [placeholders, List.countP_eq_zero]
    intro id _
    simp [hplain id]
  have hno : ∀ {id : NodeId} {P : Prop}, (t.node id).placeholder = true → P := fun {id _} hid =>
    Bool.noConfusion ((hplain id).symm.trans hid)
  exact ⟨rfl, rfl, hwf.pruned?_eq hplain, fun _ => hno, fun _ => hno, hcount.trans hnone.symm,
    by rw [hnone, Nat.add_zero]⟩

/-- **One more placeholder**, below the root or below a node that tolerates it. -/
lemma Framed.graft {source t t' : SyntaxTree} {p : NodeId} {left right : List NodeId} {fresh : Node}
    (h : Framed source t) (hwf : t.WellFormed) (g : t.Graft t' p left right fresh)
    (hfresh : fresh.placeholder = true) (hp : (t.node p).tolerates = true ∨ p = 0)
    (hcount : t'.placeholderCount = t.placeholderCount + 1) : Framed source t' where
  policy_eq := g.policy_eq.trans h.policy_eq
  lines_eq := g.lines_eq.trans h.lines_eq
  pruned?_eq := fun id => (g.pruned?_eq hwf hfresh id).trans (h.pruned?_eq id)
  fresh := by
    intro id hid
    by_cases hnew : id = t.size
    · rw [hnew, h.size_eq]
      exact Nat.le_add_right ..
    · exact h.fresh id ((g.placeholder_eq hnew).symm.trans hid)
  parent := by
    intro id hid
    by_cases hnew : id = t.size
    · refine ⟨p, hnew ▸ g.parent?_fresh, ?_⟩
      rw [g.tolerates_eq (Nat.ne_of_lt g.parent_lt)]
      exact hp
    · obtain ⟨q, hq, htol⟩ := h.parent id ((g.placeholder_eq hnew).symm.trans hid)
      refine ⟨q, (g.parent?_eq hnew).trans hq, ?_⟩
      rw [g.tolerates_eq (Nat.ne_of_lt (hwf.parent_lt_size hq))]
      exact htol
  count_eq := by rw [hcount, h.count_eq, g.placeholders_eq, hfresh, if_pos rfl]
  size_eq := by rw [g.size_eq, h.size_eq, g.placeholders_eq, hfresh, if_pos rfl, Nat.add_assoc]

end SyntaxTree

namespace Pass

variable {markers : List Marker} {visited : Option NodeId} {source : SyntaxTree} {p q : Pass}

/-- **Steps add placeholders only.** -/
lemma Step.framed (hs : Step markers visited p q) (hp : p.Sound)
    (h : SyntaxTree.Framed source p.tree) : SyntaxTree.Framed source q.tree := by
  cases hs with
  | note => exact h
  | advance => exact h
  | flush move flushed flush =>
    cases flush with
    | dissolve => exact h
    | deliver => exact h
    | insert journal text visiting onWay tolerates count graft =>
      exact h.graft hp.wellFormed graft rfl (.inl tolerates) count
    | append journal text ended count graft =>
      exact h.graft hp.wellFormed graft rfl (.inr rfl) count

/-- Whole runs add placeholders only. -/
lemma Runs.framed (hr : Runs markers p q) (hp : p.Sound) (h : SyntaxTree.Framed source p.tree) :
    SyntaxTree.Framed source q.tree := by
  induction hr with
  | refl => exact h
  | tail hpq hs ih =>
    obtain ⟨visited, hs⟩ := hs
    exact hs.framed (Runs.sound hpq hp) ih

/-- The comments assigned to a node are those of the groups delivered to it. -/
lemma commentsAt_assignedOf (id : NodeId) (deliveries : List (NodeId × CommentGroup)) :
    commentsAt id (assignedOf deliveries) =
      ((deliveries.filter fun d => decide (d.1 = id)).map Prod.snd).flatten := by
  induction deliveries with
  | nil => rfl
  | cons d rest ih =>
    rw [assignedOf, List.flatMap_cons, ← assignedOf, commentsAt_append, commentsAt_map, ih]
    by_cases hd : d.1 = id
    · rw [if_pos (by rw [hd]), List.filter_cons_of_pos (by simpa using hd)]
      rfl
    · rw [if_neg fun e => hd (Int.ofNat_inj.mp e), List.filter_cons_of_neg (by simpa using hd)]
      rfl

/-- **A placeholder has one entry**, the text of the only group delivered to it. -/
lemma Accounted.get?_placeholder {deliveries : List (NodeId × CommentGroup)}
    (h : Accounted markers p deliveries) {id : NodeId}
    (hid : (p.tree.node id).placeholder = true) :
    ∃ group : CommentGroup, deliveries.filter (fun d => decide (d.1 = id)) = [(id, group)] ∧
      group.compose markers ≠ "" ∧ p.map.get? id = some (group.compose markers) ∧
      p.map.keys.count (id : Int) = 1 := by
  obtain ⟨group, hgroup, htext⟩ := h.single id hid
  have hat : commentsAt id (assignedOf deliveries) = group := by
    rw [commentsAt_assignedOf, hgroup]
    simp
  have hget : p.map.get? id = some (group.compose markers) := by
    rw [CommentMap.get?, h.entries, lookup_ledger, hat, if_neg htext]
  refine ⟨group, hgroup, htext, hget, ?_⟩
  have hnodup : p.map.keys.Nodup := by
    rw [CommentMap.keys, h.entries]
    exact nodup_keys_ledger markers _
  obtain ⟨before, after, hsplit, -⟩ := List.lookup_eq_some_iff.mp hget
  refine List.count_eq_one_of_mem hnodup ?_
  rw [CommentMap.keys, hsplit]
  simp

end Pass

/-! ## The frame of a pass -/

/-- **A pass only adds placeholders, and each of them holds one group.**  Deleting the placeholders
from the final tree gives back the tree before the pass, with the same numbers.  Every placeholder
is a leaf below the root or below a node that tolerates it, has a number that no node had before,
and has one entry, which is the text of the only flushed group that was delivered to it.  The count
of placeholders is right, and the tree grew by so many nodes. -/
theorem linkComments_frames (settings : LinkSettings) {tree : SyntaxTree} (hb : tree.Built)
    {comments : List Comment} {stream : CommentStream}
    (hstream : CommentStream.ofComments comments = .ok stream)
    (hroot : comments = [] ∨ tree.root? ≠ none) :
    ∃ p deliveries, Pass.run settings (Pass.start tree stream) = .ok () p ∧
      linkComments settings tree comments = ⟨p.tree, p.map, p.journal, none⟩ ∧
      p.tree.policy = tree.policy ∧ p.tree.lines = tree.lines ∧
      (∀ id, p.tree.pruned? id = tree.node? id) ∧
      deliveries.map Prod.snd = p.trace.toList.filterMap Move.group? ∧
      p.map.entries = ledger settings.markers (Pass.assignedOf deliveries) ∧
      (∀ id, (p.tree.node id).placeholder = true →
        p.tree.children id = [] ∧
        (∃ q, p.tree.parent? id = some q ∧
          ((p.tree.node q).tolerates = true ∨ p.tree.root? = some q)) ∧
        tree.node? id = none ∧
        p.map.keys.count (id : Int) = 1 ∧
        ∃ group : CommentGroup, deliveries.filter (fun d => decide (d.1 = id)) = [(id, group)] ∧
          group.compose settings.markers ≠ "" ∧
          p.map.get? id = some (group.compose settings.markers)) ∧
      p.tree.placeholderCount = p.tree.placeholders ∧
      p.tree.size = tree.size + p.tree.placeholders := by
  obtain rfl := CommentStream.eq_of_ofComments hstream
  have horder := CommentStream.checkOrder_of_ofComments hstream
  have hsize : comments = [] ∨ 0 < tree.size := hroot.imp_right SyntaxTree.size_pos_of_root?
  obtain ⟨hwf, hplain, -⟩ := hb.wellFormed_and_plain
  obtain ⟨p, deliveries, hrun, he, ⟨q, hruns, htree⟩, h, -⟩ :=
    Pass.exists_accounted settings hb horder hsize
  have hsound := hruns.sound (Pass.sound_start hwf hplain _)
  have hframed : SyntaxTree.Framed tree p.tree :=
    htree ▸ hruns.framed (Pass.sound_start hwf hplain _) hb.framed
  refine ⟨p, deliveries, hrun, he, hframed.policy_eq, hframed.lines_eq, hframed.pruned?_eq,
    h.flushed, h.entries, ?_, hframed.count_eq, hframed.size_eq⟩
  intro id hid
  obtain ⟨group, hgroup, htext, hget, hcount⟩ := h.get?_placeholder hid
  obtain ⟨parent, hparent, hcase⟩ := hframed.parent id hid
  refine ⟨?_, ⟨parent, hparent, ?_⟩, SyntaxTree.node?_of_size_le (hframed.fresh id hid), hcount,
    group, hgroup, htext, hget⟩
  · rw [htree] at hid ⊢
    exact hsound.leaf hid
  · refine hcase.imp_right ?_
    rintro rfl
    refine SyntaxTree.root?_of_pos (Nat.lt_of_le_of_lt (Nat.zero_le id) ?_)
    exact SyntaxTree.lt_size_of_parent? hparent

/-- Around the sample tree two comments go on placeholders, and deleting these gives back the tree,
as `linkComments_frames` says. -/
theorem linkComments_frames_sample :
    SyntaxTree.sample.Built ∧
      CommentStream.ofComments sampleComments = .ok ⟨sampleComments, 0⟩ ∧
      SyntaxTree.sample.root? ≠ none ∧
      (linkComments .standard SyntaxTree.sample sampleComments).tree.placeholders = 2 ∧
      ∀ id, (linkComments .standard SyntaxTree.sample sampleComments).tree.pruned? id =
        SyntaxTree.sample.node? id := by
  have hroot : SyntaxTree.sample.root? ≠ none := by decide
  refine ⟨SyntaxTree.built_sample, ofComments_sampleComments, hroot, by decide +kernel, ?_⟩
  obtain ⟨p, deliveries, -, he, -, -, hpruned, -⟩ :=
    linkComments_frames .standard SyntaxTree.built_sample ofComments_sampleComments (.inr hroot)
  rw [he]
  exact hpruned

end Marginalia
