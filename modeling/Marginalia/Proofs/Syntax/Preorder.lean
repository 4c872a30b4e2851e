import Marginalia.Proofs.Syntax.Graft
import Mathlib.Data.List.Flatten
import Mathlib.Data.List.Infix
import Mathlib.Data.List.Nodup

/-!
# The order of the nodes

The walk over a tree lists a node and then what is below it, child by child.  The walk is defined
with a stack; here the list of a subtree is given by recursion on the tree, and the walk is shown to
be that list.  Every node then occurs once, a subtree is a contiguous part, nodes above a node come
before it, and a graft keeps the order of the older nodes.

## Main definitions

* `SyntaxTree.subtree` — a node and the nodes below it, each before its children.
* `SyntaxTree.NotAfter` — one node does not come after another.

## Main results

* `SyntaxTree.WellFormed.subtree_eq` — the recursive equation of a subtree.
* `SyntaxTree.WellFormed.preorder_eq` — the walk lists the subtree of the root.
* `SyntaxTree.WellFormed.nodup_preorder`, `SyntaxTree.WellFormed.mem_preorder` — every node occurs
  once.
* `SyntaxTree.Graft.preorder_sublist` — a graft keeps the order of the older nodes.
* `SyntaxTree.Graft.notAfter_fresh` — a node grafted before another comes before it.
-/

namespace Marginalia

open scoped List

/-! ## Order in a list -/

section

variable {l l' : List NodeId} {a b : NodeId}

/-- In a list without repetitions, places tell which element comes first. -/
lemma idxOf_lt_of_sublist (hnd : l.Nodup) (h : [a, b] <+ l) : l.idxOf a < l.idxOf b := by
  induction l with
  | nil => simp at h
  | cons x rest ih =>
    obtain ⟨hx, hrest⟩ := List.nodup_cons.mp hnd
    cases h with
    | cons _ h =>
      have ha : a ∈ rest := h.subset (by simp)
      have hb : b ∈ rest := h.subset (by simp)
      rw [List.idxOf_cons_ne _ (fun e : x = a => hx (e ▸ ha)),
        List.idxOf_cons_ne _ (fun e : x = b => hx (e ▸ hb))]
      exact Nat.succ_lt_succ (ih hrest h)
    | cons_cons _ h =>
      have hb : b ∈ rest := List.singleton_sublist.mp h
      rw [List.idxOf_cons_self, List.idxOf_cons_ne _ (fun e : a = b => hx (e ▸ hb))]
      exact Nat.succ_pos _

/-- Two elements at different places make a sublist. -/
lemma sublist_of_idxOf_lt (hb : b ∈ l) (h : l.idxOf a < l.idxOf b) : [a, b] <+ l := by
  induction l with
  | nil => simp at hb
  | cons x rest ih =>
    by_cases hxa : x = a
    · subst hxa
      have hne : x ≠ b := by
        rintro rfl
        exact Nat.lt_irrefl _ h
      exact .cons_cons _ (List.singleton_sublist.mpr ((List.mem_cons.mp hb).resolve_left hne.symm))
    · have hxb : x ≠ b := by
        rintro rfl
        rw [List.idxOf_cons_self] at h
        exact Nat.not_lt_zero _ h
      rw [List.idxOf_cons_ne _ hxa, List.idxOf_cons_ne _ hxb] at h
      have hmem := (List.mem_cons.mp hb).resolve_left (Ne.symm hxb)
      exact .cons _ (ih hmem (Nat.lt_of_succ_lt_succ h))

/-- What stands in a sublist stands in the same order in the list. -/
lemma idxOf_le_of_sublist (hnd : l'.Nodup) (hl : l <+ l') (hb : b ∈ l)
    (h : l.idxOf a ≤ l.idxOf b) : l'.idxOf a ≤ l'.idxOf b := by
  rcases Nat.lt_or_eq_of_le h with hlt | heq
  · exact Nat.le_of_lt (idxOf_lt_of_sublist hnd ((sublist_of_idxOf_lt hb hlt).trans hl))
  · have ha : a ∈ l := by
      rw [← List.idxOf_lt_length_iff, heq]
      exact List.idxOf_lt_length_iff.mpr hb
    rw [(List.idxOf_inj ha).mp heq]

/-- A part of a list is met no later than what follows it. -/
lemma idxOf_le_of_mem_cons {before rest : List NodeId} (hnd : (before ++ a :: rest).Nodup)
    (hb : b ∈ a :: rest) :
    (before ++ a :: rest).idxOf a ≤ (before ++ a :: rest).idxOf b := by
  rcases List.mem_cons.mp hb with rfl | hb
  · exact Nat.le_refl _
  · refine Nat.le_of_lt (idxOf_lt_of_sublist hnd ?_)
    exact (List.Sublist.cons_cons _ (List.singleton_sublist.mpr hb)).trans
      (List.sublist_append_right ..)

end

namespace SyntaxTree

/-! ## Subtrees -/

/-- A node and the nodes below it, down to a depth. -/
def subtreeFrom (t : SyntaxTree) : Nat → NodeId → List NodeId
  | 0, id => [id]
  | depth + 1, id => id :: (t.children id).flatMap (t.subtreeFrom depth)

/-- A node and the nodes below it, each before its children.  As a parent is older than its
children, no way down is longer than the number of nodes. -/
def subtree (t : SyntaxTree) (id : NodeId) : List NodeId := t.subtreeFrom t.size id

namespace WellFormed

variable {t : SyntaxTree} {id p a b x y : NodeId}

/-- Children are younger than their parents. -/
lemma lt_of_mem_children (h : t.WellFormed) (hc : id ∈ t.children p) : p < id :=
  h.parent_lt (h.parent_of_mem hc)

/-- More depth than there are younger nodes changes nothing. -/
lemma subtreeFrom_succ (h : t.WellFormed) :
    ∀ (depth : Nat) (id : NodeId), t.size ≤ id + depth + 1 →
      t.subtreeFrom (depth + 1) id = t.subtreeFrom depth id := by
  intro depth
  induction depth with
  | zero =>
    intro id hle
    have hnone : t.children id = [] := by
      refine List.eq_nil_iff_forall_not_mem.mpr fun c hc => ?_
      have hlt : c < t.size := h.lt_size_of_mem hc
      have hgt : id < c := h.lt_of_mem_children hc
      exact absurd (Nat.lt_of_lt_of_le hlt hle) (Nat.not_lt.mpr hgt)
    show id :: (t.children id).flatMap (t.subtreeFrom 0) = [id]
    rw [hnone]
    rfl
  | succ depth ih =>
    intro id hle
    rw [subtreeFrom, subtreeFrom]
    refine congrArg (id :: ·) (List.flatMap_congr fun c hc => ih c ?_)
    have hgt : id + 1 ≤ c := h.lt_of_mem_children hc
    calc t.size ≤ id + (depth + 1) + 1 := hle
      _ = (id + 1) + depth + 1 := by rw [Nat.add_right_comm id 1 depth, Nat.add_assoc id depth 1]
      _ ≤ c + depth + 1 := Nat.add_le_add_right (Nat.add_le_add_right hgt depth) 1

/-- **A subtree is its node and the subtrees of its children.** -/
lemma subtree_eq (h : t.WellFormed) (id : NodeId) :
    t.subtree id = id :: (t.children id).flatMap t.subtree := by
  rw [subtree, ← h.subtreeFrom_succ t.size id (Nat.le_succ_of_le (Nat.le_add_left ..))]
  rfl

/-- To prove something of all nodes, prove it of a node from its children. -/
lemma downward_induction (h : t.WellFormed) {motive : NodeId → Prop}
    (step : ∀ id, (∀ c ∈ t.children id, motive c) → motive id) (id : NodeId) : motive id := by
  -- induction on the number of nodes younger than `id`
  generalize hn : t.size - id = n
  induction n using Nat.strong_induction_on generalizing id with
  | _ n ih =>
    refine step id fun c hc => ih (t.size - c) ?_ c rfl
    have hlt : c < t.size := h.lt_size_of_mem hc
    have hgt : id < c := h.lt_of_mem_children hc
    rw [← hn]
    exact Nat.sub_lt_sub_left (Nat.lt_trans hgt hlt) hgt

/-- A node is in its own subtree. -/
lemma mem_subtree_self (h : t.WellFormed) (id : NodeId) : id ∈ t.subtree id := by
  rw [h.subtree_eq]
  exact List.mem_cons_self ..

/-- The subtree of a child is a contiguous part. -/
lemma subtree_infix_of_mem_children (h : t.WellFormed) (hc : id ∈ t.children p) :
    t.subtree id <:+: t.subtree p := by
  rw [h.subtree_eq p]
  refine List.IsInfix.trans ?_ (List.suffix_cons ..).isInfix
  exact List.infix_of_mem_flatten (List.mem_map_of_mem hc)

/-- **A subtree is a contiguous part** of every subtree that holds its node. -/
lemma subtree_infix (h : t.WellFormed) (hy : y ∈ t.subtree x) : t.subtree y <:+: t.subtree x := by
  revert hy
  refine h.downward_induction (motive := fun x => y ∈ t.subtree x → t.subtree y <:+: t.subtree x)
    ?_ x
  intro x ih hy
  rw [h.subtree_eq] at hy
  rcases List.mem_cons.mp hy with rfl | hy
  · exact List.infix_refl _
  · obtain ⟨c, hc, hyc⟩ := List.mem_flatMap.mp hy
    exact (ih c hc hyc).trans (h.subtree_infix_of_mem_children hc)

/-- Subtrees stay in the tree. -/
lemma lt_size_of_mem_subtree (h : t.WellFormed) (hx : x < t.size) (hy : y ∈ t.subtree x) :
    y < t.size := by
  revert hx hy
  refine h.downward_induction (motive := fun x => x < t.size → y ∈ t.subtree x → y < t.size) ?_ x
  intro x ih hx hy
  rw [h.subtree_eq] at hy
  rcases List.mem_cons.mp hy with rfl | hy
  · exact hx
  · obtain ⟨c, hc, hyc⟩ := List.mem_flatMap.mp hy
    exact ih c hc (h.lt_size_of_mem hc) hyc

/-- The node of a subtree is on the way up from all its nodes. -/
lemma mem_upward_of_mem_subtree (h : t.WellFormed) (hy : y ∈ t.subtree x) : x ∈ t.upward y := by
  revert hy
  refine h.downward_induction (motive := fun x => y ∈ t.subtree x → x ∈ t.upward y) ?_ x
  intro x ih hy
  rw [h.subtree_eq] at hy
  rcases List.mem_cons.mp hy with rfl | hy
  · exact List.mem_cons_self ..
  · obtain ⟨c, hc, hyc⟩ := List.mem_flatMap.mp hy
    have hcsize := h.lt_size_of_mem hc
    have hway : x ∈ t.upward c := by
      rw [upward_of_parent? h (h.parent_of_mem hc)]
      exact List.mem_cons_of_mem _ (List.mem_cons_self ..)
    exact h.mem_upward_trans (h.lt_size_of_mem_subtree hcsize hyc) (ih c hc hyc) hway

/-- A node is in the subtree of each node on the way up. -/
lemma mem_subtree_of_mem_upward (h : t.WellFormed) (hy : y < t.size) (hx : x ∈ t.upward y) :
    y ∈ t.subtree x := by
  revert hx
  refine h.upward_induction (motive := fun y => x ∈ t.upward y → y ∈ t.subtree x) ?_ ?_ y hy
  · intro hpos hx
    rw [upward_of_orphan ((h.orphan hpos).mpr rfl)] at hx
    rw [List.mem_singleton.mp hx]
    exact h.mem_subtree_self 0
  · intro y p hp ih hx
    rw [upward_of_parent? h hp] at hx
    rcases List.mem_cons.mp hx with rfl | hx
    · exact h.mem_subtree_self x
    · have hpart := h.subtree_infix_of_mem_children (h.mem_children hp)
      exact (hpart.trans (h.subtree_infix (ih hx))).subset (h.mem_subtree_self y)

/-- Nodes on the way up are no younger. -/
lemma le_of_mem_upward (h : t.WellFormed) (hy : y < t.size) (hx : x ∈ t.upward y) : x ≤ y := by
  rcases List.mem_cons.mp hx with rfl | hx
  · exact Nat.le_refl _
  · exact Nat.le_of_lt (lt_of_mem_ancestorsFrom h y y hx)

/-- Of two nodes on the way up, one is on the way up from the other. -/
lemma upward_linear (h : t.WellFormed) (hy : y < t.size) (ha : a ∈ t.upward y)
    (hb : b ∈ t.upward y) : a ∈ t.upward b ∨ b ∈ t.upward a := by
  revert ha hb
  refine h.upward_induction
    (motive := fun y => a ∈ t.upward y → b ∈ t.upward y → a ∈ t.upward b ∨ b ∈ t.upward a)
    ?_ ?_ y hy
  · intro hpos ha hb
    rw [upward_of_orphan ((h.orphan hpos).mpr rfl), List.mem_singleton] at ha hb
    rw [ha, hb]
    exact .inl (List.mem_cons_self ..)
  · intro y p hp ih ha hb
    have hup := upward_of_parent? h hp
    rcases List.mem_cons.mp (hup ▸ ha) with rfl | ha'
    · exact .inr hb
    · rcases List.mem_cons.mp (hup ▸ hb) with rfl | hb'
      · exact .inl ha
      · exact ih ha' hb'

/-- Siblings have no node below them in common. -/
lemma disjoint_subtree (h : t.WellFormed) (ha : a ∈ t.children p) (hb : b ∈ t.children p)
    (hne : a ≠ b) : List.Disjoint (t.subtree a) (t.subtree b) := by
  -- a sibling on the way up would be no younger than the parent
  have hno : ∀ {c d : NodeId}, c ∈ t.children p → d ∈ t.children p → c ≠ d →
      c ∉ t.upward d := by
    intro c d hc hd hcd hway
    rw [upward_of_parent? h (h.parent_of_mem hd)] at hway
    have hway := (List.mem_cons.mp hway).resolve_left hcd
    have hpsize : p < t.size := h.parent_lt_size (h.parent_of_mem hc)
    exact Nat.not_lt.mpr (h.le_of_mem_upward hpsize hway) (h.lt_of_mem_children hc)
  intro y hya hyb
  have hysize := h.lt_size_of_mem_subtree (h.lt_size_of_mem ha) hya
  have hwaya := h.mem_upward_of_mem_subtree hya
  have hwayb := h.mem_upward_of_mem_subtree hyb
  rcases h.upward_linear hysize hwaya hwayb with hway | hway
  · exact hno ha hb hne hway
  · exact hno hb ha (Ne.symm hne) hway

/-- **No node occurs twice in a subtree.** -/
lemma nodup_subtree (h : t.WellFormed) (id : NodeId) : (t.subtree id).Nodup := by
  refine h.downward_induction (motive := fun id => (t.subtree id).Nodup) ?_ id
  intro id ih
  rw [h.subtree_eq, List.nodup_cons]
  constructor
  · intro hmem
    obtain ⟨c, hc, hid⟩ := List.mem_flatMap.mp hmem
    have hidsize : id < t.size := h.parent_lt_size (h.parent_of_mem hc)
    have hle := h.le_of_mem_upward hidsize (h.mem_upward_of_mem_subtree hid)
    exact Nat.not_lt.mpr hle (h.lt_of_mem_children hc)
  · refine List.nodup_flatMap.mpr ⟨ih, ?_⟩
    refine (h.nodup id).imp_of_mem ?_
    intro a b ha hb hne
    exact h.disjoint_subtree ha hb hne

/-! ## The walk -/

/-- A walk lists the subtrees of its stack, as far as it may go. -/
lemma walk_eq (h : t.WellFormed) :
    ∀ (steps : Nat) (stack : List NodeId),
      t.walk steps stack = (stack.flatMap t.subtree).take steps := by
  intro steps
  induction steps with
  | zero =>
    intro stack
    simp [walk]
  | succ steps ih =>
    intro stack
    cases stack with
    | nil => simp [walk]
    | cons id rest =>
      rw [walk, ih, List.flatMap_append, List.flatMap_cons, h.subtree_eq id, List.cons_append,
        List.take_succ_cons]

/-- Every node is below the root. -/
lemma mem_subtree_root (h : t.WellFormed) (hid : id < t.size) : id ∈ t.subtree 0 :=
  h.mem_subtree_of_mem_upward hid (h.zero_mem_upward hid)

/-- The subtree of the root has all nodes. -/
lemma length_subtree_root (h : t.WellFormed) (hsize : 0 < t.size) :
    (t.subtree 0).length = t.size := by
  have hperm : t.subtree 0 ~ List.range t.size := by
    rw [List.perm_ext_iff_of_nodup (h.nodup_subtree 0) List.nodup_range]
    intro id
    rw [List.mem_range]
    exact ⟨h.lt_size_of_mem_subtree hsize, h.mem_subtree_root⟩
  rw [hperm.length_eq, List.length_range]

/-- **The walk lists the subtree of the root.** -/
lemma preorder_eq (h : t.WellFormed) (hsize : 0 < t.size) : t.preorder = t.subtree 0 := by
  rw [preorder, root?_of_pos hsize]
  show t.walk t.size [0] = _
  rw [h.walk_eq, List.flatMap_singleton, List.take_of_length_le]
  exact Nat.le_of_eq (h.length_subtree_root hsize)

/-- **No node occurs twice in the walk.** -/
lemma nodup_preorder (h : t.WellFormed) : t.preorder.Nodup := by
  rcases Nat.eq_zero_or_pos t.size with hzero | hpos
  · have hnone : t.root? = none := by
      rw [root?, if_pos (Array.isEmpty_iff_size_eq_zero.mpr hzero)]
    rw [preorder, hnone]
    exact List.nodup_nil
  · rw [h.preorder_eq hpos]
    exact h.nodup_subtree 0

/-- **Every node occurs in the walk.** -/
lemma mem_preorder (h : t.WellFormed) (hid : id < t.size) : id ∈ t.preorder := by
  rw [h.preorder_eq (Nat.lt_of_le_of_lt (Nat.zero_le id) hid)]
  exact h.mem_subtree_root hid

end WellFormed

/-! ## Which node comes first -/

/-- The node `a` does not come after the node `b` in the walk. -/
def NotAfter (t : SyntaxTree) (a b : NodeId) : Prop :=
  a ∈ t.preorder ∧ b ∈ t.preorder ∧ t.preorder.idxOf a ≤ t.preorder.idxOf b

/-- Whether a node does not come after another can be decided. -/
instance (t : SyntaxTree) (a b : NodeId) : Decidable (t.NotAfter a b) :=
  inferInstanceAs (Decidable (_ ∧ _ ∧ _))

section

variable {t t' : SyntaxTree} {a b c p x : NodeId} {left right : List NodeId} {fresh : Node}

/-- The order of visits is transitive. -/
lemma NotAfter.trans (h : t.NotAfter a b) (h' : t.NotAfter b c) : t.NotAfter a c :=
  ⟨h.1, h'.2.1, Nat.le_trans h.2.2 h'.2.2⟩

/-- A larger walk keeps the order. -/
lemma NotAfter.mono (h : t.NotAfter a b) (hwf : t'.WellFormed) (hsub : t.preorder <+ t'.preorder) :
    t'.NotAfter a b :=
  ⟨hsub.subset h.1, hsub.subset h.2.1, idxOf_le_of_sublist hwf.nodup_preorder hsub h.2.1 h.2.2⟩

/-- Two nodes in this order in a part of the walk. -/
lemma WellFormed.notAfter_of_sublist (h : t.WellFormed) (hsub : [a, b] <+ t.preorder) :
    t.NotAfter a b :=
  ⟨hsub.subset (by simp), hsub.subset (by simp),
    Nat.le_of_lt (idxOf_lt_of_sublist h.nodup_preorder hsub)⟩

/-- The subtree of a node is a part of the walk. -/
lemma WellFormed.subtree_infix_preorder (h : t.WellFormed) (hx : x < t.size) :
    t.subtree x <:+: t.preorder := by
  rw [h.preorder_eq (Nat.lt_of_le_of_lt (Nat.zero_le x) hx)]
  exact h.subtree_infix (h.mem_subtree_root hx)

/-- **A node on the way up does not come after the node.** -/
lemma WellFormed.notAfter_of_mem_upward (h : t.WellFormed) (hx : x < t.size)
    (ha : a ∈ t.upward x) : t.NotAfter a x := by
  have hasize := h.lt_size_of_mem_upward hx ha
  have hmem := h.mem_subtree_of_mem_upward hx ha
  rw [h.subtree_eq] at hmem
  rcases List.mem_cons.mp hmem with rfl | hbelow
  · exact ⟨h.mem_preorder hx, h.mem_preorder hx, Nat.le_refl _⟩
  · refine h.notAfter_of_sublist (List.Sublist.trans ?_ (h.subtree_infix_preorder hasize).sublist)
    rw [h.subtree_eq]
    exact .cons_cons _ (List.singleton_sublist.mpr hbelow)

/-- **Siblings come in their order.** -/
lemma WellFormed.notAfter_of_siblings (h : t.WellFormed) (hp : p < t.size)
    (hc : t.children p = left ++ a :: right) (hb : b ∈ right) : t.NotAfter a b := by
  refine h.notAfter_of_sublist (List.Sublist.trans ?_ (h.subtree_infix_preorder hp).sublist)
  rw [h.subtree_eq, hc, List.flatMap_append, List.flatMap_cons]
  refine .cons _ (List.Sublist.trans ?_ (List.sublist_append_right ..))
  show [a] ++ [b] <+ _
  refine List.Sublist.append ?_ ?_
  · exact List.singleton_sublist.mpr (h.mem_subtree_self a)
  · exact List.singleton_sublist.mpr (List.mem_flatMap.mpr ⟨b, hb, h.mem_subtree_self b⟩)

/-! ## Grafts -/

/-- A graft keeps the order of the nodes in a subtree. -/
lemma Graft.subtreeFrom_sublist (g : t.Graft t' p left right fresh) (h : t.WellFormed) :
    ∀ (depth : Nat) (id : NodeId), id ≠ t.size →
      t.subtreeFrom depth id <+ t'.subtreeFrom depth id := by
  intro depth
  induction depth with
  | zero =>
    intro id _
    exact List.Sublist.refl _
  | succ depth ih =>
    intro id hid
    have hchildren : t.children id <+ t'.children id := by
      by_cases hp : id = p
      · rw [hp, g.children_before, g.children_after]
        exact (List.Sublist.refl left).append (List.sublist_cons_self ..)
      · rw [g.children_eq hp hid]
    refine .cons_cons _ (List.Sublist.trans ?_ (hchildren.flatMap _))
    exact .flatMap_right _ fun c hc => ih c (Nat.ne_of_lt (h.lt_size_of_mem hc))

/-- **A graft keeps the order of the older nodes.** -/
lemma Graft.preorder_sublist (g : t.Graft t' p left right fresh) (h : t.WellFormed) :
    t.preorder <+ t'.preorder := by
  have hsize : 0 < t.size := Nat.lt_of_le_of_lt (Nat.zero_le p) g.parent_lt
  have hsize' : 0 < t'.size := g.size_eq ▸ Nat.succ_pos _
  have hwf' := g.wellFormed h
  rw [h.preorder_eq hsize, hwf'.preorder_eq hsize']
  -- the larger tree may be one level deeper, which changes nothing in the smaller one
  rw [subtree, ← h.subtreeFrom_succ t.size 0 (by omega), subtree, g.size_eq]
  exact g.subtreeFrom_sublist h _ 0 (Nat.ne_of_lt hsize)

/-- **A node grafted before another comes before it.** -/
lemma Graft.notAfter_fresh (g : t.Graft t' p left (x :: right) fresh) (h : t.WellFormed) :
    t'.NotAfter t.size x := by
  have hp : p < t'.size := g.size_eq ▸ Nat.lt_succ_of_lt g.parent_lt
  exact (g.wellFormed h).notAfter_of_siblings hp g.children_after (List.mem_cons_self ..)

end

end SyntaxTree

end Marginalia
