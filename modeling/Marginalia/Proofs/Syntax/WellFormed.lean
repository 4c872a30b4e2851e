import Marginalia.Syntax.Tree
import Mathlib.Data.List.Nodup
import Mathlib.Tactic.Lemma

/-!
# Well-formed syntax trees

A syntax tree is an arena, so that it is a tree at all is a property of the numbers stored in it.
In a well-formed tree every node but the first has a parent that is older than it, stands at its
stored place among the children of that parent, and stands in no other list.

## Main definitions

* `Node.core` — a node without its place among other nodes.
* `SyntaxTree.WellFormed` — the numbers in the arena describe a tree.

## Main results

* `SyntaxTree.WellFormed.indexInParent_eq` — the stored place of a node is found again.
* `SyntaxTree.WellFormed.zero_mem_upward` — the way up from a node ends at the root.
-/

namespace Marginalia

/-- A node without its place among other nodes: what growing a tree never changes. -/
def Node.core (n : Node) : Node := { n with children := [], index := none }

namespace SyntaxTree

/-! ## Nodes after a change -/

/-- Changing a node keeps the number of nodes. -/
@[simp] lemma size_modify (t : SyntaxTree) (id : NodeId) (f : Node → Node) :
    (t.modify id f).size = t.size := by
  simp [modify, size]

/-- A number outside of the tree gives the default node. -/
lemma node_of_size_le {t : SyntaxTree} {id : NodeId} (h : t.size ≤ id) : t.node id = default := by
  have h' : t.nodes[id]? = none := Array.getElem?_eq_none h
  simp [node, h']

/-- A number without a node has no parent. -/
lemma parent?_of_size_le {t : SyntaxTree} {id : NodeId} (h : t.size ≤ id) :
    t.parent? id = none := by
  rw [parent?, node_of_size_le h]
  rfl

/-- A number without a node has no children. -/
lemma children_of_size_le {t : SyntaxTree} {id : NodeId} (h : t.size ≤ id) :
    t.children id = [] := by
  rw [children, node_of_size_le h]
  rfl

/-- A node with a parent lies in the tree. -/
lemma lt_size_of_parent? {t : SyntaxTree} {id p : NodeId} (h : t.parent? id = some p) :
    id < t.size := by
  by_contra hlt
  rw [parent?_of_size_le (Nat.not_lt.mp hlt)] at h
  simp at h

/-- The changed node. -/
lemma node_modify_self {t : SyntaxTree} {id : NodeId} (f : Node → Node) (h : id < t.size) :
    (t.modify id f).node id = f (t.node id) := by
  have hlt : id < t.nodes.size := h
  have hget : t.nodes[id]? = some t.nodes[id] := Array.getElem?_eq_getElem hlt
  simp only [node, modify, Array.getD_eq_getD_getElem?, Array.getElem?_modify, if_pos, hget]
  rfl

/-- Changing a node keeps the others. -/
lemma node_modify_of_ne {t : SyntaxTree} {id other : NodeId} (f : Node → Node) (h : other ≠ id) :
    (t.modify id f).node other = t.node other := by
  simp [node, modify, Array.getElem?_modify, Ne.symm h]

/-- The tree with one node more. -/
def push (t : SyntaxTree) (n : Node) : SyntaxTree := { t with nodes := t.nodes.push n }

/-- A new node is one more. -/
@[simp] lemma size_push (t : SyntaxTree) (n : Node) : (t.push n).size = t.size + 1 := by
  simp [push, size]

/-- The new node has the next number. -/
@[simp] lemma node_push_size (t : SyntaxTree) (n : Node) : (t.push n).node t.size = n := by
  simp [push, node, size]

/-- A new node keeps the others. -/
lemma node_push_of_ne {t : SyntaxTree} (n : Node) {id : NodeId} (h : id ≠ t.size) :
    (t.push n).node id = t.node id := by
  have h' : id ≠ t.nodes.size := h
  simp [push, node, Array.getElem?_push, h']

/-- The root of a tree with nodes. -/
lemma root?_of_pos {t : SyntaxTree} (h : 0 < t.size) : t.root? = some 0 := by
  have hne : t.nodes.isEmpty = false := by
    simpa [size, Nat.pos_iff_ne_zero] using h
  simp [root?, hne]

/-- A tree with a root has nodes. -/
lemma size_pos_of_root? {t : SyntaxTree} (h : t.root? ≠ none) : 0 < t.size := by
  refine Nat.pos_of_ne_zero fun h0 => h ?_
  have hempty : t.nodes.isEmpty = true := by simpa [size] using h0
  simp [root?, hempty]

/-! ## Well-formed trees -/

/-- The numbers in the arena describe a tree. -/
structure WellFormed (t : SyntaxTree) : Prop where
  /-- Parents are older than their children. -/
  parent_lt : ∀ {id p : Nat}, t.parent? id = some p → p < id
  /-- Only the first node has no parent. -/
  orphan : ∀ {id : Nat}, id < t.size → (t.parent? id = none ↔ id = 0)
  /-- A node stands at its stored place among the children of its parent. -/
  indexed : ∀ {id p : NodeId}, t.parent? id = some p →
    ∃ i, (t.node id).index = some i ∧ (t.children p)[i]? = some id
  /-- A node is the parent of its children. -/
  parent_of_mem : ∀ {p c : NodeId}, c ∈ t.children p → t.parent? c = some p
  /-- No child is listed twice. -/
  nodup : ∀ p : NodeId, (t.children p).Nodup
  /-- The root accepts comments. -/
  root_accepts : 0 < t.size → (t.node 0).accepts = true

/-- A tree without nodes is well formed. -/
lemma wellFormed_empty (policy : KindPolicy) (lines : List String) :
    (empty policy lines).WellFormed := by
  have hp : ∀ id, (empty policy lines).parent? id = none := fun id =>
    parent?_of_size_le (Nat.zero_le id)
  have hc : ∀ id, (empty policy lines).children id = [] := fun id =>
    children_of_size_le (Nat.zero_le id)
  refine ⟨?_, ?_, ?_, ?_, ?_, ?_⟩
  · intro id p h; simp [hp] at h
  · intro id h; exact absurd h (Nat.not_lt_zero id)
  · intro id p h; simp [hp] at h
  · intro p c h; simp [hc] at h
  · intro p; simp [hc]
  · intro h; exact absurd h (Nat.not_lt_zero 0)

namespace WellFormed

variable {t : SyntaxTree} {id p c : NodeId}

/-- Children are nodes. -/
lemma lt_size_of_mem (h : t.WellFormed) (hc : c ∈ t.children p) : c < t.size :=
  lt_size_of_parent? (h.parent_of_mem hc)

/-- Parents are nodes. -/
lemma parent_lt_size (h : t.WellFormed) (hp : t.parent? id = some p) : p < t.size :=
  Nat.lt_trans (h.parent_lt hp) (lt_size_of_parent? hp)

/-- A node is among the children of its parent. -/
lemma mem_children (h : t.WellFormed) (hp : t.parent? id = some p) : id ∈ t.children p := by
  obtain ⟨i, -, hi⟩ := h.indexed hp
  exact List.mem_of_getElem? hi

/-- No node is its own child. -/
lemma not_mem_children_self (h : t.WellFormed) (p : NodeId) : p ∉ t.children p := fun hp =>
  Nat.lt_irrefl p (h.parent_lt (h.parent_of_mem hp))

/-- The stored place of a node is found again: asking for it never fails. -/
lemma indexInParent_eq (h : t.WellFormed) (hp : t.parent? id = some p) :
    ∃ i, t.indexInParent id = .ok (some i) ∧ (t.children p)[i]? = some id := by
  obtain ⟨i, hi, hc⟩ := h.indexed hp
  refine ⟨i, ?_, hc⟩
  simp [indexInParent, hp, hi, hc]

/-- The child behind a node is found. -/
lemma nextSibling_eq (h : t.WellFormed) {left right : List NodeId} (hp : t.parent? id = some p)
    (hc : t.children p = left ++ id :: right) : t.nextSibling id = .ok right.head? := by
  obtain ⟨i, hi, hget⟩ := h.indexInParent_eq hp
  have hnd := h.nodup p
  -- the place of `id` is unique, as the children are listed once
  have hlen : i = left.length := by
    have hl : (t.children p)[left.length]? = some id := by simp [hc]
    exact (List.getElem?_inj (List.getElem?_eq_some_iff.mp hget).1 hnd).mp (hget.trans hl.symm)
  simp only [nextSibling, hp, hi, hlen, bind, Except.bind, pure, Except.pure, hc]
  congr 1
  rw [List.getElem?_append_right (by omega), show left.length + 1 - left.length = 1 by omega]
  cases right <;> rfl

end WellFormed

/-! ## The way up -/

/-- Every node above a node is older than it. -/
lemma lt_of_mem_ancestorsFrom {t : SyntaxTree} (h : t.WellFormed) {a : Nat} :
    ∀ steps id : Nat, a ∈ t.ancestorsFrom steps id → a < id := by
  intro steps
  induction steps with
  | zero => intro id ha; simp [ancestorsFrom] at ha
  | succ steps ih =>
    intro id ha
    cases hp : t.parent? id with
    | none => simp [ancestorsFrom, hp] at ha
    | some p =>
      have hlt := h.parent_lt hp
      simp only [ancestorsFrom, hp, List.mem_cons] at ha
      rcases ha with rfl | ha
      · exact hlt
      · exact Nat.lt_trans (ih p ha) hlt

/-- With enough steps the nodes above a node do not depend on their number. -/
lemma ancestorsFrom_eq {t : SyntaxTree} (h : t.WellFormed) :
    ∀ steps id : Nat, id ≤ steps → t.ancestorsFrom steps id = t.ancestors id := by
  intro steps
  induction steps using Nat.strongRecOn with
  | _ steps ih =>
    intro id hid
    cases hp : t.parent? id with
    | none => cases steps <;> cases id <;> simp [ancestorsFrom, ancestors, hp]
    | some p =>
      have hlt := h.parent_lt hp
      obtain ⟨steps, rfl⟩ : ∃ k, steps = k + 1 := ⟨steps - 1, by omega⟩
      obtain ⟨below, rfl⟩ : ∃ k, id = k + 1 := ⟨id - 1, by omega⟩
      rw [ancestors, ancestorsFrom, ancestorsFrom]
      simp only [hp]
      rw [ih steps (by omega) p (by omega), ih below (by omega) p (by omega)]

/-- The nodes above a node are its parent and the nodes above that. -/
lemma ancestors_of_parent? {t : SyntaxTree} (h : t.WellFormed) {id p : Nat}
    (hp : t.parent? id = some p) : t.ancestors id = t.upward p := by
  have hlt := h.parent_lt hp
  obtain ⟨below, rfl⟩ : ∃ k, id = k + 1 := ⟨id - 1, by omega⟩
  rw [ancestors, ancestorsFrom, upward]
  simp only [hp]
  rw [ancestorsFrom_eq h below p (by omega)]

/-- The way up from a node goes on from its parent. -/
lemma upward_of_parent? {t : SyntaxTree} (h : t.WellFormed) {id p : NodeId}
    (hp : t.parent? id = some p) : t.upward id = id :: t.upward p := by
  rw [upward, ancestors_of_parent? h hp]

/-- The way up from a node without a parent ends there. -/
lemma upward_of_orphan {t : SyntaxTree} {id : NodeId} (hp : t.parent? id = none) :
    t.upward id = [id] := by
  cases id <;> simp [upward, ancestors, ancestorsFrom, hp]

/-- **Induction along the way up**: a property of nodes that holds of the root, and of a node when
it holds of its parent, holds of all nodes. -/
lemma WellFormed.upward_induction {t : SyntaxTree} (h : t.WellFormed) {motive : NodeId → Prop}
    (root : 0 < t.size → motive 0)
    (child : ∀ id p, t.parent? id = some p → motive p → motive id) :
    ∀ id < t.size, motive id := by
  intro id
  induction id using Nat.strongRecOn with
  | _ id ih =>
    intro hid
    cases hp : t.parent? id with
    | none =>
      obtain rfl := (h.orphan hid).mp hp
      exact root hid
    | some p => exact child id p hp (ih p (h.parent_lt hp) (h.parent_lt_size hp))

/-- The way up from a node ends at the root. -/
lemma WellFormed.zero_mem_upward {t : SyntaxTree} (h : t.WellFormed) {id : NodeId}
    (hid : id < t.size) : 0 ∈ t.upward id := by
  refine h.upward_induction (motive := fun id => 0 ∈ t.upward id) ?_ ?_ id hid
  · intro _; simp [upward]
  · intro id p hp ih
    rw [upward_of_parent? h hp]
    exact List.mem_cons_of_mem _ ih

/-- The way up from a node stays in the tree. -/
lemma WellFormed.lt_size_of_mem_upward {t : SyntaxTree} (h : t.WellFormed) {id a : Nat}
    (hid : id < t.size) (ha : a ∈ t.upward id) : a < t.size := by
  rcases List.mem_cons.mp ha with rfl | ha
  · exact hid
  · exact Nat.lt_trans (lt_of_mem_ancestorsFrom h id id ha) hid

/-- The way up from a node on the way up is part of the way up. -/
lemma WellFormed.mem_upward_trans {t : SyntaxTree} (h : t.WellFormed) {id b a : NodeId}
    (hid : id < t.size) (hb : b ∈ t.upward id) (ha : a ∈ t.upward b) : a ∈ t.upward id := by
  revert hb
  refine h.upward_induction (motive := fun id => b ∈ t.upward id → a ∈ t.upward id) ?_ ?_ id hid
  · intro hpos hb
    rw [upward_of_orphan ((h.orphan hpos).mpr rfl)] at hb ⊢
    rw [List.mem_singleton.mp hb, upward_of_orphan ((h.orphan hpos).mpr rfl)] at ha
    exact ha
  · intro id p hp ih hb
    rw [upward_of_parent? h hp] at hb ⊢
    rcases List.mem_cons.mp hb with rfl | hb
    · rwa [upward_of_parent? h hp] at ha
    · exact List.mem_cons_of_mem _ (ih hb)

end SyntaxTree

end Marginalia
