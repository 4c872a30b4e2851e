import Marginalia.Proofs.Syntax.Graft

/-!
# Trees with any flags

Whether a node accepts comments is a flag that can be set on every node, also on the root.  What
makes the numbers in an arena a tree does not depend on it.  So a tree that is well formed but for
the flag of its root becomes well formed once the root accepts comments, with the same parents and
children, and what holds of the way up in the one holds in the other.

## Main definitions

* `SyntaxTree.Arranged` — the numbers in the arena describe a tree, whatever its flags are.

## Main results

* `SyntaxTree.Arranged.setAccepts` — flags can be set at will.
* `SyntaxTree.Arranged.wellFormed` — such a tree is well formed once its root accepts comments.
* `SyntaxTree.Arranged.graft_insertPlaceholderBefore` — placeholders can be inserted in it.
-/

namespace Marginalia

namespace SyntaxTree

/-- The numbers in the arena describe a tree, whatever its flags are. -/
structure Arranged (t : SyntaxTree) : Prop where
  /-- Parents are older than their children. -/
  parent_lt : ∀ {id p : Nat}, t.parent? id = some p → p < id
  /-- Only the first node has no parent. -/
  orphan : ∀ {id : Nat}, id < t.size → (t.parent? id = none ↔ id = 0)
  /-- A node stands at its stored place among the children of its parent. -/
  indexed : ∀ {id p : NodeId}, t.parent? id = some p →
    ∃ i, (t.node id).index = some i ∧ (t.children p)[i]? = some id
  /-- A node is the parent of its children. -/
  parent_of_mem : ∀ {p c : NodeId}, c ∈ t.children p → t.parent? c = some p
  /-- No child is listed twice. -/
  nodup : ∀ p : NodeId, (t.children p).Nodup

/-- A well-formed tree is arranged. -/
lemma WellFormed.arranged {t : SyntaxTree} (h : t.WellFormed) : t.Arranged :=
  ⟨h.parent_lt, h.orphan, h.indexed, h.parent_of_mem, h.nodup⟩

/-! ## Setting a flag -/

section Flags

variable (t : SyntaxTree) (id a : NodeId) (accepts : Bool)

/-- Setting what a node accepts keeps the number of nodes. -/
@[simp] lemma size_setAccepts : (t.setAccepts id accepts).size = t.size := size_modify ..

/-- Setting a flag changes nothing else of any node. -/
lemma exists_node_setAccepts :
    ∃ flag, (t.setAccepts id accepts).node a = { t.node a with accepts := flag } := by
  by_cases ha : a = id
  · by_cases hlt : id < t.size
    · exact ⟨accepts, by rw [ha, setAccepts, node_modify_self _ hlt]⟩
    · -- there is no such node
      have hle : t.size ≤ a := ha ▸ Nat.not_lt.mp hlt
      have hle' : (t.setAccepts id accepts).size ≤ a := by rwa [size_setAccepts]
      exact ⟨(default : Node).accepts, by rw [node_of_size_le hle, node_of_size_le hle']⟩
  · exact ⟨(t.node a).accepts, by rw [setAccepts, node_modify_of_ne _ ha]⟩

/-- Setting what a node accepts keeps the parents. -/
@[simp] lemma parent?_setAccepts : (t.setAccepts id accepts).parent? a = t.parent? a := by
  obtain ⟨flag, hnode⟩ := exists_node_setAccepts t id a accepts
  rw [parent?, hnode, parent?]

/-- Setting what a node accepts keeps the children. -/
@[simp] lemma children_setAccepts : (t.setAccepts id accepts).children a = t.children a := by
  obtain ⟨flag, hnode⟩ := exists_node_setAccepts t id a accepts
  rw [SyntaxTree.children, hnode, SyntaxTree.children]

/-- Setting what a node accepts keeps the places among siblings. -/
@[simp] lemma index_setAccepts :
    ((t.setAccepts id accepts).node a).index = (t.node a).index := by
  obtain ⟨flag, hnode⟩ := exists_node_setAccepts t id a accepts
  rw [hnode]

/-- Setting what a node accepts keeps the next siblings. -/
@[simp] lemma nextSibling_setAccepts :
    (t.setAccepts id accepts).nextSibling a = t.nextSibling a := by
  obtain ⟨flag, hnode⟩ := exists_node_setAccepts t id a accepts
  simp [nextSibling, indexInParent, hnode]

/-- Setting what a node accepts keeps the ways up. -/
@[simp] lemma upward_setAccepts : (t.setAccepts id accepts).upward a = t.upward a := by
  have hfrom : ∀ steps b,
      (t.setAccepts id accepts).ancestorsFrom steps b = t.ancestorsFrom steps b := by
    intro steps
    induction steps with
    | zero => exact fun _ => rfl
    | succ steps ih =>
      intro b
      rw [ancestorsFrom, ancestorsFrom, parent?_setAccepts]
      cases t.parent? b with
      | none => rfl
      | some p => simp only [ih]
  rw [upward, upward, ancestors, ancestors, hfrom]

end Flags

namespace Arranged

variable {t : SyntaxTree} {id p : NodeId}

/-- **Flags can be set at will.** -/
lemma setAccepts (h : t.Arranged) (id : NodeId) (accepts : Bool) :
    (t.setAccepts id accepts).Arranged where
  parent_lt := fun hp => h.parent_lt (by simpa using hp)
  orphan := fun hid => by simpa using h.orphan (by simpa using hid)
  indexed := fun hp => by simpa using h.indexed (by simpa using hp)
  parent_of_mem := fun hc => by simpa using h.parent_of_mem (by simpa using hc)
  nodup := fun p => by simpa using h.nodup p

/-- **A tree is well formed once its root accepts comments.** -/
lemma wellFormed (h : t.Arranged) : (t.setAccepts 0 true).WellFormed where
  parent_lt := (h.setAccepts 0 true).parent_lt
  orphan := (h.setAccepts 0 true).orphan
  indexed := (h.setAccepts 0 true).indexed
  parent_of_mem := (h.setAccepts 0 true).parent_of_mem
  nodup := (h.setAccepts 0 true).nodup
  root_accepts := by
    intro hpos
    rw [size_setAccepts] at hpos
    rw [SyntaxTree.setAccepts, node_modify_self _ hpos]

/-- The way up from a node goes on from its parent. -/
lemma upward_of_parent? (h : t.Arranged) (hp : t.parent? id = some p) :
    t.upward id = id :: t.upward p := by
  have hup : (t.setAccepts 0 true).upward id = id :: (t.setAccepts 0 true).upward p :=
    SyntaxTree.upward_of_parent? h.wellFormed (by rwa [parent?_setAccepts])
  simpa using hup

/-- Induction along the way up. -/
lemma upward_induction (h : t.Arranged) {motive : NodeId → Prop} (root : 0 < t.size → motive 0)
    (child : ∀ id p, t.parent? id = some p → motive p → motive id) :
    ∀ id < t.size, motive id := by
  have hall := h.wellFormed.upward_induction (motive := motive) (by simpa using root)
    (by simpa using child)
  simpa using hall

/-- The child behind a node is found. -/
lemma nextSibling_eq (h : t.Arranged) {left right : List NodeId}
    (hc : t.children p = left ++ id :: right) : t.nextSibling id = .ok right.head? := by
  have hp : t.parent? id = some p := h.parent_of_mem (by simp [hc])
  have hnext : (t.setAccepts 0 true).nextSibling id = .ok right.head? :=
    h.wellFormed.nextSibling_eq (by rwa [parent?_setAccepts]) (by rwa [children_setAccepts])
  rwa [nextSibling_setAccepts] at hnext

/-- **Placeholders can be inserted** before every node but the root. -/
lemma graft_insertPlaceholderBefore (h : t.Arranged) {anchor : NodeId}
    (hp : t.parent? anchor = some p) :
    ∃ (t' : SyntaxTree) (left right : List NodeId),
      t.insertPlaceholderBefore anchor = .ok (t.size, t') ∧
      t'.placeholderCount = t.placeholderCount + 1 ∧
      Graft t t' p left (anchor :: right) (placeholderAt p (t.node anchor).start left.length) := by
  obtain ⟨i, hi, hget⟩ := h.indexed hp
  have hindex : t.indexInParent anchor = .ok (some i) := by simp [indexInParent, hp, hi, hget]
  exact graft_insertPlaceholderBefore_of_index hp
    (fun _ hc => lt_size_of_parent? (h.parent_of_mem hc)) (h.nodup p)
    (Nat.lt_trans (h.parent_lt hp) (lt_size_of_parent? hp)) hindex hget

end Arranged

end SyntaxTree

end Marginalia
