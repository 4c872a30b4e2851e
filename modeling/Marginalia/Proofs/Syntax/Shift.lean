import Marginalia.Proofs.Syntax.Graft
import Mathlib.Data.List.GetD

/-!
# Trees further down

A source with empty lines put before it has the same tree, each node as many lines further down.
Moving a tree down commutes with growing it and with looking at it: lines of nodes move along, and
all that is not a line stays as it is.

A number outside of the tree gives the default node, which does not move.  So a node of the moved
tree is a node of the tree moved by some lines, and by as many as the tree if it lies in it.

## Main definitions

* `Node.shift`, `SyntaxTree.shift` — a node and a tree, some lines further down.

## Main results

* `SyntaxTree.sourceLine_shift` — the line of the source at a place moves along with it.
* `SyntaxTree.insertPlaceholderBefore_shift`, `SyntaxTree.appendPlaceholder_shift` — placeholders
  are put into the moved tree as into the tree.
* `SyntaxTree.Built.shift` — the moved tree grows from the empty one by adding the moved nodes.
-/

namespace Marginalia

/-- A shift moves the line. -/
@[simp] lemma Position.shift_line (k : Int) (p : Position) : (p.shift k).line = p.line + k := rfl

/-- A shift keeps the column. -/
@[simp] lemma Position.shift_column (k : Int) (p : Position) : (p.shift k).column = p.column := rfl

/-- Moving both positions down keeps their order. -/
@[simp] lemma Position.before_shift (k : Int) (p q : Position) :
    (p.shift k).before (q.shift k) = p.before q := by
  rw [Bool.eq_iff_iff, before_iff, before_iff]
  simp

/-- A node some lines further down. -/
def Node.shift (k : Int) (n : Node) : Node :=
  { n with start := n.start.shift k, stop := n.stop.shift k }

/-- What a node is made from, some lines further down. -/
def NodeSpec.shift (k : Int) (spec : NodeSpec) : NodeSpec :=
  { spec with start := spec.start.shift k, stop := spec.stop.shift k }

namespace SyntaxTree

/-- The tree of a source with `k` empty lines put before it. -/
def shift (k : Nat) (t : SyntaxTree) : SyntaxTree :=
  { t with lines := List.replicate k "" ++ t.lines, nodes := t.nodes.map (Node.shift k) }

section Looking

variable {t : SyntaxTree} {id : NodeId} (k : Nat)

/-- A shift keeps the number of nodes. -/
@[simp] lemma size_shift (t : SyntaxTree) : (t.shift k).size = t.size := by
  simp [shift, size]

/-- A shift keeps the root. -/
@[simp] lemma root?_shift (t : SyntaxTree) : (t.shift k).root? = t.root? := by
  simp [shift, root?]

/-- A node of the tree moves along. -/
lemma node_shift (h : id < t.size) : (t.shift k).node id = (t.node id).shift k := by
  have hget : t.nodes[id]? = some t.nodes[id] := Array.getElem?_eq_getElem h
  simp [shift, node, hget]

/-- A node of the moved tree differs from the node of the tree in its lines only. -/
lemma exists_node_shift (t : SyntaxTree) (id : NodeId) :
    ∃ lines, (t.shift k).node id = (t.node id).shift lines := by
  by_cases h : id < t.size
  · exact ⟨k, node_shift k h⟩
  · have hle : t.size ≤ id := Nat.not_lt.mp h
    refine ⟨0, ?_⟩
    rw [node_of_size_le hle, node_of_size_le (by rwa [size_shift])]
    rfl

/-- What is read of a node besides its lines is read of the moved tree as well. -/
lemma read_shift {α : Type} (read : Node → α)
    (h : ∀ (lines : Int) (n : Node), read (n.shift lines) = read n) (t : SyntaxTree) (id : NodeId) :
    read ((t.shift k).node id) = read (t.node id) := by
  obtain ⟨lines, hnode⟩ := exists_node_shift k t id
  rw [hnode, h]

/-- A shift keeps the kinds of nodes. -/
@[simp] lemma kind_node_shift (t : SyntaxTree) (id : NodeId) :
    ((t.shift k).node id).kind = (t.node id).kind :=
  read_shift k Node.kind (fun _ _ => rfl) t id

/-- A shift keeps what nodes accept. -/
@[simp] lemma accepts_node_shift (t : SyntaxTree) (id : NodeId) :
    ((t.shift k).node id).accepts = (t.node id).accepts :=
  read_shift k Node.accepts (fun _ _ => rfl) t id

/-- A shift keeps what nodes tolerate. -/
@[simp] lemma tolerates_node_shift (t : SyntaxTree) (id : NodeId) :
    ((t.shift k).node id).tolerates = (t.node id).tolerates :=
  read_shift k Node.tolerates (fun _ _ => rfl) t id

/-- A shift keeps the placeholders. -/
@[simp] lemma placeholder_node_shift (t : SyntaxTree) (id : NodeId) :
    ((t.shift k).node id).placeholder = (t.node id).placeholder :=
  read_shift k Node.placeholder (fun _ _ => rfl) t id

/-- A shift keeps the places among siblings. -/
@[simp] lemma index_node_shift (t : SyntaxTree) (id : NodeId) :
    ((t.shift k).node id).index = (t.node id).index :=
  read_shift k Node.index (fun _ _ => rfl) t id

/-- A shift keeps the columns in which nodes start. -/
@[simp] lemma start_column_node_shift (t : SyntaxTree) (id : NodeId) :
    ((t.shift k).node id).start.column = (t.node id).start.column :=
  read_shift k (fun n => n.start.column) (fun _ _ => rfl) t id

/-- A shift keeps the parents. -/
@[simp] lemma parent?_shift (t : SyntaxTree) (id : NodeId) :
    (t.shift k).parent? id = t.parent? id :=
  read_shift k Node.parent (fun _ _ => rfl) t id

/-- A shift keeps the children. -/
@[simp] lemma children_shift (t : SyntaxTree) (id : NodeId) :
    (t.shift k).children id = t.children id :=
  read_shift k Node.children (fun _ _ => rfl) t id

/-- **The line at a place moves along with it**, also outside of the source: what comes to stand
before the source is empty, as everything there was. -/
lemma sourceLine_shift (t : SyntaxTree) (line : Int) :
    (t.shift k).sourceLine (line + k) = t.sourceLine line := by
  unfold sourceLine
  by_cases hout : line < 1
  · rw [if_pos hout]
    split
    · rfl
    · have hlt : (line + k - 1).toNat < (List.replicate k "").length := by
        rw [List.length_replicate]
        omega
      show (List.replicate k "" ++ t.lines).getD _ _ = _
      rw [List.getD_append _ _ _ _ hlt, List.getD_replicate]
      simpa using hlt
  · rw [if_neg hout, if_neg (by omega)]
    have hle : (List.replicate k "").length ≤ (line + k - 1).toNat := by
      rw [List.length_replicate]
      omega
    show (List.replicate k "" ++ t.lines).getD _ _ = _
    rw [List.getD_append_right _ _ _ _ hle]
    congr 1
    rw [List.length_replicate]
    omega

/-- A shift keeps the nodes above a node, as far as they are asked for. -/
@[simp] lemma ancestorsFrom_shift (t : SyntaxTree) (steps : Nat) (id : NodeId) :
    (t.shift k).ancestorsFrom steps id = t.ancestorsFrom steps id := by
  induction steps generalizing id with
  | zero => rfl
  | succ steps ih => simp only [ancestorsFrom, parent?_shift, ih]

/-- A shift keeps the ways up. -/
@[simp] lemma upward_shift (t : SyntaxTree) (id : NodeId) :
    (t.shift k).upward id = t.upward id := by
  simp [upward, ancestors]

/-- A shift keeps the places that are looked up in a parent. -/
@[simp] lemma indexInParent_shift (t : SyntaxTree) (id : NodeId) :
    (t.shift k).indexInParent id = t.indexInParent id := by
  simp only [indexInParent, parent?_shift, index_node_shift, children_shift, kind_node_shift]

/-- A shift keeps the next siblings. -/
@[simp] lemma nextSibling_shift (t : SyntaxTree) (id : NodeId) :
    (t.shift k).nextSibling id = t.nextSibling id := by
  simp only [nextSibling, parent?_shift, indexInParent_shift, children_shift]

end Looking

section Growing

variable (k : Nat)

/-- A change of a node that leaves its lines alone commutes with moving the tree. -/
lemma modify_shift (t : SyntaxTree) (id : NodeId) {f : Node → Node}
    (hf : ∀ n : Node, (f n).shift k = f (n.shift k)) :
    (t.modify id f).shift k = (t.shift k).modify id f := by
  have hnodes : (t.nodes.modify id f).map (Node.shift k) =
      (t.nodes.map (Node.shift k)).modify id f := by
    apply Array.ext_getElem?
    intro i
    simp only [Array.getElem?_map, Array.getElem?_modify]
    split <;> simp [Function.comp_def, hf]
  simp only [shift, modify, hnodes]

/-- Places may be noted before a shift or behind it. -/
lemma reindex_shift (t : SyntaxTree) (i : Nat) (ids : List NodeId) :
    (t.reindex i ids).shift k = (t.shift k).reindex i ids := by
  induction ids generalizing t i with
  | nil => rfl
  | cons id ids ih =>
    have hmodify := modify_shift k t id (f := fun n => { n with index := some i }) fun _ => rfl
    rw [reindex, reindex, ih, hmodify]

/-- A placeholder may be added before a shift or behind it. -/
lemma addPlaceholder_shift (t : SyntaxTree) (parent : NodeId) (place : Position) (index : Nat)
    (children : List NodeId) :
    (t.addPlaceholder parent place index children).shift k =
      (t.shift k).addPlaceholder parent (place.shift k) index children := by
  have hmodify := modify_shift k t parent (f := fun n => { n with children := children })
    fun _ => rfl
  simp only [addPlaceholder, ← hmodify]
  simp [shift, placeholderAt, Node.shift]

/-- **A placeholder before a node** moves down with the node. -/
lemma insertPlaceholderBefore_shift (t : SyntaxTree) (anchor : NodeId) :
    (t.shift k).insertPlaceholderBefore anchor =
      (t.insertPlaceholderBefore anchor).map fun grown => (grown.1, grown.2.shift k) := by
  unfold insertPlaceholderBefore
  rw [parent?_shift, indexInParent_shift]
  cases hparent : t.parent? anchor with
  | none => rfl
  | some p =>
    cases hindex : t.indexInParent anchor with
    | error e => rfl
    | ok index =>
      cases index with
      | none => rfl
      | some i =>
        have hanchor := node_shift k (lt_size_of_parent? hparent)
        show Except.ok (_, _) = Except.ok (_, SyntaxTree.shift k _)
        rw [size_shift, children_shift, hanchor, reindex_shift, addPlaceholder_shift]
        rfl

/-- **A placeholder at the end of a node** moves down with the node. -/
lemma appendPlaceholder_shift {t : SyntaxTree} {parent : NodeId} (h : parent < t.size) :
    (t.shift k).appendPlaceholder parent =
      ((t.appendPlaceholder parent).1, (t.appendPlaceholder parent).2.shift k) := by
  simp only [appendPlaceholder, size_shift, children_shift, node_shift k h, addPlaceholder_shift]
  rfl

/-- Adding a node to the moved tree. -/
lemma addChild_shift (t : SyntaxTree) (parent : NodeId) (spec : NodeSpec) :
    ((t.addChild parent spec).2).shift k = ((t.shift k).addChild parent (spec.shift k)).2 := by
  have hmodify := modify_shift k t parent
    (f := fun n => { n with children := n.children ++ [t.size] }) fun _ => rfl
  have hchildren : ((t.shift k).node parent).children = (t.node parent).children :=
    children_shift k t parent
  simp only [addChild, acceptsComments, size_shift, kind_node_shift, hchildren, ← hmodify]
  simp [shift, Node.shift, NodeSpec.shift]

/-- Adding a root to the moved tree. -/
lemma addRoot_shift {t t' : SyntaxTree} {spec : NodeSpec} {id : NodeId}
    (h : t.addRoot spec = .ok (id, t')) :
    (t.shift k).addRoot (spec.shift k) = .ok (id, t'.shift k) := by
  unfold addRoot at h ⊢
  split at h
  · next hempty =>
    obtain ⟨rfl, rfl⟩ := Prod.mk.inj (Except.ok.inj h)
    rw [if_pos (by simpa [shift] using hempty)]
    simp [shift, size, Node.shift, NodeSpec.shift]
  · simp at h

/-- **The moved tree grows from the empty one** by adding the moved nodes. -/
lemma Built.shift {t : SyntaxTree} (h : t.Built) : (t.shift k).Built := by
  induction h with
  | empty policy lines =>
    have hempty : (SyntaxTree.empty policy lines).shift k =
        SyntaxTree.empty policy (List.replicate k "" ++ lines) := by
      simp [SyntaxTree.shift, SyntaxTree.empty]
    rw [hempty]
    exact .empty policy _
  | addRoot _ hroot ih => exact .addRoot ih (addRoot_shift k hroot)
  | @addChild t p spec _ hp ih =>
    rw [addChild_shift]
    exact .addChild _ ih (by rwa [size_shift])

end Growing

end SyntaxTree

end Marginalia
