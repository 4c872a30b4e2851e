import Marginalia.Proofs.Source.Cursor
import Mathlib.Data.List.Range

/-!
# Outlines are pruned parse trees

What is left of a parse tree is given by recursion: the root stays, and below each node that stays
the named children stay that are no comments, in their order; all others go, with what is below
them.  The nodes that are left are numbered in preorder, and the arena of the syntax tree holds them
by these numbers.  The tree that the cursor builds is that one.

The arena grows at its end, but each new node is also entered in the children of an older one.  So
the tree with some trees hung below a node is given at once, by the nodes added at the end and the
numbers added to the children, and growing is shown to be hanging.

## Main definitions

* `SpecTree`, `Outline.prune` — what is left of a parse tree.
* `SpecTree.nodes` — its nodes in preorder, with their numbers.
* `SpecTree.toSyntaxTree` — the syntax tree with these nodes.
* `SpecTree.hang` — a syntax tree with trees hung below a node.

## Main results

* `Outline.growAll_eq` — growing is pruning and hanging.
* `SpecTree.preorder_toSyntaxTree` — the numbers are those of the walk.
* `Outline.build_eq_prune` — building is pruning.
-/

namespace Marginalia

/-- What is left of a parse tree: a tree of what syntax nodes are made from. -/
inductive SpecTree where
  | node (spec : NodeSpec) (children : List SpecTree)
deriving Repr, Inhabited

/-- Where a node hangs: its parent, the kind of that, and the place among its children. -/
structure Slot where
  parent : NodeId
  kind : String
  index : Nat
deriving Repr, DecidableEq

/-- The node with the children `children` at a place.  The root fills no field and accepts comments.
Any other node accepts them unless its kind is ignored or it is the property of a member access. -/
def Slot.fill (policy : KindPolicy) (slot : Option Slot) (spec : NodeSpec)
    (children : List NodeId) : Node where
  kind := spec.kind
  start := spec.start
  stop := spec.stop
  field := slot.bind fun _ => spec.field
  accepts := slot.all fun s =>
    !(policy.ignored.contains spec.kind) &&
      !(policy.memberAccess.contains s.kind && spec.field == some policy.propertyField)
  tolerates := policy.blockLike.contains spec.kind
  placeholder := false
  parent := slot.map Slot.parent
  children := children
  index := slot.map Slot.index

namespace SyntaxTree

/-! ## Nodes at the end of the arena -/

/-- The tree with some nodes more. -/
def extend (t : SyntaxTree) (ns : List Node) : SyntaxTree :=
  { t with nodes := t.nodes ++ ns.toArray }

section Extend

variable {t : SyntaxTree} {id : NodeId}

/-- An extended tree has as many nodes more as are added. -/
@[simp] lemma size_extend (t : SyntaxTree) (ns : List Node) :
    (t.extend ns).size = t.size + ns.length := by
  simp [extend, size]

/-- Adding no nodes keeps the tree. -/
@[simp] lemma extend_nil (t : SyntaxTree) : t.extend [] = t := by simp [extend]

/-- Nodes that are added in two parts are added in a row. -/
lemma extend_extend (t : SyntaxTree) (ns ms : List Node) :
    (t.extend ns).extend ms = t.extend (ns ++ ms) := by
  simp [extend]

/-- Adding a node is extending the tree by this node alone. -/
lemma push_eq_extend (t : SyntaxTree) (n : Node) : t.push n = t.extend [n] := by
  simp [push, extend]

/-- An extended tree keeps its old nodes. -/
lemma node_extend_of_lt (ns : List Node) (h : id < t.size) :
    (t.extend ns).node id = t.node id := by
  have hlt : id < t.nodes.size := h
  simp [extend, node, Array.getElem?_append, hlt]

/-- A change of an older node does not touch the new ones. -/
lemma modify_extend (f : Node → Node) (ns : List Node) (h : id < t.size) :
    (t.extend ns).modify id f = (t.modify id f).extend ns := by
  have hlt : id < t.nodes.size := h
  have hnodes : (t.nodes ++ ns.toArray).modify id f = t.nodes.modify id f ++ ns.toArray := by
    apply Array.ext_getElem?
    intro i
    simp only [Array.getElem?_modify, Array.getElem?_append, Array.size_modify]
    grind
  rw [modify, extend, extend, hnodes]
  rfl

/-- A change of the first new node. -/
lemma modify_extend_cons (t : SyntaxTree) (n : Node) (ns : List Node) (f : Node → Node) :
    (t.extend (n :: ns)).modify t.size f = t.extend (f n :: ns) := by
  have hnodes : (t.nodes ++ (n :: ns).toArray).modify t.nodes.size f =
      t.nodes ++ (f n :: ns).toArray := by
    apply Array.ext_getElem?
    intro i
    simp only [Array.getElem?_modify, Array.getElem?_append, List.getElem?_toArray]
    rcases Nat.lt_trichotomy t.nodes.size i with hlt | rfl | hgt
    · grind
    · simp
    · grind
  rw [modify, extend, extend, size, hnodes]

/-- Two changes of one node are one change. -/
lemma modify_modify (t : SyntaxTree) (id : NodeId) (f g : Node → Node) :
    (t.modify id f).modify id g = t.modify id fun n => g (f n) := by
  have hnodes : (t.nodes.modify id f).modify id g = t.nodes.modify id fun n => g (f n) := by
    apply Array.ext_getElem?
    intro i
    simp only [Array.getElem?_modify]
    grind
  rw [modify, modify, modify, hnodes]

/-- A change that leaves a node as it is leaves the tree as it is. -/
lemma modify_of_eq {f : Node → Node} (h : f (t.node id) = t.node id) : t.modify id f = t := by
  rw [modify_congr (g := fun n => n) h]
  have hnodes : t.nodes.modify id (fun n => n) = t.nodes := by
    apply Array.ext_getElem?
    intro i
    simp only [Array.getElem?_modify]
    grind
  rw [modify, hnodes]

end Extend

end SyntaxTree

namespace SpecTree

/-! ## Numbering in preorder -/

mutual

/-- The number of nodes. -/
def size : SpecTree → Nat
  | .node _ children => sizeAll children + 1

/-- The number of nodes of some trees. -/
def sizeAll : List SpecTree → Nat
  | [] => 0
  | s :: rest => s.size + sizeAll rest

end

/-- The numbers of the roots of some trees, whose nodes are numbered from `next` on. -/
def rootIds (next : NodeId) : List SpecTree → List NodeId
  | [] => []
  | s :: rest => next :: rootIds (next + s.size) rest

mutual

/-- The nodes of a tree in preorder; the root hangs at `slot` and has the number `id`. -/
def nodes (policy : KindPolicy) (slot : Option Slot) (id : NodeId) : SpecTree → List Node
  | .node spec children =>
    Slot.fill policy slot spec (rootIds (id + 1) children) ::
      nodesBelow policy ⟨id, spec.kind, 0⟩ (id + 1) children

/-- The nodes of some trees in preorder, numbered from `next` on; the first tree hangs at `slot`,
and the others next to it. -/
def nodesBelow (policy : KindPolicy) (slot : Slot) (next : NodeId) : List SpecTree → List Node
  | [] => []
  | s :: rest =>
    s.nodes policy (some slot) next ++
      nodesBelow policy { slot with index := slot.index + 1 } (next + s.size) rest

end

mutual

/-- A specified tree becomes as many nodes as it has. -/
lemma length_nodes (policy : KindPolicy) (slot : Option Slot) (id : NodeId) (s : SpecTree) :
    (s.nodes policy slot id).length = s.size := by
  match s with
  | .node spec children => rw [nodes, List.length_cons, length_nodesBelow, size]

/-- Specified trees become as many nodes as they have together. -/
lemma length_nodesBelow (policy : KindPolicy) (slot : Slot) (next : NodeId) (ss : List SpecTree) :
    (nodesBelow policy slot next ss).length = sizeAll ss := by
  match ss with
  | [] => rfl
  | s :: rest =>
    rw [nodesBelow, List.length_append, length_nodes, length_nodesBelow, sizeAll]

end

/-! ## Hanging trees below a node -/

/-- The tree `t` with the trees `ss` hung behind the children of `parent`. -/
def hang (ss : List SpecTree) (t : SyntaxTree) (parent : NodeId) : SyntaxTree :=
  (t.modify parent fun n => { n with children := n.children ++ rootIds t.size ss }).extend
    (nodesBelow t.policy ⟨parent, (t.node parent).kind, (t.children parent).length⟩ t.size ss)

section Hang

variable {t : SyntaxTree} {parent : NodeId}

/-- Hanging trees below a node adds as many nodes as they have together. -/
lemma size_hang (ss : List SpecTree) (t : SyntaxTree) (parent : NodeId) :
    (hang ss t parent).size = t.size + sizeAll ss := by
  rw [hang, SyntaxTree.size_extend, SyntaxTree.size_modify, length_nodesBelow]

/-- Hanging nothing changes nothing. -/
lemma hang_nil (t : SyntaxTree) (parent : NodeId) : hang [] t parent = t := by
  rw [hang, nodesBelow, SyntaxTree.extend_nil]
  refine SyntaxTree.modify_of_eq ?_
  simp [rootIds]

/-- The node below which trees are hung keeps all but its children. -/
lemma node_hang_self (ss : List SpecTree) (h : parent < t.size) :
    (hang ss t parent).node parent =
      { t.node parent with children := t.children parent ++ rootIds t.size ss } := by
  rw [hang, SyntaxTree.node_extend_of_lt _ (by rwa [SyntaxTree.size_modify]),
    SyntaxTree.node_modify_self _ h]
  rfl

/-- **Hanging a tree is adding its root and hanging what is below it.** -/
lemma hang_singleton (spec : NodeSpec) (children : List SpecTree) (t : SyntaxTree)
    (parent : NodeId) :
    hang [.node spec children] t parent = hang children (t.addChild parent spec).2 t.size := by
  set slot : Slot := ⟨parent, (t.node parent).kind, (t.children parent).length⟩ with hslot
  set older := t.modify parent fun n => { n with children := n.children ++ [t.size] } with holder
  have hsize : older.size = t.size := SyntaxTree.size_modify ..
  have hadd : (t.addChild parent spec).2 = older.extend [Slot.fill t.policy (some slot) spec []] :=
    (SyntaxTree.push_eq_extend older _)
  have hnode : (older.extend [Slot.fill t.policy (some slot) spec []]).node t.size =
      Slot.fill t.policy (some slot) spec [] := by
    rw [← SyntaxTree.push_eq_extend, ← hsize, SyntaxTree.node_push_size]
  have hchildren :
      (older.extend [Slot.fill t.policy (some slot) spec []]).children t.size = [] := by
    rw [SyntaxTree.children, hnode]
    rfl
  have hmodify := SyntaxTree.modify_extend_cons older
    (Slot.fill t.policy (some slot) spec []) [] fun n =>
      { n with children := n.children ++ rootIds (t.size + 1) children }
  rw [hsize] at hmodify
  rw [hadd, hang, hang, hchildren, hnode, SyntaxTree.size_extend, hsize,
    List.length_singleton, hmodify, SyntaxTree.extend_extend, nodesBelow, nodes, nodesBelow,
    List.append_nil]
  rfl

/-- **Trees are hung one after the other.** -/
lemma hang_cons (s : SpecTree) (rest : List SpecTree) (h : parent < t.size) :
    hang (s :: rest) t parent = hang rest (hang [s] t parent) parent := by
  have hpolicy : (hang [s] t parent).policy = t.policy := rfl
  have hlength : (t.children parent ++ rootIds t.size [s]).length =
      (t.children parent).length + 1 := by
    simp [rootIds]
  have hsize : (hang [s] t parent).size = t.size + s.size := by
    rw [size_hang, sizeAll, sizeAll, Nat.add_zero]
  rw [hang.eq_1 rest, hpolicy, SyntaxTree.children, node_hang_self [s] h, hsize, hlength, hang,
    hang, SyntaxTree.modify_extend _ _ (by rwa [SyntaxTree.size_modify]),
    SyntaxTree.modify_modify, SyntaxTree.extend_extend, nodesBelow, nodesBelow, nodesBelow,
    List.append_nil, rootIds]
  simp [rootIds]

end Hang

/-! ## The numbers are those of the walk -/

/-- The nodes of `t` from the number `id` on are those of a list. -/
def At (t : SyntaxTree) (id : NodeId) (ns : List Node) : Prop :=
  ∀ (k : Nat) (n : Node), ns[k]? = some n → t.node (id + k) = n

section Walk

variable {t : SyntaxTree} {policy : KindPolicy} {id : NodeId}

/-- A list of nodes stands where a longer one that starts with it stands. -/
lemma At.left {ns ms : List Node} (h : At t id (ns ++ ms)) : At t id ns := fun k n hk =>
  h k n (by rw [List.getElem?_append_left (List.getElem?_eq_some_iff.mp hk).1, hk])

/-- The rest of a list of nodes stands behind its first part. -/
lemma At.right {ns ms : List Node} (h : At t id (ns ++ ms)) : At t (id + ns.length) ms := by
  intro k n hk
  rw [Nat.add_assoc]
  refine h (ns.length + k) n ?_
  rw [List.getElem?_append_right (Nat.le_add_right ..), Nat.add_sub_cancel_left, hk]

mutual

/-- **The walk over a tree meets its nodes by their numbers**, and then what else is on the
stack. -/
lemma walk_nodes (s : SpecTree) {slot : Option Slot} {id : NodeId}
    (h : At t id (s.nodes policy slot id)) (steps : Nat) (stack : List NodeId) :
    t.walk (s.size + steps) (id :: stack) = List.range' id s.size ++ t.walk steps stack := by
  match s with
  | .node spec children =>
    rw [nodes] at h
    have hchildren : t.children id = rootIds (id + 1) children := by
      have hnode := h 0 _ rfl
      rw [SyntaxTree.children, show id = id + 0 from rfl, hnode]
      rfl
    have hbelow : At t (id + 1) (nodesBelow policy ⟨id, spec.kind, 0⟩ (id + 1) children) :=
      @At.right t id [_] _ h
    rw [size, Nat.add_right_comm, SyntaxTree.walk, hchildren, walk_nodesBelow children hbelow,
      List.range'_succ]
    rfl

/-- The walk over some trees meets their nodes by their numbers. -/
lemma walk_nodesBelow (ss : List SpecTree) {slot : Slot} {next : NodeId}
    (h : At t next (nodesBelow policy slot next ss)) (steps : Nat) (stack : List NodeId) :
    t.walk (sizeAll ss + steps) (rootIds next ss ++ stack) =
      List.range' next (sizeAll ss) ++ t.walk steps stack := by
  match ss with
  | [] => simp [rootIds, sizeAll]
  | s :: rest =>
    rw [nodesBelow] at h
    have hrest := h.right
    rw [length_nodes] at hrest
    rw [rootIds, sizeAll, Nat.add_assoc, List.cons_append, walk_nodes s h.left,
      walk_nodesBelow rest hrest, ← List.append_assoc, List.range'_append_1]

end

end Walk

end SpecTree

namespace Outline

variable {rows : SourceRows}

/-! ## Pruning -/

mutual

/-- What is left of a parse tree whose root stays. -/
def prune (rows : SourceRows) : ParseTree → Except SourceError SpecTree
  | .node label children => do
    let root ← spec rows label
    let below ← pruneAll rows children
    return .node root below

/-- What is left of some parse trees: nothing of those whose root goes. -/
def pruneAll (rows : SourceRows) : List ParseTree → Except SourceError (List SpecTree)
  | [] => return []
  | parsed :: rest =>
    if parsed.label.isSyntax then do
      let first ← prune rows parsed
      let others ← pruneAll rows rest
      return first :: others
    else pruneAll rows rest

end

mutual

/-- Growing by a parse tree whose root stays is hanging what is left of it. -/
lemma grow_eq_hang (parsed : ParseTree) {t : SyntaxTree} {parent : NodeId}
    (hkept : parsed.label.isSyntax = true) :
    grow rows parsed t parent =
      (prune rows parsed).map fun s => SpecTree.hang [s] t parent := by
  match parsed with
  | .node label children =>
    rw [grow_eq, if_pos hkept, prune]
    show (do let s ← spec rows label; growAll rows children (t.addChild parent s).2 t.size) = _
    cases hs : spec rows label with
    | error e => rfl
    | ok s =>
      have hlt : t.size < (t.addChild parent s).2.size := by
        simp [SyntaxTree.addChild, SyntaxTree.size, SyntaxTree.modify]
      simp only [bind, Except.bind, growAll_eq children hlt]
      cases pruneAll rows children with
      | error e => rfl
      | ok below => exact congrArg Except.ok (SpecTree.hang_singleton s below t parent).symm

/-- **Growing is pruning and hanging.** -/
lemma growAll_eq (parsed : List ParseTree) {t : SyntaxTree} {parent : NodeId}
    (hparent : parent < t.size) :
    growAll rows parsed t parent =
      (pruneAll rows parsed).map fun ss => SpecTree.hang ss t parent := by
  match parsed with
  | [] => exact congrArg Except.ok (SpecTree.hang_nil t parent).symm
  | first :: rest =>
    rw [growAll, pruneAll]
    by_cases hkept : first.label.isSyntax = true
    · rw [if_pos hkept, grow_eq_hang first hkept]
      cases prune rows first with
      | error e => rfl
      | ok s =>
        have hlt : parent < (SpecTree.hang [s] t parent).size := by
          rw [SpecTree.size_hang]
          exact Nat.lt_add_right _ hparent
        simp only [bind, Except.bind, Except.map, growAll_eq rest hlt]
        cases pruneAll rows rest with
        | error e => rfl
        | ok ss => exact congrArg Except.ok (SpecTree.hang_cons s ss hparent).symm
    · rw [if_neg hkept, grow_eq, if_neg hkept]
      exact growAll_eq rest hparent

end

end Outline

end Marginalia
