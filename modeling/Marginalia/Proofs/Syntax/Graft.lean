import Marginalia.Proofs.Syntax.WellFormed

/-!
# Grafting a node

All ways in which a tree grows below its root are of one kind: a fresh node takes the next number
and is put among the children of an older node, and the children behind it move up by one place.
What such a graft leaves alone, and that it keeps a tree well formed, is stated once.

## Main definitions

* `SyntaxTree.placeholders` — the number of placeholders.
* `SyntaxTree.Graft` — a tree grows out of another one by one node.
* `SyntaxTree.Built` — the trees that grow from the empty one by adding nodes.

## Main results

* `SyntaxTree.Graft.wellFormed` — grafts keep trees well formed.
* `SyntaxTree.graft_addChild`, `SyntaxTree.graft_appendPlaceholder`,
  `SyntaxTree.graft_insertPlaceholderBefore` — the operations on trees are grafts.
* `SyntaxTree.Built.wellFormed_and_plain` — the trees that grow from the empty one are well formed.
-/

namespace Marginalia

namespace SyntaxTree

/-- The number of placeholders. -/
def placeholders (t : SyntaxTree) : Nat :=
  (List.range t.size).countP fun id => (t.node id).placeholder

/-! ## Grafts -/

/-- The tree `t'` is `t` with the node `fresh` between the children `left` and `right` of `p`. -/
structure Graft (t t' : SyntaxTree) (p : NodeId) (left right : List NodeId) (fresh : Node) :
    Prop where
  parent_lt : p < t.size
  size_eq : t'.size = t.size + 1
  policy_eq : t'.policy = t.policy
  lines_eq : t'.lines = t.lines
  children_before : t.children p = left ++ right
  children_after : t'.children p = left ++ t.size :: right
  children_eq : ∀ {id : NodeId}, id ≠ p → id ≠ t.size → t'.children id = t.children id
  children_fresh : t'.children t.size = []
  core_eq : ∀ {id : NodeId}, id ≠ t.size → (t'.node id).core = (t.node id).core
  core_fresh : (t'.node t.size).core = fresh.core
  parent_fresh : fresh.parent = some p
  index_fresh : (t'.node t.size).index = some left.length
  index_eq : ∀ {id : NodeId}, id ≠ t.size → id ∉ right → (t'.node id).index = (t.node id).index
  index_right : ∀ {i : Nat} {id : NodeId}, right[i]? = some id →
    (t'.node id).index = some (left.length + 1 + i)

namespace Graft

variable {t t' : SyntaxTree} {p : NodeId} {left right : List NodeId} {fresh : Node}

/-- A graft keeps the parents of old nodes. -/
lemma parent?_eq (g : Graft t t' p left right fresh) {id : NodeId} (h : id ≠ t.size) :
    t'.parent? id = t.parent? id := by
  have hc := congrArg Node.parent (g.core_eq h)
  exact hc

/-- The new node hangs below the node it is grafted to. -/
lemma parent?_fresh (g : Graft t t' p left right fresh) : t'.parent? t.size = some p := by
  have hc := congrArg Node.parent g.core_fresh
  exact Eq.trans hc g.parent_fresh

/-- A graft keeps what old nodes accept. -/
lemma accepts_eq (g : Graft t t' p left right fresh) {id : NodeId} (h : id ≠ t.size) :
    (t'.node id).accepts = (t.node id).accepts := by
  have hc := congrArg Node.accepts (g.core_eq h)
  exact hc

/-- A graft makes no old node a placeholder. -/
lemma placeholder_eq (g : Graft t t' p left right fresh) {id : NodeId} (h : id ≠ t.size) :
    (t'.node id).placeholder = (t.node id).placeholder := by
  have hc := congrArg Node.placeholder (g.core_eq h)
  exact hc

/-- The new node is a placeholder if it was made as one. -/
lemma placeholder_fresh (g : Graft t t' p left right fresh) :
    (t'.node t.size).placeholder = fresh.placeholder := by
  have hc := congrArg Node.placeholder g.core_fresh
  exact hc

/-- A graft keeps what old nodes tolerate. -/
lemma tolerates_eq (g : Graft t t' p left right fresh) {id : NodeId} (h : id ≠ t.size) :
    (t'.node id).tolerates = (t.node id).tolerates := by
  have hc := congrArg Node.tolerates (g.core_eq h)
  exact hc

/-- A graft adds a placeholder if its node is one. -/
lemma placeholders_eq (g : Graft t t' p left right fresh) :
    t'.placeholders = t.placeholders + if fresh.placeholder then 1 else 0 := by
  have hold : (List.range t.size).countP (fun id => (t'.node id).placeholder) =
      (List.range t.size).countP (fun id => (t.node id).placeholder) := by
    refine List.countP_congr fun id hid => ?_
    rw [g.placeholder_eq (Nat.ne_of_lt (List.mem_range.mp hid))]
  rw [placeholders, g.size_eq, List.range_succ, List.countP_append, hold, ← placeholders,
    List.countP_singleton, g.placeholder_fresh]

/-- The children of `p` are those from before and the fresh node. -/
lemma mem_children_after (g : Graft t t' p left right fresh) {c : NodeId} :
    c ∈ t'.children p ↔ c = t.size ∨ c ∈ t.children p := by
  rw [g.children_after, g.children_before]
  simp only [List.mem_append, List.mem_cons]
  tauto

/-- The nodes that a graft has in its lists are those of the tree before it, and the fresh one. -/
lemma mem_children (g : Graft t t' p left right fresh) {q c : NodeId} (hc : c ∈ t'.children q) :
    (c = t.size ∧ q = p) ∨ c ∈ t.children q := by
  by_cases hqp : q = p
  · subst hqp
    rcases g.mem_children_after.mp hc with h | h
    · exact .inl ⟨h, rfl⟩
    · exact .inr h
  · by_cases hqs : q = t.size
    · rw [hqs, g.children_fresh] at hc
      simp at hc
    · rw [g.children_eq hqp hqs] at hc
      exact .inr hc

/-- The place of a node behind a graft: nodes behind the fresh one have moved up. -/
lemma indexed (g : Graft t t' p left right fresh) (h : t.WellFormed) {id q : NodeId}
    (hne : id ≠ t.size) (hq : t.parent? id = some q) :
    ∃ i, (t'.node id).index = some i ∧ (t'.children q)[i]? = some id := by
  obtain ⟨i, hi, hget⟩ := h.indexed hq
  have hqs : q ≠ t.size := fun e => Nat.lt_irrefl _ (e ▸ h.parent_lt_size hq)
  by_cases hqp : q = p
  · subst hqp
    rw [g.children_before] at hget
    rw [g.children_after]
    by_cases hlt : i < left.length
    · -- a child before the fresh node keeps its place
      have hleft : left[i]? = some id := by rwa [List.getElem?_append_left hlt] at hget
      have hnd := h.nodup q
      rw [g.children_before] at hnd
      have hright : id ∉ right := fun hr =>
        (List.nodup_append.mp hnd).2.2 id (List.mem_of_getElem? hleft) id hr rfl
      refine ⟨i, (g.index_eq hne hright).trans hi, ?_⟩
      rw [List.getElem?_append_left hlt, hleft]
    · -- a child behind it moves up by one
      rw [List.getElem?_append_right (Nat.not_lt.mp hlt)] at hget
      refine ⟨_, g.index_right hget, ?_⟩
      rw [List.getElem?_append_right (by omega),
        show left.length + 1 + (i - left.length) - left.length = (i - left.length) + 1 by omega,
        List.getElem?_cons_succ, hget]
  · have hright : id ∉ right := by
      intro hr
      have hmem : id ∈ t.children p := by rw [g.children_before]; exact List.mem_append_right _ hr
      have hp := h.parent_of_mem hmem
      exact hqp (Option.some.inj (hq.symm.trans hp))
    exact ⟨i, (g.index_eq hne hright).trans hi, by rw [g.children_eq hqp hqs, hget]⟩

/-- **Grafts keep trees well formed.** -/
theorem wellFormed (g : Graft t t' p left right fresh) (h : t.WellFormed) : t'.WellFormed := by
  have hsize : ∀ {q c : NodeId}, c ∈ t.children q → c ≠ t.size := fun hc e =>
    Nat.lt_irrefl _ (e ▸ h.lt_size_of_mem hc)
  refine ⟨?_, ?_, ?_, ?_, ?_, ?_⟩
  · intro id q hq
    by_cases he : id = t.size
    · rw [he, g.parent?_fresh] at hq
      rw [he, ← Option.some.inj hq]
      exact g.parent_lt
    · exact h.parent_lt ((g.parent?_eq he).symm.trans hq)
  · intro id hid
    rw [g.size_eq] at hid
    have hp := g.parent_lt
    by_cases he : id = t.size
    · rw [he, g.parent?_fresh]
      simp only [reduceCtorEq, false_iff]
      exact fun e => absurd hp (by rw [e]; exact Nat.not_lt_zero p)
    · rw [g.parent?_eq he]
      exact h.orphan (by omega)
  · intro id q hq
    by_cases he : id = t.size
    · rw [he, g.parent?_fresh] at hq
      refine ⟨left.length, he ▸ g.index_fresh, ?_⟩
      rw [← Option.some.inj hq, g.children_after, he]
      simp
    · exact g.indexed h he ((g.parent?_eq he).symm.trans hq)
  · intro q c hc
    rcases g.mem_children hc with ⟨rfl, rfl⟩ | hc
    · exact g.parent?_fresh
    · rw [g.parent?_eq (hsize hc)]
      exact h.parent_of_mem hc
  · intro q
    by_cases hqp : q = p
    · have hnd := h.nodup p
      have hfresh : t.size ∉ t.children p := fun hm => hsize hm rfl
      rw [g.children_before] at hnd hfresh
      rw [hqp, g.children_after, List.nodup_middle]
      exact List.nodup_cons.mpr ⟨hfresh, hnd⟩
    · by_cases hqs : q = t.size
      · rw [hqs, g.children_fresh]
        exact List.nodup_nil
      · rw [g.children_eq hqp hqs]
        exact h.nodup q
  · intro _
    have hpos : 0 < t.size := Nat.lt_of_le_of_lt (Nat.zero_le _) g.parent_lt
    rw [g.accepts_eq (Nat.ne_of_lt hpos)]
    exact h.root_accepts hpos

end Graft

/-! ## Splicing and renumbering -/

/-- The tree with one node more, after the children of `p` were replaced. -/
def splice (t : SyntaxTree) (p : NodeId) (children : List NodeId) (fresh : Node) (count : Nat) :
    SyntaxTree :=
  { (t.modify p fun n => { n with children := children }).push fresh with
    placeholderCount := count }

section Splice

variable {t : SyntaxTree} {p : NodeId} {children : List NodeId} {fresh : Node} {count : Nat}

/-- A splice adds one node. -/
lemma size_splice : (t.splice p children fresh count).size = t.size + 1 := by
  have h := size_push (t.modify p fun n => { n with children := children }) fresh
  rwa [size_modify] at h

/-- The node that a splice adds is the given one. -/
lemma node_splice_fresh : (t.splice p children fresh count).node t.size = fresh := by
  have h := node_push_size (t.modify p fun n => { n with children := children }) fresh
  rwa [size_modify] at h

/-- On old nodes a splice only sets the children of the parent. -/
lemma node_splice_of_ne {id : NodeId} (h : id ≠ t.size) :
    (t.splice p children fresh count).node id =
      (t.modify p fun n => { n with children := children }).node id := by
  have hne : id ≠ (t.modify p fun n => { n with children := children }).size := by
    rwa [size_modify]
  exact node_push_of_ne fresh hne

/-- The parent gets the given children, and keeps all else. -/
lemma node_splice_self (hp : p < t.size) :
    (t.splice p children fresh count).node p = { t.node p with children := children } := by
  rw [node_splice_of_ne (Nat.ne_of_lt hp), node_modify_self _ hp]

/-- A splice keeps all nodes but the new one and its parent. -/
lemma node_splice_other {id : NodeId} (hp : id ≠ p) (h : id ≠ t.size) :
    (t.splice p children fresh count).node id = t.node id := by
  rw [node_splice_of_ne h, node_modify_of_ne _ hp]

/-- A splice keeps the core of every old node. -/
lemma core_splice {id : NodeId} (hp : p < t.size) (h : id ≠ t.size) :
    ((t.splice p children fresh count).node id).core = (t.node id).core := by
  by_cases he : id = p
  · rw [he, node_splice_self hp]
    rfl
  · rw [node_splice_other he h]

/-- A splice keeps the place of every old node as it is noted. -/
lemma index_splice {id : NodeId} (hp : p < t.size) (h : id ≠ t.size) :
    ((t.splice p children fresh count).node id).index = (t.node id).index := by
  by_cases he : id = p
  · rw [he, node_splice_self hp]
  · rw [node_splice_other he h]

end Splice

/-- Putting a node behind all children of `p` is a graft. -/
lemma graft_splice {t : SyntaxTree} {p : NodeId} {fresh : Node} (count : Nat) (hp : p < t.size)
    (hparent : fresh.parent = some p) (hchildren : fresh.children = [])
    (hindex : fresh.index = some (t.children p).length) :
    Graft t (t.splice p (t.children p ++ [t.size]) fresh count) p (t.children p) [] fresh where
  parent_lt := hp
  size_eq := size_splice
  policy_eq := rfl
  lines_eq := rfl
  children_before := by simp
  children_after := by rw [SyntaxTree.children, node_splice_self hp]
  children_eq := fun hid hne => by rw [SyntaxTree.children, node_splice_other hid hne]; rfl
  children_fresh := by rw [SyntaxTree.children, node_splice_fresh, hchildren]
  core_eq := fun hne => core_splice hp hne
  core_fresh := by rw [node_splice_fresh]
  parent_fresh := hparent
  index_fresh := by rw [node_splice_fresh, hindex]
  index_eq := fun hne _ => index_splice hp hne
  index_right := fun h => by simp at h

/-- Noting places anew keeps the number of nodes. -/
@[simp] lemma size_reindex (t : SyntaxTree) (i : Nat) (ids : List NodeId) :
    (t.reindex i ids).size = t.size := by
  induction ids generalizing t i with
  | nil => rfl
  | cons id ids ih => rw [reindex, ih, size_modify]

/-- Renumbering touches neither the policy and the lines nor the count of placeholders. -/
lemma reindex_frame (t : SyntaxTree) (i : Nat) (ids : List NodeId) :
    (t.reindex i ids).policy = t.policy ∧ (t.reindex i ids).lines = t.lines ∧
      (t.reindex i ids).placeholderCount = t.placeholderCount := by
  induction ids generalizing t i with
  | nil => exact ⟨rfl, rfl, rfl⟩
  | cons id ids ih => exact ih (t.modify id fun n => { n with index := some i }) (i + 1)

/-- Nodes that are not listed are kept. -/
lemma node_reindex_of_not_mem {id : NodeId} {ids : List NodeId} (t : SyntaxTree) (i : Nat)
    (h : id ∉ ids) : (t.reindex i ids).node id = t.node id := by
  induction ids generalizing t i with
  | nil => rfl
  | cons other ids ih =>
    rw [List.mem_cons, not_or] at h
    rw [reindex, ih _ _ h.2, node_modify_of_ne _ h.1]

/-- Renumbering writes its place into each node of a list. -/
lemma node_reindex {ids : List NodeId} (t : SyntaxTree) (i : Nat) (hnd : ids.Nodup)
    (hlt : ∀ id ∈ ids, id < t.size) {k : Nat} {id : NodeId} (hk : ids[k]? = some id) :
    (t.reindex i ids).node id = { t.node id with index := some (i + k) } := by
  induction ids generalizing t i k with
  | nil => simp at hk
  | cons head ids ih =>
    obtain ⟨hnot, hnd⟩ := List.nodup_cons.mp hnd
    rw [reindex]
    cases k with
    | zero =>
      obtain rfl : head = id := by simpa using hk
      rw [node_reindex_of_not_mem _ _ hnot, node_modify_self _ (hlt head (List.mem_cons_self ..))]
      rfl
    | succ k =>
      rw [List.getElem?_cons_succ] at hk
      have hne : id ≠ head := fun e => hnot (e ▸ List.mem_of_getElem? hk)
      rw [ih _ _ hnd (fun x hx => by
          rw [size_modify]; exact hlt x (List.mem_cons_of_mem _ hx)) hk,
        node_modify_of_ne _ hne, show i + 1 + k = i + (k + 1) by omega]

/-- Noting places anew keeps the core and the children of every node. -/
lemma core_reindex {ids : List NodeId} (t : SyntaxTree) (i : Nat) (id : NodeId) (hnd : ids.Nodup)
    (hlt : ∀ id ∈ ids, id < t.size) :
    ((t.reindex i ids).node id).core = (t.node id).core ∧
      (t.reindex i ids).children id = t.children id := by
  by_cases hm : id ∈ ids
  · obtain ⟨k, hk⟩ := List.mem_iff_getElem?.mp hm
    rw [SyntaxTree.children, node_reindex t i hnd hlt hk]
    exact ⟨rfl, rfl⟩
  · rw [SyntaxTree.children, node_reindex_of_not_mem t i hm]
    exact ⟨rfl, rfl⟩

/-- Putting a node between the children of `p` and renumbering those behind it is a graft. -/
lemma graft_splice_reindex {t : SyntaxTree} {p : NodeId} {left right : List NodeId} {fresh : Node}
    (count : Nat) (hold : ∀ c ∈ t.children p, c < t.size) (honce : (t.children p).Nodup)
    (hp : p < t.size) (hc : t.children p = left ++ right) (hparent : fresh.parent = some p)
    (hchildren : fresh.children = []) :
    Graft t ((t.splice p (left ++ t.size :: right) fresh count).reindex left.length
      (t.size :: right)) p left right fresh := by
  set s := t.splice p (left ++ t.size :: right) fresh count with hs
  have hmem : ∀ id ∈ right, id < t.size := fun id hid =>
    hold id (by rw [hc]; exact List.mem_append_right _ hid)
  have hfresh : t.size ∉ right := fun hr => Nat.lt_irrefl _ (hmem _ hr)
  have hnd : (t.size :: right).Nodup := by
    rw [hc] at honce
    exact List.nodup_cons.mpr ⟨hfresh, (List.nodup_append.mp honce).2.1⟩
  have hlt : ∀ id ∈ t.size :: right, id < s.size := by
    intro id hid
    rw [hs, size_splice]
    rcases List.mem_cons.mp hid with rfl | hid
    · exact Nat.lt_succ_self _
    · exact Nat.lt_succ_of_lt (hmem id hid)
  have hcore := fun id => core_reindex s left.length id hnd hlt
  refine
    { parent_lt := hp
      size_eq := by rw [size_reindex, hs, size_splice]
      policy_eq := (reindex_frame s _ _).1
      lines_eq := (reindex_frame s _ _).2.1
      children_before := hc
      children_after := ?_
      children_eq := ?_
      children_fresh := ?_
      core_eq := ?_
      core_fresh := ?_
      parent_fresh := hparent
      index_fresh := ?_
      index_eq := ?_
      index_right := ?_ }
  · rw [(hcore p).2, SyntaxTree.children, hs, node_splice_self hp]
  · intro id hid hne
    rw [(hcore id).2, SyntaxTree.children, hs, node_splice_other hid hne]
    rfl
  · rw [(hcore t.size).2, SyntaxTree.children, hs, node_splice_fresh, hchildren]
  · intro id hne
    rw [(hcore id).1, hs, core_splice hp hne]
  · rw [(hcore t.size).1, hs, node_splice_fresh]
  · rw [node_reindex s left.length hnd hlt (k := 0) rfl]
    rfl
  · intro id hne hr
    have hnot : id ∉ t.size :: right := by
      rw [List.mem_cons, not_or]
      exact ⟨hne, hr⟩
    rw [node_reindex_of_not_mem s _ hnot, hs, index_splice hp hne]
  · intro i id hi
    rw [node_reindex s left.length hnd hlt (k := i + 1) (by rwa [List.getElem?_cons_succ])]
    show some (left.length + (i + 1)) = some (left.length + 1 + i)
    rw [Nat.add_comm i 1, Nat.add_assoc]

/-! ## The operations on trees -/

/-- Changing a node depends only on what becomes of that node. -/
lemma modify_congr {t : SyntaxTree} {id : NodeId} {f g : Node → Node}
    (h : f (t.node id) = g (t.node id)) : t.modify id f = t.modify id g := by
  have hn : t.nodes.modify id f = t.nodes.modify id g := by
    apply Array.ext_getElem?
    intro i
    rw [Array.getElem?_modify, Array.getElem?_modify]
    split
    · next he =>
      subst he
      cases hget : t.nodes[id]? with
      | none => rfl
      | some n =>
        have hnode : t.node id = n := by simp [node, hget]
        rw [hnode] at h
        simp [h]
    · rfl
  rw [modify, modify, hn]

/-- Adding a node is a graft behind all children. -/
lemma graft_addChild {t : SyntaxTree} {p : NodeId} (spec : NodeSpec) (hp : p < t.size) :
    ∃ fresh : Node, fresh.placeholder = false ∧
      Graft t (t.addChild p spec).2 p (t.children p) [] fresh ∧
      (t.addChild p spec).2.placeholderCount = t.placeholderCount := by
  let fresh : Node :=
    { kind := spec.kind, start := spec.start, stop := spec.stop, field := spec.field,
      accepts := t.acceptsComments spec.kind (t.node p) spec.field,
      tolerates := t.policy.blockLike.contains spec.kind, placeholder := false,
      parent := some p, children := [], index := some (t.node p).children.length }
  have heq : (t.addChild p spec).2 =
      t.splice p (t.children p ++ [t.size]) fresh t.placeholderCount := by
    have hm : (t.modify p fun n => { n with children := n.children ++ [t.size] }) =
        t.modify p fun n => { n with children := t.children p ++ [t.size] } :=
      modify_congr rfl
    show ({ t.modify p _ with nodes := _ } : SyntaxTree) = _
    rw [hm]
    rfl
  refine ⟨fresh, rfl, ?_, ?_⟩
  · rw [heq]
    exact graft_splice t.placeholderCount hp rfl rfl rfl
  · rw [heq]
    rfl

/-- Appending a placeholder is a graft behind all children. -/
lemma graft_appendPlaceholder {t : SyntaxTree} {p : NodeId} (hp : p < t.size) :
    Graft t (t.appendPlaceholder p).2 p (t.children p) []
      (placeholderAt p (t.node p).stop (t.children p).length) :=
  graft_splice (t.placeholderCount + 1) hp rfl rfl rfl

/-- Inserting a placeholder before a node whose place is found is a graft just before it. -/
lemma graft_insertPlaceholderBefore_of_index {t : SyntaxTree} {anchor p : NodeId} {i : Nat}
    (hp : t.parent? anchor = some p) (hold : ∀ c ∈ t.children p, c < t.size)
    (honce : (t.children p).Nodup) (hsize : p < t.size)
    (hi : t.indexInParent anchor = .ok (some i)) (hget : (t.children p)[i]? = some anchor) :
    ∃ (t' : SyntaxTree) (left right : List NodeId),
      t.insertPlaceholderBefore anchor = .ok (t.size, t') ∧
      t'.placeholderCount = t.placeholderCount + 1 ∧
      Graft t t' p left (anchor :: right) (placeholderAt p (t.node anchor).start left.length) := by
  obtain ⟨hlt, hanchor⟩ := List.getElem?_eq_some_iff.mp hget
  set left := (t.children p).take i with hleft
  set right := (t.children p).drop (i + 1) with hright
  have hlen : left.length = i := by rw [hleft, List.length_take]; omega
  have hc : t.children p = left ++ anchor :: right := by
    conv_lhs => rw [← List.take_append_drop i (t.children p)]
    rw [List.drop_eq_getElem_cons hlt, hanchor]
  have hins : (t.children p).insertIdx i t.size = left ++ t.size :: anchor :: right := by
    rw [hc, ← hlen]
    exact List.modifyTailIdx_add (List.cons t.size) 0 left (anchor :: right)
  have hdrop : (left ++ t.size :: anchor :: right).drop left.length = t.size :: anchor :: right :=
    List.drop_left ..
  refine ⟨(t.splice p (left ++ t.size :: anchor :: right)
    (placeholderAt p (t.node anchor).start left.length) (t.placeholderCount + 1)).reindex
    left.length (t.size :: anchor :: right), left, right, ?_, ?_, ?_⟩
  · simp only [insertPlaceholderBefore, hp, hi, hins, bind, Except.bind, pure, Except.pure]
    rw [← hlen, hdrop]
    rfl
  · rw [(reindex_frame _ _ _).2.2]
    rfl
  · exact graft_splice_reindex _ hold honce hsize hc rfl rfl

/-- Inserting a placeholder is a graft just before the given node. -/
lemma graft_insertPlaceholderBefore {t : SyntaxTree} (h : t.WellFormed) {anchor p : NodeId}
    (hp : t.parent? anchor = some p) :
    ∃ (t' : SyntaxTree) (left right : List NodeId),
      t.insertPlaceholderBefore anchor = .ok (t.size, t') ∧
      t'.placeholderCount = t.placeholderCount + 1 ∧
      Graft t t' p left (anchor :: right) (placeholderAt p (t.node anchor).start left.length) := by
  obtain ⟨i, hi, hget⟩ := h.indexInParent_eq hp
  exact graft_insertPlaceholderBefore_of_index hp (fun _ hc => h.lt_size_of_mem hc) (h.nodup p)
    (h.parent_lt_size hp) hi hget

/-! ## Trees that grow from the empty one -/

/-- The trees that grow from the empty one by adding nodes. -/
inductive Built : SyntaxTree → Prop
  | empty (policy : KindPolicy) (lines : List String) : Built (SyntaxTree.empty policy lines)
  | addRoot {t t' : SyntaxTree} {spec : NodeSpec} {id : NodeId} :
    Built t → t.addRoot spec = .ok (id, t') → Built t'
  | addChild {t : SyntaxTree} {p : NodeId} (spec : NodeSpec) :
    Built t → p < t.size → Built (t.addChild p spec).2

/-- A root alone is a well-formed tree without placeholders. -/
lemma wellFormed_addRoot {t t' : SyntaxTree} {spec : NodeSpec} {id : NodeId}
    (h : t.addRoot spec = .ok (id, t')) :
    t'.WellFormed ∧ t'.size = 1 ∧ (t'.node 0).placeholder = false ∧
      t'.placeholderCount = t.placeholderCount := by
  unfold addRoot at h
  split at h
  · next he =>
    have hsize : t.size = 0 := by simpa [size] using he
    set n : Node :=
      { kind := spec.kind, start := spec.start, stop := spec.stop, field := spec.field,
        accepts := true, tolerates := t.policy.blockLike.contains spec.kind, placeholder := false,
        parent := none, children := [], index := none } with hn
    obtain ⟨rfl, rfl⟩ : t.size = id ∧ t.push n = t' := by simpa [push] using h
    have hone : (t.push n).size = 1 := by rw [size_push, hsize]
    have hnode : (t.push n).node 0 = n := by
      have := node_push_size t n
      rwa [hsize] at this
    -- neither the root nor anything outside of the tree has a parent or children
    have hrest : ∀ id, (t.push n).parent? id = none ∧ (t.push n).children id = [] := by
      intro id
      by_cases h0 : id = 0
      · rw [h0, parent?, SyntaxTree.children, hnode]
        exact ⟨rfl, rfl⟩
      · have hle : (t.push n).size ≤ id := by
          rw [hone]
          exact Nat.one_le_iff_ne_zero.mpr h0
        exact ⟨parent?_of_size_le hle, children_of_size_le hle⟩
    refine ⟨⟨?_, ?_, ?_, ?_, ?_, ?_⟩, hone, by rw [hnode], rfl⟩
    · intro id p hp; simp [hrest] at hp
    · intro id hid
      rw [hone] at hid
      simp [hrest, Nat.lt_one_iff.mp hid]
    · intro id p hp; simp [hrest] at hp
    · intro p c hc; simp [hrest] at hc
    · intro p; simp [hrest]
    · intro _; rw [hnode]
  · simp at h

/-- **Trees that grow from the empty one are well formed** and hold no placeholder. -/
theorem Built.wellFormed_and_plain {t : SyntaxTree} (h : Built t) :
    t.WellFormed ∧ (∀ id, (t.node id).placeholder = false) ∧ t.placeholderCount = 0 := by
  induction h with
  | empty policy lines =>
    refine ⟨wellFormed_empty policy lines, fun id => ?_, rfl⟩
    rw [node_of_size_le (Nat.zero_le id)]
    rfl
  | addRoot _ he ih =>
    obtain ⟨hwf, hsize, hroot, hcount⟩ := wellFormed_addRoot he
    refine ⟨hwf, fun id => ?_, hcount.trans ih.2.2⟩
    by_cases h0 : id = 0
    · rw [h0, hroot]
    · rw [node_of_size_le (by rw [hsize]; exact Nat.one_le_iff_ne_zero.mpr h0)]
      rfl
  | @addChild t p spec _ hp ih =>
    obtain ⟨fresh, hfresh, g, hcount⟩ := graft_addChild spec hp
    refine ⟨g.wellFormed ih.1, fun id => ?_, hcount.trans ih.2.2⟩
    by_cases he : id = t.size
    · have hc := congrArg Node.placeholder g.core_fresh
      rw [he]
      exact Eq.trans hc hfresh
    · rw [g.placeholder_eq he]
      exact ih.2.1 id

/-- A small tree: a source with a call on line 4 and a statement on line 7. -/
def sample : SyntaxTree :=
  let root : Node :=
    { kind := "program", start := ⟨1, 0⟩, stop := ⟨9, 0⟩, field := none, accepts := true,
      tolerates := true, placeholder := false, parent := none, children := [], index := none }
  let t := (empty .standard []).push root
  let t := (t.addChild 0 ⟨"call_expression", ⟨4, 0⟩, ⟨4, 9⟩, none⟩).2
  let t := (t.addChild 1 ⟨"arguments", ⟨4, 1⟩, ⟨4, 9⟩, some "arguments"⟩).2
  (t.addChild 0 ⟨"return_statement", ⟨7, 0⟩, ⟨7, 7⟩, none⟩).2

/-- The sample grows from the empty tree. -/
lemma built_sample : sample.Built :=
  have hroot := @Built.addRoot _ _ ⟨"program", ⟨1, 0⟩, ⟨9, 0⟩, none⟩ 0 (.empty .standard []) rfl
  .addChild _ (.addChild _ (.addChild _ hroot (by decide)) (by decide)) (by decide)

end SyntaxTree

end Marginalia
