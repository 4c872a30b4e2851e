import Marginalia.Proofs.Syntax.Preorder

/-!
# Histories of a tree

A tree is made by a sequence of calls: a root and nodes below nodes are added, and placeholders are
inserted before nodes or appended below them, in any order and at any node, also at placeholders.
Some calls are refused.  Whatever the sequence, the arena still describes a tree afterwards.

That a call keeps the arena well formed is said for all calls at once: except for the first root,
each of them is a graft.  The numbers are then those of the calls that succeeded, in their order.

## Main definitions

* `TreeCall` — the calls that make a tree grow.
* `TreeCall.perform` — a call on a tree, which may be refused.
* `SyntaxTree.replay` — the tree after a sequence of calls, and the numbers that they gave out.
* `SyntaxTree.Represents` — what the numbers in an arena say.

## Main results

* `SyntaxTree.Orderly.perform` — a call keeps the arena in order.
* `SyntaxTree.replay_represents` — every sequence of calls leaves a tree.
-/

namespace Marginalia

/-! ## Calls -/

/-- A call that makes a tree grow. -/
inductive TreeCall where
  | addRoot (spec : NodeSpec)
  | addChild (parent : NodeId) (spec : NodeSpec)
  | insertBefore (anchor : NodeId)
  | append (parent : NodeId)
deriving Repr, DecidableEq

/-- An operation on a tree.  A failed operation keeps what it did before. -/
abbrev Growing := EStateM LinkError SyntaxTree

namespace TreeCall

/-- The node that a call is given belongs to the tree. -/
def Refers (t : SyntaxTree) : TreeCall → Prop
  | .addRoot _ => True
  | .addChild id _ | .insertBefore id | .append id => id < t.size

/-- Whether a call refers to nodes that exist can be decided. -/
instance (t : SyntaxTree) : DecidablePred (Refers t)
  | .addRoot _ => inferInstanceAs (Decidable True)
  | .addChild id _ | .insertBefore id | .append id => inferInstanceAs (Decidable (id < t.size))

/-- What a call makes of a tree. -/
def outcome (t : SyntaxTree) : TreeCall → Except LinkError (NodeId × SyntaxTree)
  | .addRoot spec => t.addRoot spec
  | .addChild parent spec => .ok (t.addChild parent spec)
  | .insertBefore anchor => t.insertPlaceholderBefore anchor
  | .append parent => .ok (t.appendPlaceholder parent)

/-- Makes a call, which gives the number of the new node. -/
def perform (call : TreeCall) : Growing NodeId := do
  match call.outcome (← get) with
  | .ok (id, grown) =>
    set grown
    return id
  | .error e => throw e

/-- The call is refused: a second root, or a placeholder before the root. -/
def Refused (t : SyntaxTree) : TreeCall → LinkError → Prop
  | .addRoot _, e => 0 < t.size ∧ e = .secondRoot
  | .insertBefore anchor, e => anchor = 0 ∧ e = .beforeRoot
  | .addChild .., _ | .append _, _ => False

end TreeCall

namespace SyntaxTree

/-- Makes one call after the other, and notes the numbers of the new nodes.  A refused call leaves
the tree as it then is to the next one. -/
def replay : List TreeCall → SyntaxTree × List NodeId → SyntaxTree × List NodeId
  | [], made => made
  | call :: rest, (t, ids) =>
    match call.perform t with
    | .ok id t' => replay rest (t', ids ++ [id])
    | .error _ t' => replay rest (t', ids)

/-- Each call is given a node of the tree as it then is. -/
def Refer : List TreeCall → SyntaxTree → Prop
  | [], _ => True
  | call :: rest, t =>
    call.Refers t ∧
      match call.perform t with
      | .ok _ t' | .error _ t' => Refer rest t'

/-- Whether all calls refer to nodes that exist can be decided. -/
instance decidableRefer : ∀ (calls : List TreeCall) (t : SyntaxTree), Decidable (Refer calls t)
  | [], _ => inferInstanceAs (Decidable True)
  | call :: rest, t =>
    have : Decidable (match call.perform t with
        | .ok _ t' | .error _ t' => Refer rest t') :=
      match call.perform t with
      | .ok _ t' | .error _ t' => decidableRefer rest t'
    inferInstanceAs (Decidable (_ ∧ _))

/-! ## What the numbers in an arena say -/

/-- The arena of `t` is that of a tree, whose nodes have the numbers `ids` in the order of their
creation. -/
structure Represents (t : SyntaxTree) (ids : List NodeId) : Prop where
  /-- Numbers are given out one after the other. -/
  numbered : ids = List.range t.size
  /-- The first node is the root, which is in no list of children. -/
  root : 0 < t.size → t.root? = some 0 ∧ t.parent? 0 = none ∧ (∀ p, 0 ∉ t.children p) ∧
    t.indexInParent 0 = .ok none ∧ t.nextSibling 0 = .ok none
  /-- The root accepts comments. -/
  root_accepts : 0 < t.size → (t.node 0).accepts = true
  /-- Every other node is at its stored place among the children of its parent, and at no other
  place; this place and the next sibling are found. -/
  placed : ∀ id < t.size, id ≠ 0 → ∃ p i, p < t.size ∧ t.parent? id = some p ∧
    (t.node id).index = some i ∧
    (∀ q j, (t.children q)[j]? = some id ↔ q = p ∧ j = i) ∧
    t.indexInParent id = .ok (some i) ∧ t.nextSibling id = .ok (t.children p)[i + 1]?
  /-- The walk lists a node and then what is below it, child by child. -/
  preorder_eq : t.preorder = t.root?.toList.flatMap t.subtree ∧
    ∀ id, t.subtree id = id :: (t.children id).flatMap t.subtree
  /-- The walk meets every node once. -/
  once : t.preorder.Nodup ∧ ∀ id, id ∈ t.preorder ↔ id < t.size
  count_eq : t.placeholderCount = t.placeholders
  /-- A call is refused in two cases only, and then it changes nothing. -/
  refused_iff : ∀ call : TreeCall, call.Refers t → ∀ e t',
    call.perform t = .error e t' ↔ t' = t ∧ call.Refused t e
  /-- All other calls give out the next number. -/
  made : ∀ call : TreeCall, call.Refers t → (∀ e, ¬ call.Refused t e) →
    ∃ t', call.perform t = .ok t.size t' ∧ t'.size = t.size + 1

/-! ## What one call keeps -/

/-- The arena of `t` is in order, and `ids` are its numbers. -/
structure Orderly (t : SyntaxTree) (ids : List NodeId) : Prop where
  wellFormed : t.WellFormed
  count_eq : t.placeholderCount = t.placeholders
  numbered : ids = List.range t.size

section Calls

variable {t t' : SyntaxTree} {ids : List NodeId} {call : TreeCall} {id : NodeId}

/-- A call that fails has changed nothing before. -/
lemma perform_eq (call : TreeCall) (t : SyntaxTree) :
    call.perform t = match call.outcome t with
      | .ok (id, t') => .ok id t'
      | .error e => .error e t := by
  show (match call.outcome t with
    | .ok (id, grown) => (do set grown; return id : Growing NodeId)
    | .error e => throw e) t = _
  cases call.outcome t with
  | ok made => rfl
  | error e => rfl

/-- The empty tree has nothing out of order. -/
lemma orderly_empty (policy : KindPolicy) (lines : List String) :
    Orderly (empty policy lines) [] :=
  ⟨wellFormed_empty policy lines, rfl, rfl⟩

/-- One more node, with the next number. -/
lemma Orderly.graft {p : NodeId} {left right : List NodeId} {fresh : Node} (h : Orderly t ids)
    (g : t.Graft t' p left right fresh)
    (hcount : t'.placeholderCount = t.placeholderCount + if fresh.placeholder then 1 else 0) :
    Orderly t' (ids ++ [t.size]) where
  wellFormed := g.wellFormed h.wellFormed
  count_eq := by rw [hcount, h.count_eq, g.placeholders_eq]
  numbered := by rw [g.size_eq, List.range_succ, h.numbered]

/-- The first node. -/
lemma Orderly.root {spec : NodeSpec} (h : Orderly t ids) (hroot : t.addRoot spec = .ok (id, t')) :
    Orderly t' (ids ++ [id]) ∧ id = t.size ∧ t'.size = t.size + 1 := by
  obtain ⟨hwf, hone, hgenuine, hcount⟩ := wellFormed_addRoot hroot
  have hempty : t.size = 0 ∧ id = t.size := by
    unfold addRoot at hroot
    split at hroot
    · next hnone =>
      obtain ⟨rfl, -⟩ := Prod.mk.inj (Except.ok.inj hroot)
      exact ⟨by simpa [size] using hnone, rfl⟩
    · cases hroot
  obtain ⟨hzero, rfl⟩ := hempty
  refine ⟨⟨hwf, ?_, ?_⟩, rfl, by omega⟩
  · have hnone : t.placeholders = 0 := by simp [placeholders, hzero]
    have hplain : t'.placeholders = 0 := by simp [placeholders, hone, hgenuine]
    rw [hcount, h.count_eq, hnone, hplain]
  · rw [h.numbered, hone, hzero]
    rfl

/-- **A call on an arena in order** succeeds with the next number and keeps the order, or is
refused. -/
lemma Orderly.outcome (h : Orderly t ids) (hrefers : call.Refers t) :
    (∃ t', call.outcome t = .ok (t.size, t') ∧ t'.size = t.size + 1 ∧
      Orderly t' (ids ++ [t.size]) ∧ ∀ e, ¬ call.Refused t e) ∨
      ∃ e, call.outcome t = .error e ∧ ∀ e', call.Refused t e' ↔ e' = e := by
  cases call with
  | addRoot spec =>
    cases hroot : t.addRoot spec with
    | ok made =>
      obtain ⟨id, t'⟩ := made
      obtain ⟨ho, rfl, hsize⟩ := h.root hroot
      refine .inl ⟨t', hroot, hsize, ho, ?_⟩
      rintro e ⟨hpos, -⟩
      obtain ⟨-, hone, -⟩ := wellFormed_addRoot hroot
      omega
    | error e =>
      have hfull : 0 < t.size ∧ e = .secondRoot := by
        unfold addRoot at hroot
        split at hroot
        · cases hroot
        · next hsome =>
          refine ⟨Nat.pos_of_ne_zero fun hzero => hsome ?_, (Except.error.inj hroot).symm⟩
          simpa [size] using hzero
      obtain ⟨hpos, rfl⟩ := hfull
      exact .inr ⟨_, hroot, fun e' => ⟨And.right, fun he => ⟨hpos, he⟩⟩⟩
  | addChild parent spec =>
    obtain ⟨fresh, hgenuine, g, hcount⟩ := graft_addChild spec hrefers
    refine .inl ⟨(t.addChild parent spec).2, rfl, g.size_eq, h.graft g ?_, fun _ hno => hno⟩
    rw [hcount, hgenuine]
    rfl
  | append parent =>
    have g := graft_appendPlaceholder hrefers
    exact .inl ⟨(t.appendPlaceholder parent).2, rfl, g.size_eq, h.graft g rfl, fun _ hno => hno⟩
  | insertBefore anchor =>
    cases hparent : t.parent? anchor with
    | none =>
      have hzero : anchor = 0 := (h.wellFormed.orphan hrefers).mp hparent
      refine .inr ⟨.beforeRoot, ?_, fun e' => ⟨And.right, fun he => ⟨hzero, he⟩⟩⟩
      show t.insertPlaceholderBefore anchor = _
      simp only [insertPlaceholderBefore, hparent]
    | some p =>
      obtain ⟨t', left, right, hinsert, hcount, g⟩ :=
        graft_insertPlaceholderBefore h.wellFormed hparent
      refine .inl ⟨t', hinsert, g.size_eq, h.graft g hcount, ?_⟩
      rintro e ⟨rfl, -⟩
      have hpos := lt_size_of_parent? hparent
      rw [(h.wellFormed.orphan hpos).mpr rfl] at hparent
      cases hparent

/-- **A call keeps the arena in order**, whether it succeeds or is refused. -/
lemma Orderly.perform (h : Orderly t ids) (hrefers : call.Refers t) :
    (∃ t', call.perform t = .ok t.size t' ∧ t'.size = t.size + 1 ∧
      Orderly t' (ids ++ [t.size]) ∧ ∀ e, ¬ call.Refused t e) ∨
      ∃ e, call.perform t = .error e t ∧ ∀ e', call.Refused t e' ↔ e' = e := by
  rcases h.outcome hrefers with ⟨t', hok, hrest⟩ | ⟨e, herror, hrefused⟩
  · exact .inl ⟨t', by rw [perform_eq, hok], hrest⟩
  · exact .inr ⟨e, by rw [perform_eq, herror], hrefused⟩

/-- **Calls keep the arena in order**, one after the other. -/
lemma Orderly.replay (h : Orderly t ids) (calls : List TreeCall) (hrefer : Refer calls t) :
    Orderly (replay calls (t, ids)).1 (replay calls (t, ids)).2 := by
  induction calls generalizing t ids with
  | nil => exact h
  | cons call rest ih =>
    obtain ⟨hrefers, hrest⟩ := hrefer
    rcases h.perform hrefers with ⟨t', hok, -, ho, -⟩ | ⟨e, herror, -⟩
    · simp only [hok] at hrest
      simp only [SyntaxTree.replay, hok]
      exact ih ho hrest
    · simp only [herror] at hrest
      simp only [SyntaxTree.replay, herror]
      exact ih h hrest

end Calls

/-! ## Arenas in order are trees -/

section Trees

variable {t : SyntaxTree} {ids : List NodeId} {id : NodeId}

/-- A node below the root is at one place only. -/
lemma WellFormed.getElem?_children_iff (h : t.WellFormed) {p : NodeId} {i : Nat}
    (hp : t.parent? id = some p) (hi : (t.children p)[i]? = some id) (q : NodeId) (j : Nat) :
    (t.children q)[j]? = some id ↔ q = p ∧ j = i := by
  constructor
  · intro hj
    have hq : t.parent? id = some q := h.parent_of_mem (List.mem_of_getElem? hj)
    obtain rfl : q = p := Option.some.inj (hq.symm.trans hp)
    have hlt := (List.getElem?_eq_some_iff.mp hj).1
    exact ⟨rfl, (List.getElem?_inj hlt (h.nodup q)).mp (hj.trans hi.symm)⟩
  · rintro ⟨rfl, rfl⟩
    exact hi

/-- The place of a node below the root, and the node behind it. -/
lemma WellFormed.placed (h : t.WellFormed) (hid : id < t.size) (hne : id ≠ 0) :
    ∃ p i, p < t.size ∧ t.parent? id = some p ∧ (t.node id).index = some i ∧
      (∀ q j, (t.children q)[j]? = some id ↔ q = p ∧ j = i) ∧
      t.indexInParent id = .ok (some i) ∧ t.nextSibling id = .ok (t.children p)[i + 1]? := by
  obtain ⟨p, hp⟩ : ∃ p, t.parent? id = some p :=
    Option.ne_none_iff_exists'.mp fun hnone => hne ((h.orphan hid).mp hnone)
  obtain ⟨i, hindex, hi⟩ := h.indexed hp
  have hfound : t.indexInParent id = .ok (some i) := by simp [indexInParent, hp, hindex, hi]
  refine ⟨p, i, h.parent_lt_size hp, hp, hindex, h.getElem?_children_iff hp hi, hfound, ?_⟩
  simp only [nextSibling, hp, hfound, bind, Except.bind, pure, Except.pure]

/-- **An arena in order is that of a tree.** -/
lemma Orderly.represents (h : Orderly t ids) : Represents t ids where
  numbered := h.numbered
  root := by
    intro hpos
    have hp : t.parent? 0 = none := (h.wellFormed.orphan hpos).mpr rfl
    refine ⟨root?_of_pos hpos, hp, fun p hmem => ?_, ?_, ?_⟩
    · rw [h.wellFormed.parent_of_mem hmem] at hp
      cases hp
    · simp [indexInParent, hp]
    · simp [nextSibling, indexInParent, hp, bind, Except.bind, pure, Except.pure]
  root_accepts := h.wellFormed.root_accepts
  placed := fun id hid hne => h.wellFormed.placed hid hne
  preorder_eq := by
    refine ⟨?_, h.wellFormed.subtree_eq⟩
    rcases Nat.eq_zero_or_pos t.size with hzero | hpos
    · have hnone : t.root? = none := by simpa [root?, size] using hzero
      simp [preorder, hnone]
    · rw [h.wellFormed.preorder_eq hpos, root?_of_pos hpos]
      simp
  once := by
    refine ⟨h.wellFormed.nodup_preorder, fun id => ⟨fun hmem => ?_, h.wellFormed.mem_preorder⟩⟩
    rcases Nat.eq_zero_or_pos t.size with hzero | hpos
    · have hnone : t.root? = none := by simpa [root?, size] using hzero
      simp [preorder, hnone] at hmem
    · rw [h.wellFormed.preorder_eq hpos] at hmem
      exact h.wellFormed.lt_size_of_mem_subtree hpos hmem
  count_eq := h.count_eq
  refused_iff := by
    intro call hrefers e t'
    rcases h.perform hrefers with ⟨s, hok, -, -, hnot⟩ | ⟨e', herror, hrefused⟩
    · rw [hok]
      refine ⟨fun hno => ?_, fun hno => absurd hno.2 (hnot e)⟩
      cases hno
    · rw [herror, hrefused, EStateM.Result.error.injEq, and_comm, eq_comm (a := t),
        eq_comm (a := e)]
  made := by
    intro call hrefers hnot
    rcases h.perform hrefers with ⟨s, hok, hsize, -⟩ | ⟨e', -, hrefused⟩
    · exact ⟨s, hok, hsize⟩
    · exact absurd ((hrefused e').mpr rfl) (hnot e')

end Trees

/-! ## Every history leaves a tree -/

/-- **Every sequence of calls leaves a tree.**  After any calls on an empty tree that are given
nodes of the tree, refused ones among them, the numbers are those from zero on in the order of
creation, every node but the root is at its stored place among the children of its parent and in no
other list, the walk is the recursive one and meets every node once, the count of placeholders is
right, the root accepts comments, and a call that is refused changes nothing. -/
theorem replay_represents (policy : KindPolicy) (lines : List String) (calls : List TreeCall)
    (hrefer : Refer calls (empty policy lines)) :
    Represents (replay calls (empty policy lines, [])).1
      (replay calls (empty policy lines, [])).2 :=
  ((orderly_empty policy lines).replay calls hrefer).represents

/-- Calls of all kinds on one tree, two of them refused: a placeholder is inserted before the second
child, another one below that placeholder, and then one before the first child. -/
def sampleCalls : List TreeCall :=
  [.addRoot ⟨"program", ⟨1, 0⟩, ⟨9, 0⟩, none⟩,
    .addChild 0 ⟨"expression_statement", ⟨2, 0⟩, ⟨2, 5⟩, none⟩,
    .addRoot ⟨"program", ⟨1, 0⟩, ⟨9, 0⟩, none⟩,
    .addChild 0 ⟨"return_statement", ⟨4, 0⟩, ⟨4, 7⟩, none⟩,
    .insertBefore 2, .append 3, .insertBefore 0, .insertBefore 1,
    .addChild 4 ⟨"identifier", ⟨4, 0⟩, ⟨4, 0⟩, some "name"⟩]

/-- After the sample calls the tree is in order, as `replay_represents` says: the two refused calls
took no number, and the children of the root were renumbered twice. -/
theorem replay_represents_sample :
    Refer sampleCalls (empty .standard []) ∧
      (replay sampleCalls (empty .standard [], [])).2 = [0, 1, 2, 3, 4, 5, 6] ∧
      (replay sampleCalls (empty .standard [], [])).1.children 0 = [5, 1, 3, 2] ∧
      (replay sampleCalls (empty .standard [], [])).1.placeholders = 3 ∧
      Represents (replay sampleCalls (empty .standard [], [])).1 [0, 1, 2, 3, 4, 5, 6] := by
  have hrefer : Refer sampleCalls (empty .standard []) := by decide +kernel
  have hids : (replay sampleCalls (empty .standard [], [])).2 = [0, 1, 2, 3, 4, 5, 6] := by
    decide +kernel
  have h := replay_represents .standard [] sampleCalls hrefer
  rw [hids] at h
  exact ⟨hrefer, hids, by decide +kernel, by decide +kernel, h⟩

end SyntaxTree

end Marginalia
