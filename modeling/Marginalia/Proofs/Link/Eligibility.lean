import Marginalia.Proofs.Link.Frame
import Marginalia.Proofs.Source.Entries

/-!
# The nodes that hold entries

Groups come to a node in five ways: directly, from a node below it that accepts no comments, from
the argument before it, as floating ones, and at the end of the source.  In all of them the node
accepts comments.  A node that accepts comments is the root, or a placeholder, or was found to be
eligible by the policy when it was added; and what that depends on, its kind and field and the kind
of its parent, never changes afterwards.

## Main definitions

* `SyntaxTree.Reachable` — a node is found by going down from the root.
* `SyntaxTree.Eligible` — a node may hold an entry.
* `SyntaxTree.Selective` — only eligible nodes accept comments.
* `Pass.Housed` — the nodes with an entry accept comments.

## Main results

* `SyntaxTree.Graft.selective` — grafts keep a tree selective.
* `Pass.Step.housed` — steps store texts only on nodes that accept comments.
* `linkComments_eligible` — every entry sits on an eligible node, and is listed once.
-/

namespace Marginalia

open scoped List

namespace SyntaxTree

/-! ## Eligible nodes -/

/-- The node is found by going down from the root, from a node to one of its children. -/
def Reachable (t : SyntaxTree) (id : NodeId) : Prop :=
  ∃ root, t.root? = some root ∧ Relation.ReflTransGen (fun p c => c ∈ t.children p) root id

/-- The node is the property operand of a member access. -/
def IsPropertyOperand (t : SyntaxTree) (id : NodeId) : Prop :=
  ∃ p, t.parent? id = some p ∧ (t.node p).kind ∈ t.policy.memberAccess ∧
    (t.node id).field = some t.policy.propertyField

/-- The node may hold an entry. -/
inductive Eligible (t : SyntaxTree) (id : NodeId) : Prop
  | root (first : t.root? = some id)
  | placeholder (empty : (t.node id).placeholder = true)
  /-- The policy neither ignores its kind nor excludes its place. -/
  | admitted (kind : (t.node id).kind ∉ t.policy.ignored) (place : ¬ t.IsPropertyOperand id)

/-- Only eligible nodes accept comments. -/
def Selective (t : SyntaxTree) : Prop :=
  ∀ {id : NodeId}, (t.node id).accepts = true → t.Eligible id

section

variable {t t' : SyntaxTree} {id p : NodeId} {left right : List NodeId} {fresh : Node}

/-- Every node of a tree is found from the root. -/
lemma WellFormed.reachable (h : t.WellFormed) (hid : id < t.size) : t.Reachable id := by
  refine ⟨0, root?_of_pos (Nat.lt_of_le_of_lt (Nat.zero_le id) hid), ?_⟩
  refine h.upward_induction ?_ ?_ id hid
  · intro _
    exact .refl
  · intro id p hp ih
    exact ih.tail (h.mem_children hp)

/-- A node that accepts comments is a node of the tree. -/
lemma lt_size_of_accepts (h : (t.node id).accepts = true) : id < t.size := by
  by_contra hge
  rw [node_of_size_le (Nat.not_lt.mp hge)] at h
  exact Bool.noConfusion h

/-- The root is the first node. -/
lemma eq_zero_of_root? (h : t.root? = some id) : id = 0 := by
  unfold root? at h
  split at h
  · simp at h
  · exact (Option.some.inj h).symm

/-- **Eligibility depends on what never changes**: the node without its place, and its parent. -/
lemma Eligible.of_core_eq (h : t.Eligible id) (hpolicy : t'.policy = t.policy) (hid : id < t'.size)
    (hcore : (t'.node id).core = (t.node id).core)
    (hparent : ∀ p, t.parent? id = some p → (t'.node p).core = (t.node p).core) :
    t'.Eligible id := by
  have hkind := congrArg Node.kind hcore
  have hfield := congrArg Node.field hcore
  have hplaceholder := congrArg Node.placeholder hcore
  have hparent? := congrArg Node.parent hcore
  simp only [Node.core] at hkind hfield hplaceholder hparent?
  cases h with
  | root first =>
    obtain rfl := eq_zero_of_root? first
    exact .root (root?_of_pos hid)
  | placeholder empty => exact .placeholder (hplaceholder.trans empty)
  | admitted kind place =>
    refine .admitted (by rwa [hkind, hpolicy]) ?_
    rintro ⟨p, hp, haccess, hoperand⟩
    have hp' : t.parent? id = some p := hparent?.symm.trans hp
    have habove := congrArg Node.kind (hparent p hp')
    simp only [Node.core] at habove
    exact place ⟨p, hp', by rwa [← habove, ← hpolicy], by rw [← hfield, hoperand, hpolicy]⟩

/-- **Grafts keep a tree selective**, if the fresh node is eligible should it accept comments. -/
lemma Graft.selective (g : t.Graft t' p left right fresh) (hwf : t.WellFormed) (h : t.Selective)
    (hfresh : (t'.node t.size).accepts = true → t'.Eligible t.size) : t'.Selective := by
  intro id haccepts
  by_cases hid : id = t.size
  · subst hid
    exact hfresh haccepts
  · rw [g.accepts_eq hid] at haccepts
    have hlt : id < t'.size := g.size_eq ▸ Nat.lt_succ_of_lt (lt_size_of_accepts haccepts)
    refine (h haccepts).of_core_eq g.policy_eq hlt (g.core_eq hid) fun p hp => ?_
    exact g.core_eq (Nat.ne_of_lt (hwf.parent_lt_size hp))

/-- A fresh placeholder is eligible. -/
lemma Graft.selective_of_placeholder (g : t.Graft t' p left right fresh) (hwf : t.WellFormed)
    (h : t.Selective) (hfresh : fresh.placeholder = true) : t'.Selective :=
  g.selective hwf h fun _ => .placeholder (g.placeholder_fresh.trans hfresh)

/-- The node that is added below `p`. -/
lemma node_addChild (t : SyntaxTree) (p : NodeId) (spec : NodeSpec) :
    ((t.addChild p spec).2.node t.size).accepts =
        t.acceptsComments spec.kind (t.node p) spec.field ∧
      ((t.addChild p spec).2.node t.size).kind = spec.kind ∧
      ((t.addChild p spec).2.node t.size).field = spec.field := by
  set fresh : Node :=
    { kind := spec.kind, start := spec.start, stop := spec.stop, field := spec.field,
      accepts := t.acceptsComments spec.kind (t.node p) spec.field,
      tolerates := t.policy.blockLike.contains spec.kind, placeholder := false,
      parent := some p, children := [], index := some (t.node p).children.length } with hfresh
  have hnode : (t.addChild p spec).2.node t.size = fresh := by
    have hpush := node_push_size
      (t.modify p fun n => { n with children := n.children ++ [t.size] }) fresh
    rwa [size_modify] at hpush
  rw [hnode]
  exact ⟨rfl, rfl, rfl⟩

/-- **Trees that grow from the empty one are selective**: a node below the root accepts comments
only if the policy admits it. -/
lemma Built.selective (h : t.Built) : t.Selective := by
  induction h with
  | empty policy lines =>
    intro id haccepts
    exact absurd (lt_size_of_accepts haccepts) (Nat.not_lt_zero id)
  | addRoot _ he _ =>
    obtain ⟨-, hone, -⟩ := wellFormed_addRoot he
    intro id haccepts
    have hlt := lt_size_of_accepts haccepts
    obtain rfl : id = 0 := Nat.lt_one_iff.mp (hone ▸ hlt)
    exact .root (root?_of_pos hlt)
  | @addChild t p spec hb hp ih =>
    obtain ⟨fresh, -, g, -⟩ := graft_addChild spec hp
    refine g.selective hb.wellFormed_and_plain.1 ih fun haccepts => ?_
    obtain ⟨hflag, hkind, hfield⟩ := node_addChild t p spec
    rw [hflag, acceptsComments, Bool.and_eq_true, Bool.not_eq_true', Bool.not_eq_true'] at haccepts
    obtain ⟨hignored, hplace⟩ := haccepts
    refine .admitted (by rw [hkind, g.policy_eq]; simpa using hignored) ?_
    rintro ⟨q, hq, haccess, hoperand⟩
    obtain rfl : p = q := Option.some.inj (g.parent?_fresh.symm.trans hq)
    have habove := congrArg Node.kind (g.core_eq (Nat.ne_of_lt hp))
    simp only [Node.core] at habove
    rw [habove, g.policy_eq] at haccess
    rw [hfield, g.policy_eq] at hoperand
    simp [hoperand, haccess] at hplace

end

end SyntaxTree

/-! ## The nodes with an entry -/

namespace Pass

/-- The nodes with an entry accept comments, and none has two entries. -/
structure Housed (p : Pass) : Prop where
  selective : p.tree.Selective
  accepts : ∀ key ∈ p.map.keys, ∃ id : NodeId, key = id ∧ (p.tree.node id).accepts = true
  nodup : p.map.keys.Nodup

variable {markers : List Marker} {visited : Option NodeId} {p q : Pass}

/-- At the start there are no entries. -/
lemma housed_start {t : SyntaxTree} (h : t.Selective) (stream : CommentStream) :
    (start t stream).Housed :=
  ⟨h, by simp [start, CommentMap.empty, CommentMap.keys],
    by simp [start, CommentMap.empty, CommentMap.keys]⟩

/-- A text is stored on a node that accepts comments, in a tree where the others still do. -/
lemma Housed.store (h : p.Housed) (hselective : q.tree.Selective)
    (hold : ∀ {id : NodeId}, (p.tree.node id).accepts = true → (q.tree.node id).accepts = true)
    {target : NodeId} {text : String} (htarget : (q.tree.node target).accepts = true)
    (hmap : q.map = p.map.extend target text) : q.Housed := by
  have hkeys : q.map.keys = if (target : Int) ∈ p.map.keys then p.map.keys
      else p.map.keys ++ [(target : Int)] := by
    rw [hmap]
    exact CommentMap.keys_put ..
  refine ⟨hselective, ?_, ?_⟩
  · intro key hkey
    have hcase : key ∈ p.map.keys ∨ key = target := by
      rw [hkeys] at hkey
      split at hkey
      · exact .inl hkey
      · simpa using hkey
    rcases hcase with hkey | rfl
    · obtain ⟨id, rfl, haccepts⟩ := h.accepts key hkey
      exact ⟨id, rfl, hold haccepts⟩
    · exact ⟨target, rfl, htarget⟩
  · rw [hmap]
    exact CommentMap.nodup_keys_put _ _ _ h.nodup

/-- A text is stored on a fresh placeholder. -/
lemma Housed.graft (h : p.Housed) (hp : p.Sound) {parent : NodeId} {left right : List NodeId}
    {place : Position} {index : Nat} {text : String}
    (g : p.tree.Graft q.tree parent left right (SyntaxTree.placeholderAt parent place index))
    (hmap : q.map = p.map.extend p.tree.size text) : q.Housed := by
  have hfresh := congrArg Node.accepts g.core_fresh
  refine h.store (g.selective_of_placeholder hp.wellFormed h.selective rfl) ?_ hfresh hmap
  intro id haccepts
  rwa [g.accepts_eq (Nat.ne_of_lt (SyntaxTree.lt_size_of_accepts haccepts))]

/-- **Steps store texts only on nodes that accept comments.** -/
lemma Step.housed (hs : Step markers visited p q) (hp : p.Sound) (h : p.Housed) : q.Housed := by
  cases hs with
  | note => exact ⟨h.selective, h.accepts, h.nodup⟩
  | advance => exact ⟨h.selective, h.accepts, h.nodup⟩
  | flush move flushed flush =>
    cases flush with
    | dissolve => exact ⟨h.selective, h.accepts, h.nodup⟩
    | deliver target journal text inTree accepts genuine =>
      exact h.store h.selective (fun haccepts => haccepts) accepts rfl
    | insert journal text visiting onWay tolerates count graft => exact h.graft hp graft rfl
    | append journal text ended count graft => exact h.graft hp graft rfl

/-- Whole runs store texts only on nodes that accept comments. -/
lemma Runs.housed (hr : Runs markers p q) (hp : p.Sound) (h : p.Housed) : q.Housed := by
  induction hr with
  | refl => exact h
  | tail hpq hs ih =>
    obtain ⟨visited, hs⟩ := hs
    exact hs.housed (Runs.sound hpq hp) ih

end Pass

/-! ## Entries on eligible nodes -/

/-- **Every entry sits on an eligible node that is found from the root.**  The node is the root, or
a placeholder, or one that the policy of the tree neither ignores nor excludes as the property
operand of a member access.  So the linked comments of a result with this tree and this map are the
entries of the map, each of them once and with its own text, in the order of the final tree. -/
theorem linkComments_eligible (settings : LinkSettings) {tree : SyntaxTree} (hb : tree.Built)
    {comments : List Comment} {stream : CommentStream}
    (hstream : CommentStream.ofComments comments = .ok stream)
    (hroot : comments = [] ∨ tree.root? ≠ none) :
    ∃ (final : SyntaxTree) (map : CommentMap) (journal : Journal),
      linkComments settings tree comments = ⟨final, map, journal, none⟩ ∧
      final.policy = tree.policy ∧
      (∀ key ∈ map.keys, ∃ id : NodeId, key = id ∧ final.Reachable id ∧ final.Eligible id) ∧
      ∀ (path : String) (parseErrors : Nat),
        let entries := (LinkResult.mk path final comments map parseErrors).entries
        (entries.map fun e => ((e.node : Int), e.text)) ~ map.entries ∧ map.keys.Nodup ∧
        entries.map LinkEntry.node = final.preorder.filter (fun id => map.contains (id : NodeId)) ∧
        ∀ e ∈ entries, e.path = path ∧ e.kind = (final.node e.node).kind ∧
          e.start = (final.node e.node).start ∧
          e.placeholder = (final.node e.node).placeholder := by
  have horder := CommentStream.checkOrder_of_ofComments hstream
  obtain ⟨hwf, hplain, -⟩ := hb.wellFormed_and_plain
  obtain ⟨p, q, -, hruns, -, -, ⟨journal, rfl⟩, he⟩ :=
    exists_runs_of_linkComments settings hb horder (hroot.imp_right SyntaxTree.size_pos_of_root?)
  have hstart := Pass.sound_start hwf hplain ⟨comments, 0⟩
  have hsound := hruns.sound hstart
  have hhoused := hruns.housed hstart (Pass.housed_start hb.selective _)
  have hkeys : ∀ key ∈ q.map.keys, ∃ id < q.tree.size, key = (id : NodeId) := by
    intro key hkey
    obtain ⟨id, rfl, haccepts⟩ := hhoused.accepts key hkey
    exact ⟨id, SyntaxTree.lt_size_of_accepts haccepts, rfl⟩
  refine ⟨q.tree, q.map.freeze, journal, he, ?_, ?_, ?_⟩
  · exact (hruns.framed hstart hb.framed).policy_eq
  · intro key hkey
    obtain ⟨id, rfl, haccepts⟩ := hhoused.accepts key hkey
    exact ⟨id, rfl, hsound.wellFormed.reachable (SyntaxTree.lt_size_of_accepts haccepts),
      hhoused.selective haccepts⟩
  · intro path parseErrors
    refine ⟨LinkResult.perm_entries hsound.wellFormed hhoused.nodup hkeys, hhoused.nodup,
      LinkResult.map_node_entries _, ?_⟩
    intro e he
    exact (LinkResult.mem_entries.mp he).2.2

/-- A member access over two lines, whose property operand accepts no comments. -/
def SyntaxTree.access : SyntaxTree :=
  let root : Node :=
    { kind := "program", start := ⟨1, 0⟩, stop := ⟨5, 4⟩, field := none, accepts := true,
      tolerates := true, placeholder := false, parent := none, children := [], index := none }
  let t := (empty .standard []).push root
  let t := (t.addChild 0 ⟨"member_expression", ⟨4, 0⟩, ⟨5, 3⟩, none⟩).2
  let t := (t.addChild 1 ⟨"identifier", ⟨4, 0⟩, ⟨4, 1⟩, some "object"⟩).2
  (t.addChild 1 ⟨"property_identifier", ⟨5, 2⟩, ⟨5, 3⟩, some "property"⟩).2

/-- The tree of the member access is built. -/
lemma SyntaxTree.built_access : access.Built :=
  have hroot := @Built.addRoot _ _ ⟨"program", ⟨1, 0⟩, ⟨5, 4⟩, none⟩ 0 (.empty .standard []) rfl
  .addChild _ (.addChild _ (.addChild _ hroot (by decide)) (by decide)) (by decide)

/-- A comment that floats before the member access, and one that stands above its property. -/
def accessComments : List Comment :=
  [⟨.line, ⟨1, 0⟩, ⟨1, 4⟩, "// a"⟩, ⟨.block, ⟨4, 2⟩, ⟨4, 9⟩, "/* b */"⟩]

/-- The comment above the property operand goes up to the member access, and the one that floats to
a placeholder before it, so both entries sit on eligible nodes, as `linkComments_eligible` says. -/
theorem linkComments_eligible_access :
    SyntaxTree.access.Built ∧
      CommentStream.ofComments accessComments = .ok ⟨accessComments, 0⟩ ∧
      SyntaxTree.access.root? ≠ none ∧ SyntaxTree.access.IsPropertyOperand 3 ∧
      ∃ (final : SyntaxTree) (map : CommentMap) (journal : Journal),
        linkComments .standard SyntaxTree.access accessComments = ⟨final, map, journal, none⟩ ∧
        map.keys = [4, 1] ∧ (final.Reachable 4 ∧ final.Eligible 4) ∧
        (final.Reachable 1 ∧ final.Eligible 1) ∧
        ((LinkResult.mk "a.js" final accessComments map 0).entries.map fun e =>
          ((e.node : Int), e.text)) ~ map.entries := by
  have hstream : CommentStream.ofComments accessComments = .ok ⟨accessComments, 0⟩ := rfl
  have hroot : SyntaxTree.access.root? ≠ none := by decide
  obtain ⟨final, map, journal, he, -, hkeys, hentries⟩ :=
    linkComments_eligible .standard SyntaxTree.built_access hstream (.inr hroot)
  have hmap : (linkComments .standard SyntaxTree.access accessComments).map.keys = [4, 1] := by
    decide +kernel
  rw [he] at hmap
  refine ⟨SyntaxTree.built_access, hstream, hroot, ⟨1, by decide, by decide, by decide⟩, final, map,
    journal, he, hmap, ?_, ?_, (hentries "a.js" 0).1⟩
  · obtain ⟨id, hid, hsits⟩ := hkeys 4 (by simp [hmap])
    obtain rfl : 4 = id := Int.ofNat_inj.mp hid
    exact hsits
  · obtain ⟨id, hid, hsits⟩ := hkeys 1 (by simp [hmap])
    obtain rfl : 1 = id := Int.ofNat_inj.mp hid
    exact hsits

end Marginalia
