import Marginalia.Proofs.Comment.Shift
import Marginalia.Proofs.Link.Placing

/-!
# Groups of sources further down

Empty lines before a source change nothing in how its groups of comments are placed.  An operation
on the moved placement and the operation on the placement go in step: they take the same branch and
end in the same state, but for the lines.

One comparison reads a node by its number and looks at its line: the argument behind the one that is
visited.  It lies in the tree since the tree is well formed, and so its line moves along.

## Main definitions

* `InStep` — two operations do the same on a state and on the moved state.
* `Placement.shift` — the moved placement.

## Main results

* `InStep.bind`, `InStep.ite` — operations that are made of operations in step go in step.
* `Placement.inStep_linkGroup`, `Placement.inStep_placeFloating`, `Placement.inStep_placeTrailing` —
  groups are placed in step.
* `Placement.inStep_resolveArgument` — comments between arguments are resolved in step.
-/

namespace Marginalia

/-! ## Operations in step -/

/-- The operation `op` in the state `s` and the operation `op'` in the moved state **go in step**:
both fail for the same cause, or both succeed with values that satisfy `post`, and the states in
which they end are again one and the same up to the move. -/
inductive InStep {σ α β : Type} (move : σ → σ) (op : EStateM LinkError σ α)
    (op' : EStateM LinkError σ β) (s : σ) (post : α → β → σ → Prop) : Prop
  | fails (e : LinkError) (t : σ) (left : op s = .error e t)
    (right : op' (move s) = .error e (move t))
  | succeeds (a : α) (b : β) (t : σ) (left : op s = .ok a t) (right : op' (move s) = .ok b (move t))
    (holds : post a b t)

namespace InStep

variable {σ α β γ δ : Type} {move : σ → σ} {s : σ} {post : α → β → σ → Prop}

/-- Returning values goes in step. -/
lemma pure {a : α} {b : β} (h : post a b s) : InStep move (Pure.pure a) (Pure.pure b) s post :=
  .succeeds a b s rfl rfl h

/-- Failing for the same cause goes in step. -/
lemma throw (e : LinkError) :
    InStep move (MonadExcept.throw e : EStateM LinkError σ α)
      (MonadExcept.throw e : EStateM LinkError σ β) s post :=
  .fails e s rfl rfl

/-- Operations in step, and then others in step from where the first ones ended. -/
lemma bind {op : EStateM LinkError σ α} {op' : EStateM LinkError σ β}
    {next : α → EStateM LinkError σ γ} {next' : β → EStateM LinkError σ δ}
    {final : γ → δ → σ → Prop} (h : InStep move op op' s post)
    (hn : ∀ a b t, post a b t → InStep move (next a) (next' b) t final) :
    InStep move (op >>= next) (op' >>= next') s final := by
  cases h with
  | fails e t left right =>
    exact .fails e t (bind_apply_of_error left) (bind_apply_of_error right)
  | succeeds a b t left right holds =>
    have hleft : (op >>= next) s = next a t := bind_apply_of_ok left
    have hright : (op' >>= next') (move s) = next' b (move t) := bind_apply_of_ok right
    cases hn a b t holds with
    | fails e u left' right' => exact .fails e u (hleft.trans left') (hright.trans right')
    | succeeds c d u left' right' holds' =>
      exact .succeeds c d u (hleft.trans left') (hright.trans right') holds'

/-- Operations that go in step do so with a weaker postcondition. -/
lemma mono {op : EStateM LinkError σ α} {op' : EStateM LinkError σ β}
    {weaker : α → β → σ → Prop} (h : InStep move op op' s post)
    (hw : ∀ a b t, post a b t → weaker a b t) : InStep move op op' s weaker := by
  cases h with
  | fails e t left right => exact .fails e t left right
  | succeeds a b t left right holds => exact .succeeds a b t left right (hw a b t holds)

/-- Looking at the state, and then operations in step. -/
lemma get_bind {next : σ → EStateM LinkError σ α} {next' : σ → EStateM LinkError σ β}
    (h : InStep move (next s) (next' (move s)) s post) :
    InStep move (get >>= next) (get >>= next') s post := by
  cases h with
  | fails e t left right =>
    exact .fails e t ((get_bind_apply next s).trans left)
      ((get_bind_apply next' (move s)).trans right)
  | succeeds a b t left right holds =>
    exact .succeeds a b t ((get_bind_apply next s).trans left)
      ((get_bind_apply next' (move s)).trans right) holds

/-- Changes of the state that commute with the move. -/
lemma modify {f f' : σ → σ} {post : PUnit → PUnit → σ → Prop} (h : f' (move s) = move (f s))
    (hpost : post ⟨⟩ ⟨⟩ (f s)) :
    InStep move (MonadState.modifyGet fun s => (⟨⟩, f s))
      (MonadState.modifyGet fun s => (⟨⟩, f' s)) s post := by
  refine .succeeds ⟨⟩ ⟨⟩ (f s) rfl ?_ hpost
  show EStateM.Result.ok _ (f' (move s)) = _
  rw [h]

/-- A choice that both operations make alike. -/
lemma ite {c c' : Prop} [Decidable c] [Decidable c'] {op other : EStateM LinkError σ α}
    {op' other' : EStateM LinkError σ β} (hc : c' ↔ c) (hthen : c → InStep move op op' s post)
    (helse : ¬c → InStep move other other' s post) :
    InStep move (if c then op else other) (if c' then op' else other') s post := by
  by_cases h : c
  · rw [if_pos h, if_pos (hc.mpr h)]
    exact hthen h
  · rw [if_neg h, if_neg (mt hc.mp h)]
    exact helse h

end InStep

/-! ## Placing groups -/

namespace SyntaxTree

variable (k : Nat) (t : SyntaxTree) (id : NodeId)

/-- Moving a tree keeps the node that takes a comment. -/
@[simp] lemma destination?_shift : (t.shift k).destination? id = t.destination? id := by
  simp [destination?]

/-- Moving a tree keeps whether the parent of a node tolerates placeholders. -/
@[simp] lemma parentTolerates_shift : (t.shift k).parentTolerates id = t.parentTolerates id := by
  simp [parentTolerates]

/-- Moving a tree keeps where a floating group goes. -/
@[simp] lemma floatingSite?_shift : (t.shift k).floatingSite? id = t.floatingSite? id := by
  simp [floatingSite?]

/-- A destination lies in the tree. -/
lemma lt_size_of_destination? {t : SyntaxTree} {id target : NodeId}
    (h : t.destination? id = some target) : target < t.size := by
  have haccepts := List.find?_some (p := fun n => (t.node n).accepts) h
  by_contra hout
  rw [node_of_size_le (Nat.not_lt.mp hout)] at haccepts
  exact absurd haccepts (by decide)

/-- The node behind another one lies in the tree. -/
lemma WellFormed.lt_size_of_nextSibling {t : SyntaxTree} (h : t.WellFormed) {id next : NodeId}
    (hnext : t.nextSibling id = .ok (some next)) : next < t.size := by
  cases hparent : t.parent? id with
  | none =>
    have hnone : t.nextSibling id = .ok none := by
      simp only [nextSibling, indexInParent, hparent]
      rfl
    simp [hnone] at hnext
  | some p =>
    obtain ⟨left, right, hchildren⟩ := List.append_of_mem (h.mem_children hparent)
    rw [h.nextSibling_eq hparent hchildren] at hnext
    have hmem : next ∈ right := List.mem_of_mem_head? (Except.ok.inj hnext)
    exact h.lt_size_of_mem (p := p) (by simp [hchildren, hmem])

/-- A placeholder put before a node leaves a well-formed tree with both of them. -/
lemma WellFormed.of_insertPlaceholderBefore {t grown : SyntaxTree} (h : t.WellFormed)
    {id placeholder : NodeId} (hgrown : t.insertPlaceholderBefore id = .ok (placeholder, grown)) :
    id < t.size ∧ grown.WellFormed ∧ placeholder < grown.size := by
  cases hparent : t.parent? id with
  | none =>
    simp only [insertPlaceholderBefore, hparent] at hgrown
    cases hgrown
  | some p =>
    obtain ⟨grown', left, right, hgrown', -, g⟩ := graft_insertPlaceholderBefore h hparent
    obtain ⟨rfl, rfl⟩ := Prod.mk.inj (Except.ok.inj (hgrown'.symm.trans hgrown))
    refine ⟨lt_size_of_parent? hparent, g.wellFormed h, ?_⟩
    rw [g.size_eq]
    exact Nat.lt_succ_self _

end SyntaxTree

namespace Placement

/-- A placement some lines further down. -/
def shift (k : Nat) (p : Placement) : Placement :=
  { tree := p.tree.shift k, group := p.group.shift k, map := p.map,
    journal := p.journal.map (Event.shift k) }

section

variable (k : Nat) {markers : List Marker} {p : Placement} {id : NodeId} {text : String}

/-- Noting an event and noting the moved event go in step. -/
lemma inStep_note {e e' : Event} (h : e' = e.shift k) :
    InStep (shift k) (note e) (note e') p fun _ _ q => q.tree = p.tree := by
  refine InStep.modify ?_ rfl
  simp [shift, h]

/-- Computations that may fail, alike up to a change of their values. -/
lemma inStep_ofExcept {α β : Type} {result : Except LinkError α} {result' : Except LinkError β}
    {f : α → β} (h : result' = result.map f) :
    InStep (shift k) (ofExcept result) (ofExcept result') p fun a b q =>
      b = f a ∧ q = p ∧ result = .ok a := by
  subst h
  cases result with
  | error e => exact .throw e
  | ok a => exact .pure ⟨rfl, rfl, rfl⟩

/-- The comments of which nothing is left are noted in step. -/
lemma map_shift_dropped (journal : Journal) (group : CommentGroup) :
    (journal ++ ((group.filter fun c => (c.filtered markers).isEmpty).map
        fun _ => Event.shellDropped)).map (Event.shift k) =
      journal.map (Event.shift k) ++
        (((group.shift k).filter fun c => (c.filtered markers).isEmpty).map
          fun _ => Event.shellDropped) := by
  rw [List.map_const', List.map_const', CommentGroup.length_dropped_shift]
  apply Array.toList_inj.mp
  simp [Event.shift]

/-- Taking the text of a group goes in step. -/
lemma inStep_takeGroup :
    InStep (shift k) (takeGroup markers) (takeGroup markers) p fun a b q =>
      b = a ∧ q.tree = p.tree := by
  refine .succeeds _ _ _ rfl ?_ ⟨rfl, rfl⟩
  show EStateM.Result.ok ((p.group.shift k).compose markers) _ = EStateM.Result.ok _ _
  rw [CommentGroup.compose_shift]
  simp only [shift, map_shift_dropped]
  rfl

/-- Adding to an entry reads no line. -/
lemma inStep_addEntry :
    InStep (shift k) (addEntry id text) (addEntry id text) p fun _ _ q => q.tree = p.tree := by
  refine InStep.get_bind ?_
  refine (inStep_ofExcept k (f := fun m => m) ?_).bind ?_
  · show p.map.add id text = _
    cases p.map.add id text <;> rfl
  · rintro _ extended p ⟨rfl, rfl, -⟩
    refine InStep.ite Iff.rfl (fun _ => ?_) fun _ => InStep.modify rfl rfl
    refine (inStep_note k rfl).bind ?_
    intro _ _ q hq
    exact InStep.modify rfl hq

/-- The node that takes a group is found in step. -/
lemma inStep_destination :
    InStep (shift k) (destination id) (destination id) p fun a b q =>
      b = a ∧ q = p ∧ a < p.tree.size := by
  refine InStep.get_bind ?_
  dsimp only [shift]
  rw [SyntaxTree.destination?_shift, SyntaxTree.kind_node_shift]
  cases htarget : p.tree.destination? id with
  | none => exact .throw _
  | some target => exact .pure ⟨rfl, rfl, SyntaxTree.lt_size_of_destination? htarget⟩

/-- **Groups are placed on nodes in step.** -/
lemma inStep_linkGroup :
    InStep (shift k) (linkGroup markers id) (linkGroup markers id) p fun a b q =>
      b = a ∧ q.tree = p.tree := by
  refine (inStep_destination k).bind ?_
  rintro _ target p ⟨rfl, rfl, hlt⟩
  refine (inStep_takeGroup k).bind ?_
  rintro _ text q ⟨rfl, htree⟩
  refine InStep.ite Iff.rfl (fun _ => .pure ⟨rfl, htree⟩) fun _ => ?_
  refine (inStep_addEntry k).bind ?_
  rintro _ _ r hr
  refine InStep.get_bind ?_
  have hnode : (r.tree.shift k).node target = (r.tree.node target).shift k :=
    SyntaxTree.node_shift k (by rwa [hr, htree])
  refine (inStep_note k ?_).bind ?_
  · show Event.groupLinked _ target _ = _
    rw [shift, hnode]
    rfl
  · rintro _ _ s hs
    exact .pure ⟨rfl, hs.trans (hr.trans htree)⟩

/-- A text is stored on a placeholder in step. -/
lemma inStep_anchor (hid : id < p.tree.size) :
    InStep (shift k) (anchor id text) (anchor id text) p fun a b q =>
      b = a ∧ q.tree = p.tree := by
  refine (inStep_addEntry k).bind ?_
  rintro _ _ q hq
  refine InStep.get_bind ?_
  have hnode : (q.tree.shift k).node id = (q.tree.node id).shift k :=
    SyntaxTree.node_shift k (by rwa [hq])
  refine (inStep_note k ?_).bind ?_
  · rw [shift, hnode]
    rfl
  · rintro _ _ r hr
    exact .pure ⟨rfl, hr.trans hq⟩

/-- The tree is replaced by a grown one in step. -/
lemma inStep_grow (grown : SyntaxTree) :
    InStep (shift k) (modify fun q => { q with tree := grown } : Placing Unit)
      (modify fun q => { q with tree := grown.shift k } : Placing Unit) p
      fun _ _ q => q.tree = grown :=
  InStep.modify rfl rfl

/-- A placeholder is put before a node in step. -/
lemma inStep_insertBefore (h : p.tree.WellFormed) :
    InStep (shift k) (insertBefore id) (insertBefore id) p fun a b q =>
      b = a ∧ q.tree.WellFormed ∧ a < q.tree.size := by
  refine InStep.get_bind ?_
  refine (inStep_ofExcept k (SyntaxTree.insertPlaceholderBefore_shift k p.tree id)).bind ?_
  rintro ⟨placeholder, grown⟩ _ p ⟨rfl, rfl, hgrown⟩
  obtain ⟨hid, hwf, hlt⟩ := h.of_insertPlaceholderBefore hgrown
  have hnode : (p.tree.shift k).node id = (p.tree.node id).shift k := SyntaxTree.node_shift k hid
  refine (inStep_grow k grown).bind ?_
  intro _ _ q hq
  refine (inStep_note k ?_).bind ?_
  · rw [shift, hnode]
    rfl
  · intro _ _ r hr
    rw [hq] at hr
    exact .pure ⟨rfl, by rwa [hr], by rwa [hr]⟩

/-- A placeholder is put at the end of a node in step. -/
lemma inStep_append (h : p.tree.WellFormed) (hid : id < p.tree.size) :
    InStep (shift k) (append id) (append id) p fun a b q =>
      b = a ∧ q.tree.WellFormed ∧ a < q.tree.size := by
  refine InStep.get_bind ?_
  dsimp only [shift]
  rw [SyntaxTree.appendPlaceholder_shift k hid, SyntaxTree.kind_node_shift]
  have g := SyntaxTree.graft_appendPlaceholder hid
  refine (inStep_grow k _).bind ?_
  intro _ _ q hq
  refine (inStep_note k rfl).bind ?_
  intro _ _ r hr
  rw [hq] at hr
  refine .pure ⟨rfl, ?_, ?_⟩
  · rw [hr]
    exact g.wellFormed h
  · rw [hr, g.size_eq]
    exact Nat.lt_succ_self _

/-- **Floating groups are placed in step.** -/
lemma inStep_placeFloating (h : p.tree.WellFormed) :
    InStep (shift k) (placeFloating markers id) (placeFloating markers id) p fun a b q =>
      b = a ∧ q.tree.WellFormed := by
  refine InStep.get_bind ?_
  dsimp only [shift]
  rw [SyntaxTree.floatingSite?_shift, SyntaxTree.parentTolerates_shift]
  refine InStep.ite Iff.rfl (fun _ => ?_) fun _ => ?_
  · refine (inStep_takeGroup k).bind ?_
    rintro _ text q ⟨rfl, hq⟩
    refine InStep.ite Iff.rfl (fun _ => .pure ⟨rfl, by rwa [hq]⟩) fun _ => ?_
    refine (inStep_insertBefore k (by rwa [hq])).bind ?_
    rintro _ placeholder r ⟨rfl, hwf, hlt⟩
    refine (inStep_anchor k hlt).bind ?_
    rintro _ _ s ⟨rfl, hs⟩
    exact .pure ⟨rfl, by rwa [hs]⟩
  · refine (inStep_linkGroup k).bind ?_
    rintro _ written q ⟨rfl, hq⟩
    exact .pure ⟨rfl, by rwa [hq]⟩

/-- **Groups at the end of the source are placed in step.** -/
lemma inStep_placeTrailing (h : p.tree.WellFormed) :
    InStep (shift k) (placeTrailing markers) (placeTrailing markers) p fun a b q =>
      b = a ∧ q.tree.WellFormed := by
  refine InStep.get_bind ?_
  dsimp only [shift]
  rw [SyntaxTree.root?_shift]
  cases hroot : p.tree.root? with
  | none => exact .throw _
  | some root =>
    have hsize : 0 < p.tree.size := SyntaxTree.size_pos_of_root? (by simp [hroot])
    obtain rfl : 0 = root := Option.some.inj ((SyntaxTree.root?_of_pos hsize).symm.trans hroot)
    refine (inStep_takeGroup k).bind ?_
    rintro _ text q ⟨rfl, hq⟩
    refine InStep.ite Iff.rfl (fun _ => .pure ⟨rfl, by rwa [hq]⟩) fun _ => ?_
    refine (inStep_append k (by rwa [hq]) (by rwa [hq])).bind ?_
    rintro _ placeholder r ⟨rfl, hwf, hlt⟩
    refine (inStep_anchor k hlt).bind ?_
    rintro _ _ s ⟨rfl, hs⟩
    exact .pure ⟨rfl, by rwa [hs]⟩

/-- The comma between a comment and the next argument stays where it is. -/
lemma commaBetween_shift (comment : Comment) (following : Node) (sourceLine : String) :
    commaBetween (comment.shift k) (following.shift k) sourceLine =
      commaBetween comment following sourceLine := by
  have hline : comment.stop.line + k = following.start.line + k ↔
      comment.stop.line = following.start.line := by omega
  simp [commaBetween, searchStop, Comment.shift, Node.shift, hline]

/-- **Comments between arguments are resolved in step.** -/
lemma inStep_resolveArgument (h : p.tree.WellFormed) (comment : Comment) (sourceLine : String) :
    InStep (shift k) (resolveArgument id comment sourceLine)
      (resolveArgument id (comment.shift k) sourceLine) p fun a b q =>
        b = a ∧ q.tree = p.tree := by
  refine InStep.get_bind ?_
  refine (inStep_ofExcept k (f := fun next => next) ?_).bind ?_
  · show (p.tree.shift k).nextSibling id = _
    rw [SyntaxTree.nextSibling_shift]
    cases p.tree.nextSibling id <;> rfl
  · rintro _ next p ⟨rfl, rfl, hnext⟩
    cases next with
    | none => exact .pure ⟨rfl, rfl⟩
    | some next =>
      have hnode : (p.tree.shift k).node next = (p.tree.node next).shift k :=
        SyntaxTree.node_shift k (h.lt_size_of_nextSibling hnext)
      dsimp only [shift]
      rw [hnode, commaBetween_shift]
      refine InStep.ite Iff.rfl (fun _ => ?_) fun _ => ?_
      · refine (inStep_note k rfl).bind ?_
        intro _ _ q hq
        exact .pure ⟨rfl, hq⟩
      · exact InStep.ite Iff.rfl (fun _ => .pure ⟨rfl, rfl⟩) fun _ => .pure ⟨rfl, rfl⟩

end

end Placement

end Marginalia
