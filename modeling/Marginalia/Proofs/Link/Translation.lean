import Marginalia.Proofs.Link.InStep
import Marginalia.Proofs.Link.Progress

/-!
# Passes over sources further down

Empty lines before a source change nothing in how its comments are placed.  The pass over the moved
source and the pass over the source go in step: between operations both are in the same state, but
for the lines, and they take the same branches, as they only compare lines with each other.

## Main definitions

* `Pass.shift`, `PassOutcome.shift` — the moved states and outcomes.
* `Pass.Alike` — what operations in step keep.

## Main results

* `Pass.inStep_visit`, `Pass.inStep_walk`, `Pass.inStep_run` — visits and passes go in step.
* `linkComments_shift` — the outcome for the moved source is the moved outcome.
-/

namespace Marginalia

/-! ## Passes -/

namespace Pass

/-- The state of a pass some lines further down. -/
def shift (k : Nat) (p : Pass) : Pass :=
  { toPlacement := p.toPlacement.shift k, stream := p.stream.shift k,
    trace := p.trace.map (Move.shift k) }

/-- Operations of a pass that end with the same value and keep the tree well formed. -/
def Alike {α : Type} (a b : α) (p : Pass) : Prop := b = a ∧ p.tree.WellFormed

section

variable (k : Nat) {settings : LinkSettings} {p : Pass} {id parent : NodeId} {line : Int}

/-- Operations of placing that go in step do so in a pass. -/
lemma inStep_place {α β : Type} {operation : Placing α} {operation' : Placing β}
    {post : α → β → Placement → Prop}
    (h : InStep (Placement.shift k) operation operation' p.toPlacement post) :
    InStep (shift k) (place operation) (place operation') p fun a b q =>
      post a b q.toPlacement := by
  cases h with
  | fails e t left right =>
    refine .fails e { p with toPlacement := t } ?_ ?_
    · simp only [place, left]
    · simp only [place, shift, right]
  | succeeds a b t left right holds =>
    refine .succeeds a b { p with toPlacement := t } ?_ ?_ holds
    · simp only [place, left]
    · simp only [place, shift, right]

/-- Recording a step and recording the moved step go in step. -/
lemma inStep_record {move move' : Move} (h : move' = move.shift k) :
    InStep (shift k) (record move) (record move') p fun _ _ q =>
      q.toPlacement = p.toPlacement := by
  refine InStep.modify ?_ rfl
  simp [shift, h]

/-- Questions to the stream are answered in step. -/
lemma inStep_ask {α β : Type} {question : CommentStream → Except LinkError α}
    {question' : CommentStream → Except LinkError β} {f : α → β}
    (h : question' (p.stream.shift k) = (question p.stream).map f) :
    InStep (shift k) (ask question) (ask question') p fun a b q => b = f a ∧ q = p := by
  refine InStep.get_bind ?_
  have hstream : (shift k p).stream = p.stream.shift k := rfl
  rw [hstream, h]
  cases question p.stream with
  | error e => exact .throw e
  | ok a => exact .pure ⟨rfl, rfl⟩

/-- Questions whose answer holds no line. -/
lemma inStep_ask_same {α : Type} {question question' : CommentStream → Except LinkError α}
    (h : question' (p.stream.shift k) = question p.stream) :
    InStep (shift k) (ask question) (ask question') p fun a b q => b = a ∧ q = p := by
  refine inStep_ask k (f := fun a => a) ?_
  rw [h]
  cases question p.stream <;> rfl

/-- Moving on by one comment goes in step. -/
lemma inStep_advance : InStep (shift k) advance advance p fun _ _ q => q.tree = p.tree := by
  refine InStep.modify ?_ rfl
  have hadvance := CommentStream.advance_shift k p.stream p.group
  simp only [shift, Placement.shift, hadvance]

/-- A flush goes in step if its placing does. -/
lemma inStep_flush {α : Type} {operation : Placing α} {move move' : Move}
    (hmove : move' = move.shift k)
    (h : InStep (Placement.shift k) operation operation p.toPlacement fun _ _ q =>
      q.tree.WellFormed) :
    InStep (shift k) (do record move; let _ ← place operation)
      (do record move'; let _ ← place operation) p Alike := by
  refine (inStep_record k hmove).bind ?_
  intro _ _ q hq
  rw [← hq] at h
  refine (inStep_place k h).bind ?_
  intro _ _ r hr
  exact .pure ⟨rfl, hr⟩

/-- Linking a group to a node goes in step. -/
lemma inStep_link (h : p.tree.WellFormed) :
    InStep (shift k) (link settings id) (link settings id) p Alike := by
  refine InStep.get_bind (inStep_flush k rfl ((Placement.inStep_linkGroup k).mono ?_))
  rintro _ _ q ⟨-, hq⟩
  rwa [hq]

/-- Placing a floating group goes in step. -/
lemma inStep_float (h : p.tree.WellFormed) :
    InStep (shift k) (float settings id) (float settings id) p Alike := by
  refine InStep.get_bind (inStep_flush k rfl ((Placement.inStep_placeFloating k h).mono ?_))
  rintro _ _ q ⟨-, hq⟩
  exact hq

/-- Placing a trailing group goes in step. -/
lemma inStep_trail (h : p.tree.WellFormed) :
    InStep (shift k) (trail settings) (trail settings) p Alike := by
  refine InStep.get_bind (inStep_flush k rfl ((Placement.inStep_placeTrailing k h).mono ?_))
  rintro _ _ q ⟨-, hq⟩
  exact hq

/-- **Visits catch up with the comments above a node in step.**

**Proof sketch.** Induction on the number of steps allowed.  Both lines that are compared, the one
of the node and the one on which the current comment ends, have moved. -/
lemma inStep_catchUp (settings : LinkSettings) (id : NodeId) (line : Int) :
    ∀ (steps : Nat) (moved : Bool) (p : Pass), p.tree.WellFormed →
      InStep (shift k) (catchUp settings id line steps moved)
        (catchUp settings id (line + k) steps moved) p Alike := by
  intro steps
  induction steps with
  | zero => exact fun moved p h => .pure ⟨rfl, h⟩
  | succ steps ih =>
    intro moved p h
    have hnext : ∀ q : Pass, q.tree.WellFormed →
        InStep (shift k) (do advance; catchUp settings id line steps true)
          (do advance; catchUp settings id (line + k) steps true) q Alike := by
      intro q hq
      refine (inStep_advance k).bind ?_
      intro _ _ r hr
      exact ih true r (by rwa [hr])
    unfold catchUp
    refine InStep.get_bind ?_
    refine InStep.ite (by simp [shift]) (fun _ => .pure ⟨rfl, h⟩) fun _ => ?_
    refine (inStep_ask_same k (p.stream.isAdjacentTo_shift k line)).bind ?_
    rintro _ adjacent p ⟨rfl, rfl⟩
    refine InStep.ite Iff.rfl (fun _ => .pure ⟨rfl, h⟩) fun _ => ?_
    refine (inStep_ask k (p.stream.lastLine_shift k)).bind ?_
    rintro last _ p ⟨rfl, rfl⟩
    refine InStep.ite (by omega) (fun _ => .pure ⟨rfl, h⟩) fun _ => ?_
    refine (inStep_ask_same k (p.stream.breaksGroup_shift k)).bind ?_
    rintro _ breaks p ⟨rfl, rfl⟩
    refine InStep.ite Iff.rfl (fun _ => ?_) fun _ => hnext p h
    refine (inStep_float k h).bind ?_
    rintro _ _ q ⟨-, hq⟩
    exact hnext q hq

/-- Visits ask for arguments in step. -/
lemma inStep_resolve (h : p.tree.WellFormed) :
    InStep (shift k) (resolve id line) (resolve id (line + k)) p Alike := by
  refine (inStep_ask k (p.stream.current_shift k)).bind ?_
  rintro comment _ p ⟨rfl, rfl⟩
  refine InStep.get_bind ?_
  have hline : (p.shift k).tree.sourceLine (line + k) = p.tree.sourceLine line :=
    SyntaxTree.sourceLine_shift k p.tree line
  rw [hline]
  refine (inStep_place k (Placement.inStep_resolveArgument k h comment _)).bind ?_
  rintro _ target q ⟨rfl, hq⟩
  refine (inStep_record k rfl).bind ?_
  intro _ _ r hr
  exact .pure ⟨rfl, by rwa [hr, hq]⟩

/-- **Visits compare the group under way with a node in step.** -/
lemma inStep_settle (h : p.tree.WellFormed) (moved : Bool) :
    InStep (shift k) (settle settings id parent line moved)
      (settle settings id parent (line + k) moved) p Alike := by
  have hlink : ∀ (q : Pass) (target : NodeId), q.tree.WellFormed →
      InStep (shift k) (do link settings target; return true)
        (do link settings target; return true) q Alike := by
    intro q target hq
    refine (inStep_link k hq).bind ?_
    rintro _ _ r ⟨-, hr⟩
    exact .pure ⟨rfl, hr⟩
  unfold settle
  refine (inStep_ask k (p.stream.lastLine_shift k)).bind ?_
  rintro last _ p ⟨rfl, rfl⟩
  refine InStep.get_bind ?_
  dsimp only [shift, Placement.shift]
  rw [SyntaxTree.kind_node_shift, SyntaxTree.start_column_node_shift]
  refine InStep.ite (by omega) (fun _ => ?_) fun _ => ?_
  · refine InStep.ite Iff.rfl (fun _ => ?_) fun _ => ?_
    · refine (inStep_resolve k h).bind ?_
      rintro _ target q ⟨rfl, hq⟩
      cases target with
      | none => exact .pure ⟨rfl, hq⟩
      | some target => exact hlink q target hq
    · refine (inStep_ask k (p.stream.current_shift k)).bind ?_
      rintro comment _ p ⟨rfl, rfl⟩
      exact InStep.ite Iff.rfl (fun _ => hlink p id h) fun _ => .pure ⟨rfl, h⟩
  · refine InStep.ite (by omega) (fun _ => hlink p id h) fun _ => ?_
    refine InStep.get_bind ?_
    refine InStep.ite (by simp [shift]) (fun _ => ?_) fun _ => .pure ⟨rfl, h⟩
    refine (inStep_float k h).bind ?_
    rintro _ _ q ⟨-, hq⟩
    exact .pure ⟨rfl, hq⟩

/-- **Visits go in step.** -/
lemma inStep_visit (h : p.tree.WellFormed) :
    InStep (shift k) (visit settings id) (visit settings id) p Alike := by
  refine (inStep_record k rfl).bind ?_
  intro _ _ q hq
  rw [← hq] at h
  refine InStep.get_bind ?_
  dsimp only [shift, Placement.shift]
  rw [SyntaxTree.parent?_shift]
  cases hparent : q.tree.parent? id with
  | none => exact .pure ⟨rfl, h⟩
  | some parent =>
    have hnode : (q.tree.shift k).node id = (q.tree.node id).shift k :=
      SyntaxTree.node_shift k (SyntaxTree.lt_size_of_parent? hparent)
    rw [hnode]
    refine (inStep_ask k (q.stream.lastLine_shift k)).bind ?_
    rintro last _ q ⟨rfl, rfl⟩
    refine InStep.ite (by simp [Node.shift]) (fun _ => .pure ⟨rfl, h⟩) fun _ => ?_
    refine InStep.get_bind ?_
    have hlength : (q.shift k).stream.comments.length = q.stream.comments.length :=
      CommentStream.length_comments_shift k q.stream
    rw [hlength]
    refine (inStep_catchUp k settings id _ _ false q h).bind ?_
    rintro _ caught r ⟨rfl, hr⟩
    cases caught with
    | passed => exact .pure ⟨rfl, hr⟩
    | here moved =>
      refine (inStep_settle k hr moved).bind ?_
      rintro _ settled s ⟨rfl, hs⟩
      refine InStep.ite Iff.rfl (fun _ => ?_) fun _ => .pure ⟨rfl, hs⟩
      refine (inStep_advance k).mono ?_
      intro _ _ u hu
      exact ⟨rfl, by rwa [hu]⟩

/-- **Walks go in step**, as each visit does. -/
lemma inStep_walk (settings : LinkSettings) :
    ∀ (steps : Nat) (stack : List NodeId) (p : Pass), p.tree.WellFormed →
      InStep (shift k) (walk settings steps stack) (walk settings steps stack) p Alike := by
  intro steps
  induction steps with
  | zero => exact fun stack p h => .pure ⟨rfl, h⟩
  | succ steps ih =>
    intro stack p h
    cases stack with
    | nil => exact .pure ⟨rfl, h⟩
    | cons id stack =>
      unfold walk
      refine InStep.get_bind ?_
      refine InStep.ite (by simp [shift]) (fun _ => .pure ⟨rfl, h⟩) fun _ => ?_
      refine (inStep_visit k h).bind ?_
      rintro _ _ q ⟨-, hq⟩
      refine InStep.get_bind ?_
      have hchildren : (q.shift k).tree.children id = q.tree.children id :=
        SyntaxTree.children_shift k q.tree id
      rw [hchildren]
      exact ih _ q hq

/-- **What is left at the end of the source is placed in step.** -/
lemma inStep_flushEnd (settings : LinkSettings) :
    ∀ (steps : Nat) (p : Pass), p.tree.WellFormed →
      InStep (shift k) (flushEnd settings steps) (flushEnd settings steps) p Alike := by
  intro steps
  induction steps with
  | zero => exact fun p h => .pure ⟨rfl, h⟩
  | succ steps ih =>
    intro p h
    have hnext : ∀ q : Pass, q.tree.WellFormed →
        InStep (shift k) (do advance; flushEnd settings steps)
          (do advance; flushEnd settings steps) q Alike := by
      intro q hq
      refine (inStep_advance k).bind ?_
      intro _ _ r hr
      exact ih r (by rwa [hr])
    unfold flushEnd
    refine InStep.get_bind ?_
    refine InStep.ite (by simp [shift]) (fun _ => ?_) fun _ => ?_
    · refine (inStep_ask_same k (p.stream.breaksGroup_shift k)).bind ?_
      rintro _ breaks p ⟨rfl, rfl⟩
      refine InStep.ite Iff.rfl (fun _ => ?_) fun _ => hnext p h
      refine (inStep_trail k h).bind ?_
      rintro _ _ q ⟨-, hq⟩
      exact hnext q hq
    · refine (inStep_trail k h).bind ?_
      rintro _ _ q ⟨-, hq⟩
      refine (inStep_advance k).mono ?_
      intro _ _ r hr
      exact ⟨rfl, by rwa [hr]⟩

/-- Freezing the map goes in step. -/
lemma inStep_freeze (h : p.tree.WellFormed) : InStep (shift k) freeze freeze p Alike :=
  InStep.modify rfl ⟨rfl, h⟩

/-- The last event of a pass counts what is the same in both. -/
lemma inStep_close (h : p.tree.WellFormed) :
    let close : Linking Unit := do
      freeze
      let p ← get
      place (Placement.note
        (.passEnded p.stream.comments.length p.map.size p.tree.placeholderCount))
    InStep (shift k) close close p Alike := by
  refine (inStep_freeze k h).bind ?_
  rintro _ _ q ⟨-, hq⟩
  refine InStep.get_bind ?_
  have hlength : (q.shift k).stream.comments.length = q.stream.comments.length :=
    CommentStream.length_comments_shift k q.stream
  rw [hlength]
  refine (inStep_place k (Placement.inStep_note k rfl)).mono ?_
  intro _ _ r hr
  exact ⟨rfl, by rwa [hr]⟩

/-- **Passes go in step.** -/
lemma inStep_run (h : p.tree.WellFormed) :
    InStep (shift k) (run settings) (run settings) p Alike := by
  unfold run
  refine InStep.get_bind ?_
  dsimp only [shift, Placement.shift]
  refine InStep.ite (by simp) (fun _ => inStep_freeze k h) fun _ => ?_
  rw [SyntaxTree.root?_shift, SyntaxTree.size_shift, CommentStream.length_comments_shift]
  cases p.tree.root? with
  | none => exact .throw _
  | some root =>
    refine (inStep_walk k settings _ _ p h).bind ?_
    rintro _ _ q ⟨-, hq⟩
    refine InStep.get_bind ?_
    refine InStep.ite (by simp [shift]) (fun _ => ?_) fun _ => inStep_close k hq
    refine (inStep_flushEnd k settings _ q hq).bind ?_
    rintro _ _ r ⟨-, hr⟩
    exact inStep_close k hr

/-- The moved pass starts in the moved state. -/
lemma start_shift (tree : SyntaxTree) (stream : CommentStream) :
    (start tree stream).shift k = start (tree.shift k) (stream.shift k) := by
  simp [start, shift, Placement.shift, CommentStream.firstGroup_shift]

/-- The one fault of a pass over comments in order names no place. -/
lemma eq_noRoot_of_run {tree : SyntaxTree} (hb : tree.Built) {comments : List Comment}
    (horder : CommentStream.checkOrder comments = .ok ()) {e : LinkError}
    (hrun : run settings (start tree ⟨comments, 0⟩) = .error e p) : e = .noRoot := by
  by_cases hroot : comments = [] ∨ tree.root? ≠ none
  · obtain ⟨q, -, hok, -⟩ := exists_runs_of_linkComments settings hb horder
      (hroot.imp_right SyntaxTree.size_pos_of_root?)
    rw [hok] at hrun
    cases hrun
  · obtain ⟨hne, hnone⟩ := not_or.mp hroot
    rw [run_of_rootless settings hne (not_not.mp hnone)] at hrun
    cases hrun
    rfl

end

end Pass

/-! ## Outcomes -/

/-- An outcome some lines further down: the tree has moved, and so have the places named in the
journal and in the fault; the map is the same. -/
def PassOutcome.shift (k : Nat) (outcome : PassOutcome) : PassOutcome :=
  { tree := outcome.tree.shift k, map := outcome.map,
    journal := outcome.journal.map (Event.shift k),
    failure := outcome.failure.map (LinkError.shift k) }

/-- Faults and passes together: the outcome for the moved source is the moved outcome. -/
lemma linkComments_shift_eq (settings : LinkSettings) {tree : SyntaxTree} (hb : tree.Built)
    (comments : List Comment) (k : Nat) :
    linkComments settings (tree.shift k) (comments.map (Comment.shift k)) =
      (linkComments settings tree comments).shift k := by
  obtain ⟨hwf, -, -⟩ := hb.wellFormed_and_plain
  have hmoved := CommentStream.checkOrder_shift k comments
  cases horder : CommentStream.checkOrder comments with
  | error e =>
    rw [horder] at hmoved
    rw [linkComments_of_checkOrder_error horder, linkComments_of_checkOrder_error hmoved]
    simp [PassOutcome.shift]
  | ok _ =>
    rw [horder] at hmoved
    rw [linkComments_of_checkOrder_ok horder, linkComments_of_checkOrder_ok hmoved]
    have hstart : Pass.start (tree.shift k) ⟨comments.map (Comment.shift k), 0⟩ =
        (Pass.start tree ⟨comments, 0⟩).shift k :=
      (Pass.start_shift k tree ⟨comments, 0⟩).symm
    rw [hstart]
    have hstep : InStep (Pass.shift k) (Pass.run settings) (Pass.run settings)
        (Pass.start tree ⟨comments, 0⟩) Pass.Alike := Pass.inStep_run k hwf
    cases hstep with
    | fails e p left right =>
      obtain rfl := Pass.eq_noRoot_of_run hb horder left
      rw [left, right]
      rfl
    | succeeds _ _ p left right =>
      rw [left, right]
      rfl

/-- **Empty lines before a source move the outcome of its pass and change nothing else.**  The map
has the same entries in the same order.  The tree differs in lines only: its nodes have the same
children, and the same ones among them are placeholders.  Comments that are refused are refused
further down as well. -/
theorem linkComments_shift (settings : LinkSettings) {tree : SyntaxTree} (hb : tree.Built)
    (comments : List Comment) (k : Nat) :
    let outcome := linkComments settings tree comments
    let moved := linkComments settings (tree.shift k) (comments.map (Comment.shift k))
    (tree.shift k).Built ∧ moved = outcome.shift k ∧ moved.map.entries = outcome.map.entries ∧
      ∀ id : NodeId, moved.tree.children id = outcome.tree.children id ∧
        (moved.tree.node id).placeholder = (outcome.tree.node id).placeholder := by
  intro outcome moved
  have hmoved : moved = outcome.shift k := linkComments_shift_eq settings hb comments k
  have htree : moved.tree = outcome.tree.shift k := congrArg PassOutcome.tree hmoved
  refine ⟨hb.shift k, hmoved, ?_, fun id => ⟨?_, ?_⟩⟩
  · rw [hmoved]
    rfl
  · rw [htree, SyntaxTree.children_shift]
  · rw [htree, SyntaxTree.placeholder_node_shift]

/-- A call with two arguments on the first line of its source. -/
def SyntaxTree.call : SyntaxTree :=
  let root : Node :=
    { kind := "program", start := ⟨1, 0⟩, stop := ⟨3, 6⟩, field := none, accepts := true,
      tolerates := true, placeholder := false, parent := none, children := [], index := none }
  let t := (empty .standard ["f(a /* x */, b)", "", "// end"]).push root
  let t := (t.addChild 0 ⟨"call_expression", ⟨1, 0⟩, ⟨1, 15⟩, none⟩).2
  let t := (t.addChild 1 ⟨"arguments", ⟨1, 1⟩, ⟨1, 15⟩, some "arguments"⟩).2
  let t := (t.addChild 2 ⟨"identifier", ⟨1, 2⟩, ⟨1, 3⟩, none⟩).2
  (t.addChild 2 ⟨"identifier", ⟨1, 13⟩, ⟨1, 14⟩, none⟩).2

/-- The tree of the call is built. -/
lemma SyntaxTree.built_call : call.Built :=
  have hroot := @Built.addRoot _ _ ⟨"program", ⟨1, 0⟩, ⟨3, 6⟩, none⟩ 0
    (.empty .standard ["f(a /* x */, b)", "", "// end"]) rfl
  .addChild _ (.addChild _ (.addChild _ (.addChild _ hroot (by decide)) (by decide)) (by decide))
    (by decide)

/-- A comment between the arguments, which a comma follows, and one at the end. -/
def callComments : List Comment :=
  [⟨.block, ⟨1, 4⟩, ⟨1, 11⟩, "/* x */"⟩, ⟨.line, ⟨3, 0⟩, ⟨3, 6⟩, "// end"⟩]

/-- Below two empty lines the comma is found on the third line, and the comments go on the first
argument and on a placeholder as before, as `linkComments_shift` says. -/
theorem linkComments_shift_call :
    SyntaxTree.call.Built ∧
      (linkComments .standard (SyntaxTree.call.shift 2)
        (callComments.map (Comment.shift 2))).map.entries = [(3, "/* x */"), (5, "// end")] ∧
      (linkComments .standard (SyntaxTree.call.shift 2)
        (callComments.map (Comment.shift 2))).tree.children 0 = [1, 5] := by
  have hentries : (linkComments .standard SyntaxTree.call callComments).map.entries =
      [(3, "/* x */"), (5, "// end")] := by
    decide +kernel
  have hchildren : (linkComments .standard SyntaxTree.call callComments).tree.children 0 =
      [1, 5] := by
    decide +kernel
  obtain ⟨-, -, hmap, htree⟩ := linkComments_shift .standard SyntaxTree.built_call callComments 2
  exact ⟨SyntaxTree.built_call, hmap.trans hentries, (htree 0).1.trans hchildren⟩

end Marginalia
