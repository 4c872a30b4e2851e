import Marginalia.Proofs.Comment.Order
import Marginalia.Proofs.Link.Course

/-!
# Groups go on what comes after them

A group that is flushed while a node is visited ends before the node starts, whichever of the three
flushes it is: the two that float compare lines only, and the one that places the group on the node
compares columns if the lines are the same.  The tests are made for the current comment; the others
of the group end no later, as the comments are in order.  Arguments of a call are the exception,
since a comment may belong to the argument before it.

## Main definitions

* `Pass.Visiting`, `Pass.TakenDuring` — the node visited last in a trace, and the steps taken
  meanwhile.
* `Pass.FlushesAbove` — all groups flushed at plain nodes end before these.

## Main results

* `Pass.Rounds.aloft`, `Pass.Ending.aloft` — the parts of a visit keep this so.
* `Pass.Reached.flushesAbove`, `Pass.Ends.flushesAbove` — a walk and its end keep it so.
* `linkComments_flushes_above` — so it is after a pass.
-/

namespace Marginalia

namespace Pass

/-! ## Steps taken while a node is visited -/

/-- The node `n` is the last one visited in a trace. -/
def Visiting (trace : List Move) (n : NodeId) : Prop :=
  ∃ before between, trace = before ++ .visit n :: between ∧ ∀ m ∈ between, ∀ y, m ≠ .visit y

/-- The step `move` was taken while the node `n` was visited. -/
def TakenDuring (trace : List Move) (n : NodeId) (move : Move) : Prop :=
  ∃ before after, trace = before ++ move :: after ∧ Visiting before n

section Trace

variable {trace : List Move} {move last : Move} {n : NodeId}

/-- A list that ends with `last` and is split at an element: the element is the last one, or the
part behind it ends with `last`. -/
lemma eq_concat_cases {before after : List Move} (h : trace ++ [last] = before ++ move :: after) :
    (move = last ∧ trace = before) ∨
      ∃ after', after = after' ++ [last] ∧ trace = before ++ move :: after' := by
  rcases List.eq_nil_or_concat after with rfl | ⟨after', e, rfl⟩
  · obtain ⟨rfl, he⟩ := List.append_inj' h rfl
    exact .inl ⟨(List.singleton_inj.mp he).symm, rfl⟩
  · rw [List.concat_eq_append, ← List.cons_append, ← List.append_assoc] at h
    obtain ⟨rfl, he⟩ := List.append_inj' h rfl
    rw [List.singleton_inj.mp he]
    exact .inr ⟨after', by simp, rfl⟩

/-- A step taken during a visit is an earlier one, or the last one of the trace. -/
lemma takenDuring_concat (h : TakenDuring (trace ++ [last]) n move) :
    TakenDuring trace n move ∨ (move = last ∧ Visiting trace n) := by
  obtain ⟨before, after, he, hv⟩ := h
  rcases eq_concat_cases he with ⟨rfl, rfl⟩ | ⟨after', -, rfl⟩
  · exact .inr ⟨rfl, hv⟩
  · exact .inl ⟨before, after', rfl, hv⟩

/-- The node visited last is that of the last step, or the last step is no visit. -/
lemma visiting_concat (h : Visiting (trace ++ [last]) n) :
    last = .visit n ∨ ((∀ y, last ≠ .visit y) ∧ Visiting trace n) := by
  obtain ⟨before, between, he, hquiet⟩ := h
  rcases eq_concat_cases he with ⟨hlast, -⟩ | ⟨between', rfl, rfl⟩
  · exact .inl hlast.symm
  · refine .inr ⟨hquiet last (by simp), before, between', rfl, ?_⟩
    intro m hm
    exact hquiet m (List.mem_append_left _ hm)

end Trace

/-! ## What one operation keeps -/

/-- The node `n` is no argument of a call. -/
def Plain (settings : LinkSettings) (tree : SyntaxTree) (n : NodeId) : Prop :=
  ∀ parent, tree.parent? n = some parent → ¬ Argument settings tree parent

/-- A step places a group on a node or before it. -/
def Places (move : Move) (group : CommentGroup) : Prop :=
  ∃ target, move = .link target group ∨ move = .float target group

/-- A group ends before the node `n` of the source, unless this is an argument. -/
def EndsBefore (settings : LinkSettings) (tree : SyntaxTree) (n : NodeId) (group : CommentGroup) :
    Prop :=
  n < tree.size ∧
    (Plain settings tree n → ∀ c ∈ group, c.stop.before (tree.node n).start = true)

/-- The groups placed while nodes were visited end before these. -/
def FlushesAbove (settings : LinkSettings) (tree : SyntaxTree) (p : Pass) : Prop :=
  ∀ n move group, TakenDuring p.trace.toList n move → Places move group →
    EndsBefore settings tree n group

/-- The same, and no other node than `x` is visited at present. -/
structure Aloft (settings : LinkSettings) (tree : SyntaxTree) (x : NodeId) (p : Pass) : Prop where
  above : FlushesAbove settings tree p
  visiting : ∀ n, Visiting p.trace.toList n → n = x

section Operations

variable {settings : LinkSettings} {tree : SyntaxTree} {comments : List Comment} {p q r : Pass}
  {x parent : NodeId} {visited rest : List NodeId} {line : Int} {moved : Bool} {move : Move}

/-- A step that places no group keeps the groups above. -/
lemma FlushesAbove.push (h : FlushesAbove settings tree p) (htrace : q.trace = p.trace.push move)
    (hmove : ∀ group, Places move group → ∀ n, Visiting p.trace.toList n →
      EndsBefore settings tree n group) : FlushesAbove settings tree q := by
  intro n m group htaken hplaces
  rw [htrace, Array.toList_push] at htaken
  rcases takenDuring_concat htaken with htaken | ⟨rfl, hvisiting⟩
  · exact h n m group htaken hplaces
  · exact hmove group hplaces n hvisiting

/-- A step without a group places none. -/
lemma not_places_of_silent {group : CommentGroup} (h : move.group? = none) :
    ¬ Places move group := by
  rintro ⟨target, rfl | rfl⟩
  · simp [Move.group?] at h
  · simp [Move.group?] at h

/-- A visit starts. -/
lemma FlushesAbove.visit (h : FlushesAbove settings tree p) :
    Aloft settings tree x (p.noted (.visit x)) where
  above := h.push rfl fun group hplaces => absurd hplaces (not_places_of_silent rfl)
  visiting := by
    intro n hn
    rw [Array.toList_push] at hn
    rcases visiting_concat hn with hlast | ⟨hquiet, -⟩
    · exact (Move.visit.inj hlast).symm
    · exact absurd rfl (hquiet x)

/-- One more step of a visit. -/
lemma Aloft.push (h : Aloft settings tree x p) (htrace : q.trace = p.trace.push move)
    (hquiet : ∀ y, move ≠ .visit y)
    (hmove : ∀ group, Places move group → EndsBefore settings tree x group) :
    Aloft settings tree x q where
  above := by
    refine h.above.push htrace ?_
    intro group hplaces n hn
    rw [h.visiting n hn]
    exact hmove group hplaces
  visiting := by
    intro n hn
    rw [htrace, Array.toList_push] at hn
    rcases visiting_concat hn with rfl | ⟨-, hn⟩
    · exact absurd rfl (hquiet n)
    · exact h.visiting n hn

/-- It is asked which argument the current comment belongs to. -/
lemma Aloft.resolve {target : Option NodeId} (h : Aloft settings tree x p)
    (asked : resolve x line p = .ok target q) : Aloft settings tree x q := by
  obtain ⟨c, after, -, -, rfl⟩ := exists_of_resolve asked
  exact h.push rfl (by simp) fun group hplaces => absurd hplaces (not_places_of_silent rfl)

/-- The group under way is placed on a node. -/
lemma Aloft.link {y : NodeId} (h : Aloft settings tree x p) (flush : link settings y p = .ok () q)
    (hgroup : EndsBefore settings tree x p.group) : Aloft settings tree x q := by
  refine h.push (flushed_of_link flush).trace_eq (by simp) ?_
  rintro group ⟨target, he | he⟩
  · obtain ⟨-, rfl⟩ := Move.link.inj he
    exact hgroup
  · cases he

/-- The group under way floats before a node. -/
lemma Aloft.float {y : NodeId} (h : Aloft settings tree x p) (flush : float settings y p = .ok () q)
    (hgroup : EndsBefore settings tree x p.group) : Aloft settings tree x q := by
  refine h.push (flushed_of_float flush).trace_eq (by simp) ?_
  rintro group ⟨target, he | he⟩
  · cases he
  · obtain ⟨-, rfl⟩ := Move.float.inj he
    exact hgroup

/-- Reading a comment places no group. -/
lemma FlushesAbove.advanced (h : FlushesAbove settings tree p) :
    FlushesAbove settings tree p.advanced := h

/-- Reading a comment places no group and visits no node. -/
lemma Aloft.advanced (h : Aloft settings tree x p) : Aloft settings tree x p.advanced :=
  ⟨h.above.advanced, h.visiting⟩

/-- Moving on behind a flush places no group and visits no node. -/
lemma Aloft.movedOn (h : Aloft settings tree x p) : Aloft settings tree x (p.movedOn moved) := by
  cases moved with
  | true => exact h
  | false => exact h.advanced

/-- **If the current comment ends before the visited node, the whole group does.** -/
lemma Underway.endsBefore (h : Underway settings tree comments visited (x :: rest) p)
    (horder : CommentStream.checkOrder comments = .ok ()) (hforward : Forward comments)
    {c : Comment} (hc : p.Current c) (hbefore : c.stop.before (tree.node x).start = true) :
    EndsBefore settings tree x p.group := by
  refine ⟨(h.core_eq (List.mem_cons_self ..)).1, fun _ e he => ?_⟩
  obtain ⟨i, hi, hget⟩ := h.runs.index_of_mem_group he
  rw [Current, h.comments_eq] at hc
  rw [h.comments_eq] at hget
  exact Position.before_of_not_before (not_before_of_le horder hforward hi hget hc) hbefore

/-- **Rounds keep the groups above**: a round that flushes compares the lines. -/
lemma Rounds.aloft (hr : Rounds settings x (tree.node x).start.line p q)
    (hu : Underway settings tree comments visited (x :: rest) p)
    (horder : CommentStream.checkOrder comments = .ok ()) (hforward : Forward comments)
    (h : Aloft settings tree x p) : Aloft settings tree x q := by
  induction hr with
  | refl => exact h
  | tail hrounds hround ih =>
    cases hround with
    | join => exact ih.advanced
    | float current following above apart gap flush =>
      have hbefore := (Position.before_iff _ (tree.node x).start).mpr (.inl above)
      exact (ih.float flush
        ((hu.rounds hrounds).endsBefore horder hforward current hbefore)).advanced

/-- **The end of a visit keeps the groups above.** -/
lemma Ending.aloft (he : Ending settings x parent (tree.node x).start.line moved p q)
    (hu : Underway settings tree comments visited (x :: rest) p)
    (hparent : p.tree.parent? x = some parent)
    (horder : CommentStream.checkOrder comments = .ok ()) (hforward : Forward comments)
    (h : Aloft settings tree x p) : Aloft settings tree x q := by
  have htop := List.mem_cons_self (a := x) (l := rest)
  cases he with
  | wait => exact h
  | behind => exact h
  | leave => exact h
  | defer current level argument asked => exact h.resolve asked
  | argue current level argument asked flush =>
    -- the visited node is an argument, so nothing is said about it
    refine ((h.resolve asked).link flush ⟨(hu.core_eq htop).1, fun hplain => ?_⟩).movedOn
    refine absurd ?_ (hplain parent ((hu.parent?_eq htop).symm.trans hparent))
    rwa [Argument, ← hu.kind_parent_eq hparent]
  | @link c _ current near touches flush =>
    have hbefore : c.stop.before (tree.node x).start = true := by
      rw [hu.start_eq htop] at near
      rw [Position.before_iff]
      omega
    exact (h.link flush (hu.endsBefore horder hforward current hbefore)).movedOn
  | @float c _ current last above unmoved flush =>
    have hbefore : c.stop.before (tree.node x).start = true := by
      rw [Position.before_iff]
      omega
    exact (h.float flush (hu.endsBefore horder hforward current hbefore)).advanced

/-- Flushing at the end of the source places no group before a node. -/
lemma FlushesAbove.trail (h : FlushesAbove settings tree p) (flush : trail settings p = .ok () q) :
    FlushesAbove settings tree q := by
  refine h.push (flushed_of_trail flush).trace_eq ?_
  rintro group ⟨target, he | he⟩
  · cases he
  · cases he

/-- What happens after the walk places no group on or before a node. -/
lemma Ends.flushesAbove (he : Ends settings p q) (h : FlushesAbove settings tree p) :
    FlushesAbove settings tree q :=
  he.keeps h (fun hr _ _ _ => hr.advanced) fun hr _ _ flush => (hr.trail flush).advanced

/-- **Visits keep the groups above.** -/
lemma Reached.flushesAbove {stack : List NodeId}
    (hreached : Reached settings tree comments p visited stack) (hb : tree.Built)
    (hsize : 0 < tree.size) (horder : CommentStream.checkOrder comments = .ok ())
    (hforward : Forward comments) : FlushesAbove settings tree p := by
  induction hreached with
  | start =>
    rintro n move group ⟨before, after, he, -⟩
    simp [Pass.start] at he
  | @visit p q x visited rest reached unread visits ih =>
    have hu := reached.underway hb hsize
    rcases hu.exists_ending unread visits with
      ⟨-, rfl⟩ | ⟨parent, r, -, hrparent, hur, hrounds, hending⟩
    · exact (ih.visit (x := x)).above
    · have hr := Rounds.aloft hrounds hu.noted horder hforward ih.visit
      exact (hending.aloft hur hrparent horder hforward hr).above

end Operations

end Pass

/-! ## Groups and the nodes they are placed at -/

/-- **No comment goes on code that comes before it.**  Whenever a pass places a group while it
visits a node that is no argument of a call, on the node, on a node above it or on a placeholder,
every comment of the group ends strictly before the start of the visited node. -/
theorem linkComments_flushes_above (settings : LinkSettings) {tree : SyntaxTree} (hb : tree.Built)
    {comments : List Comment} {stream : CommentStream}
    (hstream : CommentStream.ofComments comments = .ok stream)
    (hforward : ∀ c ∈ comments, c.stop.before c.start = false)
    (hroot : comments = [] ∨ tree.root? ≠ none) :
    ∃ p, Pass.run settings (Pass.start tree stream) = .ok () p ∧
      linkComments settings tree comments = ⟨p.tree, p.map, p.journal, none⟩ ∧
      ∀ (n target : NodeId) (group : CommentGroup),
        Pass.TakenDuring p.trace.toList n (.link target group) ∨
          Pass.TakenDuring p.trace.toList n (.float target group) →
        n < tree.size ∧
          ((∀ parent, tree.parent? n = some parent →
              settings.policy.argumentLists.contains (tree.node parent).kind = false) →
            ∀ c ∈ group, c.stop.before (tree.node n).start = true) := by
  obtain rfl := CommentStream.eq_of_ofComments hstream
  have horder := CommentStream.checkOrder_of_ofComments hstream
  have hsize : comments = [] ∨ 0 < tree.size := hroot.imp_right SyntaxTree.size_pos_of_root?
  obtain ⟨p, -, hrun, -, -, -, -, he⟩ := exists_runs_of_linkComments settings hb horder hsize
  refine ⟨p, hrun, he, ?_⟩
  have habove : Pass.FlushesAbove settings tree p := by
    by_cases hnil : comments = []
    · subst hnil
      rw [Pass.run_start_nil] at hrun
      obtain ⟨-, rfl⟩ := EStateM.Result.ok.inj hrun
      rintro n move group ⟨before, after, he, -⟩
      simp [Pass.start] at he
    · obtain ⟨q, visited, stack, final, hreached, -, hends, journal, rfl⟩ :=
        Pass.exists_reached_of_run hb hnil (hsize.resolve_left hnil) hrun
      exact hends.flushesAbove
        (hreached.flushesAbove hb (hsize.resolve_left hnil) horder hforward)
  intro n target group htaken
  have hends : Pass.EndsBefore settings tree n group := by
    rcases htaken with htaken | htaken
    · exact habove n _ group htaken ⟨target, .inl rfl⟩
    · exact habove n _ group htaken ⟨target, .inr rfl⟩
  refine ⟨hends.1, fun hplain => hends.2 fun parent hparent => ?_⟩
  rw [Pass.Argument, hplain parent hparent]
  exact Bool.false_ne_true

/-- The trace that an operation leaves behind. -/
lemma Pass.trace_of_eq_ok {operation : Linking Unit} {p q : Pass} (h : operation p = .ok () q) :
    EStateM.run' (do operation; return (← get).trace.toList) p = some q.trace.toList := by
  have hbind : (do operation; return (← get).trace.toList : Linking (List Move)) p =
      .ok q.trace.toList q := by
    show EStateM.bind operation _ p = _
    rw [EStateM.bind, h]
    rfl
  delta EStateM.run' EStateM.run
  rw [hbind]

/-- Around the sample tree the second comment goes on the call on line 4, whose parent is the
program, and it ends before that, as `linkComments_flushes_above` says. -/
theorem linkComments_flushes_above_sample :
    SyntaxTree.sample.Built ∧
      CommentStream.ofComments sampleComments = .ok ⟨sampleComments, 0⟩ ∧
      (∀ c ∈ sampleComments, c.stop.before c.start = false) ∧
      SyntaxTree.sample.root? ≠ none ∧
      ∃ p group, Pass.run .standard (Pass.start SyntaxTree.sample ⟨sampleComments, 0⟩) = .ok () p ∧
        Pass.TakenDuring p.trace.toList 1 (.link 1 group) ∧ group ≠ [] ∧
        ∀ c ∈ group, c.stop.before (SyntaxTree.sample.node 1).start = true := by
  have hforward : ∀ c ∈ sampleComments, c.stop.before c.start = false := by decide
  have hroot : SyntaxTree.sample.root? ≠ none := by decide
  have hplain : ∀ parent, SyntaxTree.sample.parent? 1 = some parent →
      LinkSettings.standard.policy.argumentLists.contains
        (SyntaxTree.sample.node parent).kind = false := by
    intro parent hparent
    obtain rfl : 0 = parent := Option.some.inj hparent
    decide
  obtain ⟨p, hrun, -, habove⟩ := linkComments_flushes_above .standard SyntaxTree.built_sample
    ofComments_sampleComments hforward (.inr hroot)
  have htrace : EStateM.run' (do Pass.run .standard; return (← get).trace.toList)
      (Pass.start SyntaxTree.sample ⟨sampleComments, 0⟩) =
      some ([.visit 0, .visit 1, .float 1 (sampleComments.take 1)] ++
        .link 1 ((sampleComments.drop 1).take 1) ::
          [.visit 2, .link 2 [], .visit 3, .trail (sampleComments.drop 2)]) := by
    decide +kernel
  have htrace := Option.some.inj ((Pass.trace_of_eq_ok hrun).symm.trans htrace)
  have htaken : Pass.TakenDuring p.trace.toList 1 (.link 1 ((sampleComments.drop 1).take 1)) :=
    ⟨_, _, htrace, [.visit 0], [.float 1 (sampleComments.take 1)], rfl, by simp⟩
  exact ⟨SyntaxTree.built_sample, ofComments_sampleComments, hforward, hroot, p, _, hrun, htaken,
    by decide, (habove 1 1 _ (.inl htaken)).2 hplain⟩

end Marginalia
