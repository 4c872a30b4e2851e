import Marginalia.Proofs.Link.Orderly

/-!
# No comment goes past the code below it

A pass over a tree in source order puts a comment on a node that does not come after any node below
the comment, unless one of the three exceptions holds.  That the exceptions are real is seen on a
source with two comments and one statement further down: the comments go behind the statement.

## Main results

* `Pass.Reached.orderly`, `Pass.Ends.orderly` — the invariant over a whole pass.
* `linkComments_precedes` — a comment goes no further than the code below it, up to the exceptions.
* `linkComments_carries_past` — a comment that goes further.
-/

namespace Marginalia

namespace Pass

section Whole

variable {settings : LinkSettings} {tree : SyntaxTree} {comments : List Comment}
  {visited stack rest seen : List NodeId} {p q : Pass} {deliveries : List (NodeId × CommentGroup)}
  {x : NodeId}

/-- One more visited node keeps the comments joined. -/
lemma Joined.cons (h : Joined tree seen p) (x : NodeId) : Joined tree (x :: seen) p := by
  intro htwo c hc
  obtain ⟨y, hy, hrest⟩ := h htwo c hc
  exact ⟨y, List.mem_cons_of_mem _ hy, hrest⟩

/-- A pass starts in order. -/
lemma orderly_start (settings : LinkSettings) (hb : tree.Built) (comments : List Comment) :
    Orderly settings tree comments [] (start tree ⟨comments, 0⟩) [] where
  accounted := accounted_start settings.markers (hb.wellFormed_and_plain).2.1 comments
  delivered := by
    intro i home c hi
    simp [assignedOf] at hi
  pending := fun _ _ _ _ hn => absurd hn List.not_mem_nil
  unread := fun _ _ _ hy => absurd hy List.not_mem_nil

/-- The node on top of the stack is the next one in the order of the source. -/
lemma Reached.turn (h : Reached settings tree comments p visited (x :: rest)) (hb : tree.Built)
    (hsize : 0 < tree.size) (hchild : tree.parent? x ≠ none) : Turn tree visited x :=
  ⟨hchild, h.notAfter_of_mem hb hsize, h.notAfter_of_not_mem hb hsize⟩

/-- **Visits keep the order.** -/
lemma Reached.orderly (h : Reached settings tree comments p visited stack) (hb : tree.Built)
    (hsize : 0 < tree.size) (hsource : tree.SourceOrdered)
    (horder : CommentStream.checkOrder comments = .ok ()) (hforward : Forward comments) :
    (∃ deliveries, Orderly settings tree comments visited p deliveries) ∧
      Joined tree visited p := by
  induction h with
  | start =>
    refine ⟨⟨[], orderly_start settings hb comments⟩, ?_⟩
    intro htwo
    have hone : (comments.take 1).length ≤ 1 := List.length_take_le ..
    exact absurd (Nat.le_trans htwo hone) (by decide)
  | @visit p q x visited rest reached unread visits ih =>
    obtain ⟨⟨deliveries, ho⟩, hj⟩ := ih
    have hu := reached.underway hb hsize
    have hnoted := ho.noted (.visit x) p.journal rfl
    rcases hu.exists_ending unread visits with
      ⟨hroot, rfl⟩ | ⟨parent, r, hparent, hrparent, hur, hrounds, hending⟩
    · -- the root is above all comments by definition
      exact ⟨⟨_, hnoted.visit (fun _ _ _ hbelow => absurd hroot hbelow.2.1)
        fun hchild => absurd hroot hchild⟩, hj.cons x⟩
    · have hchild : tree.parent? x ≠ none := by simp [hparent]
      have hturn := reached.turn hb hsize hchild
      obtain ⟨⟨deliveries', hor⟩, hjr⟩ := Rounds.orderly hrounds hu.noted hb hforward hturn
        ⟨deliveries, hnoted⟩ (hj.cons x)
      have hgrouped := Rounds.grouped hrounds (reached.grouped.noted rfl)
      refine hending.orderly hur hb hsource horder hforward hturn hrparent hgrouped hor hjr ?_
      intro hmoved
      have hlt := of_decide_eq_true hmoved
      refine ⟨Nat.lt_of_le_of_lt (Nat.zero_le _) hlt, fun c hc y hy hchild => ?_⟩
      rw [Current, hur.comments_eq] at hc
      exact ho.unread hlt hc hy hchild

/-- Placing the group under way at the end keeps the order, when all nodes were visited. -/
lemma Orderly.trail (h : Orderly settings tree comments visited p deliveries) (hp : p.Sound)
    (hsize : 0 < p.tree.size) (hcomments : p.stream.comments = comments) (hu : p.Unread)
    (hall : ∀ n < tree.size, n ∈ visited) (flush : trail settings p = .ok () q) :
    ∃ deliveries', Orderly settings tree comments visited q deliveries' := by
  have hflushed := flushed_of_trail flush
  obtain ⟨hstep, -, -⟩ := (achieves_trail hp hsize).of_eq_ok flush
  have hsub := Runs.preorder_sublist (.single ⟨none, hstep⟩) hp
  obtain ⟨_, after, hafter, rfl⟩ := exists_of_flush flush
  have hmove : (Move.trail p.group).group? = some p.group := rfl
  obtain ⟨home, hq⟩ := h.accounted.flush hp hsize hmove
    ((Placement.achieves_placeTrailing hsize hp.unfrozen).of_eq_ok hafter)
  refine ⟨_, h.flush hcomments hq hflushed.group_eq rfl hu ?_ ?_⟩
  · intro a b hab
    exact hab.mono (hstep.sound hp).wellFormed hsub
  · intro i c n _ _ _ hn hbelow
    exact absurd (hall n hbelow.1) hn

/-- Rounds at the end of the source keep the order. -/
lemma EndRounds.orderly (hr : EndRounds settings p q) (hp : p.Sound) (hsize : 0 < p.tree.size)
    (hcomments : p.stream.comments = comments) (hforward : Forward comments)
    (hall : ∀ n < tree.size, n ∈ visited)
    (h : ∃ deliveries, Orderly settings tree comments visited p deliveries) :
    (∃ deliveries, Orderly settings tree comments visited q deliveries) ∧ q.Sound ∧
      0 < q.tree.size ∧ q.stream.comments = comments := by
  induction hr with
  | refl => exact ⟨h, hp, hsize, hcomments⟩
  | @tail q _ _ hround ih =>
    obtain ⟨⟨deliveries, ho⟩, hq, hqsize, hqcomments⟩ := ih
    cases hround with
    | join current following close =>
      have hadvance : Step settings.markers none q q.advanced :=
        .advance current.unread (.inl (hasRemaining_iff.mpr ⟨_, following⟩))
      exact ⟨⟨_, ho.advanced hforward⟩, hadvance.sound hq, hqsize, hqcomments⟩
    | trail current following gap flush =>
      obtain ⟨hstep, -, hstream⟩ := (achieves_trail hq hqsize).of_eq_ok flush
      obtain ⟨deliveries', ho'⟩ := ho.trail hq hqsize hqcomments current.unread hall flush
      have hs := hstep.sound hq
      refine ⟨⟨_, ho'.advanced hforward⟩, ⟨hs.wellFormed, hs.root_genuine, hs.leaf, hs.unfrozen⟩,
        Nat.lt_of_lt_of_le hqsize hstep.size_le, ?_⟩
      show _ = comments
      rw [← hqcomments, ← hstream]
      rfl

/-- **What happens after the walk keeps the order**, and leaves nothing under way. -/
lemma Ends.orderly (he : Ends settings p q)
    (hreached : Reached settings tree comments p visited stack)
    (hstop : ¬ p.Unread ∨ stack = [] ∨ visited.length = tree.size) (hb : tree.Built)
    (hsize : 0 < tree.size) (hne : comments ≠ []) (hforward : Forward comments)
    (h : ∃ deliveries, Orderly settings tree comments visited p deliveries) :
    ∃ deliveries, Orderly settings tree comments visited q deliveries ∧ q.group = [] ∧
      q.stream.comments = comments ∧ comments.length ≤ q.stream.cursor := by
  have hu := hreached.underway hb hsize
  cases he with
  | done all =>
    obtain ⟨deliveries, ho⟩ := h
    have hstart : (Pass.start tree ⟨comments, 0⟩).Unread := List.length_pos_iff.mpr hne
    refine ⟨deliveries, ho, (hu.runs.kept (.inl hstart)).resolve_left all, hu.comments_eq, ?_⟩
    rw [← hu.comments_eq]
    exact Nat.not_lt.mp all
  | @flush r s unread rounds left last flush =>
    have hall : ∀ n < tree.size, n ∈ visited := fun n hn =>
      hreached.mem_visited hb hsize (hstop.resolve_left (not_not.mpr unread)) hn
    have hpsize : 0 < p.tree.size := Nat.lt_of_lt_of_le hsize hu.runs.size_le
    obtain ⟨⟨deliveries, ho⟩, hr, hrsize, hrcomments⟩ :=
      EndRounds.orderly rounds hu.sound hpsize hu.comments_eq hforward hall h
    obtain ⟨deliveries', ho'⟩ := ho.trail hr hrsize hrcomments left hall flush
    have hflushed := flushed_of_trail flush
    have hlast : r.stream.comments.length ≤ r.stream.cursor + 1 := by
      by_contra hmore
      exact last _ (List.getElem?_eq_getElem (Nat.not_le.mp hmore))
    refine ⟨deliveries', ho'.advanced hforward, ?_, ?_, ?_⟩
    · have hnone : s.stream.comments[s.stream.cursor + 1]? = none := by
        rw [hflushed.stream_eq]
        exact List.getElem?_eq_none hlast
      simp [Pass.advanced, hflushed.group_eq, hnone]
    · show s.stream.comments = comments
      rw [hflushed.stream_eq, hrcomments]
    · show comments.length ≤ s.stream.cursor + 1
      rw [hflushed.stream_eq, ← hrcomments]
      exact hlast

end Whole

end Pass

/-! ## The order of comments and code -/

/-- **A comment goes no further than the code below it, with three exceptions.**  A pass over a tree
in source order assigns every comment to a node, as the map says.  If a node of the source that is
not the root starts on a line below the comment, then the comment's node does not come after it in
the final tree, unless the comment is in one run with the last one and that is left last, or with
one that is held back, or with one that is handed on to the next argument. -/
theorem linkComments_precedes (settings : LinkSettings) {tree : SyntaxTree} (hb : tree.Built)
    (hsource : tree.SourceOrdered) {comments : List Comment} {stream : CommentStream}
    (hstream : CommentStream.ofComments comments = .ok stream)
    (hforward : ∀ c ∈ comments, c.stop.before c.start = false)
    (hroot : comments = [] ∨ tree.root? ≠ none) :
    ∃ p assigned, Pass.run settings (Pass.start tree stream) = .ok () p ∧
      linkComments settings tree comments = ⟨p.tree, p.map, p.journal, none⟩ ∧
      assigned.map Prod.snd = comments ∧
      p.map.entries = ledger settings.markers assigned ∧
      ∀ (i : Nat) (home : NodeId) (c : Comment), assigned[i]? = some (home, c) →
        ∀ n < tree.size, tree.parent? n ≠ none → c.stop.line < (tree.node n).start.line →
          p.tree.NotAfter home n ∨ LeftLast tree comments i n ∨ HeldBack tree comments i n ∨
            HandedOn settings tree comments i n := by
  obtain rfl := CommentStream.eq_of_ofComments hstream
  have horder := CommentStream.checkOrder_of_ofComments hstream
  have hsize : comments = [] ∨ 0 < tree.size := hroot.imp_right SyntaxTree.size_pos_of_root?
  obtain ⟨p, -, hrun, -, -, -, -, he⟩ := exists_runs_of_linkComments settings hb horder hsize
  by_cases hnil : comments = []
  · subst hnil
    refine ⟨p, [], hrun, he, rfl, ?_, by simp⟩
    rw [Pass.run_start_nil] at hrun
    obtain ⟨-, rfl⟩ := EStateM.Result.ok.inj hrun
    rfl
  · have hpos := hsize.resolve_left hnil
    obtain ⟨q, visited, stack, final, hreached, hstop, hends, journal, rfl⟩ :=
      Pass.exists_reached_of_run hb hnil hpos hrun
    obtain ⟨deliveries, ho, hgroup, hcomments, hdone⟩ := hends.orderly hreached hstop hb hpos hnil
      hforward (hreached.orderly hb hpos hsource horder hforward).1
    refine ⟨_, Pass.assignedOf deliveries, hrun, he, ?_, ho.accounted.entries, ?_⟩
    · have hread := ho.accounted.read
      rwa [hgroup, List.append_nil, hcomments, List.take_of_length_le (Nat.le_succ_of_le hdone),
        ← Pass.map_snd_assignedOf] at hread
    · intro i home c hi n hn hchild hbelow
      exact ho.delivered hi ⟨hn, hchild, hbelow⟩

/-- A source with one statement, on line 5. -/
def SyntaxTree.lone : SyntaxTree :=
  let root : Node :=
    { kind := "program", start := ⟨1, 0⟩, stop := ⟨5, 2⟩, field := none, accepts := true,
      tolerates := true, placeholder := false, parent := none, children := [], index := none }
  (((empty .standard ["// a", "// b", "", "", "x;"]).push root).addChild 0
    ⟨"expression_statement", ⟨5, 0⟩, ⟨5, 2⟩, none⟩).2

/-- The tree with one statement is built. -/
lemma SyntaxTree.built_lone : lone.Built :=
  have hroot := @Built.addRoot _ _ ⟨"program", ⟨1, 0⟩, ⟨5, 2⟩, none⟩ 0
    (.empty .standard ["// a", "// b", "", "", "x;"]) rfl
  .addChild _ hroot (by decide)

/-- Two comments in one run, on the lines 1 and 2. -/
def pairedComments : List Comment :=
  [⟨.line, ⟨1, 0⟩, ⟨1, 4⟩, "// a"⟩, ⟨.line, ⟨2, 0⟩, ⟨2, 4⟩, "// b"⟩]

/-- **Two comments are carried past the statement below them**: they are left last, and go on a
placeholder behind the statement, although they end above it. -/
theorem linkComments_carries_past :
    SyntaxTree.lone.Built ∧ SyntaxTree.lone.SourceOrdered ∧
      CommentStream.ofComments pairedComments = .ok ⟨pairedComments, 0⟩ ∧
      (∀ c ∈ pairedComments, c.stop.before c.start = false ∧
        c.stop.line < (SyntaxTree.lone.node 1).start.line) ∧
      SyntaxTree.lone.parent? 1 ≠ none ∧
      (linkComments .standard SyntaxTree.lone pairedComments).map.entries = [(2, "// a\n// b")] ∧
      (linkComments .standard SyntaxTree.lone pairedComments).tree.preorder = [0, 1, 2] ∧
      ¬ (linkComments .standard SyntaxTree.lone pairedComments).tree.NotAfter 2 1 := by
  refine ⟨SyntaxTree.built_lone, by decide, rfl, by decide, by decide, by decide +kernel,
    by decide +kernel, by decide +kernel⟩

/-- Around the sample tree the first comment meets no exception, so its node does not come after the
call on line 4, as `linkComments_precedes` says. -/
theorem linkComments_precedes_sample :
    SyntaxTree.sample.Built ∧ SyntaxTree.sample.SourceOrdered ∧
      CommentStream.ofComments sampleComments = .ok ⟨sampleComments, 0⟩ ∧
      (∀ c ∈ sampleComments, c.stop.before c.start = false) ∧ SyntaxTree.sample.root? ≠ none ∧
      ∃ p home rest, Pass.run .standard (Pass.start SyntaxTree.sample ⟨sampleComments, 0⟩) =
          .ok () p ∧
        p.map.entries = ledger LinkSettings.standard.markers
          ((home, ⟨.line, ⟨1, 0⟩, ⟨1, 4⟩, "// a"⟩) :: rest) ∧
        p.tree.NotAfter home 1 := by
  have hsource : SyntaxTree.sample.SourceOrdered := by decide
  have hforward : ∀ c ∈ sampleComments, c.stop.before c.start = false := by decide
  have hroot : SyntaxTree.sample.root? ≠ none := by decide
  obtain ⟨p, assigned, hrun, -, hall, hentries, hprecedes⟩ := linkComments_precedes .standard
    SyntaxTree.built_sample hsource ofComments_sampleComments hforward (.inr hroot)
  obtain ⟨⟨home, c⟩, rest, rfl, hc, -⟩ := List.map_eq_cons_iff.mp hall
  obtain rfl : c = ⟨.line, ⟨1, 0⟩, ⟨1, 4⟩, "// a"⟩ := hc
  refine ⟨SyntaxTree.built_sample, hsource, ofComments_sampleComments, hforward, hroot, p, home,
    rest, hrun, hentries, ?_⟩
  -- a blank line stands behind the first comment, so it is in no run with a later one
  have halone : ∀ {j : Nat} {d : Comment}, sampleComments[j]? = some d →
      Unbroken sampleComments 0 j → j = 0 := by
    intro j d hd hunbroken
    match j with
    | 0 => rfl
    | 1 => exact absurd hunbroken (by unfold Unbroken CommentGroup.Tight; decide)
    | 2 => exact absurd hunbroken (by unfold Unbroken CommentGroup.Tight; decide)
    | j + 3 => simp [sampleComments] at hd
  rcases hprecedes 0 home _ rfl 1 (by decide) (by decide) (by decide) with
    h | ⟨j, d, hone, -, hd, hunbroken, -⟩ | ⟨j, d, y, hlt, hd, hunbroken, -⟩ |
    ⟨j, d, y, parent, z, -, -, -, -, hparent, hargument, -⟩
  · exact h
  · rw [halone hd hunbroken] at hone
    exact absurd hone (by decide)
  · rw [halone hd hunbroken] at hlt
    exact absurd hlt (by decide)
  · have hnone : ∀ y < SyntaxTree.sample.size, ∀ parent, SyntaxTree.sample.parent? y = some parent →
        LinkSettings.standard.policy.argumentLists.contains
          (SyntaxTree.sample.node parent).kind = false := by
      decide
    rw [hnone y (SyntaxTree.lt_size_of_parent? hparent) parent hparent] at hargument
    exact absurd hargument (by decide)

end Marginalia
