import Marginalia.Proofs.Link.Frame
import Marginalia.Proofs.Link.Visit

/-!
# The course of a pass

A pass visits one node after another until all comments are read or no node is left, and then
flushes what is still under way.  Whatever holds at the start and is kept by every visit therefore
holds when the walk ends; this is said once here, for the proofs about whole passes.

## Main definitions

* `Pass.Reached` — the states between the visits of a walk, with the nodes visited and the stack.
* `Pass.Ends` — what happens after the walk.
* `Pass.Underway` — what holds of the states of a walk.

## Main results

* `Pass.Runs.group_suffix` — the group under way consists of the comments read last.
* `SyntaxTree.Framed.core_eq` — nodes that are no placeholders are those of the source.
* `Pass.Rounds.steps` — rounds are steps, so they keep what steps keep.
* `Pass.Ends.keeps` — what reading and flushing keep is kept to the end.
* `Pass.Underway.exists_ending` — a visit, with the node as it is in the source.
* `Pass.Reached.underway` — the states between visits are sound, and their stacks lie in the tree.
* `Pass.exists_reached_of_run` — a pass that succeeds is a walk and its end.
-/

namespace Marginalia

/-- **Nodes that are no placeholders are those of the source**, apart from their places. -/
lemma SyntaxTree.Framed.core_eq {source t : SyntaxTree} (h : Framed source t) {id : NodeId}
    (hid : id < t.size) (hgenuine : (t.node id).placeholder = false) :
    id < source.size ∧ (t.node id).core = (source.node id).core := by
  have hpruned := h.pruned?_eq id
  rw [pruned?, if_pos ⟨hid, by rw [genuine, hgenuine]; rfl⟩] at hpruned
  have hlt : id < source.size := by
    by_contra hge
    rw [node?_of_size_le (Nat.not_lt.mp hge)] at hpruned
    simp at hpruned
  rw [node?_of_lt hlt] at hpruned
  have hcore := congrArg Node.core (Option.some.inj hpruned)
  exact ⟨hlt, hcore⟩

namespace Pass

/-- **The group under way consists of the comments read last.** -/
lemma Runs.group_suffix {markers : List Marker} {p q : Pass} (h : Runs markers p q)
    (hp : p.group <:+ p.stream.comments.take (p.stream.cursor + 1)) :
    q.group <:+ q.stream.comments.take (q.stream.cursor + 1) := by
  induction h with
  | refl => exact hp
  | @tail q r _ hs ih =>
    obtain ⟨visited, hs⟩ := hs
    cases hs with
    | note => exact ih
    | flush move flushed flush =>
      rw [flush.group_eq]
      exact List.nil_suffix
    | advance unread kept =>
      obtain ⟨before, hbefore⟩ := ih
      refine ⟨before, ?_⟩
      show before ++ (q.group ++ _) = q.stream.comments.take (q.stream.cursor + 1 + 1)
      rw [← List.append_assoc, hbefore]
      exact List.take_add_one.symm

/-- A comment under way was read, so it is not behind the current one. -/
lemma Runs.index_of_mem_group {markers : List Marker} {tree : SyntaxTree} {comments : List Comment}
    {q : Pass} (h : Runs markers (start tree ⟨comments, 0⟩) q) {c : Comment} (hc : c ∈ q.group) :
    ∃ i ≤ q.stream.cursor, q.stream.comments[i]? = some c := by
  have hread : c ∈ q.stream.comments.take (q.stream.cursor + 1) :=
    (h.group_suffix ⟨[], rfl⟩).subset hc
  obtain ⟨i, hi, hget⟩ := List.mem_take_iff_getElem.mp hread
  exact ⟨i, by omega, List.getElem?_eq_some_iff.mpr ⟨by omega, hget⟩⟩

section Steps

variable {settings : LinkSettings} {x : NodeId} {line : Int} {p q : Pass}
  {visited rest : List NodeId}

/-- A flush before the visited node is a step. -/
lemma step_of_float (hp : p.Sound) (f : p.tree.Frontier visited (x :: rest))
    (h : float settings x p = .ok () q) : Step settings.markers (some x) p q :=
  have htop := List.mem_cons_self (a := x) (l := rest)
  ((achieves_float hp (f.stack_lt htop) (f.genuine htop)).of_eq_ok h).1

/-- A round is one or two steps. -/
lemma Round.steps (h : Round settings x line p q) (hp : p.Sound)
    (f : p.tree.Frontier visited (x :: rest)) : Steps settings.markers (some x) p q := by
  cases h with
  | join current following above apart close =>
    exact .single (.advance current.unread (.inl (hasRemaining_iff.mpr ⟨_, following⟩)))
  | @float c d r current following above apart gap flush =>
    have hstream := (flushed_of_float flush).stream_eq
    have hr : r.Following d := by
      rw [Following, hstream]
      exact following
    exact .tail (.single (step_of_float hp f flush))
      (.advance hr.unread (.inl (hasRemaining_iff.mpr ⟨d, hr⟩)))

/-- **Rounds are steps.** -/
lemma Rounds.steps (h : Rounds settings x line p q) (hp : p.Sound)
    (f : p.tree.Frontier visited (x :: rest)) : Steps settings.markers (some x) p q := by
  induction h with
  | refl => exact .refl
  | tail _ hround ih => exact ih.trans (hround.steps (Steps.sound ih hp) (Steps.frontier ih hp f))

end Steps

/-! ## Between visits -/

/-- A pass over a tree and its comments got to the state `p` by visiting the nodes of `visited`, the
latest one first; those of `stack` come next. -/
inductive Reached (settings : LinkSettings) (tree : SyntaxTree) (comments : List Comment) :
    Pass → List NodeId → List NodeId → Prop
  | start : Reached settings tree comments (Pass.start tree ⟨comments, 0⟩) [] [0]
  | visit {p q : Pass} {x : NodeId} {visited rest : List NodeId}
    (reached : Reached settings tree comments p visited (x :: rest)) (unread : p.Unread)
    (visits : Pass.visit settings x p = .ok () q) :
    Reached settings tree comments q (x :: visited) (q.tree.children x ++ rest)

/-- What happens after a walk: nothing if all comments are read, and else rounds up to the last
comment, whose group goes to the end as well. -/
inductive Ends (settings : LinkSettings) (p : Pass) : Pass → Prop
  | done (all : ¬ p.Unread) : Ends settings p p
  | flush {q r : Pass} (unread : p.Unread) (rounds : EndRounds settings p q) (left : q.Unread)
    (last : ∀ d, ¬ q.Following d) (flush : trail settings q = .ok () r) :
    Ends settings p r.advanced

/-- **What reading a comment and flushing a group keep, holds after a walk if it holds at its end.**
A comment is read into the group under way if it is near, and a group goes to the end before a gap
or at the last comment. -/
lemma Ends.keeps {settings : LinkSettings} {motive : Pass → Prop} {p q : Pass}
    (he : Ends settings p q) (h : motive p)
    (join : ∀ {r : Pass} {b c : Comment}, motive r → r.Current b → r.Following c →
      b.startsNewGroup c = false → motive r.advanced)
    (trail : ∀ {r s : Pass} {b : Comment}, motive r → r.Current b →
      (∀ c, r.Following c → b.startsNewGroup c = true) → Pass.trail settings r = .ok () s →
      motive s.advanced) : motive q := by
  cases he with
  | done => exact h
  | @flush r s unread rounds left last flush =>
    have hr : motive r := by
      clear flush last left
      induction rounds with
      | refl => exact h
      | tail _ hround ih =>
        cases hround with
        | join current following close => exact join ih current following close
        | @trail b c _ current following gap flush =>
          refine trail ih current (fun d hd => ?_) flush
          rwa [← Option.some.inj (following.symm.trans hd)]
    obtain ⟨b, hb⟩ := exists_current_of_unread left
    exact trail hr hb (fun c hc => absurd hc (last c)) flush

/-- What holds of the state `p` of a pass while the node on top of the stack is visited. -/
structure Underway (settings : LinkSettings) (tree : SyntaxTree) (comments : List Comment)
    (visited stack : List NodeId) (p : Pass) : Prop where
  sound : p.Sound
  frontier : p.tree.Frontier visited stack
  runs : Runs settings.markers (Pass.start tree ⟨comments, 0⟩) p
  framed : SyntaxTree.Framed tree p.tree

namespace Underway

variable {settings : LinkSettings} {tree : SyntaxTree} {comments : List Comment} {p q : Pass}
  {x parent : NodeId} {visited stack rest : List NodeId}

/-- The comments are those that the pass began with. -/
lemma comments_eq (h : Underway settings tree comments visited stack p) :
    p.stream.comments = comments := h.runs.stream.1

/-- The steps of a visit keep all of it. -/
lemma steps (h : Underway settings tree comments visited (x :: rest) p)
    (hs : Steps settings.markers (some x) p q) :
    Underway settings tree comments visited (x :: rest) q :=
  ⟨Steps.sound hs h.sound, Steps.frontier hs h.sound h.frontier, h.runs.trans (Steps.runs hs),
    Runs.framed (Steps.runs hs) h.sound h.framed⟩

/-- Rounds of a visit keep it under way. -/
lemma rounds {line : Int} (h : Underway settings tree comments visited (x :: rest) p)
    (hr : Rounds settings x line p q) : Underway settings tree comments visited (x :: rest) q :=
  h.steps (Rounds.steps hr h.sound h.frontier)

/-- Noting the visit keeps it under way. -/
lemma noted (h : Underway settings tree comments visited (x :: rest) p) :
    Underway settings tree comments visited (x :: rest) (p.noted (.visit x)) :=
  h.steps (.single (.note (.visit x) p.journal rfl))

/-- The visited node is one of the source. -/
lemma core_eq (h : Underway settings tree comments visited stack p) (hx : x ∈ stack) :
    x < tree.size ∧ (p.tree.node x).core = (tree.node x).core :=
  h.framed.core_eq (h.frontier.stack_lt hx) (h.frontier.genuine hx)

/-- The nodes to come start where they did in the source. -/
lemma start_eq (h : Underway settings tree comments visited stack p) (hx : x ∈ stack) :
    (p.tree.node x).start = (tree.node x).start := by
  have hcore := congrArg Node.start (h.core_eq hx).2
  exact hcore

/-- The nodes to come have the parents that they had in the source. -/
lemma parent?_eq (h : Underway settings tree comments visited stack p) (hx : x ∈ stack) :
    p.tree.parent? x = tree.parent? x := by
  have hcore := congrArg Node.parent (h.core_eq hx).2
  exact hcore

/-- A node with a child is no placeholder. -/
lemma genuine_parent (h : Underway settings tree comments visited stack p)
    (hparent : p.tree.parent? x = some parent) : (p.tree.node parent).placeholder = false := by
  rw [← Bool.not_eq_true]
  intro hplaceholder
  have hmem := h.sound.wellFormed.mem_children hparent
  rw [h.sound.leaf hplaceholder] at hmem
  exact absurd hmem List.not_mem_nil

/-- The parent of a node is one of the source as well. -/
lemma kind_parent_eq (h : Underway settings tree comments visited stack p)
    (hparent : p.tree.parent? x = some parent) :
    (p.tree.node parent).kind = (tree.node parent).kind := by
  have hcore := congrArg Node.kind (h.framed.core_eq
    (h.sound.wellFormed.parent_lt_size hparent) (h.genuine_parent hparent)).2
  exact hcore

/-- **A visit, with the node as it is in the source**: rounds and an ending, unless it is the root
that is visited. -/
lemma exists_ending (h : Underway settings tree comments visited (x :: rest) p) (hu : p.Unread)
    (visits : visit settings x p = .ok () q) :
    (tree.parent? x = none ∧ q = p.noted (.visit x)) ∨
      ∃ parent r, tree.parent? x = some parent ∧ r.tree.parent? x = some parent ∧
        Underway settings tree comments visited (x :: rest) r ∧
        Rounds settings x (tree.node x).start.line (p.noted (.visit x)) r ∧
        Ending settings x parent (tree.node x).start.line
          (decide (p.stream.cursor < r.stream.cursor)) r q := by
  have htop := List.mem_cons_self (a := x) (l := rest)
  have hending := ending_of_visit hu visits
  rw [h.parent?_eq htop, h.start_eq htop] at hending
  rcases hending with horphan | ⟨parent, r, hparent, hrounds, hending⟩
  · exact .inl horphan
  · have hr := h.noted.rounds hrounds
    exact .inr ⟨parent, r, hparent, (hr.parent?_eq htop).trans hparent, hr, hrounds, hending⟩

end Underway

section Reached

variable {settings : LinkSettings} {tree : SyntaxTree} {comments : List Comment} {p q : Pass}
  {visited stack : List NodeId}

/-- **The states between visits** are sound, and their stacks lie in the tree. -/
lemma Reached.underway (h : Reached settings tree comments p visited stack) (hb : tree.Built)
    (hsize : 0 < tree.size) : Underway settings tree comments visited stack p := by
  obtain ⟨hwf, hplain, -⟩ := hb.wellFormed_and_plain
  induction h with
  | start =>
    exact ⟨sound_start hwf hplain _, .start hwf hsize hplain, .refl, hb.framed⟩
  | visit reached unread visits ih =>
    have h := ih.steps ((achieves_visit ih.sound unread ih.frontier).of_eq_ok visits)
    exact ⟨h.sound, h.frontier.visit h.sound.wellFormed, h.runs, h.framed⟩

/-- The comments of a state that is reached are those that the pass began with. -/
lemma Reached.comments_eq (h : Reached settings tree comments p visited stack) (hb : tree.Built)
    (hsize : 0 < tree.size) : p.stream.comments = comments :=
  (h.underway hb hsize).runs.stream.1

/-- **A walk leads from one state between visits to another**, where all comments are read, or no
node is left, or no step is allowed any more. -/
lemma exists_reached_of_walk :
    ∀ (steps : Nat) {p : Pass} {visited stack : List NodeId},
      Reached settings tree comments p visited stack → walk settings steps stack p = .ok () q →
      ∃ visited' stack', Reached settings tree comments q visited' stack' ∧
        (¬ q.Unread ∨ stack' = [] ∨ visited'.length = visited.length + steps) := by
  intro steps
  induction steps with
  | zero =>
    intro p visited stack h hwalk
    obtain ⟨-, rfl⟩ := pure_eq_ok hwalk
    exact ⟨visited, stack, h, .inr (.inr rfl)⟩
  | succ steps ih =>
    intro p visited stack h hwalk
    cases stack with
    | nil =>
      obtain ⟨-, rfl⟩ := pure_eq_ok hwalk
      exact ⟨visited, [], h, .inr (.inl rfl)⟩
    | cons x rest =>
      unfold walk at hwalk
      have hwalk := get_bind_eq_ok hwalk
      by_cases hdone : p.stream.isDone = true
      · rw [if_pos hdone] at hwalk
        obtain ⟨-, rfl⟩ := pure_eq_ok hwalk
        refine ⟨visited, x :: rest, h, .inl ?_⟩
        simpa [CommentStream.isDone, Unread] using hdone
      · rw [if_neg hdone] at hwalk
        have hu : p.Unread := by simpa [CommentStream.isDone, Unread] using hdone
        obtain ⟨_, r, hvisit, hrest⟩ := bind_eq_ok hwalk
        obtain ⟨visited', stack', hreached, hend⟩ :=
          ih (.visit h hu hvisit) (get_bind_eq_ok hrest)
        refine ⟨visited', stack', hreached, hend.imp_right (Or.imp_right ?_)⟩
        intro hlen
        rw [hlen, List.length_cons]
        omega

/-- **A pass that succeeds is a walk and its end.** -/
lemma exists_reached_of_run (hb : tree.Built) (hne : comments ≠ []) (hsize : 0 < tree.size)
    (h : run settings (Pass.start tree ⟨comments, 0⟩) = .ok () p) :
    ∃ q visited stack final, Reached settings tree comments q visited stack ∧
      (¬ q.Unread ∨ stack = [] ∨ visited.length = tree.size) ∧ Ends settings q final ∧
      ∃ journal, p = { final with map := final.map.freeze, journal := journal } := by
  have hopen : ¬ (Pass.start tree ⟨comments, 0⟩).stream.isDone = true := by
    simpa [CommentStream.isDone, Pass.start] using hne
  have hzero : (Pass.start tree ⟨comments, 0⟩).tree.root? = some 0 :=
    SyntaxTree.root?_of_pos hsize
  unfold run at h
  have hrun := get_bind_eq_ok h
  rw [if_neg hopen, hzero] at hrun
  obtain ⟨_, q, hwalk, hrest⟩ := bind_eq_ok hrun
  obtain ⟨visited, stack, hreached, hstop⟩ := exists_reached_of_walk _ .start hwalk
  rw [List.length_nil, Nat.zero_add] at hstop
  have hrest := get_bind_eq_ok hrest
  refine ⟨q, visited, stack, ?_⟩
  by_cases hdone : q.stream.isDone = true
  · simp only [hdone, Bool.not_true, Bool.false_eq_true, if_false] at hrest
    have hall : ¬ q.Unread := by simpa [CommentStream.isDone, Unread] using hdone
    exact ⟨q, hreached, hstop, .done hall, _, (EStateM.Result.ok.inj hrest).2.symm⟩
  · have hu : q.Unread := by simpa [CommentStream.isDone, Unread] using hdone
    simp only [hdone, Bool.not_false, if_true] at hrest
    obtain ⟨_, final, hflush, hrest⟩ := bind_eq_ok hrest
    have hbound : q.stream.comments.length ≤ q.stream.cursor + comments.length := by
      rw [hreached.comments_eq hb hsize]
      exact Nat.le_add_left ..
    obtain ⟨r, s, hrounds, hur, hlast, htrail, rfl⟩ := endRounds_of_flushEnd _ q hu hbound hflush
    exact ⟨_, hreached, hstop, .flush hu hrounds hur hlast htrail, _,
      (EStateM.Result.ok.inj hrest).2.symm⟩

end Reached

end Pass

end Marginalia
