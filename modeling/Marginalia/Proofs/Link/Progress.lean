import Marginalia.Proofs.Link.Frontier

/-!
# A pass succeeds

A pass over a tree that grew from the empty one meets none of the faults that its operations could
raise: the cursor stays inside the stream while comments are asked for, every node is found among
its parent's children however many placeholders were inserted, and the way up from a node ends at
the root, which accepts comments.  So a pass fails exactly if its comments are out of order, or if
there are comments and the tree is empty.

## Main results

* `Pass.achieves_visit`, `Pass.achieves_walk`, `Pass.achieves_flushEnd` — the parts of a pass
  succeed and consist of steps.
* `exists_runs_of_linkComments` — a pass over a tree with a root succeeds, consists of steps, and
  ends with no group under way.
-/

namespace Marginalia

/-! ## Questions to a stream -/

namespace CommentStream

variable {s : CommentStream}

/-- There is a current comment while comments are left to read. -/
lemma exists_current (h : s.cursor < s.comments.length) : ∃ c, s.current = .ok c := by
  refine ⟨s.comments[s.cursor], ?_⟩
  simp only [current, List.getElem?_eq_getElem h]

/-- There is a following comment while comments remain. -/
lemma exists_following (h : s.hasRemaining = true) : ∃ c, s.following = .ok c := by
  have hlt : s.cursor + 1 < s.comments.length := by simpa [hasRemaining] using h
  refine ⟨s.comments[s.cursor + 1], ?_⟩
  simp only [following, List.getElem?_eq_getElem hlt]

/-- There is a last line while comments are left to read. -/
lemma exists_lastLine (h : s.cursor < s.comments.length) : ∃ line, s.lastLine = .ok line := by
  obtain ⟨c, hc⟩ := exists_current h
  exact ⟨c.stop.line, by simp [lastLine, hc, bind, Except.bind, pure, Except.pure]⟩

/-- While comments remain, comments are left to read. -/
lemma unread_of_hasRemaining (h : s.hasRemaining = true) : s.cursor < s.comments.length := by
  have hlt : s.cursor + 1 < s.comments.length := by simpa [hasRemaining] using h
  exact Nat.lt_of_succ_lt hlt

/-- While comments remain, it can be said whether the current one touches a line. -/
lemma exists_isAdjacentTo (h : s.hasRemaining = true) (line : Int) :
    ∃ b, s.isAdjacentTo line = .ok b := by
  obtain ⟨last, hl⟩ := exists_lastLine (unread_of_hasRemaining h)
  obtain ⟨c, hc⟩ := exists_following h
  simp only [isAdjacentTo, hl, hc, bind, Except.bind, pure, Except.pure]
  split
  · exact ⟨_, rfl⟩
  · split
    · exact ⟨_, rfl⟩
    · exact ⟨_, rfl⟩

/-- While comments remain, it can be said whether a group ends here. -/
lemma exists_breaksGroup (h : s.hasRemaining = true) : ∃ b, s.breaksGroup = .ok b := by
  obtain ⟨c, hc⟩ := exists_current (unread_of_hasRemaining h)
  obtain ⟨d, hd⟩ := exists_following h
  exact ⟨c.startsNewGroup d, by simp [breaksGroup, hc, hd, bind, Except.bind, pure, Except.pure]⟩

end CommentStream

namespace Pass

/-! ## A visit -/

section Visit

variable {settings : LinkSettings} {p : Pass} {x : NodeId} {visited rest : List NodeId}

/-- Comments are left to read. -/
def Unread (p : Pass) : Prop := p.stream.cursor < p.stream.comments.length

/-- Behind a comment that is not the last one, comments are left to read. -/
lemma unread_advanced (h : p.stream.hasRemaining = true) : p.advanced.Unread := by
  have hlt : p.stream.cursor + 1 < p.stream.comments.length := by
    simpa [CommentStream.hasRemaining] using h
  exact hlt

/-- **Catching up with the comments above a node succeeds.**

**Proof sketch.** Induction on the number of steps allowed.  A round is taken only where a comment
follows, so all questions have an answer, and one more comment can be pulled. -/
lemma achieves_catchUp (line : Int) :
    ∀ (steps : Nat) (moved : Bool) (p : Pass), p.Sound → p.Unread →
      p.tree.Frontier visited (x :: rest) →
      Achieves (catchUp settings x line steps moved) p fun _ q =>
        Steps settings.markers (some x) p q ∧ q.Unread := by
  intro steps
  induction steps with
  | zero =>
    intro moved p hp hu _
    exact .pure ⟨.refl, hu⟩
  | succ steps ih =>
    intro moved p hp hu f
    unfold catchUp
    refine Achieves.get_bind ?_
    by_cases hr : p.stream.hasRemaining = true
    · obtain ⟨adjacent, hadj⟩ := CommentStream.exists_isAdjacentTo hr line
      obtain ⟨last, hlast⟩ := CommentStream.exists_lastLine hu
      obtain ⟨breaks, hbreaks⟩ := CommentStream.exists_breaksGroup hr
      simp only [hr]
      refine (achieves_ask hadj).bind ?_
      rintro _ _ ⟨rfl, rfl⟩
      split
      · exact .pure ⟨.refl, hu⟩
      · refine (achieves_ask hlast).bind ?_
        rintro _ _ ⟨rfl, rfl⟩
        split
        · exact .pure ⟨.refl, hu⟩
        · refine (achieves_ask hbreaks).bind ?_
          rintro _ q ⟨rfl, rfl⟩
          -- one more comment is pulled, whether or not the group was flushed before
          have hnext : ∀ r : Pass, Steps settings.markers (some x) q r →
              r.stream = q.stream → Achieves (do advance; catchUp settings x line steps true) r
                fun _ s => Steps settings.markers (some x) q s ∧ s.Unread := by
            intro r hqr hstream
            have hrr : r.stream.hasRemaining = true := by rw [hstream, hr]
            refine achieves_advance.bind ?_
            rintro _ _ rfl
            have hstep : Step settings.markers (some x) r r.advanced :=
              .advance (CommentStream.unread_of_hasRemaining hrr) (.inl hrr)
            have hqa := hqr.tail hstep
            refine (ih true r.advanced (Steps.sound hqa hp) (unread_advanced hrr)
              (Steps.frontier hqa hp f)).mono ?_
            rintro _ s ⟨hs, hus⟩
            exact ⟨hqa.trans hs, hus⟩
          split
          · have htop := List.mem_cons_self (a := x) (l := rest)
            refine (achieves_float hp (f.stack_lt htop) (f.genuine htop)).bind ?_
            rintro _ r ⟨hstep, -, hstream⟩
            exact hnext r (.single hstep) hstream
          · exact hnext q .refl rfl
    · simp only [hr]
      exact .pure ⟨.refl, hu⟩

/-- Asking which argument the current comment belongs to succeeds, and the answer is a genuine
node. -/
lemma achieves_resolve (markers : List Marker) (hp : p.Sound) (hu : p.Unread)
    (f : p.tree.Frontier visited (x :: rest)) {parent : NodeId}
    (hparent : p.tree.parent? x = some parent) (line : Int) :
    Achieves (resolve x line) p fun target q =>
      Steps markers (some x) p q ∧ q.stream = p.stream ∧
        ∀ y, target = some y → y < q.tree.size ∧ (q.tree.node y).placeholder = false := by
  obtain ⟨comment, hcurrent⟩ := CommentStream.exists_current hu
  obtain ⟨done, todo, hc, hinf, -⟩ := f.split_top hp.wellFormed hparent
  have htop := List.mem_cons_self (a := x) (l := rest)
  refine (achieves_ask hcurrent).bind ?_
  rintro _ _ ⟨rfl, rfl⟩
  refine Achieves.get_bind ?_
  refine Achieves.bind (achieves_place
    (Placement.achieves_resolveArgument hp.wellFormed hparent hc _ _)) ?_
  rintro target _ ⟨_, ⟨htarget, journal, rfl⟩, rfl⟩
  refine (achieves_record _).bind ?_
  rintro _ _ rfl
  refine .pure ⟨.single (.note _ journal rfl), rfl, ?_⟩
  intro y hy
  rcases htarget y hy with rfl | hnext
  · exact ⟨f.stack_lt htop, f.genuine htop⟩
  · -- the next argument is still on the stack
    have hmem : y ∈ x :: rest :=
      List.mem_cons_of_mem _ (hinf.subset (List.mem_of_mem_head? hnext))
    exact ⟨f.stack_lt hmem, f.genuine hmem⟩

/-- **Comparing the group under way with a node succeeds**, and if the node is done with it without
having read comments, then it is flushed or comments are left. -/
lemma achieves_settle (hp : p.Sound) (hu : p.Unread) (f : p.tree.Frontier visited (x :: rest))
    {parent : NodeId} (hparent : p.tree.parent? x = some parent) (line : Int) (moved : Bool) :
    Achieves (settle settings x parent line moved) p fun settled q =>
      Steps settings.markers (some x) p q ∧ q.Unread ∧
        (settled = true → moved = false → q.stream.hasRemaining = true ∨ q.group = []) := by
  obtain ⟨last, hlast⟩ := CommentStream.exists_lastLine hu
  obtain ⟨comment, hcurrent⟩ := CommentStream.exists_current hu
  have htop := List.mem_cons_self (a := x) (l := rest)
  have hlink : Achieves (do link settings x; return true) p fun settled q =>
      Steps settings.markers (some x) p q ∧ q.Unread ∧
        (settled = true → moved = false → q.stream.hasRemaining = true ∨ q.group = []) := by
    refine (achieves_link (some x) hp (f.stack_lt htop) (f.genuine htop)).bind ?_
    rintro _ q ⟨hstep, hgroup, hstream⟩
    exact .pure ⟨.single hstep, by rw [Unread, hstream]; exact hu, fun _ _ => .inr hgroup⟩
  unfold settle
  refine (achieves_ask hlast).bind ?_
  rintro _ _ ⟨rfl, rfl⟩
  refine Achieves.get_bind ?_
  dsimp only
  split
  · split
    · refine (achieves_resolve settings.markers hp hu f hparent line).bind ?_
      rintro target q ⟨hsteps, hstream, htarget⟩
      have huq : q.Unread := by rw [Unread, hstream]; exact hu
      cases target with
      | none => exact .pure ⟨hsteps, huq, by simp⟩
      | some y =>
        obtain ⟨hy, hgenuine⟩ := htarget y rfl
        refine Achieves.bind (achieves_link (some x) (Steps.sound hsteps hp) hy hgenuine) ?_
        rintro _ r ⟨hstep, hgroup, hstream'⟩
        exact .pure ⟨hsteps.tail hstep, by rw [Unread, hstream']; exact huq, fun _ _ => .inr hgroup⟩
    · refine (achieves_ask hcurrent).bind ?_
      rintro _ _ ⟨rfl, rfl⟩
      split
      · exact hlink
      · exact .pure ⟨.refl, hu, by simp⟩
  · split
    · exact hlink
    · refine Achieves.get_bind ?_
      split
      · refine (achieves_float hp (f.stack_lt htop) (f.genuine htop)).bind ?_
        rintro _ q ⟨hstep, hgroup, hstream⟩
        exact .pure ⟨.single hstep, by rw [Unread, hstream]; exact hu, fun _ _ => .inr hgroup⟩
      · next hno =>
        refine .pure ⟨.refl, hu, fun _ hmoved => .inl ?_⟩
        simpa [hmoved] using hno

/-- **A visit succeeds** and consists of steps. -/
lemma achieves_visit (hp : p.Sound) (hu : p.Unread) (f : p.tree.Frontier visited (x :: rest)) :
    Achieves (visit settings x) p fun _ q => Steps settings.markers (some x) p q := by
  refine (achieves_record _).bind ?_
  rintro _ q rfl
  have hnote : Step settings.markers (some x) p { p with trace := p.trace.push (.visit x) } :=
    .note (.visit x) p.journal rfl
  set q : Pass := { p with trace := p.trace.push (.visit x) } with hq
  have hqs : q.Sound := hnote.sound hp
  have hqu : q.Unread := hu
  have hqf : q.tree.Frontier visited (x :: rest) := f
  refine Achieves.get_bind ?_
  dsimp only
  split
  · exact .pure (.single hnote)
  · next parent hparent =>
    obtain ⟨last, hlast⟩ := CommentStream.exists_lastLine hqu
    refine (achieves_ask hlast).bind ?_
    rintro _ _ ⟨rfl, rfl⟩
    split
    · exact .pure (.single hnote)
    · refine Achieves.get_bind ?_
      refine Achieves.bind (achieves_catchUp _ _ false q hqs hqu hqf) ?_
      rintro caughtUp r ⟨hqr, hru⟩
      have hrs := Steps.sound hqr hqs
      have hrf := Steps.frontier hqr hqs hqf
      have hpr := (Relation.ReflTransGen.single hnote).trans hqr
      cases caughtUp with
      | passed => exact .pure hpr
      | here moved =>
        have hrparent : r.tree.parent? x = some parent :=
          (Steps.parent?_eq hqr (hqf.stack_lt (List.mem_cons_self ..))).trans hparent
        refine (achieves_settle hrs hru hrf hrparent _ moved).bind ?_
        rintro settled s ⟨hrs', hsu, hkept⟩
        have hps := hpr.trans hrs'
        split
        · next hdone =>
          simp only [Bool.and_eq_true, Bool.not_eq_true'] at hdone
          refine achieves_advance.mono ?_
          rintro _ _ rfl
          exact hps.tail (.advance hsu (hkept hdone.1 hdone.2))
        · exact .pure hps

end Visit

/-! ## The whole pass -/

/-- Any number of steps, at any nodes and at the end of the source. -/
abbrev Runs (markers : List Marker) : Pass → Pass → Prop :=
  Relation.ReflTransGen fun p q => ∃ visited, Step markers visited p q

/-- Steps at one node are a part of a pass. -/
lemma Steps.runs {markers : List Marker} {visited : Option NodeId} {p q : Pass}
    (h : Steps markers visited p q) : Runs markers p q := by
  induction h with
  | refl => exact .refl
  | tail _ hs ih => exact ih.tail ⟨visited, hs⟩

section Whole

variable {settings : LinkSettings}

/-- A pass stays sound. -/
lemma Runs.sound {markers : List Marker} {p q : Pass} (h : Runs markers p q) (hp : p.Sound) :
    q.Sound := by
  induction h with
  | refl => exact hp
  | tail _ hs ih =>
    obtain ⟨visited, hs⟩ := hs
    exact hs.sound ih

/-- A pass removes no node. -/
lemma Runs.size_le {markers : List Marker} {p q : Pass} (h : Runs markers p q) :
    p.tree.size ≤ q.tree.size := by
  induction h with
  | refl => exact Nat.le_refl _
  | tail _ hs ih =>
    obtain ⟨visited, hs⟩ := hs
    exact Nat.le_trans ih hs.size_le

/-- The comments stay the same, and the cursor never leaves them by more than one. -/
lemma Runs.stream {markers : List Marker} {p q : Pass} (h : Runs markers p q) :
    q.stream.comments = p.stream.comments ∧
      (p.stream.cursor ≤ p.stream.comments.length →
        q.stream.cursor ≤ q.stream.comments.length) := by
  induction h with
  | refl => exact ⟨rfl, id⟩
  | tail _ hs ih =>
    obtain ⟨visited, hs⟩ := hs
    exact ⟨hs.stream.1.trans ih.1, fun h => hs.stream.2 (ih.2 h)⟩

/-- **A walk succeeds** and consists of steps.

**Proof sketch.** Induction on the number of steps allowed.  The steps of a visit keep the frontier,
and reading the children of the visited node turns it into the frontier of the next visit. -/
lemma achieves_walk :
    ∀ (steps : Nat) (visited stack : List NodeId) (p : Pass), p.Sound →
      p.tree.Frontier visited stack →
      Achieves (walk settings steps stack) p fun _ q => Runs settings.markers p q := by
  intro steps
  induction steps with
  | zero =>
    intro visited stack p _ _
    exact .pure .refl
  | succ steps ih =>
    intro visited stack p hp f
    cases stack with
    | nil => exact .pure .refl
    | cons x rest =>
      unfold walk
      refine Achieves.get_bind ?_
      split
      · exact .pure .refl
      · next hdone =>
        have hu : p.Unread := by simpa [CommentStream.isDone, Unread] using hdone
        refine (achieves_visit hp hu f).bind ?_
        intro _ q hpq
        refine Achieves.get_bind ?_
        have hq := Steps.sound hpq hp
        refine (ih (x :: visited) _ q hq ((Steps.frontier hpq hp f).visit hq.wellFormed)).mono ?_
        intro _ r hqr
        exact (Steps.runs hpq).trans hqr

/-- **Flushing at the end of the source succeeds**, and then all comments are read and none is under
way.

**Proof sketch.** Induction on the number of steps allowed, of which there are enough for the
comments left. -/
lemma achieves_flushEnd :
    ∀ (steps : Nat) (p : Pass), p.Sound → 0 < p.tree.size → p.Unread →
      p.stream.comments.length ≤ p.stream.cursor + steps →
      Achieves (flushEnd settings steps) p fun _ q =>
        Runs settings.markers p q ∧ q.stream.isDone = true ∧ q.group = [] := by
  intro steps
  induction steps with
  | zero =>
    intro p _ _ hu hle
    rw [Unread] at hu
    omega
  | succ steps ih =>
    intro p hp hsize hu hle
    unfold flushEnd
    refine Achieves.get_bind ?_
    split
    · next hr =>
      obtain ⟨breaks, hbreaks⟩ := CommentStream.exists_breaksGroup hr
      refine (achieves_ask hbreaks).bind ?_
      rintro _ q ⟨rfl, rfl⟩
      -- one more comment is pulled, whether or not the group was flushed before
      have hnext : ∀ r : Pass, Runs settings.markers q r → r.stream = q.stream →
          Achieves (do advance; flushEnd settings steps) r fun _ s =>
            Runs settings.markers q s ∧ s.stream.isDone = true ∧ s.group = [] := by
        intro r hqr hstream
        have hrr : r.stream.hasRemaining = true := by rw [hstream, hr]
        refine achieves_advance.bind ?_
        rintro _ _ rfl
        have hqa : Runs settings.markers q r.advanced :=
          hqr.tail ⟨none, .advance (CommentStream.unread_of_hasRemaining hrr) (.inl hrr)⟩
        have hbound : r.advanced.stream.comments.length ≤ r.advanced.stream.cursor + steps := by
          show r.stream.comments.length ≤ r.stream.cursor + 1 + steps
          rw [hstream]
          omega
        refine (ih r.advanced (hqa.sound hp) (Nat.lt_of_lt_of_le hsize hqa.size_le)
          (unread_advanced hrr) hbound).mono ?_
        rintro _ s ⟨hs, hdone, hgroup⟩
        exact ⟨hqa.trans hs, hdone, hgroup⟩
      split
      · refine (achieves_trail hp hsize).bind ?_
        rintro _ r ⟨hstep, -, hstream⟩
        exact hnext r (.single ⟨none, hstep⟩) hstream
      · exact hnext q .refl rfl
    · next hr =>
      refine (achieves_trail hp hsize).bind ?_
      rintro _ q ⟨hstep, hgroup, hstream⟩
      have huq : q.Unread := by rw [Unread, hstream]; exact hu
      refine achieves_advance.mono ?_
      rintro _ _ rfl
      have hlast : q.stream.comments.length ≤ q.stream.cursor + 1 := by
        rw [hstream]
        simpa [CommentStream.hasRemaining] using hr
      refine ⟨.tail (.single ⟨none, hstep⟩) ⟨none, .advance huq (.inr hgroup)⟩, ?_, ?_⟩
      · exact decide_eq_true hlast
      · simp [advanced, hgroup, List.getElem?_eq_none hlast]

/-- A group is under way only while comments are left to read. -/
lemma Runs.kept {markers : List Marker} {p q : Pass} (h : Runs markers p q)
    (hp : p.Unread ∨ p.group = []) : q.Unread ∨ q.group = [] := by
  induction h with
  | refl => exact hp
  | @tail q r _ hs ih =>
    obtain ⟨visited, hs⟩ := hs
    cases hs with
    | note => exact ih
    | flush move flushed flush => exact .inr flush.group_eq
    | advance unread kept =>
      by_cases hr : q.stream.hasRemaining = true
      · exact .inl (unread_advanced hr)
      · have hlast : q.stream.comments.length ≤ q.stream.cursor + 1 := by
          simpa [CommentStream.hasRemaining] using hr
        exact .inr (by simp [advanced, kept.resolve_left hr, List.getElem?_eq_none hlast])

/-- A pass starts soundly. -/
lemma sound_start {t : SyntaxTree} (h : t.WellFormed)
    (hplain : ∀ id, (t.node id).placeholder = false) (stream : CommentStream) :
    (start t stream).Sound where
  wellFormed := h
  root_genuine := hplain 0
  leaf := fun {id} hid => by
    have hno := hplain id
    exact absurd (hno.symm.trans hid) (by simp)
  unfrozen := rfl

/-- **A pass succeeds** if there is a root or nothing to place.  It consists of steps, it ends when
all comments are read and placed, and then the map is frozen. -/
theorem achieves_run (settings : LinkSettings) {t : SyntaxTree} (h : t.WellFormed)
    (hplain : ∀ id, (t.node id).placeholder = false) (comments : List Comment)
    (hroot : comments = [] ∨ 0 < t.size) :
    Achieves (run settings) (start t ⟨comments, 0⟩) fun _ r =>
      ∃ q, Runs settings.markers (start t ⟨comments, 0⟩) q ∧ q.stream.isDone = true ∧
        q.group = [] ∧ ∃ journal, r = { q with map := q.map.freeze, journal := journal } := by
  have hs := sound_start h hplain ⟨comments, 0⟩
  refine Achieves.get_bind ?_
  split
  · next hdone =>
    have hnil : comments = [] := by
      simpa [CommentStream.isDone, start] using hdone
    subst hnil
    exact ⟨_, _, rfl, _, .refl, hdone, rfl, _, rfl⟩
  · next hdone =>
    have hne : comments ≠ [] := by
      rintro rfl
      exact hdone rfl
    have hsize : 0 < t.size := hroot.resolve_left hne
    have hstart : (start t ⟨comments, 0⟩).Unread := List.length_pos_iff.mpr hne
    have hr : (start t ⟨comments, 0⟩).tree.root? = some 0 :=
      SyntaxTree.root?_of_pos hsize
    rw [hr]
    dsimp only
    refine Achieves.bind (achieves_walk _ [] [0] _ hs (.start h hsize hplain)) ?_
    intro _ p hp
    refine Achieves.get_bind ?_
    have hps := hp.sound hs
    have hcomments : p.stream.comments = comments := hp.stream.1
    split
    · next hleft =>
      have hu : p.Unread := by simpa [CommentStream.isDone, Unread] using hleft
      have hbound : p.stream.comments.length ≤ p.stream.cursor + comments.length := by
        rw [hcomments]
        exact Nat.le_add_left ..
      refine Achieves.bind (achieves_flushEnd _ p hps (Nat.lt_of_lt_of_le hsize hp.size_le) hu
        hbound) ?_
      rintro _ q ⟨hpq, hqdone, hgroup⟩
      exact ⟨_, _, rfl, q, hp.trans hpq, hqdone, hgroup, _, rfl⟩
    · next hleft =>
      have hpdone : p.stream.isDone = true := by simpa using hleft
      have hgroup : p.group = [] := by
        refine (hp.kept (.inl hstart)).resolve_left ?_
        simpa [CommentStream.isDone, Unread] using hpdone
      exact ⟨_, _, rfl, p, hp, hpdone, hgroup, _, rfl⟩

end Whole

end Pass

/-! ## When a pass fails -/

/-- Some comment starts before the end of the one before it. -/
def OutOfOrder (comments : List Comment) : Prop :=
  ∃ (i : Nat) (previous following : Comment), comments[i]? = some previous ∧
    comments[i + 1]? = some following ∧ following.start.before previous.stop = true

namespace CommentStream

/-- The check of the order finds exactly the comments that are out of order. -/
lemma checkOrder_eq_ok_iff (comments : List Comment) :
    checkOrder comments = .ok () ↔ ¬ OutOfOrder comments := by
  induction comments with
  | nil => simp [checkOrder, OutOfOrder]
  | cons previous rest ih =>
    cases rest with
    | nil => simp [checkOrder, OutOfOrder]
    | cons following rest =>
      have hsplit : OutOfOrder (previous :: following :: rest) ↔
          following.start.before previous.stop = true ∨ OutOfOrder (following :: rest) := by
        constructor
        · rintro ⟨i, c, d, hc, hd, hbefore⟩
          cases i with
          | zero =>
            obtain rfl : previous = c := by simpa using hc
            obtain rfl : following = d := by simpa using hd
            exact .inl hbefore
          | succ i => exact .inr ⟨i, c, d, by simpa using hc, by simpa using hd, hbefore⟩
        · rintro (hbefore | ⟨i, c, d, hc, hd, hbefore⟩)
          · exact ⟨0, previous, following, rfl, rfl, hbefore⟩
          · exact ⟨i + 1, c, d, by simpa using hc, by simpa using hd, hbefore⟩
      rw [checkOrder, hsplit, not_or]
      by_cases hbefore : following.start.before previous.stop = true
      · simp [hbefore]
      · simp [hbefore, ih]

/-- Comments in order make a stream at its start. -/
lemma ofComments_of_checkOrder {comments : List Comment} (h : checkOrder comments = .ok ()) :
    ofComments comments = .ok ⟨comments, 0⟩ := by
  rw [ofComments, h]
  rfl

/-- A stream is made of comments in order only. -/
lemma checkOrder_of_ofComments {comments : List Comment} {stream : CommentStream}
    (h : ofComments comments = .ok stream) : checkOrder comments = .ok () := by
  cases horder : checkOrder comments with
  | ok => rfl
  | error e => simp [ofComments, horder, bind, Except.bind] at h

/-- A stream starts on its first comment. -/
lemma eq_of_ofComments {comments : List Comment} {stream : CommentStream}
    (h : ofComments comments = .ok stream) : stream = ⟨comments, 0⟩ := by
  rw [ofComments_of_checkOrder (checkOrder_of_ofComments h)] at h
  exact (Except.ok.inj h).symm

/-- The only fault that the check of the order reports. -/
lemma eq_outOfOrder_of_checkOrder {comments : List Comment} {e : LinkError}
    (h : checkOrder comments = .error e) :
    ∃ previous following, e = .outOfOrder previous following := by
  induction comments with
  | nil => simp [checkOrder] at h
  | cons previous rest ih =>
    cases rest with
    | nil => simp [checkOrder] at h
    | cons following rest =>
      rw [checkOrder] at h
      split at h
      · exact ⟨_, _, (Except.error.inj h).symm⟩
      · exact ih h

end CommentStream

section Outcome

variable {settings : LinkSettings} {tree : SyntaxTree} {comments : List Comment}

/-- Comments out of order are not linked, and the tree is kept. -/
lemma linkComments_of_checkOrder_error {e : LinkError}
    (h : CommentStream.checkOrder comments = .error e) :
    linkComments settings tree comments = ⟨tree, .empty, #[], some e⟩ := by
  simp [linkComments, CommentStream.ofComments, h, bind, Except.bind]

/-- Comments in order are linked by a pass over the tree. -/
lemma linkComments_of_checkOrder_ok (h : CommentStream.checkOrder comments = .ok ()) :
    linkComments settings tree comments =
      match Pass.run settings (Pass.start tree ⟨comments, 0⟩) with
      | .ok _ p => ⟨p.tree, p.map, p.journal, none⟩
      | .error e p => ⟨p.tree, p.map, p.journal, some e⟩ := by
  have hstream := CommentStream.ofComments_of_checkOrder h
  unfold linkComments
  split
  · next e he => simp [hstream] at he
  · next stream he =>
    obtain rfl := Except.ok.inj (hstream.symm.trans he)
    rfl

/-- **The outcome of a pass that succeeds**: the state after some steps that read and place all
comments, with the map frozen. -/
theorem exists_runs_of_linkComments (settings : LinkSettings) (hb : tree.Built)
    (horder : CommentStream.checkOrder comments = .ok ())
    (hroot : comments = [] ∨ 0 < tree.size) :
    ∃ p q, Pass.run settings (Pass.start tree ⟨comments, 0⟩) = .ok () p ∧
      Pass.Runs settings.markers (Pass.start tree ⟨comments, 0⟩) q ∧
      q.stream.isDone = true ∧ q.group = [] ∧
      (∃ journal, p = { q with map := q.map.freeze, journal := journal }) ∧
      linkComments settings tree comments = ⟨p.tree, p.map, p.journal, none⟩ := by
  obtain ⟨hwf, hplain, -⟩ := hb.wellFormed_and_plain
  obtain ⟨_, p, hrun, q, hruns, hdone, hgroup, hp⟩ :=
    Pass.achieves_run settings hwf hplain comments hroot
  refine ⟨p, q, hrun, hruns, hdone, hgroup, hp, ?_⟩
  rw [linkComments_of_checkOrder_ok horder, hrun]

/-- Without a root, a pass over comments stops at once. -/
lemma run_of_rootless (settings : LinkSettings) (hne : comments ≠ []) (hroot : tree.root? = none) :
    Pass.run settings (Pass.start tree ⟨comments, 0⟩) =
      .error .noRoot (Pass.start tree ⟨comments, 0⟩) := by
  have hopen : ¬ (Pass.start tree ⟨comments, 0⟩).stream.isDone = true := by
    simpa [CommentStream.isDone, Pass.start] using hne
  have hnone : (Pass.start tree ⟨comments, 0⟩).tree.root? = none := hroot
  unfold Pass.run
  rw [get_bind_apply, if_neg hopen, hnone]
  rfl

/-- Without a root, comments cannot be placed. -/
lemma linkComments_of_rootless (settings : LinkSettings)
    (horder : CommentStream.checkOrder comments = .ok ())
    (hne : comments ≠ []) (hroot : tree.root? = none) :
    (linkComments settings tree comments).failure = some .noRoot := by
  rw [linkComments_of_checkOrder_ok horder, run_of_rootless settings hne hroot]

end Outcome

/-- **A pass fails exactly if its comments are out of order, or if there are comments and no root.**
Its faults are then these two, which say that an assumption of the pass is broken; a pass that does
not fail leaves a frozen map. -/
theorem linkComments_failure_iff (settings : LinkSettings) {tree : SyntaxTree} (hb : tree.Built)
    (comments : List Comment) :
    ((linkComments settings tree comments).failure ≠ none ↔
      OutOfOrder comments ∨ (comments ≠ [] ∧ tree.root? = none)) ∧
    (∀ e, (linkComments settings tree comments).failure = some e →
      e.breaksInvariant = true ∧
        ((∃ previous following, e = .outOfOrder previous following) ∨ e = .noRoot)) ∧
    ((linkComments settings tree comments).failure = none →
      (linkComments settings tree comments).map.frozen = true) := by
  cases horder : CommentStream.checkOrder comments with
  | error e =>
    have hout : OutOfOrder comments := by
      by_contra hno
      rw [← CommentStream.checkOrder_eq_ok_iff, horder] at hno
      simp at hno
    rw [linkComments_of_checkOrder_error horder]
    obtain ⟨previous, following, rfl⟩ := CommentStream.eq_outOfOrder_of_checkOrder horder
    refine ⟨by simp [hout], ?_, by simp⟩
    intro e he
    obtain rfl := Option.some.inj he
    exact ⟨rfl, .inl ⟨previous, following, rfl⟩⟩
  | ok _ =>
    have hordered : ¬ OutOfOrder comments := (CommentStream.checkOrder_eq_ok_iff comments).mp horder
    by_cases hfail : comments ≠ [] ∧ tree.root? = none
    · have hno := linkComments_of_rootless settings horder hfail.1 hfail.2
      rw [hno]
      refine ⟨by simp [hfail.1, hfail.2], ?_, by simp⟩
      intro e he
      obtain rfl := Option.some.inj he
      exact ⟨rfl, .inr rfl⟩
    · have hroot : comments = [] ∨ 0 < tree.size := by
        by_cases hnil : comments = []
        · exact .inl hnil
        · exact .inr (SyntaxTree.size_pos_of_root? fun h => hfail ⟨hnil, h⟩)
      obtain ⟨p, q, -, -, -, -, ⟨journal, rfl⟩, he⟩ :=
        exists_runs_of_linkComments settings hb horder hroot
      rw [he]
      exact ⟨by simp [hordered, hfail], by simp, fun _ => rfl⟩

/-- Two comments of which the second starts inside the first: the pass over the sample tree fails,
as `linkComments_failure_iff` says. -/
theorem linkComments_failure_overlapping :
    SyntaxTree.sample.Built ∧
      (linkComments .standard SyntaxTree.sample
        [⟨.block, ⟨2, 0⟩, ⟨3, 4⟩, "/* a\nb */"⟩, ⟨.line, ⟨3, 2⟩, ⟨3, 6⟩, "// c"⟩]).failure ≠ none :=
  ⟨SyntaxTree.built_sample,
    (linkComments_failure_iff .standard SyntaxTree.built_sample _).1.mpr
      (.inl ⟨0, _, _, rfl, rfl, by decide⟩)⟩

end Marginalia
