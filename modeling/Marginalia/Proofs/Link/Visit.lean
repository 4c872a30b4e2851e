import Marginalia.Proofs.Link.Landing
import Marginalia.Proofs.Link.Progress

/-!
# What a visit does

A visit first catches up with the comments above its node, round by round: a round reads one more
comment, and flushes the group under way if a gap lies before that comment.  Then the current
comment is compared with the node, and the visit ends in one of seven ways.

The relations here say all that a round, the end of a visit and the end of the source can do, with
the conditions under which they do it.  They are read off the operations once, and everything else
about the reading of comments follows from them.

## Main definitions

* `Pass.Current`, `Pass.Following` — the comments at and behind the cursor.
* `Pass.Round`, `Pass.Rounds` — reading one more comment, and any number of them.
* `Pass.Ending` — the ways in which a visit ends.
* `Pass.EndRound` — reading one more comment at the end of the source.

## Main results

* `Pass.rounds_of_catchUp` — catching up consists of rounds.
* `Pass.ending_of_visit` — a visit consists of rounds and an ending.
* `Pass.endRounds_of_flushEnd` — the same for the end of the source.
-/

namespace Marginalia

namespace Pass

/-! ## The comments at the cursor -/

/-- The comment at the cursor is `c`. -/
def Current (p : Pass) (c : Comment) : Prop := p.stream.comments[p.stream.cursor]? = some c

/-- The comment behind the cursor is `d`. -/
def Following (p : Pass) (d : Comment) : Prop := p.stream.comments[p.stream.cursor + 1]? = some d

section Questions

variable {p : Pass} {c d : Comment}

/-- There is a comment at the cursor while comments are left to read. -/
lemma exists_current_of_unread (h : p.Unread) : ∃ c, p.Current c :=
  ⟨p.stream.comments[p.stream.cursor], List.getElem?_eq_getElem h⟩

/-- With a comment at the cursor, comments are left to read. -/
lemma Current.unread (h : p.Current c) : p.Unread := (List.getElem?_eq_some_iff.mp h).1

/-- Comments remain if there is one behind the cursor. -/
lemma hasRemaining_iff : p.stream.hasRemaining = true ↔ ∃ d, p.Following d := by
  rw [CommentStream.hasRemaining, decide_eq_true_eq]
  constructor
  · intro h
    exact ⟨_, List.getElem?_eq_getElem h⟩
  · rintro ⟨d, hd⟩
    exact (List.getElem?_eq_some_iff.mp hd).1

/-- With a comment behind the cursor, comments are left to read. -/
lemma Following.unread (h : p.Following d) : p.Unread :=
  Nat.lt_of_succ_lt (List.getElem?_eq_some_iff.mp h).1

/-- The comment behind the cursor is the next one at the cursor. -/
lemma Following.current_advanced (h : p.Following d) : p.advanced.Current d := h

/-- There is one comment at the cursor. -/
lemma Current.eq (h : p.Current c) (h' : p.Current d) : c = d := Option.some.inj (h.symm.trans h')

/-- The current comment of the stream is the one at the cursor. -/
lemma Current.current_eq (h : p.Current c) : p.stream.current = .ok c := by
  simp only [CommentStream.current, show p.stream.comments[p.stream.cursor]? = some c from h]

/-- The following comment of the stream is the one behind the cursor. -/
lemma Following.following_eq (h : p.Following d) : p.stream.following = .ok d := by
  simp only [CommentStream.following, show p.stream.comments[p.stream.cursor + 1]? = some d from h]

/-- The last line of the stream is that on which the comment at the cursor ends. -/
lemma Current.lastLine_eq (h : p.Current c) : p.stream.lastLine = .ok c.stop.line := by
  simp [CommentStream.lastLine, h.current_eq, bind, Except.bind, pure, Except.pure]

/-- A group ends here if the comment behind the cursor starts a new one. -/
lemma Current.breaksGroup_eq (h : p.Current c) (hd : p.Following d) :
    p.stream.breaksGroup = .ok (c.startsNewGroup d) := by
  simp [CommentStream.breaksGroup, h.current_eq, hd.following_eq, bind, Except.bind, pure,
    Except.pure]

/-- The current comment touches a line: it ends on it, or on the line above, where the next one does
not start. -/
def Touches (c d : Comment) (line : Int) : Prop :=
  c.stop.line = line ∨ (c.stop.line = line - 1 ∧ c.stop.line ≠ d.start.line)

/-- It can be decided whether a comment touches a line. -/
instance (c d : Comment) (line : Int) : Decidable (Touches c d line) :=
  inferInstanceAs (Decidable (_ ∨ _))

/-- The stream is adjacent to the lines that the comment at the cursor touches. -/
lemma Current.isAdjacentTo_eq (h : p.Current c) (hd : p.Following d) (line : Int) :
    p.stream.isAdjacentTo line = .ok (decide (Touches c d line)) := by
  simp only [CommentStream.isAdjacentTo, h.lastLine_eq, hd.following_eq, bind, Except.bind, pure,
    Except.pure, Touches]
  split
  · simp_all
  · split
    · simp_all
    · simp_all

/-- A question that has an answer hands it on. -/
lemma ask_bind {α β : Type} {question : CommentStream → Except LinkError α} {a : α}
    (h : question p.stream = .ok a) (next : α → Linking β) :
    (ask question >>= next) p = next a p := by
  show EStateM.bind (ask question) next p = _
  have hask : ask question p = .ok a p := by
    unfold ask
    rw [get_bind_apply, h]
    rfl
  rw [EStateM.bind, hask]

end Questions

/-! ## Reading on -/

/-- While the node `x` on the line `line` is visited, one more comment is read. -/
inductive Round (settings : LinkSettings) (x : NodeId) (line : Int) (p : Pass) : Pass → Prop
  /-- The comment joins the group under way. -/
  | join {c d : Comment} (current : p.Current c) (following : p.Following d)
    (above : c.stop.line < line) (apart : ¬ Touches c d line)
    (close : c.startsNewGroup d = false) : Round settings x line p p.advanced
  /-- The group under way floats before the node, and the comment starts a new one. -/
  | float {c d : Comment} {q : Pass} (current : p.Current c) (following : p.Following d)
    (above : c.stop.line < line) (apart : ¬ Touches c d line) (gap : c.startsNewGroup d = true)
    (flush : float settings x p = .ok () q) : Round settings x line p q.advanced

/-- Any number of rounds. -/
abbrev Rounds (settings : LinkSettings) (x : NodeId) (line : Int) : Pass → Pass → Prop :=
  Relation.ReflTransGen (Round settings x line)

/-- At the end of the source, one more comment is read. -/
inductive EndRound (settings : LinkSettings) (p : Pass) : Pass → Prop
  /-- The comment joins the group under way. -/
  | join {c d : Comment} (current : p.Current c) (following : p.Following d)
    (close : c.startsNewGroup d = false) : EndRound settings p p.advanced
  /-- The group under way goes to the end, and the comment starts a new one. -/
  | trail {c d : Comment} {q : Pass} (current : p.Current c) (following : p.Following d)
    (gap : c.startsNewGroup d = true) (flush : trail settings p = .ok () q) :
    EndRound settings p q.advanced

/-- Any number of rounds at the end of the source. -/
abbrev EndRounds (settings : LinkSettings) : Pass → Pass → Prop :=
  Relation.ReflTransGen (EndRound settings)

/-- The state that a visit leaves after a flush: unless comments were read to get there, one more is
read. -/
def movedOn (moved : Bool) (p : Pass) : Pass := if moved then p else p.advanced

/-- Whether the node below `parent` is an argument. -/
def Argument (settings : LinkSettings) (t : SyntaxTree) (parent : NodeId) : Prop :=
  settings.policy.argumentLists.contains (t.node parent).kind = true

/-- How the visit of the node `x`, on the line `line` and below `parent`, ends once it has caught up
with the comments above it; `moved` tells whether comments were read to get there. -/
inductive Ending (settings : LinkSettings) (x parent : NodeId) (line : Int) (moved : Bool)
    (p : Pass) : Pass → Prop
  /-- The current comment ends below the line. -/
  | wait {c : Comment} (current : p.Current c) (below : line < c.stop.line) :
    Ending settings x parent line moved p p
  /-- The current comment ends on the line, and not before the node. -/
  | behind {c : Comment} (current : p.Current c) (level : c.stop.line = line)
    (plain : ¬ Argument settings p.tree parent)
    (column : (p.tree.node x).start.column ≤ c.stop.column) :
    Ending settings x parent line moved p p
  /-- The node is an argument, and the current comment ends on its line behind the next one. -/
  | defer {c : Comment} {q : Pass} (current : p.Current c) (level : c.stop.line = line)
    (argument : Argument settings p.tree parent) (asked : resolve x line p = .ok none q) :
    Ending settings x parent line moved p q
  /-- The node is an argument, the current comment ends on its line, and the group goes on this or
  the next argument. -/
  | argue {c : Comment} {y : NodeId} {q r : Pass} (current : p.Current c)
    (level : c.stop.line = line) (argument : Argument settings p.tree parent)
    (asked : resolve x line p = .ok (some y) q) (flush : link settings y q = .ok () r) :
    Ending settings x parent line moved p (r.movedOn moved)
  /-- The current comment ends on the line above, or before the node on its line, and the group goes
  on the node. -/
  | link {c : Comment} {q : Pass} (current : p.Current c)
    (near : c.stop.line = line - 1 ∨
      c.stop.line = line ∧ c.stop.column < (p.tree.node x).start.column)
    (touches : ∀ d, p.Following d → Touches c d line) (flush : link settings x p = .ok () q) :
    Ending settings x parent line moved p (q.movedOn moved)
  /-- The last comment ends further up, and the group floats before the node. -/
  | float {c : Comment} {q : Pass} (current : p.Current c) (last : ∀ d, ¬ p.Following d)
    (above : c.stop.line < line - 1) (unmoved : moved = false)
    (flush : float settings x p = .ok () q) : Ending settings x parent line moved p q.advanced
  /-- The last comment ends further up, but it was read just now, and is left for later. -/
  | leave {c : Comment} (current : p.Current c) (last : ∀ d, ¬ p.Following d)
    (above : c.stop.line < line - 1) (read : moved = true) :
    Ending settings x parent line moved p p

section Reading

variable {settings : LinkSettings} {x parent : NodeId} {line : Int} {p q : Pass}

/-- Two comments of a group have no line between them. -/
lemma startsNewGroup_eq_false_iff {c d : Comment} :
    c.startsNewGroup d = false ↔ c.lineGap d ≤ 1 := by
  simp [Comment.startsNewGroup]

/-- Reading the state hands it on. -/
lemma get_bind_eq_ok {α : Type} {next : Pass → Linking α} {a : α}
    (h : (get >>= next) p = .ok a q) : next p p = .ok a q := h

/-- Reading one more comment, once it is known whether the group under way is flushed before. -/
lemma exists_of_read {α : Type} {flush : Linking Unit} {next : Linking α} {breaks : Bool} {a : α}
    (h : (if breaks then do flush; advance; next else do advance; next : Linking α) p = .ok a q) :
    ∃ r, (if breaks then flush p = .ok () r else r = p) ∧ next r.advanced = .ok a q := by
  cases breaks with
  | true =>
    obtain ⟨_, r, hflush, hrest⟩ := bind_eq_ok h
    exact ⟨r, hflush, hrest⟩
  | false => exact ⟨p, rfl, h⟩

/-- A round reads one comment. -/
lemma Round.stream_eq (h : Round settings x line p q) :
    q.stream = { p.stream with cursor := p.stream.cursor + 1 } := by
  cases h with
  | join => rfl
  | float current following above apart gap flush =>
    rw [advanced, (flushed_of_float flush).stream_eq]

/-- Rounds read on. -/
lemma Rounds.stream (h : Rounds settings x line p q) :
    q.stream.comments = p.stream.comments ∧ p.stream.cursor ≤ q.stream.cursor := by
  induction h with
  | refl => exact ⟨rfl, Nat.le_refl _⟩
  | tail _ hround ih =>
    rw [hround.stream_eq]
    exact ⟨ih.1, Nat.le_succ_of_le ih.2⟩

/-- Reading one more comment above the node is a round, whether or not the group is flushed. -/
lemma exists_round_of_read {α : Type} {next : Linking α} {a : α} {c d : Comment}
    (hc : p.Current c) (hd : p.Following d) (habove : c.stop.line < line)
    (happart : ¬ Touches c d line)
    (h : (if c.startsNewGroup d then do float settings x; advance; next
      else do advance; next : Linking α) p = .ok a q) :
    ∃ r, Round settings x line p r ∧ next r = .ok a q := by
  obtain ⟨r, hflush, hrest⟩ := exists_of_read h
  refine ⟨r.advanced, ?_, hrest⟩
  cases hgap : c.startsNewGroup d with
  | true =>
    rw [hgap, if_pos rfl] at hflush
    exact .float hc hd habove happart hgap hflush
  | false =>
    rw [hgap, if_neg (by simp)] at hflush
    subst hflush
    exact .join hc hd habove happart hgap

/-- **Catching up with the comments above a node consists of rounds.**  They end at a comment below
the line, or at one that touches it, or at the last one.

**Proof sketch.** Induction on the number of steps allowed, of which there are enough for the
comments left. -/
lemma rounds_of_catchUp :
    ∀ (steps : Nat) (moved : Bool) (p : Pass), p.Unread →
      p.stream.comments.length ≤ p.stream.cursor + steps →
      ∀ {a : CaughtUp} {q : Pass}, catchUp settings x line steps moved p = .ok a q →
        Rounds settings x line p q ∧ q.Unread ∧
          match a with
          | .passed => ∃ c, q.Current c ∧ line < c.stop.line
          | .here moved' => moved' = (moved || decide (p.stream.cursor < q.stream.cursor)) ∧
              ∀ c d, q.Current c → q.Following d → Touches c d line := by
  intro steps
  induction steps with
  | zero =>
    intro moved p hu hle
    rw [Unread] at hu
    omega
  | succ steps ih =>
    intro moved p hu hle a q h
    unfold catchUp at h
    have h := get_bind_eq_ok h
    obtain ⟨c, hc⟩ := exists_current_of_unread hu
    by_cases hr : p.stream.hasRemaining = true
    · obtain ⟨d, hd⟩ := hasRemaining_iff.mp hr
      simp only [hr, Bool.not_true, Bool.false_eq_true, if_false] at h
      rw [ask_bind (hc.isAdjacentTo_eq hd line)] at h
      by_cases htouch : Touches c d line
      · simp only [htouch, decide_true, if_true] at h
        obtain ⟨rfl, rfl⟩ := pure_eq_ok h
        refine ⟨.refl, hu, by simp, ?_⟩
        intro c' d' hc' hd'
        rw [← hc.eq hc', ← Option.some.inj (hd.symm.trans hd')]
        exact htouch
      · simp only [htouch, decide_false, Bool.false_eq_true, if_false] at h
        rw [ask_bind hc.lastLine_eq] at h
        by_cases hbelow : line < c.stop.line
        · rw [if_pos hbelow] at h
          obtain ⟨rfl, rfl⟩ := pure_eq_ok h
          exact ⟨.refl, hu, c, hc, hbelow⟩
        · rw [if_neg hbelow, ask_bind (hc.breaksGroup_eq hd)] at h
          have habove : c.stop.line < line := by
            have hne : c.stop.line ≠ line := fun he => htouch (.inl he)
            omega
          obtain ⟨r, hround, hrest⟩ := exists_round_of_read hc hd habove htouch h
          have hlt : p.stream.cursor + 1 < p.stream.comments.length := by
            simpa [CommentStream.hasRemaining] using hr
          have hstream := hround.stream_eq
          have hur : r.Unread := by
            rw [Unread, hstream]
            exact hlt
          have hler : r.stream.comments.length ≤ r.stream.cursor + steps := by
            rw [hstream]
            show p.stream.comments.length ≤ p.stream.cursor + 1 + steps
            omega
          obtain ⟨hrounds, huq, hend⟩ := ih true r hur hler hrest
          refine ⟨.head hround hrounds, huq, ?_⟩
          have hcursor : p.stream.cursor < q.stream.cursor := by
            have hle := (Rounds.stream hrounds).2
            rw [hstream] at hle
            exact hle
          cases a with
          | passed => exact hend
          | here moved' => simpa [hcursor] using hend
    · simp only [hr] at h
      obtain ⟨rfl, rfl⟩ := pure_eq_ok h
      refine ⟨.refl, hu, by simp, ?_⟩
      intro c' d' _ hd'
      exact absurd (hasRemaining_iff.mpr ⟨d', hd'⟩) hr

/-- Asking which argument the current comment belongs to, and the note of it in the trace. -/
lemma exists_of_resolve {target : Option NodeId} (h : resolve x line p = .ok target q) :
    ∃ c after, p.Current c ∧
      Placement.resolveArgument x c (p.tree.sourceLine line) p.toPlacement = .ok target after ∧
      q = { p with toPlacement := after, trace := p.trace.push (.resolve x c target) } := by
  obtain ⟨c, r, hask, hrest⟩ := bind_eq_ok h
  have hc : p.Current c ∧ r = p := by
    rw [ask, get_bind_apply] at hask
    cases hcurrent : p.stream.comments[p.stream.cursor]? with
    | none =>
      simp only [CommentStream.current, hcurrent] at hask
      cases hask
    | some d =>
      simp only [CommentStream.current, hcurrent] at hask
      obtain ⟨rfl, rfl⟩ := pure_eq_ok hask
      exact ⟨hcurrent, rfl⟩
  obtain ⟨hc, rfl⟩ := hc
  obtain ⟨target', s, hplace, hrest⟩ := bind_eq_ok (get_bind_eq_ok hrest)
  obtain ⟨after, hafter, rfl⟩ := exists_of_place hplace
  obtain ⟨_, u, hrecord, hrest⟩ := bind_eq_ok hrest
  obtain ⟨-, rfl⟩ := EStateM.Result.ok.inj hrecord
  obtain ⟨rfl, rfl⟩ := pure_eq_ok hrest
  exact ⟨c, after, hc, hafter, rfl⟩

/-- Asking for the argument of a comment reads no comment. -/
lemma stream_of_resolve {target : Option NodeId} (h : resolve x line p = .ok target q) :
    q.stream = p.stream := by
  obtain ⟨c, after, -, -, rfl⟩ := exists_of_resolve h
  rfl

/-- The node is done with a group that it flushes. -/
lemma flush_of_done {flush : Linking Unit} {settled : Bool}
    (h : (do flush; return true : Linking Bool) p = .ok settled q) :
    settled = true ∧ flush p = .ok () q := by
  obtain ⟨_, r, hflush, hrest⟩ := bind_eq_ok h
  obtain ⟨rfl, rfl⟩ := pure_eq_ok hrest
  exact ⟨rfl, hflush⟩

/-- **A visit whose last comment ends neither on the line nor on the one above** floats the group,
or leaves it for later if comments were read to get there. -/
lemma ending_of_apart {moved settled : Bool} {c : Comment} (hc : p.Current c)
    (hlast : ∀ d, ¬ p.Following d) (hlevel : c.stop.line ≠ line) (hnear : c.stop.line ≠ line - 1)
    (hline : moved = false → c.stop.line ≤ line)
    (h : (if !p.stream.hasRemaining && !moved then do float settings x; return true
      else return true : Linking Bool) p = .ok settled q) :
    settled = true ∧ Ending settings x parent line moved p (q.movedOn moved) := by
  have hremaining : p.stream.hasRemaining = false := by
    rw [← Bool.not_eq_true, hasRemaining_iff]
    rintro ⟨d, hd⟩
    exact hlast d hd
  cases moved with
  | true =>
    simp only [hremaining, Bool.not_true, Bool.and_false, Bool.false_eq_true, if_false] at h
    obtain ⟨rfl, rfl⟩ := pure_eq_ok h
    by_cases hbelow : line < c.stop.line
    · exact ⟨rfl, .wait hc hbelow⟩
    · exact ⟨rfl, .leave hc hlast (by omega) rfl⟩
  | false =>
    have hle := hline rfl
    simp only [hremaining, Bool.not_false, Bool.and_true, if_true] at h
    obtain ⟨rfl, hfloat⟩ := flush_of_done h
    exact ⟨rfl, .float hc hlast (by omega) rfl hfloat⟩

/-- **A visit that has caught up ends** in one of the ways of `Ending`. -/
lemma ending_of_settle {moved : Bool} {c : Comment} (hc : p.Current c)
    (htouches : ∀ d, p.Following d → Touches c d line)
    (hline : moved = false → c.stop.line ≤ line)
    (h : (do
      let settled ← settle settings x parent line moved
      if settled && !moved then advance : Linking Unit) p = .ok () q) :
    Ending settings x parent line moved p q := by
  obtain ⟨settled, r, hsettle, hrest⟩ := bind_eq_ok h
  -- once the node is done with the group, one more comment is read unless some were already
  have hmoved : settled = true → q = r.movedOn moved := by
    rintro rfl
    cases moved with
    | true => exact (pure_eq_ok hrest).2.symm
    | false => exact (EStateM.Result.ok.inj hrest).2.symm
  have hstay : settled = false → q = r := by
    rintro rfl
    exact (pure_eq_ok hrest).2.symm
  unfold settle at hsettle
  rw [ask_bind hc.lastLine_eq] at hsettle
  have hsettle := get_bind_eq_ok hsettle
  by_cases hlevel : c.stop.line = line
  · rw [if_pos hlevel] at hsettle
    by_cases hargument : settings.policy.argumentLists.contains (p.tree.node parent).kind = true
    · rw [if_pos hargument] at hsettle
      obtain ⟨target, s, hasked, hsettle⟩ := bind_eq_ok hsettle
      cases target with
      | none =>
        obtain ⟨hs, rfl⟩ := pure_eq_ok hsettle
        rw [hstay hs.symm]
        exact .defer hc hlevel hargument hasked
      | some y =>
        obtain ⟨hs, hlink⟩ := flush_of_done hsettle
        rw [hmoved hs]
        exact .argue hc hlevel hargument hasked hlink
    · rw [if_neg hargument, ask_bind hc.current_eq] at hsettle
      by_cases hcolumn : c.stop.column < (p.tree.node x).start.column
      · rw [if_pos hcolumn] at hsettle
        obtain ⟨hs, hlink⟩ := flush_of_done hsettle
        rw [hmoved hs]
        exact .link hc (.inr ⟨hlevel, hcolumn⟩) htouches hlink
      · rw [if_neg hcolumn] at hsettle
        obtain ⟨hs, rfl⟩ := pure_eq_ok hsettle
        rw [hstay hs.symm]
        exact .behind hc hlevel hargument (Int.not_lt.mp hcolumn)
  · rw [if_neg hlevel] at hsettle
    by_cases habove : c.stop.line = line - 1
    · rw [if_pos habove] at hsettle
      obtain ⟨hs, hlink⟩ := flush_of_done hsettle
      rw [hmoved hs]
      exact .link hc (.inl habove) htouches hlink
    · rw [if_neg habove] at hsettle
      have hsettle := get_bind_eq_ok hsettle
      -- a comment that touches no line here is the last one
      have hlast : ∀ d, ¬ p.Following d := by
        intro d hd
        rcases htouches d hd with he | ⟨he, -⟩
        · exact hlevel he
        · exact habove he
      obtain ⟨hs, hending⟩ := ending_of_apart hc hlast hlevel habove hline hsettle
      rw [hmoved hs]
      exact hending

/-- The state in which a step is noted. -/
abbrev noted (move : Move) (p : Pass) : Pass := { p with trace := p.trace.push move }

/-- **A visit consists of rounds and an ending**, unless it is the root that is visited. -/
lemma ending_of_visit (hu : p.Unread) (h : visit settings x p = .ok () q) :
    (p.tree.parent? x = none ∧ q = p.noted (.visit x)) ∨
      ∃ parent r, p.tree.parent? x = some parent ∧
        Rounds settings x (p.tree.node x).start.line (p.noted (.visit x)) r ∧
        Ending settings x parent (p.tree.node x).start.line
          (decide (p.stream.cursor < r.stream.cursor)) r q := by
  obtain ⟨_, _, hrecord, hrest⟩ := bind_eq_ok h
  obtain ⟨-, rfl⟩ := EStateM.Result.ok.inj hrecord
  have hrest := get_bind_eq_ok hrest
  dsimp only at hrest
  cases hparent : p.tree.parent? x with
  | none =>
    rw [hparent] at hrest
    exact .inl ⟨rfl, (pure_eq_ok hrest).2.symm⟩
  | some parent =>
    right
    refine ⟨parent, ?_⟩
    rw [hparent] at hrest
    dsimp only at hrest
    obtain ⟨c, hc⟩ := exists_current_of_unread hu
    have hcn : (p.noted (.visit x)).Current c := hc
    rw [ask_bind hcn.lastLine_eq] at hrest
    by_cases hbelow : (p.tree.node x).start.line < c.stop.line
    · rw [if_pos hbelow] at hrest
      obtain ⟨-, rfl⟩ := pure_eq_ok hrest
      exact ⟨_, rfl, .refl, .wait hcn hbelow⟩
    · rw [if_neg hbelow] at hrest
      obtain ⟨caughtUp, r, hcatch, hrest⟩ := bind_eq_ok (get_bind_eq_ok hrest)
      obtain ⟨hrounds, hur, hend⟩ := rounds_of_catchUp _ false (p.noted (.visit x)) hu
        (Nat.le_add_left ..) hcatch
      refine ⟨r, rfl, hrounds, ?_⟩
      cases caughtUp with
      | passed =>
        obtain ⟨d, hd, hlow⟩ := hend
        obtain ⟨-, rfl⟩ := pure_eq_ok hrest
        exact .wait hd hlow
      | here moved =>
        obtain ⟨hmoved, htouches⟩ := hend
        rw [Bool.false_or] at hmoved
        rw [show decide (p.stream.cursor < r.stream.cursor) = moved from hmoved.symm]
        obtain ⟨d, hd⟩ := exists_current_of_unread hur
        refine ending_of_settle hd (fun e he => htouches d e hd he) ?_ hrest
        intro hunmoved
        -- no comment was read, so the current one is still that of the start
        have hcursor : r.stream.cursor = p.stream.cursor := by
          have hle := (Rounds.stream hrounds).2
          have hnot := of_decide_eq_false (hmoved.symm.trans hunmoved)
          exact Nat.le_antisymm (Nat.not_lt.mp hnot) hle
        have hcomments : r.stream.comments = p.stream.comments := (Rounds.stream hrounds).1
        have hrc : r.Current c := by
          rw [Current, hcursor, hcomments]
          exact hc
        rw [hd.eq hrc]
        exact Int.not_lt.mp hbelow

/-- **Flushing at the end of the source consists of rounds** up to the last comment, whose group
goes to the end as well.

**Proof sketch.** Induction on the number of steps allowed, of which there are enough for the
comments left. -/
lemma endRounds_of_flushEnd :
    ∀ (steps : Nat) (p : Pass), p.Unread → p.stream.comments.length ≤ p.stream.cursor + steps →
      ∀ {q : Pass}, flushEnd settings steps p = .ok () q →
        ∃ r s, EndRounds settings p r ∧ r.Unread ∧ (∀ d, ¬ r.Following d) ∧
          trail settings r = .ok () s ∧ q = s.advanced := by
  intro steps
  induction steps with
  | zero =>
    intro p hu hle
    rw [Unread] at hu
    omega
  | succ steps ih =>
    intro p hu hle q h
    unfold flushEnd at h
    have h := get_bind_eq_ok h
    obtain ⟨c, hc⟩ := exists_current_of_unread hu
    by_cases hr : p.stream.hasRemaining = true
    · obtain ⟨d, hd⟩ := hasRemaining_iff.mp hr
      rw [if_pos hr, ask_bind (hc.breaksGroup_eq hd)] at h
      obtain ⟨r, hflush, hrest⟩ := exists_of_read h
      have hround : EndRound settings p r.advanced ∧ r.stream = p.stream := by
        cases hgap : c.startsNewGroup d with
        | true =>
          rw [hgap, if_pos rfl] at hflush
          exact ⟨.trail hc hd hgap hflush, (flushed_of_trail hflush).stream_eq⟩
        | false =>
          rw [hgap, if_neg (by simp)] at hflush
          subst hflush
          exact ⟨.join hc hd hgap, rfl⟩
      obtain ⟨hround, hstream⟩ := hround
      have hur : r.advanced.Unread := unread_advanced (by rw [hstream, hr])
      have hler : r.advanced.stream.comments.length ≤ r.advanced.stream.cursor + steps := by
        show r.stream.comments.length ≤ r.stream.cursor + 1 + steps
        rw [hstream]
        omega
      obtain ⟨s, u, hrounds, hus, hlast, htrail, he⟩ := ih r.advanced hur hler hrest
      exact ⟨s, u, .head hround hrounds, hus, hlast, htrail, he⟩
    · rw [if_neg hr] at h
      obtain ⟨_, s, htrail, hrest⟩ := bind_eq_ok h
      obtain ⟨-, rfl⟩ := EStateM.Result.ok.inj hrest
      exact ⟨p, s, .refl, hu, fun d hd => hr (hasRemaining_iff.mpr ⟨d, hd⟩), htrail, rfl⟩

end Reading

end Pass

end Marginalia
