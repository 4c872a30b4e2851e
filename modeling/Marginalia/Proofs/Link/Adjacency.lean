import Marginalia.Proofs.Link.Above
import Marginalia.Proofs.Link.Orderly

/-!
# Neighbours that share a group

Two comments that follow each other with at most a line break between them, and no node, belong
together.  A pass flushes them in one group with two exceptions:

* A node starts on the line on which the second comment starts, and behind that start.  The visit of
  the node stops at the first comment if that ends on the line above or on the line itself, and
  flushes it without looking at the second one.
* The first comment ends on the line of an argument, behind the start of that, and is taken for the
  argument or the next one.

If the second comment starts on the line below the first one, the first exception always parts them.

## Main definitions

* `Together`, `CutBehind` — two neighbours are in one group, or a group ends between them.
* `Uninterrupted` — no node starts between two comments.
* `Crowded`, `Claimed` — the two exceptions.
* `Pass.Sectioned` — the invariant: what holds of the comments on both sides of each cut.

## Main results

* `together_or_cutBehind`, `not_together_of_cutBehind` — neighbours are in one group or parted.
* `Pass.Reached.sectioned` — wherever a pass cuts, neighbours are apart or meet an exception.
* `Pass.Reached.cutBehind` — the first exception parts neighbours on two lines.
* `linkComments_keeps_together` — the groups of a pass.
-/

namespace Marginalia

/-! ## Cuts between groups -/

/-- The comments `i` and `i + 1` are in one of the groups, which hold the comments in order. -/
def Together (groups : List CommentGroup) (i : Nat) : Prop :=
  ∃ before group after, groups = before ++ group :: after ∧
    before.flatten.length ≤ i ∧ i + 1 < before.flatten.length + group.length

/-- One of the groups ends with the comment `i`. -/
def CutBehind (groups : List CommentGroup) (i : Nat) : Prop :=
  ∃ before, before <+: groups ∧ before.flatten.length = i + 1

section Cuts

variable {groups more : List CommentGroup} {i : Nat}

/-- A cut stays where more groups follow. -/
lemma CutBehind.mono (h : CutBehind groups i) (hgroups : groups <+: more) : CutBehind more i := by
  obtain ⟨before, hbefore, hlength⟩ := h
  exact ⟨before, hbefore.trans hgroups, hlength⟩

/-- **Neighbours are in one group, or a group ends between them.** -/
lemma together_or_cutBehind (groups : List CommentGroup) {i : Nat}
    (hi : i + 1 < groups.flatten.length) : Together groups i ∨ CutBehind groups i := by
  induction groups generalizing i with
  | nil => simp at hi
  | cons group rest ih =>
    rw [List.flatten_cons, List.length_append] at hi
    rcases Nat.lt_trichotomy (i + 1) group.length with hlt | heq | hgt
    · exact .inl ⟨[], group, rest, rfl, Nat.zero_le i, by simpa using hlt⟩
    · exact .inr ⟨[group], ⟨rest, rfl⟩, by simp [heq]⟩
    · rcases ih (i := i - group.length) (by omega) with
        ⟨before, other, after, rfl, hle, hlt⟩ | ⟨before, ⟨after, rfl⟩, hlength⟩
      · refine .inl ⟨group :: before, other, after, rfl, ?_, ?_⟩
        · rw [List.flatten_cons, List.length_append]
          omega
        · rw [List.flatten_cons, List.length_append]
          omega
      · refine .inr ⟨group :: before, ⟨after, rfl⟩, ?_⟩
        rw [List.flatten_cons, List.length_append]
        omega

/-- **Neighbours with a cut between them are not in one group.** -/
lemma not_together_of_cutBehind (h : CutBehind groups i) : ¬ Together groups i := by
  rintro ⟨before, group, after, rfl, hle, hlt⟩
  obtain ⟨front, ⟨rest, hsplit⟩, hlength⟩ := h
  -- the cut lies before the group or behind it
  rcases List.append_eq_append_iff.mp hsplit with ⟨gap, rfl, -⟩ | ⟨gap, rfl, hrest⟩
  · rw [List.flatten_append, List.length_append] at hle
    omega
  · rw [List.flatten_append, List.length_append] at hlength
    cases gap with
    | nil =>
      rw [List.flatten_nil, List.length_nil] at hlength
      omega
    | cons first gap =>
      obtain ⟨rfl, -⟩ := List.cons.inj hrest
      rw [List.flatten_cons, List.length_append] at hlength
      omega

end Cuts

/-! ## What keeps neighbours together, and what parts them -/

/-- No node but the root starts at or behind the end of `b` and before the start of `c`. -/
def Uninterrupted (tree : SyntaxTree) (b c : Comment) : Prop :=
  ∀ n < tree.size, tree.parent? n ≠ none →
    (tree.node n).start.before b.stop = true ∨ (tree.node n).start.before c.start = false

/-- It can be decided whether a node starts between two comments. -/
instance (tree : SyntaxTree) (b c : Comment) : Decidable (Uninterrupted tree b c) :=
  inferInstanceAs (Decidable (∀ n < tree.size, _ → _))

/-- A node that is no root starts behind the start of the comment and on its line. -/
def Crowded (tree : SyntaxTree) (c : Comment) : Prop :=
  ∃ n < tree.size, tree.parent? n ≠ none ∧ (tree.node n).start.line = c.start.line ∧
    (tree.node n).start.before c.start = false

/-- It can be decided whether a node starts on the line of a comment. -/
instance (tree : SyntaxTree) (c : Comment) : Decidable (Crowded tree c) :=
  inferInstanceAs (Decidable (∃ n < tree.size, _))

/-- The comment ends on the line of an argument and behind the start of that, and in a column before
that of the next argument. -/
def Claimed (settings : LinkSettings) (tree : SyntaxTree) (b : Comment) : Prop :=
  ∃ n parent, tree.parent? n = some parent ∧
    settings.policy.argumentLists.contains (tree.node parent).kind = true ∧
    (tree.node n).start.line = b.stop.line ∧ (tree.node n).start.before b.stop = true ∧
    ∀ z, tree.nextSibling n = .ok (some z) → b.stop.column < (tree.node z).start.column

/-- Where a pass may cut between two neighbours: they are apart, or an exception holds. -/
def Partable (settings : LinkSettings) (tree : SyntaxTree) (b c : Comment) : Prop :=
  b.lineGap c ≤ 1 → Uninterrupted tree b c → Crowded tree c ∨ Claimed settings tree b

/-- Comments that are apart may be parted. -/
lemma partable_of_gap {settings : LinkSettings} {tree : SyntaxTree} {b c : Comment}
    (h : b.startsNewGroup c = true) : Partable settings tree b c := by
  intro hclose
  rw [← Pass.startsNewGroup_eq_false_iff, h] at hclose
  exact absurd hclose Bool.noConfusion

/-- A node at or behind the end of the first comment, and not below the second one, crowds it. -/
lemma Uninterrupted.crowded {tree : SyntaxTree} {b c : Comment} (h : Uninterrupted tree b c)
    {x : NodeId} (hx : x < tree.size) (hchild : tree.parent? x ≠ none)
    (hreach : (tree.node x).start.before b.stop = false)
    (hline : (tree.node x).start.line ≤ c.start.line) : Crowded tree c := by
  rcases h x hx hchild with hbefore | hbehind
  · rw [hreach] at hbefore
    exact absurd hbefore Bool.noConfusion
  · have hle := Position.line_le_of_not_before hbehind
    exact ⟨x, hx, hchild, by omega, hbehind⟩

/-- **A comment that is taken for an argument** or for the next one ends in a column before that of
the next one. -/
lemma Placement.column_lt_of_resolveArgument {p q : Placement} {id target next : NodeId}
    {comment : Comment} {sourceLine : String}
    (h : resolveArgument id comment sourceLine p = .ok (some target) q)
    (hnext : p.tree.nextSibling id = .ok (some next)) :
    comment.stop.column < (p.tree.node next).start.column := by
  rw [resolveArgument_of_nextSibling hnext] at h
  by_contra hle
  rw [if_neg hle] at h
  cases h

namespace Pass

/-- The groups that a pass placed, in order. -/
def placedGroups (p : Pass) : List CommentGroup := p.trace.toList.filterMap Move.group?

/-- The empty groups make no cuts. -/
lemma cutBehind_flushedGroups_iff {p : Pass} {i : Nat} :
    CutBehind p.flushedGroups i ↔ CutBehind p.placedGroups i := by
  constructor
  · rintro ⟨before, ⟨after, hsplit⟩, hlength⟩
    obtain ⟨front, back, hplaced, rfl, -⟩ := List.filter_eq_append_iff.mp hsplit.symm
    rw [List.flatten_filter_not_isEmpty] at hlength
    exact ⟨front, ⟨back, hplaced.symm⟩, hlength⟩
  · rintro ⟨before, hbefore, hlength⟩
    refine ⟨before.filter fun group => !group.isEmpty, hbefore.filter _, ?_⟩
    rwa [List.flatten_filter_not_isEmpty]

/-- The groups placed and the one under way are what was read of the comments, and `R` holds of the
comments on both sides of each cut. -/
structure Sectioned (R : Comment → Comment → Prop) (comments : List Comment) (p : Pass) :
    Prop where
  comments_eq : p.stream.comments = comments
  read : p.placedGroups.flatten ++ p.group = comments.take (p.stream.cursor + 1)
  cuts : ∀ {i : Nat} {b c : Comment}, CutBehind p.placedGroups i →
    comments[i]? = some b → comments[i + 1]? = some c → R b c

/-! ## What one operation keeps -/

section Operations

variable {R : Comment → Comment → Prop} {settings : LinkSettings} {comments : List Comment}
  {x : NodeId} {line : Int} {moved : Bool} {move : Move} {p q : Pass}

/-- At the start nothing is read, and nothing is cut. -/
lemma sectioned_start (R : Comment → Comment → Prop) (tree : SyntaxTree)
    (comments : List Comment) : Sectioned R comments (start tree ⟨comments, 0⟩) where
  comments_eq := rfl
  read := rfl
  cuts := by
    rintro i b c ⟨before, hbefore, hlength⟩
    rw [show before = [] from List.prefix_nil.mp hbefore] at hlength
    simp at hlength

/-- Reading a comment places no group. -/
lemma placedGroups_movedOn (p : Pass) (moved : Bool) :
    (p.movedOn moved).placedGroups = p.placedGroups := by
  cases moved with
  | true => rfl
  | false => rfl

/-- A flush places the group that was under way. -/
lemma Flushed.placedGroups_eq (hf : Flushed move p q) (hmove : move.group? = some p.group) :
    q.placedGroups = p.placedGroups ++ [p.group] := by
  simp [placedGroups, hf.trace_eq, hmove]

/-- Noting something that places no group makes no cut. -/
lemma Sectioned.noted (h : Sectioned R comments p) {journal : Journal}
    (silent : move.group? = none) :
    Sectioned R comments { p with trace := p.trace.push move, journal := journal } := by
  have hplaced : placedGroups { p with trace := p.trace.push move, journal := journal } =
      p.placedGroups := by
    simp [placedGroups, silent]
  exact ⟨h.comments_eq, by rw [hplaced]; exact h.read, by rw [hplaced]; exact h.cuts⟩

/-- Reading a comment makes no cut. -/
lemma Sectioned.advanced (h : Sectioned R comments p) : Sectioned R comments p.advanced where
  comments_eq := h.comments_eq
  read := by
    show p.placedGroups.flatten ++ (p.group ++ p.stream.comments[p.stream.cursor + 1]?.toList) =
      comments.take (p.stream.cursor + 1 + 1)
    rw [← List.append_assoc, h.read, h.comments_eq]
    exact List.take_add_one.symm
  cuts := h.cuts

/-- Moving on behind a flush keeps the sections. -/
lemma Sectioned.movedOn (h : Sectioned R comments p) :
    Sectioned R comments (p.movedOn moved) := by
  cases moved with
  | true => exact h
  | false => exact h.advanced

/-- After a flush, the groups placed end with the current comment. -/
lemma Sectioned.length_flatten (h : Sectioned R comments p) (hu : p.Unread) :
    (p.placedGroups ++ [p.group]).flatten.length = p.stream.cursor + 1 := by
  rw [Unread, h.comments_eq] at hu
  rw [List.flatten_append, List.flatten_singleton, h.read, List.length_take, Nat.min_eq_left hu]

/-- **A flush cuts behind the current comment.** -/
lemma Sectioned.cutBehind (h : Sectioned R comments p) (hu : p.Unread) (hf : Flushed move p q)
    (hmove : move.group? = some p.group) : CutBehind q.placedGroups p.stream.cursor := by
  rw [hf.placedGroups_eq hmove]
  exact ⟨_, List.prefix_rfl, h.length_flatten hu⟩

/-- **A flush makes one cut at most**, between the current comment and the following one. -/
lemma Sectioned.flush (h : Sectioned R comments p) (hu : p.Unread) (hf : Flushed move p q)
    (hmove : move.group? = some p.group) (hcut : ∀ b c, p.Current b → p.Following c → R b c) :
    Sectioned R comments q where
  comments_eq := by rw [hf.stream_eq, h.comments_eq]
  read := by
    rw [hf.placedGroups_eq hmove, hf.group_eq, hf.stream_eq, List.append_nil, ← h.read,
      List.flatten_append, List.flatten_singleton]
  cuts := by
    rintro i b c ⟨before, hbefore, hlength⟩ hb hc
    rw [hf.placedGroups_eq hmove, List.prefix_concat_iff] at hbefore
    rcases hbefore with rfl | hbefore
    · obtain rfl : p.stream.cursor = i := by
        rw [h.length_flatten hu] at hlength
        omega
      rw [← h.comments_eq] at hb hc
      exact hcut b c hb hc
    · exact h.cuts ⟨before, hbefore, hlength⟩ hb hc

/-- A flush at the last comment, or between two comments that are apart. -/
lemma Sectioned.flush_of_gap {tree : SyntaxTree}
    (h : Sectioned (Partable settings tree) comments p) (hf : Flushed move p q)
    (hmove : move.group? = some p.group) {b : Comment} (hb : p.Current b)
    (hgap : ∀ c, p.Following c → b.startsNewGroup c = true) :
    Sectioned (Partable settings tree) comments q := by
  refine h.flush hb.unread hf hmove ?_
  intro b' c hb' hc
  rw [← hb.eq hb']
  exact partable_of_gap (hgap c hc)

/-- **Rounds cut where two comments are apart.** -/
lemma Rounds.sectioned {tree : SyntaxTree} (hr : Rounds settings x line p q)
    (h : Sectioned (Partable settings tree) comments p) :
    Sectioned (Partable settings tree) comments q := by
  induction hr with
  | refl => exact h
  | tail _ hround ih =>
    cases hround with
    | join => exact ih.advanced
    | float current following above apart gap flush =>
      refine (ih.flush_of_gap (flushed_of_float flush) rfl current fun d hd => ?_).advanced
      rwa [← Option.some.inj (following.symm.trans hd)]

/-- **What happens after the walk cuts where two comments are apart.** -/
lemma Ends.sectioned {tree : SyntaxTree} (he : Ends settings p q)
    (h : Sectioned (Partable settings tree) comments p) :
    Sectioned (Partable settings tree) comments q :=
  he.keeps h (fun hr _ _ _ => hr.advanced) fun hr hb hgap flush =>
    (hr.flush_of_gap (flushed_of_trail flush) rfl hb hgap).advanced

end Operations

/-! ## Cuts during a visit -/

section Visits

variable {settings : LinkSettings} {tree : SyntaxTree} {comments : List Comment} {p q r : Pass}
  {x parent : NodeId} {visited rest stack : List NodeId} {moved : Bool} {b c : Comment}

/-- Of two neighbours the second one does not start before the first one ends. -/
lemma Underway.start_not_before_stop (hu : Underway settings tree comments visited stack p)
    (horder : CommentStream.checkOrder comments = .ok ()) (hb : p.Current b)
    (hc : p.Following c) : c.start.before b.stop = false := by
  rw [Current, hu.comments_eq] at hb
  rw [Following, hu.comments_eq] at hc
  rw [← Bool.not_eq_true]
  intro hbefore
  exact (CommentStream.checkOrder_eq_ok_iff comments).mp horder ⟨_, b, c, hb, hc, hbefore⟩

/-- **The end of a visit cuts where an exception holds.**

**Proof sketch.** A group that goes on the visited node ends before it.  If no node starts between
the current comment and the following one, the node starts behind the start of that; and it does so
on the same line, since a visit does not stop at a comment on the line above if the following one
starts on that line as well.  The same holds of an argument that starts behind the current comment;
one that starts before it claims the comment. -/
lemma Ending.sectioned (he : Ending settings x parent (tree.node x).start.line moved p q)
    (hu : Underway settings tree comments visited (x :: rest) p) (hwf : tree.WellFormed)
    (hparent : p.tree.parent? x = some parent)
    (horder : CommentStream.checkOrder comments = .ok ())
    (h : Sectioned (Partable settings tree) comments p) :
    Sectioned (Partable settings tree) comments q := by
  have htop := List.mem_cons_self (a := x) (l := rest)
  have hx := (hu.core_eq htop).1
  have hchild : tree.parent? x ≠ none := by
    rw [← hu.parent?_eq htop, hparent]
    simp
  cases he with
  | wait => exact h
  | behind => exact h
  | leave => exact h
  | defer current level argument asked =>
    obtain ⟨c, after, -, hasked, rfl⟩ := exists_of_resolve asked
    obtain ⟨⟨journal, rfl⟩, -⟩ := Placement.exists_of_resolveArgument hasked
    exact h.noted rfl
  | @argue b y _ _ current level argument asked flush =>
    obtain ⟨b', after, hb', hasked, rfl⟩ := exists_of_resolve asked
    obtain rfl := current.eq hb'
    obtain ⟨⟨journal, rfl⟩, -⟩ := Placement.exists_of_resolveArgument hasked
    refine ((h.noted rfl).flush current.unread (flushed_of_link flush) rfl ?_).movedOn
    intro b' c hb' hc _ hfree
    obtain rfl := current.eq hb'
    have hline := Position.line_le_of_not_before (hu.start_not_before_stop horder current hc)
    cases hreach : (tree.node x).start.before b.stop with
    | false => exact .inl (hfree.crowded hx hchild hreach (by omega))
    | true =>
      obtain ⟨hparent', hargument⟩ := hu.argument hparent argument
      refine .inr ⟨x, parent, hparent', hargument, level.symm, hreach, ?_⟩
      intro z hz
      obtain ⟨hsame, hstack⟩ := hu.nextSibling_eq hwf hparent
      have hz' := hsame.trans hz
      rw [← hu.start_eq (hstack z hz')]
      exact Placement.column_lt_of_resolveArgument hasked hz'
  | @link b _ current near touches flush =>
    refine (h.flush current.unread (flushed_of_link flush) rfl ?_).movedOn
    intro b' c hb' hc _ hfree
    obtain rfl := current.eq hb'
    have hline := Position.line_le_of_not_before (hu.start_not_before_stop horder current hc)
    have htouches := touches c hc
    rw [hu.start_eq htop] at near
    rw [Touches] at htouches
    refine .inl (hfree.crowded hx hchild ?_ (by omega))
    rw [Position.before_eq_false_iff]
    omega
  | float current last above unmoved flush =>
    exact (h.flush current.unread (flushed_of_float flush) rfl
      fun _ c _ hc => absurd hc (last c)).advanced

/-- **Wherever a walk cuts, two comments are apart or meet an exception.** -/
lemma Reached.sectioned (hreached : Reached settings tree comments p visited stack)
    (hb : tree.Built) (hsize : 0 < tree.size)
    (horder : CommentStream.checkOrder comments = .ok ()) :
    Sectioned (Partable settings tree) comments p := by
  obtain ⟨hwf, -, -⟩ := hb.wellFormed_and_plain
  induction hreached with
  | start => exact sectioned_start _ tree comments
  | @visit p q x visited rest reached unread visits ih =>
    rcases (reached.underway hb hsize).exists_ending unread visits with
      ⟨-, rfl⟩ | ⟨parent, r, -, hparent, hu, hrounds, hending⟩
    · exact ih.noted rfl
    · exact hending.sectioned hu hwf hparent horder (Rounds.sectioned hrounds (ih.noted rfl))

end Visits

/-! ## Neighbours on two lines -/

section Crowding

variable {R : Comment → Comment → Prop} {settings : LinkSettings} {tree : SyntaxTree}
  {comments : List Comment} {markers : List Marker} {p q r : Pass} {x parent : NodeId}
  {visited rest stack : List NodeId} {line : Int} {moved : Bool} {move : Move} {i : Nat}
  {b c : Comment}

/-- Runs keep the groups placed, and so the cuts. -/
lemma Runs.prefix_placedGroups (h : Runs markers p q) : p.placedGroups <+: q.placedGroups := by
  induction h with
  | refl => exact List.prefix_rfl
  | @tail q r _ hs ih =>
    obtain ⟨visited, hs⟩ := hs
    refine ih.trans ?_
    cases hs with
    | note move journal silent => simp [placedGroups, silent]
    | flush move flushed flush => simp [placedGroups, flushed]
    | advance => exact List.prefix_rfl

/-- The comment `i` is current or still to come, or there is a cut behind it. -/
def Due (i : Nat) (p : Pass) : Prop := p.stream.cursor ≤ i ∨ CutBehind p.placedGroups i

/-- A flush at or before the comment `i`, after which at most one more comment is read. -/
lemma Sectioned.due_of_flush (h : Sectioned R comments p) (hu : p.Unread) (hf : Flushed move p q)
    (hmove : move.group? = some p.group) (hi : p.stream.cursor ≤ i) (moved : Bool) :
    Due i (q.movedOn moved) := by
  rcases Nat.lt_or_eq_of_le hi with hlt | rfl
  · left
    cases moved with
    | true => exact hf.stream_eq ▸ hi
    | false =>
      show q.stream.cursor + 1 ≤ i
      rw [hf.stream_eq]
      exact hlt
  · right
    rw [placedGroups_movedOn]
    exact h.cutBehind hu hf hmove

/-- Rounds stop at a comment that touches the line, or does not end above it. -/
lemma Rounds.cursor_le (hr : Rounds settings x line p q) (h : Sectioned R comments p)
    (hi : p.stream.cursor ≤ i) (hb : comments[i]? = some b) (hc : comments[i + 1]? = some c)
    (htouches : b.stop.line < line → Touches b c line) : q.stream.cursor ≤ i := by
  induction hr with
  | refl => exact hi
  | @tail q r hrounds hround ih =>
    have hcomments : q.stream.comments = comments :=
      (Rounds.stream hrounds).1.trans h.comments_eq
    -- a round at the comment would be one that it stops
    have hne : q.stream.cursor ≠ i := by
      rintro rfl
      rw [← hcomments] at hb hc
      cases hround with
      | join current following above apart close =>
        obtain rfl := current.eq hb
        obtain rfl := Option.some.inj (following.symm.trans hc)
        exact apart (htouches above)
      | float current following above apart gap flush =>
        obtain rfl := current.eq hb
        obtain rfl := Option.some.inj (following.symm.trans hc)
        exact apart (htouches above)
    rw [hround.stream_eq]
    exact Nat.lt_of_le_of_ne ih hne

/-- The end of a visit passes a comment only with a cut behind it. -/
lemma Ending.due (he : Ending settings x parent line moved p q) (h : Sectioned R comments p)
    (hi : p.stream.cursor ≤ i) : Due i q := by
  cases he with
  | wait => exact .inl hi
  | behind => exact .inl hi
  | leave => exact .inl hi
  | defer current level argument asked =>
    left
    rwa [stream_of_resolve asked]
  | argue current level argument asked flush =>
    obtain ⟨b, after, -, hasked, rfl⟩ := exists_of_resolve asked
    obtain ⟨⟨journal, rfl⟩, -⟩ := Placement.exists_of_resolveArgument hasked
    exact (h.noted rfl).due_of_flush current.unread (flushed_of_link flush) rfl hi moved
  | link current near touches flush =>
    exact h.due_of_flush current.unread (flushed_of_link flush) rfl hi moved
  | float current last above unmoved flush =>
    exact h.due_of_flush current.unread (flushed_of_float flush) rfl hi false

/-- **The visit of a node on the line below a comment, on which the next one starts, ends with a cut
between the two.**

**Proof sketch.** All comments up to this one end above the line.  Those before it are followed by
one that starts above the line, so they do not touch it, and the visit has read on to the comment;
then its group goes on the node. -/
lemma Ending.cutBehind (he : Ending settings x parent line moved p q) (h : Sectioned R comments p)
    (horder : CommentStream.checkOrder comments = .ok ()) (hforward : Forward comments)
    (hi : p.stream.cursor ≤ i) (hb : comments[i]? = some b) (hc : comments[i + 1]? = some c)
    (hline : b.stop.line + 1 = line) : CutBehind q.placedGroups i := by
  obtain rfl := h.comments_eq
  have hbound := (List.getElem?_eq_some_iff.mp hc).1
  have habove : ∀ {a : Comment}, p.Current a → a.stop.line < line := by
    intro a ha
    have hle := Position.line_le_of_not_before (not_before_of_le horder hforward hi ha hb)
    omega
  obtain ⟨d, hd⟩ : ∃ d, p.Following d := ⟨_, List.getElem?_eq_getElem (by omega)⟩
  cases he with
  | wait current below => exact absurd (habove current) (by omega)
  | behind current level => exact absurd (habove current) (by omega)
  | defer current level => exact absurd (habove current) (by omega)
  | argue current level => exact absurd (habove current) (by omega)
  | float current last => exact absurd hd (last d)
  | leave current last => exact absurd hd (last d)
  | @link a _ current near touches flush =>
    have hcursor : p.stream.cursor = i := by
      by_contra hne
      have hlt : p.stream.cursor < i := Nat.lt_of_le_of_ne hi hne
      have hstop := habove current
      have htouches := touches d hd
      have hstart := Position.line_le_of_not_before
        (not_before_of_lt horder hforward (Nat.lt_succ_self _) current hd)
      have hspan := Position.line_le_of_not_before (hforward d (List.mem_of_getElem? hd))
      have hend := Position.line_le_of_not_before (not_before_of_le horder hforward hlt hd hb)
      rw [Touches] at htouches
      omega
    subst hcursor
    rw [placedGroups_movedOn]
    exact h.cutBehind current.unread (flushed_of_link flush) rfl

/-- **A node on the line of the second comment parts two comments on two lines.**

**Proof sketch.** Until the node is visited, the nodes start on its line or above, so no visit reads
on past the first comment without a cut behind it.  The visit of the node makes the cut if there is
none. -/
lemma Reached.cutBehind (hreached : Reached settings tree comments p visited stack)
    (hb : tree.Built) (hsize : 0 < tree.size) (hsource : tree.SourceOrdered)
    (horder : CommentStream.checkOrder comments = .ok ()) (hforward : Forward comments)
    (hbi : comments[i]? = some b) (hci : comments[i + 1]? = some c)
    (hnext : b.stop.line + 1 = c.start.line) {n : NodeId} (hn : n < tree.size)
    (hchild : tree.parent? n ≠ none) (hline : (tree.node n).start.line = c.start.line) :
    Due i p ∧ (n ∈ visited → CutBehind p.placedGroups i) := by
  obtain ⟨hwf, -, -⟩ := hb.wellFormed_and_plain
  induction hreached with
  | start => exact ⟨.inl (Nat.zero_le i), fun hmem => absurd hmem List.not_mem_nil⟩
  | @visit p q x visited rest reached unread visits ih =>
    have hu := reached.underway hb hsize
    by_cases hcut : CutBehind p.placedGroups i
    · have hsteps := (achieves_visit hu.sound unread hu.frontier).of_eq_ok visits
      have hq := hcut.mono (Runs.prefix_placedGroups (Steps.runs hsteps))
      exact ⟨.inr hq, fun _ => hq⟩
    · have hi : p.stream.cursor ≤ i := ih.1.resolve_right hcut
      have hnew : n ∉ visited := fun hmem => hcut (ih.2 hmem)
      have hsectioned := reached.sectioned hb hsize horder
      rcases hu.exists_ending unread visits with
        ⟨hroot, rfl⟩ | ⟨parent, r, -, -, -, hrounds, hending⟩
      · refine ⟨.inl hi, fun hmem => ?_⟩
        rcases List.mem_cons.mp hmem with rfl | hmem
        · exact absurd hroot hchild
        · exact absurd hmem hnew
      · have hr := Rounds.sectioned hrounds (hsectioned.noted rfl)
        -- the node is not below the line
        have hle : (tree.node x).start.line ≤ c.start.line := by
          rw [← hline]
          exact Position.line_le_of_not_before (hsource.start_of_notAfter hwf
            (reached.notAfter_of_not_mem hb hsize hn hnew))
        have hir : r.stream.cursor ≤ i := by
          refine Rounds.cursor_le hrounds (hsectioned.noted rfl) hi hbi hci fun habove => ?_
          rw [Touches]
          omega
        refine ⟨hending.due hr hir, fun hmem => ?_⟩
        rcases List.mem_cons.mp hmem with rfl | hmem
        · exact hending.cutBehind hr horder hforward hir hbi hci (hnext.trans hline.symm)
        · exact absurd hmem hnew

/-- What happens after the walk keeps the cuts. -/
lemma Ends.cutBehind (he : Ends settings p q) (h : CutBehind p.placedGroups i) :
    CutBehind q.placedGroups i := by
  refine he.keeps (motive := fun r => CutBehind r.placedGroups i) h (fun hr _ _ _ => hr) ?_
  intro r s b hr _ _ flush
  refine hr.mono ?_
  show _ <+: s.placedGroups
  rw [(flushed_of_trail flush).placedGroups_eq rfl]
  exact List.prefix_append ..

end Crowding

end Pass

/-! ## The groups of a pass -/

/-- **Neighbours stay together unless an exception parts them.**  Two comments that follow each
other with at most a line break between them, and no node, are flushed in one group, unless a node
starts behind the second one on its line, or the first one ends behind an argument on its line.  If
the second one starts on a later line than the first one ends, a node behind it on its line parts
the two in every tree in source order. -/
theorem linkComments_keeps_together (settings : LinkSettings) {tree : SyntaxTree} (hb : tree.Built)
    {comments : List Comment} {stream : CommentStream}
    (hstream : CommentStream.ofComments comments = .ok stream)
    (hroot : comments = [] ∨ tree.root? ≠ none) :
    ∃ p, Pass.run settings (Pass.start tree stream) = .ok () p ∧
      linkComments settings tree comments = ⟨p.tree, p.map, p.journal, none⟩ ∧
      ∀ (i : Nat) (b c : Comment), comments[i]? = some b → comments[i + 1]? = some c →
        b.lineGap c ≤ 1 → Uninterrupted tree b c →
        (Together p.flushedGroups i ∨ Crowded tree c ∨ Claimed settings tree b) ∧
          (tree.SourceOrdered → (∀ e ∈ comments, e.stop.before e.start = false) →
            b.stop.line < c.start.line → Crowded tree c → ¬ Together p.flushedGroups i) := by
  obtain rfl := CommentStream.eq_of_ofComments hstream
  have horder := CommentStream.checkOrder_of_ofComments hstream
  have hsize : comments = [] ∨ 0 < tree.size := hroot.imp_right SyntaxTree.size_pos_of_root?
  obtain ⟨p, deliveries, hrun, he, -, h, hall⟩ := Pass.exists_accounted settings hb horder hsize
  have hflatten : p.flushedGroups.flatten = comments := by
    rw [Pass.flushedGroups, List.flatten_filter_not_isEmpty, ← h.flushed, hall]
  refine ⟨p, hrun, he, ?_⟩
  intro i b c hbi hci hclose hfree
  have hne : comments ≠ [] := List.ne_nil_of_mem (List.mem_of_getElem? hbi)
  have hsize := hsize.resolve_left hne
  have hbound := (List.getElem?_eq_some_iff.mp hci).1
  obtain ⟨q, visited, stack, final, hreached, hstop, hends, journal, rfl⟩ :=
    Pass.exists_reached_of_run hb hne hsize hrun
  constructor
  · rcases together_or_cutBehind _ (hflatten ▸ hbound) with htogether | hcut
    · exact .inl htogether
    · rw [Pass.cutBehind_flushedGroups_iff] at hcut
      have hfinal := hends.sectioned (hreached.sectioned hb hsize horder)
      exact .inr (hfinal.cuts hcut hbi hci hclose hfree)
  · rintro hsource hforward hbelow ⟨n, hn, hchild, hline, -⟩
    have hnext : b.stop.line + 1 = c.start.line := by
      rw [Comment.lineGap] at hclose
      omega
    obtain ⟨hdue, hseen⟩ := hreached.cutBehind hb hsize hsource horder hforward hbi hci hnext hn
      hchild hline
    refine not_together_of_cutBehind (Pass.cutBehind_flushedGroups_iff.mpr ?_)
    refine hends.cutBehind ?_
    -- the walk ends when all comments are read, or all nodes are visited
    rcases hstop with hdone | hvisited
    · refine hdue.resolve_left ?_
      rw [Pass.Unread, hreached.comments_eq hb hsize] at hdone
      omega
    · exact hseen (hreached.mem_visited hb hsize hvisited hn)

/-- A source with two comments and a statement on one line. -/
def SyntaxTree.oneLine : SyntaxTree :=
  let root : Node :=
    { kind := "program", start := ⟨1, 0⟩, stop := ⟨1, 18⟩, field := none, accepts := true,
      tolerates := true, placeholder := false, parent := none, children := [], index := none }
  let statement := ((empty .standard ["/* a */ /* b */ x;"]).push root).addChild 0
    ⟨"expression_statement", ⟨1, 16⟩, ⟨1, 18⟩, none⟩
  (statement.2.addChild 1 ⟨"identifier", ⟨1, 16⟩, ⟨1, 17⟩, none⟩).2

/-- The tree of one line is built. -/
lemma SyntaxTree.built_oneLine : oneLine.Built :=
  have hroot := @Built.addRoot _ _ ⟨"program", ⟨1, 0⟩, ⟨1, 18⟩, none⟩ 0
    (.empty .standard ["/* a */ /* b */ x;"]) rfl
  .addChild _ (.addChild _ hroot (by decide)) (by decide)

/-- The comments of that line. -/
def oneLineComments : List Comment :=
  [⟨.block, ⟨1, 0⟩, ⟨1, 7⟩, "/* a */"⟩, ⟨.block, ⟨1, 8⟩, ⟨1, 15⟩, "/* b */"⟩]

/-- **Two comments before a statement on one line are parted**: no node starts between them, but the
statement takes the first one alone, and the second one goes on a node below it. -/
theorem linkComments_parts_oneLine :
    SyntaxTree.oneLine.Built ∧ SyntaxTree.oneLine.SourceOrdered ∧
      CommentStream.ofComments oneLineComments = .ok ⟨oneLineComments, 0⟩ ∧
      (∃ b c, oneLineComments = [b, c] ∧ b.lineGap c ≤ 1 ∧
        ∀ n < SyntaxTree.oneLine.size, (SyntaxTree.oneLine.node n).start.before b.stop = true ∨
          (SyntaxTree.oneLine.node n).start.before c.start = false) ∧
      ∃ p, Pass.run .standard (Pass.start SyntaxTree.oneLine ⟨oneLineComments, 0⟩) = .ok () p ∧
        p.map.entries = [(1, "/* a */"), (2, "/* b */")] ∧ ¬ Together p.flushedGroups 0 := by
  have hstream : CommentStream.ofComments oneLineComments = .ok ⟨oneLineComments, 0⟩ := rfl
  obtain ⟨p, -, hrun, -, -, -, -, he⟩ := exists_runs_of_linkComments .standard
    SyntaxTree.built_oneLine (CommentStream.checkOrder_of_ofComments hstream) (.inr (by decide))
  have hmap : (linkComments .standard SyntaxTree.oneLine oneLineComments).map.entries =
      [(1, "/* a */"), (2, "/* b */")] := by
    decide +kernel
  rw [he] at hmap
  have htrace : EStateM.run' (do Pass.run .standard; return (← get).trace.toList)
      (Pass.start SyntaxTree.oneLine ⟨oneLineComments, 0⟩) =
      some [.visit 0, .visit 1, .link 1 (oneLineComments.take 1), .visit 2,
        .link 2 (oneLineComments.drop 1)] := by
    decide +kernel
  have htrace := Option.some.inj ((Pass.trace_of_eq_ok hrun).symm.trans htrace)
  have hcut : CutBehind p.flushedGroups 0 := by
    rw [Pass.flushedGroups, htrace]
    exact ⟨[oneLineComments.take 1], ⟨_, rfl⟩, rfl⟩
  exact ⟨SyntaxTree.built_oneLine, by decide, hstream, ⟨_, _, rfl, by decide, by decide⟩, p, hrun,
    hmap, not_together_of_cutBehind hcut⟩

/-- A source with comments on three lines, and a statement behind the last one. -/
def SyntaxTree.threeLines : SyntaxTree :=
  let root : Node :=
    { kind := "program", start := ⟨1, 0⟩, stop := ⟨3, 10⟩, field := none, accepts := true,
      tolerates := true, placeholder := false, parent := none, children := [], index := none }
  (((empty .standard ["// a", "// b", "/* c */ x;"]).push root).addChild 0
    ⟨"expression_statement", ⟨3, 8⟩, ⟨3, 10⟩, none⟩).2

/-- The tree of three lines is built. -/
lemma SyntaxTree.built_threeLines : threeLines.Built :=
  have hroot := @Built.addRoot _ _ ⟨"program", ⟨1, 0⟩, ⟨3, 10⟩, none⟩ 0
    (.empty .standard ["// a", "// b", "/* c */ x;"]) rfl
  .addChild _ hroot (by decide)

/-- The comments of these lines. -/
def threeLinesComments : List Comment :=
  [⟨.line, ⟨1, 0⟩, ⟨1, 4⟩, "// a"⟩, ⟨.line, ⟨2, 0⟩, ⟨2, 4⟩, "// b"⟩,
    ⟨.block, ⟨3, 0⟩, ⟨3, 7⟩, "/* c */"⟩]

/-- On the three lines the first two comments stay together, and the statement parts the last two,
as `linkComments_keeps_together` says. -/
theorem linkComments_keeps_together_threeLines :
    SyntaxTree.threeLines.Built ∧ SyntaxTree.threeLines.SourceOrdered ∧
      CommentStream.ofComments threeLinesComments = .ok ⟨threeLinesComments, 0⟩ ∧
      (∀ e ∈ threeLinesComments, e.stop.before e.start = false) ∧
      SyntaxTree.threeLines.root? ≠ none ∧
      ∃ p, Pass.run .standard (Pass.start SyntaxTree.threeLines ⟨threeLinesComments, 0⟩) =
          .ok () p ∧
        Together p.flushedGroups 0 ∧ ¬ Together p.flushedGroups 1 := by
  have hsource : SyntaxTree.threeLines.SourceOrdered := by decide
  have hstream : CommentStream.ofComments threeLinesComments = .ok ⟨threeLinesComments, 0⟩ := rfl
  have hforward : ∀ e ∈ threeLinesComments, e.stop.before e.start = false := by decide
  have hroot : SyntaxTree.threeLines.root? ≠ none := by decide
  obtain ⟨p, hrun, -, hgroups⟩ := linkComments_keeps_together .standard
    SyntaxTree.built_threeLines hstream (.inr hroot)
  refine ⟨SyntaxTree.built_threeLines, hsource, hstream, hforward, hroot, p, hrun, ?_, ?_⟩
  · obtain ⟨hkept, -⟩ := hgroups 0 _ _ rfl rfl (by decide) (by decide)
    rcases hkept with htogether | hcrowded | hclaimed
    · exact htogether
    · exact absurd hcrowded (by decide)
    · obtain ⟨n, parent, hparent, hargument, -⟩ := hclaimed
      have hplain : ∀ n < SyntaxTree.threeLines.size, ∀ parent,
          SyntaxTree.threeLines.parent? n = some parent →
          LinkSettings.standard.policy.argumentLists.contains
            (SyntaxTree.threeLines.node parent).kind = false := by
        decide
      rw [hplain n (SyntaxTree.lt_size_of_parent? hparent) parent hparent] at hargument
      exact absurd hargument Bool.noConfusion
  · obtain ⟨-, hparted⟩ := hgroups 1 _ _ rfl rfl (by decide) (by decide)
    exact hparted hsource hforward (by decide) (by decide)

end Marginalia
