import Marginalia.Proofs.Link.Adjacency

/-!
# Comments taken for arguments

When an argument of a call is visited, a comment that ends on its line is given to this or to the
next argument.  Only the lines are compared, so the comment need not stand inside of the argument
list: it may stand behind the call, if the argument is the last one, and the end of the comment may
touch the list from outside.

A comment further to the left was there already when the list itself was visited, and should have
gone on it then.  That it did not has a cause: the list is the root, which takes no comments; the
list is an argument itself, and put the comment off; or an earlier comment went on the list or on
the nodes above it in place of this one, since a node takes one group only.

## Main definitions

* `Pass.Overlooked` — why a comment before an argument list passed it by.
* `Pass.Taken` — how a comment that goes on an argument stands to the argument list.
* `Pass.Passed` — what holds of the current comment once a node was visited.
* `Pass.Consulted` — what is known about a comment that goes on an argument.

## Main results

* `Pass.Steps.passed`, `Pass.Ending.passed` — visits establish `Pass.Passed`, and steps keep it.
* `Pass.Underway.taken` — how a comment that goes on an argument stands to the argument list.
* `linkComments_consults_arguments` — so it is wherever a pass asks for an argument.
-/

namespace Marginalia

/-- **The node behind a node** has the same parent, and it does not start before the node. -/
lemma SyntaxTree.SourceOrdered.next_sibling {t : SyntaxTree} (h : t.SourceOrdered)
    (hwf : t.WellFormed) {id p next : NodeId} (hp : t.parent? id = some p)
    (hnext : t.nextSibling id = .ok (some next)) :
    t.parent? next = some p ∧ (t.node next).start.before (t.node id).start = false := by
  obtain ⟨left, right, hchildren⟩ := List.append_of_mem (hwf.mem_children hp)
  have hhead : right.head? = some next :=
    Except.ok.inj ((hwf.nextSibling_eq hp hchildren).symm.trans hnext)
  have hright := List.mem_of_mem_head? hhead
  refine ⟨hwf.parent_of_mem (by simp [hchildren, hright]), ?_⟩
  have hsiblings := h.siblings p (hwf.parent_lt_size hp)
  rw [hchildren] at hsiblings
  have hbehind := (List.pairwise_cons.mp (List.pairwise_append.mp hsiblings).2.1).1 next hright
  exact Position.not_before_trans (h.forward id (lt_size_of_parent? hp)) hbehind

namespace Pass

/-- Why the `j`-th comment `c`, which ends before the argument list `list` on the line on which this
starts, passed it by. -/
inductive Overlooked (settings : LinkSettings) (tree : SyntaxTree) (comments : List Comment)
    (list : NodeId) (j : Nat) (c : Comment) : Prop
  /-- The list is the root, which takes no comments. -/
  | root (orphan : tree.parent? list = none)
  /-- An earlier comment ends on the line of the list or on the line above. -/
  | preceded {i : Nat} {b : Comment} (earlier : i < j) (mem : comments[i]? = some b)
    (near : b.stop.line = (tree.node list).start.line - 1 ∨
      b.stop.line = (tree.node list).start.line)
  /-- The list is an argument itself, and the next one starts further down, in a column that the
  comment has reached. -/
  | deferred {outer next : NodeId} (parent : tree.parent? list = some outer)
    (argument : Argument settings tree outer) (sibling : tree.nextSibling list = .ok (some next))
    (below : (tree.node list).start.line < (tree.node next).start.line)
    (column : (tree.node next).start.column ≤ c.stop.column)

/-- How the `j`-th comment `c`, which the visit of the argument `id` gives to the argument `target`,
stands to their list. -/
inductive Taken (settings : LinkSettings) (tree : SyntaxTree) (comments : List Comment)
    (list id target : NodeId) (j : Nat) (c : Comment) : Prop
  /-- It stands inside of the list. -/
  | inside (starts : c.start.before (tree.node list).start = false)
    (ends : (tree.node list).stop.before c.stop = false)
  /-- It ends behind the list, and the last argument takes it. -/
  | trailing (last : tree.nextSibling id = .ok none) (self : target = id)
    (behind : (tree.node list).stop.before c.stop = true)
  /-- It starts before the list and reaches its start. -/
  | reaching (starts : c.start.before (tree.node list).start = true)
    (reaches : c.stop.before (tree.node list).start = false)
  /-- It ends before the list, which passed it by. -/
  | before (ends : c.stop.before (tree.node list).start = true)
    (overlooked : Overlooked settings tree comments list j c)

/-! ## Once a node was visited -/

/-- What holds once the node `list` was visited: the current comment does not end above the line
above the node, unless it is the last one; and if it ends on the line of the node and before this,
it is under way only because it was overlooked. -/
structure Passed (settings : LinkSettings) (tree : SyntaxTree) (comments : List Comment)
    (list : NodeId) (p : Pass) : Prop where
  reach : ∀ {c d : Comment}, p.Current c → p.Following d →
    (tree.node list).start.line - 1 ≤ c.stop.line
  left : ∀ {c : Comment}, p.Current c → c.stop.line = (tree.node list).start.line →
    c.stop.column < (tree.node list).start.column →
    p.group = [] ∨ Overlooked settings tree comments list p.stream.cursor c

section Passed

variable {settings : LinkSettings} {tree : SyntaxTree} {comments : List Comment} {p q : Pass}
  {x list parent : NodeId} {visited rest : List NodeId} {moved : Bool} {b c d : Comment}

/-- Nothing is under way after a flush. -/
lemma passed_of_flush (hstream : q.stream = p.stream) (hgroup : q.group = [])
    (hreach : ∀ {c d : Comment}, p.Current c → p.Following d →
      (tree.node list).start.line - 1 ≤ c.stop.line) :
    Passed settings tree comments list q where
  reach := fun hc hd => by
    rw [Current, hstream] at hc
    rw [Following, hstream] at hd
    exact hreach hc hd
  left := fun _ _ _ => .inl hgroup

/-- The current comment is known to be near the node. -/
lemma passed_of_near (hc : p.Current c) (hnear : (tree.node list).start.line - 1 ≤ c.stop.line)
    (hleft : c.stop.line = (tree.node list).start.line →
      c.stop.column < (tree.node list).start.column →
      p.group = [] ∨ Overlooked settings tree comments list p.stream.cursor c) :
    Passed settings tree comments list p where
  reach := fun hc' _ => by rwa [← hc.eq hc']
  left := fun hc' hline hcolumn => by
    obtain rfl := hc.eq hc'
    exact hleft hline hcolumn

/-- **Reading one more comment**: the one before it is near the node, and is an earlier one. -/
lemma Passed.advanced (h : Passed settings tree comments list p)
    (hcomments : p.stream.comments = comments)
    (horder : CommentStream.checkOrder comments = .ok ()) (hforward : Forward comments) :
    Passed settings tree comments list p.advanced := by
  have hlines : ∀ {d : Comment}, p.Following d → ∃ c,
      comments[p.stream.cursor]? = some c ∧ c.stop.line ≤ d.stop.line ∧
        (tree.node list).start.line - 1 ≤ c.stop.line := by
    intro d hd
    obtain ⟨c, hc⟩ := exists_current_of_unread hd.unread
    have hnear := h.reach hc hd
    rw [Current, hcomments] at hc
    rw [Following, hcomments] at hd
    have hstops := not_before_of_le horder hforward (Nat.le_succ _) hc hd
    exact ⟨c, hc, Position.line_le_of_not_before hstops, hnear⟩
  constructor
  · intro d _ hd _
    obtain ⟨c, -, hle, hnear⟩ := hlines hd
    omega
  · intro d hd hline _
    obtain ⟨c, hc, hle, hnear⟩ := hlines hd
    exact .inr (.preceded (Nat.lt_succ_self _) hc (by omega))

/-- Moving on behind a flush keeps that the argument list was passed. -/
lemma Passed.movedOn (h : Passed settings tree comments list p)
    (hcomments : p.stream.comments = comments)
    (horder : CommentStream.checkOrder comments = .ok ()) (hforward : Forward comments) :
    Passed settings tree comments list (p.movedOn moved) := by
  cases moved with
  | true => exact h
  | false => exact h.advanced hcomments horder hforward

/-- A step keeps that the argument list was passed. -/
lemma Step.passed {current : Option NodeId} (hs : Step settings.markers current p q)
    (h : Passed settings tree comments list p) (hcomments : p.stream.comments = comments)
    (horder : CommentStream.checkOrder comments = .ok ()) (hforward : Forward comments) :
    Passed settings tree comments list q := by
  cases hs with
  | note => exact ⟨h.reach, h.left⟩
  | flush move flushed flush => exact passed_of_flush (p := p) rfl flush.group_eq h.reach
  | advance => exact h.advanced hcomments horder hforward

/-- **Steps keep what holds of the visited nodes.** -/
lemma Steps.passed {current : Option NodeId} (hs : Steps settings.markers current p q)
    (h : Passed settings tree comments list p) (hcomments : p.stream.comments = comments)
    (horder : CommentStream.checkOrder comments = .ok ()) (hforward : Forward comments) :
    Passed settings tree comments list q := by
  have hboth : Passed settings tree comments list q ∧ q.stream.comments = comments := by
    induction hs with
    | refl => exact ⟨h, hcomments⟩
    | tail _ hstep ih =>
      exact ⟨hstep.passed ih.1 ih.2 horder hforward, hstep.stream.1.trans ih.2⟩
  exact hboth.1

/-- **A comment that an argument puts off although it ends before it**: the next argument starts
further down. -/
lemma Underway.overlooked_of_defer (hu : Underway settings tree comments visited (x :: rest) p)
    (hwf : tree.WellFormed) (hsource : tree.SourceOrdered)
    (hparent : p.tree.parent? x = some parent) (hargument : Argument settings p.tree parent)
    {line : Int} (asked : resolve x line p = .ok none q) (hc : p.Current c)
    (hcolumn : c.stop.column < (tree.node x).start.column) {j : Nat} :
    Overlooked settings tree comments x j c := by
  obtain ⟨c', after, hc', hasked, -⟩ := exists_of_resolve asked
  obtain rfl := hc.eq hc'
  obtain ⟨-, hself | ⟨next, hnext, ⟨-, hbehind⟩ | ⟨hself, -⟩⟩⟩ :=
    Placement.exists_of_resolveArgument hasked
  · cases hself
  · obtain ⟨hnext, -, hstart⟩ := hu.next_argument hwf hparent hnext
    obtain ⟨hparent, hargument⟩ := hu.argument hparent hargument
    rw [hstart] at hbehind
    refine .deferred hparent hargument hnext ?_ hbehind
    -- on the same line the next argument would start behind this one
    have hstarts := (hsource.next_sibling hwf hparent hnext).2
    rw [Position.before_eq_false_iff] at hstarts
    omega
  · cases hself

/-- **After the visit of a node** the current comment has got past it, or it was overlooked.

**Proof sketch.** If a group was flushed at the node, nothing is under way; the current comment ends
on the line of the node or on the line above, or it is the last one.  If none was, the current
comment ends below the line, or on it and not before the node, or the node is an argument and put
it off; or it is the last one and ends further up. -/
lemma Ending.passed (he : Ending settings x parent (tree.node x).start.line moved p q)
    (hu : Underway settings tree comments visited (x :: rest) p) (hwf : tree.WellFormed)
    (hsource : tree.SourceOrdered) (hparent : p.tree.parent? x = some parent)
    (horder : CommentStream.checkOrder comments = .ok ()) (hforward : Forward comments) :
    Passed settings tree comments x q := by
  have htop := List.mem_cons_self (a := x) (l := rest)
  have hcomments := hu.comments_eq
  cases he with
  | @wait c current below => exact passed_of_near current (by omega) fun hline => by omega
  | @behind c current level plain column =>
    rw [hu.start_eq htop] at column
    exact passed_of_near current (by omega) fun _ hcolumn => by omega
  | @defer c _ current level argument asked =>
    have hoverlooked := fun hcolumn => hu.overlooked_of_defer hwf hsource hparent argument asked
      current hcolumn (j := p.stream.cursor)
    obtain ⟨c', after, -, -, rfl⟩ := exists_of_resolve asked
    exact passed_of_near current (by omega) fun _ hcolumn => .inr (hoverlooked hcolumn)
  | @argue c y q r current level argument asked flush =>
    have hflushed := flushed_of_link flush
    have hstream := hflushed.stream_eq.trans (stream_of_resolve asked)
    refine (passed_of_flush hstream hflushed.group_eq ?_).movedOn (by rw [hstream, hcomments])
      horder hforward
    intro b d hb _
    rw [← current.eq hb]
    omega
  | @link c q current near touches flush =>
    have hflushed := flushed_of_link flush
    have hstream := hflushed.stream_eq
    refine (passed_of_flush hstream hflushed.group_eq ?_).movedOn (by rw [hstream, hcomments])
      horder hforward
    intro b d hb _
    rw [← current.eq hb]
    omega
  | @float c q current last above unmoved flush =>
    have hflushed := flushed_of_float flush
    have hstream := hflushed.stream_eq
    refine (passed_of_flush hstream hflushed.group_eq ?_).advanced (by rw [hstream, hcomments])
      horder hforward
    intro b d _ hd
    exact absurd hd (last d)
  | @leave c current last above read =>
    constructor
    · intro b d _ hd
      exact absurd hd (last d)
    · intro b hb hline
      rw [← current.eq hb] at hline
      omega

/-- **The nodes that a walk has visited were passed**, apart from the root. -/
lemma Reached.passed {stack : List NodeId}
    (hreached : Reached settings tree comments p visited stack) (hb : tree.Built)
    (hsize : 0 < tree.size) (hsource : tree.SourceOrdered)
    (horder : CommentStream.checkOrder comments = .ok ()) (hforward : Forward comments) :
    ∀ n ∈ visited, tree.parent? n ≠ none → Passed settings tree comments n p := by
  obtain ⟨hwf, -, -⟩ := hb.wellFormed_and_plain
  induction hreached with
  | start => exact fun n hn => absurd hn List.not_mem_nil
  | @visit p q x visited rest reached unread visits ih =>
    intro n hn hchild
    have hu := reached.underway hb hsize
    rcases List.mem_cons.mp hn with rfl | hn
    · rcases hu.exists_ending unread visits with
        ⟨horphan, -⟩ | ⟨parent, r, -, hparent, hur, -, hending⟩
      · exact absurd horphan hchild
      · exact hending.passed hur hwf hsource hparent horder hforward
    · exact Steps.passed ((achieves_visit hu.sound unread hu.frontier).of_eq_ok visits)
        (ih n hn hchild) hu.comments_eq horder hforward

end Passed

/-! ## When an argument is asked for -/

/-- What is known about the `j`-th comment `c`, which the visit of the argument `id` gives to the
argument `target`: it ends on the line of the visited argument, and stands to the list as `Taken`
says. -/
structure Consulted (settings : LinkSettings) (tree : SyntaxTree) (comments : List Comment)
    (list id target : NodeId) (j : Nat) (c : Comment) : Prop where
  parent : tree.parent? id = some list
  target_parent : tree.parent? target = some list
  argument : Argument settings tree list
  mem : comments[j]? = some c
  level : c.stop.line = (tree.node id).start.line
  taken : Taken settings tree comments list id target j c

section Asking

variable {settings : LinkSettings} {tree : SyntaxTree} {comments : List Comment} {p q r : Pass}
  {x y list : NodeId} {visited rest : List NodeId} {c : Comment} {line : Int}

/-- A comment that is given to an argument with a next one ends inside of the list: it ends on a
line not below the next one, and in a column before that. -/
lemma Underway.stop_of_nextSibling (hu : Underway settings tree comments visited (x :: rest) p)
    (hwf : tree.WellFormed) (hsource : tree.SourceOrdered)
    (hparent : p.tree.parent? x = some list) (hc : p.Current c)
    (hlevel : c.stop.line = (tree.node x).start.line) (asked : resolve x line p = .ok (some y) q)
    {next : NodeId} (hnext : p.tree.nextSibling x = .ok (some next)) :
    (tree.node list).stop.before c.stop = false := by
  obtain ⟨c', after, hc', hasked, -⟩ := exists_of_resolve asked
  obtain rfl := hc.eq hc'
  have hcolumn := Placement.column_lt_of_resolveArgument hasked hnext
  obtain ⟨hnext, -, hstart⟩ := hu.next_argument hwf hparent hnext
  rw [hstart] at hcolumn
  have hparent := (hu.parent?_eq (List.mem_cons_self ..)).symm.trans hparent
  obtain ⟨hnextParent, hstarts⟩ := hsource.next_sibling hwf hparent hnext
  have hends := Position.not_before_trans
    (hsource.forward next (SyntaxTree.lt_size_of_parent? hnextParent))
    (hsource.inside list (hwf.parent_lt_size hparent) next (hwf.mem_children hnextParent)).2
  rw [Position.before_eq_false_iff] at *
  omega

/-- A comment that is given to another argument than the visited one is given to the next. -/
lemma Underway.target_cases (hu : Underway settings tree comments visited (x :: rest) p)
    (hwf : tree.WellFormed) (hparent : p.tree.parent? x = some list)
    (asked : resolve x line p = .ok (some y) q) :
    y = x ∨ tree.nextSibling x = .ok (some y) := by
  obtain ⟨_, after, -, hasked, -⟩ := exists_of_resolve asked
  obtain ⟨-, hself | ⟨next, hnext, ⟨hnone, -⟩ | ⟨hother, -⟩⟩⟩ :=
    Placement.exists_of_resolveArgument hasked
  · exact .inl (Option.some.inj hself)
  · cases hnone
  · obtain rfl := Option.some.inj hother
    exact .inr (hu.next_argument hwf hparent hnext).1

/-- **How a comment that goes on an argument stands to the argument list.** -/
lemma Underway.taken (hu : Underway settings tree comments visited (x :: rest) p)
    (hwf : tree.WellFormed) (hsource : tree.SourceOrdered)
    (hparent : p.tree.parent? x = some list)
    (hpassed : tree.parent? list ≠ none → Passed settings tree comments list p)
    (hc : p.Current c) (hlevel : c.stop.line = (tree.node x).start.line)
    (asked : resolve x line p = .ok (some y) q) (hgroup : p.group ≠ []) :
    Taken settings tree comments list x y p.stream.cursor c := by
  have hsourceParent := (hu.parent?_eq (List.mem_cons_self ..)).symm.trans hparent
  cases hends : (tree.node list).stop.before c.stop with
  | true =>
    -- an argument with a next one would not have taken the comment
    obtain ⟨left, right, hchildren⟩ := List.append_of_mem (hwf.mem_children hsourceParent)
    have hnext := hwf.nextSibling_eq hsourceParent hchildren
    have hlast : tree.nextSibling x = .ok none := by
      cases hhead : right.head? with
      | none => rwa [hhead] at hnext
      | some next =>
        rw [hhead, ← (hu.nextSibling_eq hwf hparent).1] at hnext
        rw [hu.stop_of_nextSibling hwf hsource hparent hc hlevel asked hnext] at hends
        cases hends
    rcases hu.target_cases hwf hparent asked with rfl | hother
    · exact .trailing hlast rfl hends
    · rw [hlast] at hother
      cases hother
  | false =>
    cases hstarts : c.start.before (tree.node list).start with
    | false => exact .inside hstarts hends
    | true =>
      cases hreaches : c.stop.before (tree.node list).start with
      | false => exact .reaching hstarts hreaches
      | true =>
        refine .before hreaches ?_
        by_cases horphan : tree.parent? list = none
        · exact .root horphan
        · -- the list starts no later than its argument, so on the line of the comment
          have hinside := (hsource.inside list (hwf.parent_lt_size hsourceParent) x
            (hwf.mem_children hsourceParent)).1
          rw [Position.before_eq_false_iff] at hinside
          rw [Position.before_iff] at hreaches
          exact ((hpassed horphan).left hc (by omega) (by omega)).resolve_left hgroup

/-- **Where an argument is asked for**, with the comment at the cursor. -/
lemma Underway.consulted (hu : Underway settings tree comments visited (x :: rest) p)
    (hwf : tree.WellFormed) (hsource : tree.SourceOrdered)
    (hparent : p.tree.parent? x = some list) (hargument : Argument settings p.tree list)
    (hpassed : tree.parent? list ≠ none → Passed settings tree comments list p)
    (hc : p.Current c) (hlevel : c.stop.line = (tree.node x).start.line)
    (asked : resolve x line p = .ok (some y) q) (hgroup : p.group ≠ []) :
    Consulted settings tree comments list x y p.stream.cursor c := by
  obtain ⟨hsourceParent, hsourceArgument⟩ := hu.argument hparent hargument
  refine ⟨hsourceParent, ?_, hsourceArgument, ?_, hlevel,
    hu.taken hwf hsource hparent hpassed hc hlevel asked hgroup⟩
  · rcases hu.target_cases hwf hparent asked with rfl | hnext
    · exact hsourceParent
    · exact (hsource.next_sibling hwf hsourceParent hnext).1
  · rw [← hu.comments_eq]
    exact hc

end Asking

/-! ## The questions in a trace -/

/-- Whenever an argument was told in a trace, the group under way went on it next; and if there was
one, it is known how the comment that was asked for stands to the argument list. -/
def Answered (settings : LinkSettings) (tree : SyntaxTree) (comments : List Comment)
    (trace : List Move) : Prop :=
  ∀ before after id c target, trace = before ++ .resolve id c (some target) :: after →
    ∃ group rest, after = .link target group :: rest ∧
      (group ≠ [] → ∃ list j, Consulted settings tree comments list id target j c)

section Trace

variable {settings : LinkSettings} {tree : SyntaxTree} {comments : List Comment} {p q r : Pass}
  {x y parent : NodeId} {visited rest : List NodeId} {c : Comment} {line : Int} {moved : Bool}
  {trace : List Move} {move : Move} {group : CommentGroup}

/-- A step that tells no argument. -/
lemma Answered.concat (h : Answered settings tree comments trace)
    (hmove : ∀ id c target, move ≠ .resolve id c (some target)) :
    Answered settings tree comments (trace ++ [move]) := by
  intro before after id c target hsplit
  rcases eq_concat_cases hsplit with ⟨hlast, -⟩ | ⟨after', rfl, htrace⟩
  · exact absurd hlast.symm (hmove id c target)
  · obtain ⟨group, rest, rfl, hconsulted⟩ := h before after' id c target htrace
    exact ⟨group, rest ++ [move], rfl, hconsulted⟩

/-- An argument is told, and the group under way goes on it. -/
lemma Answered.ask (h : Answered settings tree comments trace)
    (hgroup : group ≠ [] → ∃ list j, Consulted settings tree comments list x y j c) :
    Answered settings tree comments (trace ++ [.resolve x c (some y)] ++ [.link y group]) := by
  intro before after id d target hsplit
  rcases eq_concat_cases hsplit with ⟨hlast, -⟩ | ⟨after', rfl, htrace⟩
  · cases hlast
  · rcases eq_concat_cases htrace with ⟨hlast, rfl⟩ | ⟨after'', rfl, hearlier⟩
    · obtain ⟨rfl, rfl, htarget⟩ := Move.resolve.inj hlast
      obtain rfl := Option.some.inj htarget
      obtain rfl : after' = [] := by simpa using htrace.symm
      exact ⟨group, [], rfl, hgroup⟩
    · obtain ⟨group', rest, rfl, hconsulted⟩ := h before after'' id d target hearlier
      exact ⟨group', rest ++ [.resolve x c (some y)] ++ [.link y group], rfl, hconsulted⟩

/-- A step that tells no argument keeps all questions answered. -/
lemma Answered.push (h : Answered settings tree comments p.trace.toList)
    (htrace : q.trace = p.trace.push move)
    (hmove : ∀ id c target, move ≠ .resolve id c (some target)) :
    Answered settings tree comments q.trace.toList := by
  rw [htrace, Array.toList_push]
  exact h.concat hmove

/-- Moving on behind a flush keeps all questions answered. -/
lemma Answered.movedOn (h : Answered settings tree comments p.trace.toList) :
    Answered settings tree comments (p.movedOn moved).trace.toList := by
  cases moved with
  | true => exact h
  | false => exact h

/-- Rounds ask for no argument. -/
lemma Rounds.answered (hr : Rounds settings x line p q)
    (h : Answered settings tree comments p.trace.toList) :
    Answered settings tree comments q.trace.toList := by
  induction hr with
  | refl => exact h
  | tail _ hround ih =>
    cases hround with
    | join => exact ih
    | float current following above apart gap flush =>
      exact ih.push (flushed_of_float flush).trace_eq (by simp)

/-- **The end of a visit asks for one argument at most.** -/
lemma Ending.answered (he : Ending settings x parent (tree.node x).start.line moved p q)
    (hu : Underway settings tree comments visited (x :: rest) p) (hwf : tree.WellFormed)
    (hsource : tree.SourceOrdered) (hparent : p.tree.parent? x = some parent)
    (hpassed : tree.parent? parent ≠ none → Passed settings tree comments parent p)
    (h : Answered settings tree comments p.trace.toList) :
    Answered settings tree comments q.trace.toList := by
  cases he with
  | wait => exact h
  | behind => exact h
  | leave => exact h
  | defer current level argument asked =>
    obtain ⟨c, after, -, -, rfl⟩ := exists_of_resolve asked
    exact h.push rfl (by simp)
  | @argue c y q r current level argument asked flush =>
    have hconsulted := hu.consulted hwf hsource hparent argument hpassed current level asked
    obtain ⟨c', after, hc', hasked, rfl⟩ := exists_of_resolve asked
    obtain rfl := current.eq hc'
    obtain ⟨⟨journal, rfl⟩, -⟩ := Placement.exists_of_resolveArgument hasked
    refine Answered.movedOn ?_
    rw [(flushed_of_link flush).trace_eq, Array.toList_push, Array.toList_push]
    exact h.ask fun hgroup => ⟨parent, _, hconsulted hgroup⟩
  | link current near touches flush =>
    exact (h.push (flushed_of_link flush).trace_eq (by simp)).movedOn
  | float current last above unmoved flush =>
    exact h.push (flushed_of_float flush).trace_eq (by simp)

/-- **So it is all along a walk.** -/
lemma Reached.answered {stack : List NodeId}
    (hreached : Reached settings tree comments p visited stack) (hb : tree.Built)
    (hsize : 0 < tree.size) (hsource : tree.SourceOrdered)
    (horder : CommentStream.checkOrder comments = .ok ()) (hforward : Forward comments) :
    Answered settings tree comments p.trace.toList := by
  obtain ⟨hwf, -, -⟩ := hb.wellFormed_and_plain
  induction hreached with
  | start =>
    intro before after id c target hsplit
    simp [Pass.start] at hsplit
  | @visit p q x visited rest reached unread visits ih =>
    have hu := reached.underway hb hsize
    have hnoted : Answered settings tree comments (p.noted (.visit x)).trace.toList :=
      ih.push rfl (by simp)
    rcases hu.exists_ending unread visits with
      ⟨-, rfl⟩ | ⟨parent, r, hsourceParent, hparent, hur, hrounds, hending⟩
    · exact hnoted
    · refine hending.answered hur hwf hsource hparent ?_ (Rounds.answered hrounds hnoted)
      -- the parent was visited before, and the rounds are steps
      intro hchild
      have hvisited := hur.frontier.stack_parent (List.mem_cons_self ..) hparent
      have hpassed := reached.passed hb hsize hsource horder hforward parent hvisited hchild
      exact Steps.passed (Rounds.steps hrounds hu.noted.sound hu.noted.frontier)
        ⟨hpassed.reach, hpassed.left⟩ hu.comments_eq horder hforward

/-- At the end of the source no argument is asked for. -/
lemma Ends.answered (he : Ends settings p q)
    (h : Answered settings tree comments p.trace.toList) :
    Answered settings tree comments q.trace.toList :=
  he.keeps (motive := fun r => Answered settings tree comments r.trace.toList) h
    (fun hr _ _ _ => hr)
    fun hr _ _ flush => hr.push (flushed_of_trail flush).trace_eq (by simp)

end Trace

end Pass

/-! ## Whole passes -/

/-- **Which comments go on arguments.**  Whenever a pass over a tree in source order is told an
argument, the group under way goes on it next.  If there is one, the comment that was asked for ends
on the line of the visited argument, and it stands inside of the argument list; or it ends behind
the list, and the visited argument is the last one; or it reaches the start of the list from before;
or it ends before the list, which passed it by for one of the causes of `Pass.Overlooked`. -/
theorem linkComments_consults_arguments (settings : LinkSettings) {tree : SyntaxTree}
    (hb : tree.Built) (hsource : tree.SourceOrdered) {comments : List Comment}
    {stream : CommentStream} (hstream : CommentStream.ofComments comments = .ok stream)
    (hforward : ∀ c ∈ comments, c.stop.before c.start = false)
    (hroot : comments = [] ∨ tree.root? ≠ none) :
    ∃ p, Pass.run settings (Pass.start tree stream) = .ok () p ∧
      linkComments settings tree comments = ⟨p.tree, p.map, p.journal, none⟩ ∧
      ∀ before after id c target,
        p.trace.toList = before ++ .resolve id c (some target) :: after →
        ∃ group rest, after = .link target group :: rest ∧
          (group ≠ [] →
            ∃ list j, Pass.Consulted settings tree comments list id target j c) := by
  obtain rfl := CommentStream.eq_of_ofComments hstream
  have horder := CommentStream.checkOrder_of_ofComments hstream
  have hsize : comments = [] ∨ 0 < tree.size := hroot.imp_right SyntaxTree.size_pos_of_root?
  obtain ⟨p, -, hrun, -, -, -, -, he⟩ := exists_runs_of_linkComments settings hb horder hsize
  refine ⟨p, hrun, he, ?_⟩
  by_cases hnil : comments = []
  · subst hnil
    rw [Pass.run_start_nil] at hrun
    obtain ⟨-, rfl⟩ := EStateM.Result.ok.inj hrun
    intro before after id c target hsplit
    simp [Pass.start] at hsplit
  · obtain ⟨q, visited, stack, final, hreached, -, hends, journal, rfl⟩ :=
      Pass.exists_reached_of_run hb hnil (hsize.resolve_left hnil) hrun
    exact hends.answered
      (hreached.answered hb (hsize.resolve_left hnil) hsource horder hforward)

/-- A source with a call and a remark behind it on the same line. -/
def SyntaxTree.remarked : SyntaxTree :=
  let root : Node :=
    { kind := "program", start := ⟨1, 0⟩, stop := ⟨1, 12⟩, field := none, accepts := true,
      tolerates := true, placeholder := false, parent := none, children := [], index := none }
  let t := (empty .standard ["foo(a); // t"]).push root
  let t := (t.addChild 0 ⟨"expression_statement", ⟨1, 0⟩, ⟨1, 7⟩, none⟩).2
  let t := (t.addChild 1 ⟨"call_expression", ⟨1, 0⟩, ⟨1, 6⟩, none⟩).2
  let t := (t.addChild 2 ⟨"identifier", ⟨1, 0⟩, ⟨1, 3⟩, some "function"⟩).2
  let t := (t.addChild 2 ⟨"arguments", ⟨1, 3⟩, ⟨1, 6⟩, some "arguments"⟩).2
  (t.addChild 4 ⟨"identifier", ⟨1, 4⟩, ⟨1, 5⟩, none⟩).2

/-- The tree of the call with a remark is built. -/
lemma SyntaxTree.built_remarked : remarked.Built :=
  have hroot := @Built.addRoot _ _ ⟨"program", ⟨1, 0⟩, ⟨1, 12⟩, none⟩ 0
    (.empty .standard ["foo(a); // t"]) rfl
  .addChild _ (.addChild _ (.addChild _ (.addChild _ (.addChild _ hroot (by decide)) (by decide))
    (by decide)) (by decide)) (by decide)

/-- The remark. -/
def remark : Comment := ⟨.line, ⟨1, 8⟩, ⟨1, 12⟩, "// t"⟩

/-- What a pass over the call with a remark does. -/
lemma trace_remarked {p : Pass}
    (h : Pass.run .standard (Pass.start SyntaxTree.remarked ⟨[remark], 0⟩) = .ok () p) :
    p.trace.toList = [.visit 0, .visit 1, .visit 2, .visit 3, .visit 4, .visit 5] ++
      .resolve 5 remark (some 5) :: [.link 5 [remark]] := by
  have htrace : EStateM.run' (do Pass.run .standard; return (← get).trace.toList)
      (Pass.start SyntaxTree.remarked ⟨[remark], 0⟩) =
      some ([.visit 0, .visit 1, .visit 2, .visit 3, .visit 4, .visit 5] ++
        .resolve 5 remark (some 5) :: [.link 5 [remark]]) := by
    decide +kernel
  exact Option.some.inj ((Pass.trace_of_eq_ok h).symm.trans htrace)

/-- The remark ends on the line of the argument and stands to the list in one of the ways that
`linkComments_consults_arguments` gives. -/
theorem linkComments_consults_arguments_remarked :
    SyntaxTree.remarked.Built ∧ SyntaxTree.remarked.SourceOrdered ∧
      CommentStream.ofComments [remark] = .ok ⟨[remark], 0⟩ ∧
      (∀ c ∈ [remark], c.stop.before c.start = false) ∧ SyntaxTree.remarked.root? ≠ none ∧
      ∃ p list j, Pass.run .standard (Pass.start SyntaxTree.remarked ⟨[remark], 0⟩) = .ok () p ∧
        Pass.Consulted .standard SyntaxTree.remarked [remark] list 5 5 j remark := by
  have hsource : SyntaxTree.remarked.SourceOrdered := by decide
  have hstream : CommentStream.ofComments [remark] = .ok ⟨[remark], 0⟩ := rfl
  have hforward : ∀ c ∈ [remark], c.stop.before c.start = false := by decide
  have hroot : SyntaxTree.remarked.root? ≠ none := by decide
  obtain ⟨p, hrun, -, hanswers⟩ := linkComments_consults_arguments .standard
    SyntaxTree.built_remarked hsource hstream hforward (.inr hroot)
  obtain ⟨group, rest, hafter, hconsulted⟩ := hanswers _ _ _ _ _ (trace_remarked hrun)
  obtain ⟨⟨-, rfl⟩, -⟩ : (5 = 5 ∧ [remark] = group) ∧ [] = rest := by simpa using hafter
  obtain ⟨list, j, hconsulted⟩ := hconsulted (by simp)
  exact ⟨SyntaxTree.built_remarked, hsource, hstream, hforward, hroot, p, list, j, hrun,
    hconsulted⟩

/-- **A remark behind a call goes on the last argument**: it is asked for while it is under way, and
the argument is told, although all of it stands behind the end of the argument list. -/
theorem linkComments_takes_remark :
    SyntaxTree.remarked.Built ∧ SyntaxTree.remarked.SourceOrdered ∧
      CommentStream.ofComments [remark] = .ok ⟨[remark], 0⟩ ∧
      SyntaxTree.remarked.parent? 5 = some 4 ∧
      (SyntaxTree.remarked.node 4).stop.before remark.start = true ∧
      ∃ p before, Pass.run .standard (Pass.start SyntaxTree.remarked ⟨[remark], 0⟩) = .ok () p ∧
        p.trace.toList = before ++ .resolve 5 remark (some 5) :: [.link 5 [remark]] := by
  have hstream : CommentStream.ofComments [remark] = .ok ⟨[remark], 0⟩ := rfl
  obtain ⟨p, -, hrun, -⟩ := exists_runs_of_linkComments .standard SyntaxTree.built_remarked
    (CommentStream.checkOrder_of_ofComments hstream) (.inr (by decide))
  exact ⟨SyntaxTree.built_remarked, by decide, hstream, by decide, by decide, p, _, hrun,
    trace_remarked hrun⟩

end Marginalia
