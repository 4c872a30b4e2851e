import Marginalia.Proofs.Link.Grouping
import Marginalia.Proofs.Link.Itinerary
import Marginalia.Proofs.Syntax.SourceOrder

/-!
# Comments and the nodes visited so far

A comment that ends above the line of a node should go to that node or to something before it.  A
pass over a tree in source order does so with three exceptions, in which a comment is carried past a
node below it, together with the comments that follow it without a gap:

* The last comment of the source was read during the visit of the node, and is left under way then,
  so its group goes to a later node or to the end of the source.
* A later comment of the group reaches the start of a node, and the group waits for what comes
  behind it.
* A later comment of the group ends on the line of an argument and is taken for the next one.

Between visits, comments that are still to be read do not start above any visited node, and a
comment under way that ends above one has met an exception.  What is delivered during a visit goes
to the visited node or before it, and so before all nodes still to come.

## Main definitions

* `LeftLast`, `HeldBack`, `HandedOn` — the three exceptions.
* `Pass.Orderly`, `Pass.Joined` — the invariant.
* `Pass.Turn` — a node is the next one in the order of the source.

## Main results

* `Placement.Lands.notAfter` — a group lands on the node it was meant for or before it.
* `Pass.Rounds.orderly`, `Pass.Ending.orderly` — the parts of a visit keep the invariant.
-/

namespace Marginalia

open scoped List

/-! ## The exceptions -/

/-- From the comment `i` to the comment `j` there is no gap of more than a line break. -/
def Unbroken (comments : List Comment) (i j : Nat) : Prop :=
  CommentGroup.Tight ((comments.take (j + 1)).drop i)

/-- The node `n` is no root and starts on a line below the end of a comment. -/
def Below (tree : SyntaxTree) (c : Comment) (n : NodeId) : Prop :=
  n < tree.size ∧ tree.parent? n ≠ none ∧ c.stop.line < (tree.node n).start.line

/-- The comment `i` is in one run with the last one, which is not the only one and ends further up
than the line above `n`, and `n` is the first node below that. -/
def LeftLast (tree : SyntaxTree) (comments : List Comment) (i : Nat) (n : NodeId) : Prop :=
  ∃ j d, 1 ≤ j ∧ j + 1 = comments.length ∧ comments[j]? = some d ∧ Unbroken comments i j ∧
    d.stop.line + 1 < (tree.node n).start.line ∧
    ∀ y < tree.size, tree.parent? y ≠ none → ¬ tree.NotAfter n y →
      (tree.node y).start.line ≤ d.stop.line

/-- The comment `i` is in one run with a later one, which starts above the line of a node and ends
at or behind the start of it; that node does not come after `n`. -/
def HeldBack (tree : SyntaxTree) (comments : List Comment) (i : Nat) (n : NodeId) : Prop :=
  ∃ j d y, i < j ∧ comments[j]? = some d ∧ Unbroken comments i j ∧ tree.NotAfter y n ∧
    tree.parent? y ≠ none ∧ d.start.line < (tree.node y).start.line ∧
    d.stop.before (tree.node y).start = false

/-- The comment `i` is in one run with one that ends on the line of an argument, while the next
argument starts on another line or no comma stands before it; the argument does not come after
`n`. -/
def HandedOn (settings : LinkSettings) (tree : SyntaxTree) (comments : List Comment) (i : Nat)
    (n : NodeId) : Prop :=
  ∃ j d y parent z, i ≤ j ∧ comments[j]? = some d ∧ Unbroken comments i j ∧ tree.NotAfter y n ∧
    tree.parent? y = some parent ∧
    settings.policy.argumentLists.contains (tree.node parent).kind = true ∧
    d.stop.line = (tree.node y).start.line ∧ tree.nextSibling y = .ok (some z) ∧
    ((tree.node z).start.line ≠ (tree.node y).start.line ∨
      commaBetween d (tree.node z) (tree.sourceLine (tree.node y).start.line) = false)

/-- One of the exceptions. -/
def Excused (settings : LinkSettings) (tree : SyntaxTree) (comments : List Comment) (i : Nat)
    (n : NodeId) : Prop :=
  LeftLast tree comments i n ∨ HeldBack tree comments i n ∨ HandedOn settings tree comments i n

/-- Only the start of the next argument matters for the comma. -/
lemma commaBetween_congr {c : Comment} {a b : Node} (h : a.start = b.start) (line : String) :
    commaBetween c a line = commaBetween c b line := by
  rw [commaBetween, commaBetween, searchStop, searchStop, h]

/-! ## Where groups land -/

namespace Placement

variable {markers : List Marker} {p q : Placement} {id home : NodeId}

/-- **A group lands on the node it was meant for or before it**, and the older nodes keep their
order. -/
lemma Lands.notAfter (h : Lands markers p id home q) (hwf : p.tree.WellFormed)
    (hid : id < p.tree.size) :
    q.tree.NotAfter home id ∧ p.tree.preorder <+ q.tree.preorder := by
  cases h with
  | on onWay tree_eq group_eq entries_eq =>
    rw [tree_eq]
    exact ⟨hwf.notAfter_of_mem_upward hid onWay, List.Sublist.refl _⟩
  | before onWay text graft group_eq map_eq =>
    have hsub := graft.preorder_sublist hwf
    have hsite := (hwf.notAfter_of_mem_upward hid onWay).mono (graft.wellFormed hwf) hsub
    exact ⟨(graft.notAfter_fresh hwf).trans hsite, hsub⟩

/-- No group is under way once it has landed. -/
lemma Lands.group_eq (h : Lands markers p id home q) : q.group = [] := by
  cases h with
  | on onWay tree_eq group_eq entries_eq => exact group_eq
  | before onWay text graft group_eq map_eq => exact group_eq

/-- The tree is well formed when a group has landed. -/
lemma Lands.wellFormed (h : Lands markers p id home q) (hwf : p.tree.WellFormed) :
    q.tree.WellFormed := by
  cases h with
  | on onWay tree_eq group_eq entries_eq => exact tree_eq ▸ hwf
  | before onWay text graft group_eq map_eq => exact graft.wellFormed hwf

end Placement

namespace Pass

/-- The account after a group has landed. -/
lemma Accounted.land {markers : List Marker} {p : Pass} {deliveries : List (NodeId × CommentGroup)}
    (h : Accounted markers p deliveries) (hp : p.Sound) {id home : NodeId} (hid : id < p.tree.size)
    (hgenuine : (p.tree.node id).placeholder = false) {move : Move}
    (hmove : move.group? = some p.group) {after : Placement}
    (hl : Placement.Lands markers p.toPlacement id home after) :
    Accounted markers { p with toPlacement := after, trace := p.trace.push move }
      (deliveries ++ [(home, p.group)]) := by
  cases hl with
  | on onWay tree_eq group_eq entries_eq =>
    refine h.deliver hmove group_eq ?_ ?_ entries_eq ?_
    · rw [tree_eq]
      exact hp.wellFormed.lt_size_of_mem_upward hid onWay
    · rw [tree_eq]
    · intro other hother
      rw [tree_eq] at hother
      refine .inl ⟨?_, hother⟩
      rintro rfl
      rw [hp.genuine_upward hid hgenuine other onWay] at hother
      exact Bool.noConfusion hother
  | before onWay text graft group_eq map_eq => exact h.graft hmove graft group_eq text map_eq

/-! ## The invariant -/

/-- The comments delivered, under way and still to be read, after the nodes of `visited` were
visited. -/
structure Orderly (settings : LinkSettings) (tree : SyntaxTree) (comments : List Comment)
    (visited : List NodeId) (p : Pass) (deliveries : List (NodeId × CommentGroup)) : Prop where
  accounted : Accounted settings.markers p deliveries
  delivered : ∀ {i : Nat} {home : NodeId} {c : Comment},
    (assignedOf deliveries)[i]? = some (home, c) → ∀ {n : NodeId}, Below tree c n →
      p.tree.NotAfter home n ∨ Excused settings tree comments i n
  pending : ∀ {i : Nat} {c : Comment}, (assignedOf deliveries).length ≤ i → i ≤ p.stream.cursor →
    comments[i]? = some c → ∀ {n : NodeId}, n ∈ visited → Below tree c n →
      Excused settings tree comments i n
  unread : ∀ {i : Nat} {c : Comment}, p.stream.cursor < i → comments[i]? = some c →
    ∀ {y : NodeId}, y ∈ visited → tree.parent? y ≠ none →
      (tree.node y).start.line ≤ c.start.line

/-- A comment that joined others starts above some node of `seen`. -/
def Joined (tree : SyntaxTree) (seen : List NodeId) (p : Pass) : Prop :=
  2 ≤ p.group.length → ∀ c, p.Current c →
    ∃ y ∈ seen, tree.parent? y ≠ none ∧ c.start.line < (tree.node y).start.line

section Window

variable {settings : LinkSettings} {tree : SyntaxTree} {comments : List Comment}
  {visited : List NodeId} {p : Pass} {deliveries : List (NodeId × CommentGroup)} {i : Nat}

/-- **The group under way is what was read and not delivered.** -/
lemma Accounted.group_eq {markers : List Marker} (h : Accounted markers p deliveries) :
    p.group =
      (p.stream.comments.take (p.stream.cursor + 1)).drop (assignedOf deliveries).length := by
  rw [← h.read, ← map_snd_assignedOf]
  exact (List.drop_left' (List.length_map ..)).symm

/-- All comments that were read are delivered, if none is under way. -/
lemma Accounted.length_assignedOf {markers : List Marker} (h : Accounted markers p deliveries)
    (hnil : p.group = []) (hu : p.Unread) :
    (assignedOf deliveries).length = p.stream.cursor + 1 := by
  have hlength := congrArg List.length h.read
  rw [hnil, List.append_nil, ← map_snd_assignedOf, List.length_map, List.length_take] at hlength
  rw [Unread] at hu
  omega

/-- Two comments under way make a group of at least two. -/
lemma Accounted.two_le_length {markers : List Marker} (h : Accounted markers p deliveries)
    (hu : p.Unread) (hi : (assignedOf deliveries).length ≤ i) (hlt : i < p.stream.cursor) :
    2 ≤ p.group.length := by
  rw [h.group_eq, List.length_drop, List.length_take]
  rw [Unread] at hu
  omega

/-- Comments under way are in one run with the current one. -/
lemma Accounted.unbroken {markers : List Marker} (h : Accounted markers p deliveries)
    (hg : Grouped p) (hi : (assignedOf deliveries).length ≤ i) :
    Unbroken p.stream.comments i p.stream.cursor := by
  have htight := hg.tight
  rw [h.group_eq] at htight
  have hdrop := List.IsChain.drop htight (i - (assignedOf deliveries).length)
  rw [List.drop_drop, Nat.add_sub_cancel' hi] at hdrop
  exact hdrop

end Window

/-! ## What one operation keeps -/

section Operations

variable {settings : LinkSettings} {tree : SyntaxTree} {comments : List Comment}
  {visited seen rest : List NodeId} {p q : Pass} {deliveries : List (NodeId × CommentGroup)}
  {x y home : NodeId} {line : Int}

/-- Noting something that places no group changes nothing. -/
lemma Orderly.noted (h : Orderly settings tree comments visited p deliveries) (move : Move)
    (journal : Journal) (silent : move.group? = none) :
    Orderly settings tree comments visited
      { p with trace := p.trace.push move, journal := journal } deliveries :=
  ⟨h.accounted.noted silent, h.delivered, h.pending, h.unread⟩

/-- **Reading a comment keeps the order**: the comment does not start above a visited node. -/
lemma Orderly.advanced (h : Orderly settings tree comments visited p deliveries)
    (hforward : Forward comments) :
    Orderly settings tree comments visited p.advanced deliveries where
  accounted := h.accounted.advanced
  delivered := h.delivered
  pending := by
    intro i c hi hle hc n hn hbelow
    rcases Nat.lt_or_eq_of_le hle with hlt | heq
    · exact h.pending hi (Nat.le_of_lt_succ hlt) hc hn hbelow
    · have hstart := h.unread (heq ▸ Nat.lt_succ_self p.stream.cursor) hc hn hbelow.2.1
      have hspan := Position.line_le_of_not_before (hforward c (List.mem_of_getElem? hc))
      exact absurd (Int.le_trans hstart hspan) (Int.not_le.mpr hbelow.2.2)
  unread := fun hi => h.unread (Nat.lt_of_succ_lt hi)

/-- **A flush keeps the order**, if the group goes to a node before all that are still to come. -/
lemma Orderly.flush (h : Orderly settings tree comments visited p deliveries)
    (hcomments : p.stream.comments = comments)
    (hq : Accounted settings.markers q (deliveries ++ [(home, p.group)]))
    (hgroup : q.group = []) (hstream : q.stream = p.stream) (hu : p.Unread)
    (hkeep : ∀ {a b : NodeId}, p.tree.NotAfter a b → q.tree.NotAfter a b)
    (hhome : ∀ {i : Nat} {c : Comment} {n : NodeId}, (assignedOf deliveries).length ≤ i →
      i ≤ p.stream.cursor → comments[i]? = some c → n ∉ visited → Below tree c n →
      q.tree.NotAfter home n ∨ Excused settings tree comments i n) :
    Orderly settings tree comments visited q (deliveries ++ [(home, p.group)]) where
  accounted := hq
  delivered := by
    intro i home' c hi n hbelow
    rw [assignedOf_concat] at hi
    by_cases hlt : i < (assignedOf deliveries).length
    · rw [List.getElem?_append_left hlt] at hi
      exact (h.delivered hi hbelow).imp_left hkeep
    · -- the comment was under way
      have hle := Nat.not_lt.mp hlt
      rw [List.getElem?_append_right hle, List.getElem?_map, Option.map_eq_some_iff] at hi
      obtain ⟨d, hd, he⟩ := hi
      obtain ⟨rfl, rfl⟩ := Prod.mk.inj he
      rw [h.accounted.group_eq, hcomments, List.getElem?_drop, Nat.add_sub_cancel' hle,
        List.getElem?_take] at hd
      split at hd
      · next hread =>
        have hcursor := Nat.le_of_lt_succ hread
        by_cases hn : n ∈ visited
        · exact .inr (h.pending hle hcursor hd hn hbelow)
        · exact hhome hle hcursor hd hn hbelow
      · simp at hd
  pending := by
    intro i c hi hle
    have huq : q.Unread := by rw [Unread, hstream]; exact hu
    rw [hq.length_assignedOf hgroup huq] at hi
    exact absurd hle (Nat.not_le.mpr hi)
  unread := by
    intro i c hi
    rw [hstream] at hi
    exact h.unread hi

/-- A walk that only grew keeps the order of its nodes. -/
lemma Underway.notAfter (h : Underway settings tree comments visited (x :: rest) p)
    (hb : tree.Built) {a b : NodeId} (hab : tree.NotAfter a b) : p.tree.NotAfter a b := by
  obtain ⟨hwf, hplain, -⟩ := hb.wellFormed_and_plain
  exact hab.mono h.sound.wellFormed (h.runs.preorder_sublist (sound_start hwf hplain _))

/-- **The group under way lands on a node or before it.** -/
lemma Orderly.land (h : Orderly settings tree comments visited p deliveries)
    (hu : Underway settings tree comments visited (x :: rest) p) (hunread : p.Unread)
    (hy : y ∈ x :: rest) {move : Move} (hmove : move.group? = some p.group) {after : Placement}
    (hl : Placement.Lands settings.markers p.toPlacement y home after)
    (hhome : ∀ {i : Nat} {c : Comment} {n : NodeId}, (assignedOf deliveries).length ≤ i →
      i ≤ p.stream.cursor → comments[i]? = some c → n ∉ visited → Below tree c n →
      p.tree.NotAfter y n ∨ Excused settings tree comments i n) :
    Orderly settings tree comments visited
      { p with toPlacement := after, trace := p.trace.push move }
      (deliveries ++ [(home, p.group)]) := by
  have hsize := hu.frontier.stack_lt hy
  have hgrown := hl.wellFormed hu.sound.wellFormed
  obtain ⟨hnot, hsub⟩ := hl.notAfter hu.sound.wellFormed hsize
  refine h.flush hu.comments_eq
    (h.accounted.land hu.sound hsize (hu.frontier.genuine hy) hmove hl) hl.group_eq rfl hunread
    ?_ ?_
  · intro a b hab
    exact hab.mono hgrown hsub
  · intro i c n hi hle hc hn hbelow
    exact (hhome hi hle hc hn hbelow).imp_left fun hyn => hnot.trans (hyn.mono hgrown hsub)

/-- The group under way is placed on a node. -/
lemma Orderly.link (h : Orderly settings tree comments visited p deliveries)
    (hu : Underway settings tree comments visited (x :: rest) p) (hunread : p.Unread)
    (hy : y ∈ x :: rest) (flush : link settings y p = .ok () q)
    (hhome : ∀ {i : Nat} {c : Comment} {n : NodeId}, (assignedOf deliveries).length ≤ i →
      i ≤ p.stream.cursor → comments[i]? = some c → n ∉ visited → Below tree c n →
      p.tree.NotAfter y n ∨ Excused settings tree comments i n) :
    ∃ deliveries', Orderly settings tree comments visited q deliveries' := by
  obtain ⟨_, after, hafter, rfl⟩ := exists_of_flush flush
  obtain ⟨home, hway, htree, hgroup, hentries⟩ := Placement.lands_of_linkGroup hafter
  exact ⟨_, h.land hu hunread hy rfl (.on hway htree hgroup hentries) hhome⟩

/-- The group under way floats before the visited node. -/
lemma Orderly.float (h : Orderly settings tree comments visited p deliveries)
    (hu : Underway settings tree comments visited (x :: rest) p) (hunread : p.Unread)
    (flush : float settings x p = .ok () q)
    (hfirst : ∀ {n : NodeId}, n < tree.size → n ∉ visited → p.tree.NotAfter x n) :
    ∃ deliveries', Orderly settings tree comments visited q deliveries' := by
  have htop := List.mem_cons_self (a := x) (l := rest)
  obtain ⟨_, after, hafter, rfl⟩ := exists_of_flush flush
  obtain ⟨home, hl⟩ := Placement.lands_of_placeFloating hu.sound.wellFormed
    (hu.frontier.stack_lt htop) hafter
  exact ⟨_, h.land hu hunread htop rfl hl fun _ _ _ hn hbelow => .inl (hfirst hbelow.1 hn)⟩

/-! ## A visit -/

/-- It is the turn of the node `x`, which has a parent, after the nodes of `visited`. -/
structure Turn (tree : SyntaxTree) (visited : List NodeId) (x : NodeId) : Prop where
  child : tree.parent? x ≠ none
  seen : ∀ {y : NodeId}, y ∈ x :: visited → tree.NotAfter y x
  ahead : ∀ {n : NodeId}, n < tree.size → n ∉ visited → tree.NotAfter x n

/-- A group of one comment joined nothing. -/
lemma joined_of_advanced (h : p.group = []) : Joined tree seen p.advanced := by
  intro htwo
  have hone : p.advanced.group.length ≤ 1 := by
    simp only [Pass.advanced, h, List.nil_append]
    exact Option.length_toList_le
  exact absurd (Nat.le_trans htwo hone) (by decide)

/-- **Rounds keep the order.** -/
lemma Rounds.orderly (hr : Rounds settings x (tree.node x).start.line p q)
    (hu : Underway settings tree comments visited (x :: rest) p) (hb : tree.Built)
    (hforward : Forward comments) (hturn : Turn tree visited x)
    (h : ∃ deliveries, Orderly settings tree comments visited p deliveries)
    (hj : Joined tree (x :: visited) p) :
    (∃ deliveries, Orderly settings tree comments visited q deliveries) ∧
      Joined tree (x :: visited) q := by
  induction hr with
  | refl => exact ⟨h, hj⟩
  | @tail r _ hrounds hround ih =>
    obtain ⟨⟨deliveries, ho⟩, -⟩ := ih
    have hur := hu.rounds hrounds
    cases hround with
    | @join c d current following above apart close =>
      refine ⟨⟨deliveries, ho.advanced hforward⟩, ?_⟩
      intro _ e he
      rw [← following.current_advanced.eq he]
      refine ⟨x, List.mem_cons_self .., hturn.child, ?_⟩
      -- the comment is near the one before it, which does not touch the line
      have hgap := startsNewGroup_eq_false_iff.mp close
      rw [Comment.lineGap] at hgap
      rw [Touches] at apart
      omega
    | @float c d s current following above apart gap flush =>
      obtain ⟨deliveries', ho'⟩ := ho.float hur current.unread flush
        fun hn hnew => hur.notAfter hb (hturn.ahead hn hnew)
      exact ⟨⟨deliveries', ho'.advanced hforward⟩,
        joined_of_advanced (flushed_of_float flush).group_eq⟩

/-- **After a visit, comments still to be read do not start above the line of the node.** -/
lemma Ending.le_start {parent : NodeId} {moved : Bool}
    (he : Ending settings x parent line moved p q) (hcomments : p.stream.comments = comments)
    (horder : CommentStream.checkOrder comments = .ok ()) (hforward : Forward comments) {i : Nat}
    {d : Comment} (hi : p.stream.cursor < i) (hd : comments[i]? = some d) :
    line ≤ d.start.line := by
  have hlater : ∀ {c : Comment}, p.Current c → c.stop.line ≤ d.start.line := by
    intro c hc
    rw [Current, hcomments] at hc
    exact Position.line_le_of_not_before (not_before_of_lt horder hforward hi hc hd)
  have hnext : ∃ e, p.Following e := by
    have hlt : p.stream.cursor + 1 < comments.length :=
      Nat.lt_of_le_of_lt hi (List.getElem?_eq_some_iff.mp hd).1
    rw [← hcomments] at hlt
    exact ⟨_, List.getElem?_eq_getElem hlt⟩
  cases he with
  | wait current below => exact Int.le_trans (Int.le_of_lt below) (hlater current)
  | behind current level plain column => exact level ▸ hlater current
  | defer current level argument asked => exact level ▸ hlater current
  | argue current level argument asked flush => exact level ▸ hlater current
  | float current last above unmoved flush =>
    obtain ⟨e, hfollowing⟩ := hnext
    exact absurd hfollowing (last e)
  | leave current last above read =>
    obtain ⟨e, hfollowing⟩ := hnext
    exact absurd hfollowing (last e)
  | @link c _ current near touches flush =>
    rcases near with habove | ⟨hlevel, -⟩
    · -- the next comment does not start on the line above, where the current one ends
      obtain ⟨e, hfollowing⟩ := hnext
      have htouch := touches e hfollowing
      rw [Current, hcomments] at current
      rw [Following, hcomments] at hfollowing
      have hce := Position.line_le_of_not_before
        (not_before_of_lt horder hforward (Nat.lt_succ_self _) current hfollowing)
      have hed := Position.line_le_of_not_before
        (start_not_before_of_le horder hforward (Nat.succ_le_of_lt hi) hfollowing hd)
      rw [Touches] at htouch
      omega
    · exact hlevel ▸ hlater current

/-- One more node was visited. -/
lemma Orderly.visit (h : Orderly settings tree comments visited p deliveries)
    (hpending : ∀ {i : Nat} {c : Comment}, (assignedOf deliveries).length ≤ i →
      i ≤ p.stream.cursor → comments[i]? = some c → Below tree c x →
      Excused settings tree comments i x)
    (hunread : tree.parent? x ≠ none → ∀ {i : Nat} {c : Comment}, p.stream.cursor < i →
      comments[i]? = some c → (tree.node x).start.line ≤ c.start.line) :
    Orderly settings tree comments (x :: visited) p deliveries where
  accounted := h.accounted
  delivered := h.delivered
  pending := by
    intro i c hi hle hc n hn hbelow
    rcases List.mem_cons.mp hn with rfl | hn
    · exact hpending hi hle hc hbelow
    · exact h.pending hi hle hc hn hbelow
  unread := by
    intro i c hi hc y hy hchild
    rcases List.mem_cons.mp hy with rfl | hy
    · exact hunread hchild hi hc
    · exact h.unread hi hc hy hchild

/-- **After a flush nothing is under way that ends above the node**: the comment that is then read
does not start above it. -/
lemma Orderly.visit_of_flushed (h : Orderly settings tree comments visited p deliveries)
    (hgroup : p.group = []) (hu : p.Unread) (hforward : Forward comments)
    (hunread : ∀ {i : Nat} {c : Comment}, p.stream.cursor < i → comments[i]? = some c →
      (tree.node x).start.line ≤ c.start.line) (moved : Bool) :
    Orderly settings tree comments (x :: visited) (p.movedOn moved) deliveries ∧
      Joined tree (x :: visited) (p.movedOn moved) := by
  have hlength := h.accounted.length_assignedOf hgroup hu
  cases moved with
  | true =>
    refine ⟨h.visit ?_ fun _ => hunread, ?_⟩
    · intro i c hi hle
      rw [hlength] at hi
      exact absurd hle (Nat.not_le.mpr hi)
    · intro htwo
      rw [show p.movedOn true = p from rfl, hgroup] at htwo
      exact absurd htwo (by decide)
  | false =>
    refine ⟨(h.advanced hforward).visit ?_ ?_, joined_of_advanced hgroup⟩
    · intro i c hi _ hc hbelow
      rw [hlength] at hi
      have hspan := Position.line_le_of_not_before (hforward c (List.mem_of_getElem? hc))
      exact absurd (Int.le_trans (hunread hi hc) hspan) (Int.not_le.mpr hbelow.2.2)
    · intro _ i c hi
      exact hunread (Nat.lt_of_succ_lt hi)

/-- The same after a flush that took place during the visit. -/
lemma Flushed.visit {move : Move} {r : Pass} (hf : Flushed move p r) (hu : p.Unread)
    (hforward : Forward comments)
    (hunread : ∀ {i : Nat} {c : Comment}, p.stream.cursor < i → comments[i]? = some c →
      (tree.node x).start.line ≤ c.start.line) (moved : Bool)
    (h : ∃ deliveries, Orderly settings tree comments visited r deliveries) :
    (∃ deliveries, Orderly settings tree comments (x :: visited) (r.movedOn moved) deliveries) ∧
      Joined tree (x :: visited) (r.movedOn moved) := by
  obtain ⟨deliveries, ho⟩ := h
  have hur : r.Unread := by
    rw [Unread, hf.stream_eq]
    exact hu
  obtain ⟨ho', hj⟩ := ho.visit_of_flushed hf.group_eq hur hforward
    (fun hi hc => hunread (hf.stream_eq ▸ hi) hc) moved
  exact ⟨⟨deliveries, ho'⟩, hj⟩

/-- **A comment under way that ends above the node is held back** if the current one reaches the
start of the node. -/
lemma Orderly.heldBack (h : Orderly settings tree comments visited p deliveries)
    (hcomments : p.stream.comments = comments) (hg : Grouped p)
    (hj : Joined tree (x :: visited) p) (hsource : tree.SourceOrdered) (hwf : tree.WellFormed)
    (hturn : Turn tree visited x) {c : Comment} (hc : p.Current c)
    (hreaches : c.stop.before (tree.node x).start = false) {i : Nat} {e : Comment}
    (hi : (assignedOf deliveries).length ≤ i) (hle : i ≤ p.stream.cursor)
    (he : comments[i]? = some e) (hbelow : Below tree e x) : HeldBack tree comments i x := by
  have hunbroken := h.accounted.unbroken hg hi
  rw [hcomments] at hunbroken
  have hcget : comments[p.stream.cursor]? = some c := hcomments ▸ hc
  have hlt : i < p.stream.cursor := by
    refine Nat.lt_of_le_of_ne hle ?_
    rintro rfl
    rw [Option.some.inj (he.symm.trans hcget)] at hbelow
    exact absurd (Position.line_le_of_not_before hreaches) (Int.not_le.mpr hbelow.2.2)
  obtain ⟨y, hy, hychild, hstart⟩ := hj (h.accounted.two_le_length hc.unread hi hlt) c hc
  have hyx := hturn.seen hy
  exact ⟨p.stream.cursor, c, y, hlt, hcget, hunbroken, hyx, hychild, hstart,
    Position.not_before_trans (hsource.start_of_notAfter hwf hyx) hreaches⟩

/-- **A comment under way is handed on** if the current one ends on the line of an argument, and the
next argument starts on another line or no comma stands before it. -/
lemma Orderly.handedOn (h : Orderly settings tree comments visited p deliveries)
    (hcomments : p.stream.comments = comments) (hg : Grouped p) {c : Comment} (hc : p.Current c)
    {parent z n : NodeId} (hparent : tree.parent? x = some parent)
    (hargument : Argument settings tree parent)
    (hlevel : c.stop.line = (tree.node x).start.line)
    (hz : tree.nextSibling x = .ok (some z))
    (hcase : (tree.node z).start.line ≠ (tree.node x).start.line ∨
      commaBetween c (tree.node z) (tree.sourceLine (tree.node x).start.line) = false)
    (hn : tree.NotAfter x n) {i : Nat} (hi : (assignedOf deliveries).length ≤ i)
    (hle : i ≤ p.stream.cursor) : HandedOn settings tree comments i n := by
  have hunbroken := h.accounted.unbroken hg hi
  rw [hcomments] at hunbroken
  exact ⟨p.stream.cursor, c, x, parent, z, hle, hcomments ▸ hc, hunbroken, hn, hparent, hargument,
    hlevel, hz, hcase⟩

/-- **A comment under way is left last** if the current one is the last one, was read during the
visit and ends further up than the line above the node. -/
lemma Orderly.leftLast (h : Orderly settings tree comments visited p deliveries)
    (hcomments : p.stream.comments = comments) (hg : Grouped p) (hforward : Forward comments)
    (hturn : Turn tree visited x) {c : Comment} (hc : p.Current c) (hlast : ∀ d, ¬ p.Following d)
    (habove : c.stop.line < (tree.node x).start.line - 1) (hone : 1 ≤ p.stream.cursor)
    (hearlier : ∀ y ∈ visited, tree.parent? y ≠ none → (tree.node y).start.line ≤ c.start.line)
    {i : Nat} (hi : (assignedOf deliveries).length ≤ i) : LeftLast tree comments i x := by
  have hunbroken := h.accounted.unbroken hg hi
  rw [hcomments] at hunbroken
  rw [Current, hcomments] at hc
  have hend : p.stream.cursor + 1 = comments.length := by
    have hlt := (List.getElem?_eq_some_iff.mp hc).1
    have hno : ¬ p.stream.cursor + 1 < comments.length := by
      intro hmore
      rw [← hcomments] at hmore
      exact hlast _ (List.getElem?_eq_getElem hmore)
    omega
  refine ⟨p.stream.cursor, c, hone, hend, hc, hunbroken, by omega, ?_⟩
  intro y hy hchild hbefore
  -- a node before `x` was visited before the last comment was read
  have hvisited : y ∈ visited := by
    by_contra hno
    exact hbefore (hturn.ahead hy hno)
  have hspan := Position.line_le_of_not_before (hforward c (List.mem_of_getElem? hc))
  exact Int.le_trans (hearlier y hvisited hchild) hspan

/-- The node behind an argument, in the tree and in the source. -/
lemma Underway.next_argument (hu : Underway settings tree comments visited (x :: rest) p)
    (hwf : tree.WellFormed) {parent z : NodeId} (hparent : p.tree.parent? x = some parent)
    (hz : p.tree.nextSibling x = .ok (some z)) :
    tree.nextSibling x = .ok (some z) ∧ z ∈ x :: rest ∧
      (p.tree.node z).start = (tree.node z).start := by
  obtain ⟨hsame, hstack⟩ := hu.nextSibling_eq hwf hparent
  exact ⟨hsame ▸ hz, hstack z hz, hu.start_eq (hstack z hz)⟩

/-- The visited node is an argument of the source. -/
lemma Underway.argument (hu : Underway settings tree comments visited (x :: rest) p)
    {parent : NodeId} (hparent : p.tree.parent? x = some parent)
    (hargument : Argument settings p.tree parent) :
    tree.parent? x = some parent ∧ Argument settings tree parent := by
  refine ⟨(hu.parent?_eq (List.mem_cons_self ..)).symm.trans hparent, ?_⟩
  rwa [Argument, ← hu.kind_parent_eq hparent]

/-- **A group that waits for a later argument** is held back or handed on. -/
lemma Orderly.excused_of_defer (h : Orderly settings tree comments visited p deliveries)
    (hu : Underway settings tree comments visited (x :: rest) p) (hg : Grouped p)
    (hj : Joined tree (x :: visited) p) (hsource : tree.SourceOrdered) (hwf : tree.WellFormed)
    (hturn : Turn tree visited x) {parent z : NodeId} (hparent : p.tree.parent? x = some parent)
    (hargument : Argument settings p.tree parent) {c : Comment} (hc : p.Current c)
    (hlevel : c.stop.line = (tree.node x).start.line)
    (hz : p.tree.nextSibling x = .ok (some z))
    (hcolumn : (p.tree.node z).start.column ≤ c.stop.column) {i : Nat} {e : Comment}
    (hi : (assignedOf deliveries).length ≤ i) (hle : i ≤ p.stream.cursor)
    (he : comments[i]? = some e) (hbelow : Below tree e x) :
    Excused settings tree comments i x := by
  obtain ⟨hz, hstack, hzstart⟩ := hu.next_argument hwf hparent hz
  rw [hzstart] at hcolumn
  by_cases hsame : (tree.node z).start.line = (tree.node x).start.line
  · -- the next argument starts on the same line and behind this one
    have hxz := hsource.start_of_notAfter hwf
      (hturn.ahead (hu.core_eq hstack).1 (hu.frontier.ahead hstack))
    have hreaches : c.stop.before (tree.node x).start = false := by
      rw [Position.before_eq_false_iff] at hxz ⊢
      omega
    exact .inr (.inl (h.heldBack hu.comments_eq hg hj hsource hwf hturn hc hreaches hi hle he
      hbelow))
  · obtain ⟨hparent, hargument⟩ := hu.argument hparent hargument
    exact .inr (.inr (h.handedOn hu.comments_eq hg hc hparent hargument hlevel hz (.inl hsame)
      (hturn.seen (List.mem_cons_self ..)) hi hle))

/-- **A group that goes on the next argument** is handed on. -/
lemma Orderly.excused_of_next (h : Orderly settings tree comments visited p deliveries)
    (hu : Underway settings tree comments visited (x :: rest) p) (hg : Grouped p)
    (hwf : tree.WellFormed) {parent z n : NodeId} (hparent : p.tree.parent? x = some parent)
    (hargument : Argument settings p.tree parent) {c : Comment} (hc : p.Current c)
    (hlevel : c.stop.line = (tree.node x).start.line)
    (hz : p.tree.nextSibling x = .ok (some z))
    (hcomma : commaBetween c (p.tree.node z) (p.tree.sourceLine (tree.node x).start.line) = false)
    (hn : tree.NotAfter x n) {i : Nat} (hi : (assignedOf deliveries).length ≤ i)
    (hle : i ≤ p.stream.cursor) : Excused settings tree comments i n := by
  obtain ⟨hz, -, hzstart⟩ := hu.next_argument hwf hparent hz
  obtain ⟨hparent, hargument⟩ := hu.argument hparent hargument
  have hline : p.tree.sourceLine (tree.node x).start.line =
      tree.sourceLine (tree.node x).start.line := by
    rw [SyntaxTree.sourceLine, SyntaxTree.sourceLine, hu.framed.lines_eq]
  rw [commaBetween_congr hzstart, hline] at hcomma
  exact .inr (.inr (h.handedOn hu.comments_eq hg hc hparent hargument hlevel hz (.inr hcomma) hn hi
    hle))

/-- The visited node does not come after those still to come, in the tree as it is. -/
lemma Turn.notAfter (hturn : Turn tree visited x)
    (hu : Underway settings tree comments visited (x :: rest) p) (hb : tree.Built) {n : NodeId}
    (hn : n < tree.size) (hnew : n ∉ visited) : p.tree.NotAfter x n :=
  hu.notAfter hb (hturn.ahead hn hnew)

/-- Asking for an argument, and placing the group on the answer, keeps the order. -/
lemma Orderly.argue (h : Orderly settings tree comments visited p deliveries)
    (hu : Underway settings tree comments visited (x :: rest) p) (hb : tree.Built)
    (hg : Grouped p) (hturn : Turn tree visited x) {parent : NodeId} {r : Pass}
    (hparent : p.tree.parent? x = some parent) (hargument : Argument settings p.tree parent)
    {c : Comment} (hc : p.Current c) (hlevel : c.stop.line = (tree.node x).start.line)
    (asked : resolve x (tree.node x).start.line p = .ok (some y) q)
    (flush : Pass.link settings y q = .ok () r) :
    ∃ deliveries', Orderly settings tree comments visited r deliveries' := by
  obtain ⟨hwf, -, -⟩ := hb.wellFormed_and_plain
  obtain ⟨c', after, hc', hasked, rfl⟩ := exists_of_resolve asked
  obtain rfl := hc.eq hc'
  obtain ⟨⟨journal, rfl⟩, hanswer⟩ := Placement.exists_of_resolveArgument hasked
  have hunoted := hu.steps (.single (.note (.resolve x c (some y)) journal rfl))
  have hnoted := h.noted (.resolve x c (some y)) journal rfl
  rcases hanswer with hself | ⟨z, hnext, ⟨hno, -⟩ | ⟨hself, hcomma⟩⟩
  · obtain rfl := Option.some.inj hself
    exact hnoted.link hunoted hc.unread (List.mem_cons_self ..) flush fun _ _ _ hn hbelow =>
      .inl (hturn.notAfter hunoted hb hbelow.1 hn)
  · simp at hno
  · obtain rfl := Option.some.inj hself
    have hstack := (hu.next_argument hwf hparent hnext).2.1
    exact hnoted.link hunoted hc.unread hstack flush fun hi hle _ hn hbelow =>
      .inr (h.excused_of_next hu hg hwf hparent hargument hc hlevel hnext hcomma
        (hturn.ahead hbelow.1 hn) hi hle)

/-- **The end of a visit keeps the order.** -/
lemma Ending.orderly {parent : NodeId} {moved : Bool}
    (he : Ending settings x parent (tree.node x).start.line moved p q)
    (hu : Underway settings tree comments visited (x :: rest) p) (hb : tree.Built)
    (hsource : tree.SourceOrdered) (horder : CommentStream.checkOrder comments = .ok ())
    (hforward : Forward comments) (hturn : Turn tree visited x)
    (hparent : p.tree.parent? x = some parent) (hg : Grouped p)
    (h : Orderly settings tree comments visited p deliveries)
    (hj : Joined tree (x :: visited) p)
    (hmoved : moved = true → 1 ≤ p.stream.cursor ∧ ∀ c, p.Current c → ∀ y ∈ visited,
      tree.parent? y ≠ none → (tree.node y).start.line ≤ c.start.line) :
    (∃ deliveries', Orderly settings tree comments (x :: visited) q deliveries') ∧
      Joined tree (x :: visited) q := by
  obtain ⟨hwf, -, -⟩ := hb.wellFormed_and_plain
  have htop := List.mem_cons_self (a := x) (l := rest)
  have hunread : ∀ {i : Nat} {c : Comment}, p.stream.cursor < i → comments[i]? = some c →
      (tree.node x).start.line ≤ c.start.line := fun hi hc =>
    he.le_start hu.comments_eq horder hforward hi hc
  -- a group that waits is held back by the current comment
  have hwait : ∀ {c : Comment}, p.Current c → c.stop.before (tree.node x).start = false →
      Orderly settings tree comments (x :: visited) p deliveries := by
    intro c hc hreaches
    refine h.visit ?_ fun _ => hunread
    intro i e hi hle hget hbelow
    exact .inr (.inl (h.heldBack hu.comments_eq hg hj hsource hwf hturn hc hreaches hi hle hget
      hbelow))
  cases he with
  | wait current below =>
    exact ⟨⟨_, hwait current (Position.before_eq_false_iff.mpr (.inl below))⟩, hj⟩
  | behind current level plain column =>
    rw [hu.start_eq htop] at column
    exact ⟨⟨_, hwait current (Position.before_eq_false_iff.mpr (.inr ⟨level.symm, column⟩))⟩, hj⟩
  | leave current last above read =>
    obtain ⟨hone, hearlier⟩ := hmoved read
    refine ⟨⟨_, h.visit ?_ fun _ => hunread⟩, hj⟩
    intro i e hi _ _ _
    exact .inl (h.leftLast hu.comments_eq hg hforward hturn current last above hone
      (hearlier _ current) hi)
  | defer current level argument asked =>
    obtain ⟨c, after, hc, hasked, rfl⟩ := exists_of_resolve asked
    obtain rfl := current.eq hc
    obtain ⟨⟨journal, rfl⟩, hanswer⟩ := Placement.exists_of_resolveArgument hasked
    rcases hanswer with hno | ⟨z, hnext, ⟨-, hcolumn⟩ | ⟨hno, -⟩⟩
    · simp at hno
    · have hvisit : Orderly settings tree comments (x :: visited) p deliveries :=
        h.visit (fun hi hle hget hbelow => h.excused_of_defer hu hg hj hsource hwf hturn hparent
          argument current level hnext hcolumn hi hle hget hbelow) fun _ => hunread
      exact ⟨⟨_, hvisit.noted _ journal rfl⟩, hj⟩
    · simp at hno
  | argue current level argument asked flush =>
    have hstream := stream_of_resolve asked
    refine (flushed_of_link flush).visit ?_ hforward ?_ moved
      (h.argue hu hb hg hturn hparent argument current level asked flush)
    · rw [Unread, hstream]
      exact current.unread
    · intro i c hi
      exact hunread (hstream ▸ hi)
  | link current near touches flush =>
    exact (flushed_of_link flush).visit current.unread hforward hunread moved
      (h.link hu current.unread htop flush fun _ _ _ hn hbelow =>
        .inl (hturn.notAfter hu hb hbelow.1 hn))
  | float current last above unmoved flush =>
    exact (flushed_of_float flush).visit current.unread hforward hunread false
      (h.float hu current.unread flush fun hn hnew => hturn.notAfter hu hb hn hnew)

end Operations

end Pass

end Marginalia
