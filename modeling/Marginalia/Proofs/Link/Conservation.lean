import Marginalia.Proofs.Comment.Ledger
import Marginalia.Proofs.Link.Progress

/-!
# No comment is lost

Every comment of a source ends up on one node of the final tree.  The groups that a pass flushes
are, put together, the comments read so far without those under way, and each of them goes to one
node, so the map is the ledger of the comments with their nodes.

## Main definitions

* `Pass.assignedOf` — the comments of delivered groups, each with its node.
* `Pass.Accounted` — the groups flushed so far went to certain nodes, and the map says so.

## Main results

* `Pass.Step.accounted` — steps keep the account.
* `Pass.exists_accounted` — a pass that succeeds accounts for all comments.
* `linkComments_conserves` — no comment is lost, duplicated, overwritten or moved.
-/

namespace Marginalia

namespace Pass

/-! ## The account of a pass -/

/-- The comments of delivered groups, each with the node that its group went to. -/
def assignedOf (deliveries : List (NodeId × CommentGroup)) : List (NodeId × Comment) :=
  deliveries.flatMap fun d => d.2.map fun c => (d.1, c)

/-- One delivery more assigns the comments of its group. -/
lemma assignedOf_concat (deliveries : List (NodeId × CommentGroup)) (d : NodeId × CommentGroup) :
    assignedOf (deliveries ++ [d]) = assignedOf deliveries ++ d.2.map fun c => (d.1, c) := by
  simp [assignedOf]

/-- The comments of an assignment are those of its groups. -/
lemma map_snd_assignedOf (deliveries : List (NodeId × CommentGroup)) :
    (assignedOf deliveries).map Prod.snd = (deliveries.map Prod.snd).flatten := by
  induction deliveries with
  | nil => rfl
  | cons d rest ih =>
    have hd : (d.2.map fun c => (d.1, c)).map Prod.snd = d.2 := by
      rw [List.map_map]
      exact List.map_id d.2
    rw [assignedOf, List.flatMap_cons, ← assignedOf, List.map_append, ih, hd]
    rfl

/-- The groups that a pass flushed so far went to the nodes that `deliveries` says. -/
structure Accounted (markers : List Marker) (p : Pass) (deliveries : List (NodeId × CommentGroup)) :
    Prop where
  /-- Exactly the flushed groups are delivered. -/
  flushed : deliveries.map Prod.snd = p.trace.toList.filterMap Move.group?
  /-- The comments delivered and those under way are the ones read so far. -/
  read : (deliveries.map Prod.snd).flatten ++ p.group = p.stream.comments.take (p.stream.cursor + 1)
  inTree : ∀ d ∈ deliveries, d.1 < p.tree.size
  /-- The map holds the delivered comments, and nothing else. -/
  entries : p.map.entries = ledger markers (assignedOf deliveries)
  /-- A placeholder gets one group, of which something is left. -/
  single : ∀ id, (p.tree.node id).placeholder = true →
    ∃ group : CommentGroup, deliveries.filter (fun d => decide (d.1 = id)) = [(id, group)] ∧
      group.compose markers ≠ ""

section

variable {markers : List Marker} {visited : Option NodeId} {p q : Pass}
  {deliveries : List (NodeId × CommentGroup)}

/-- A pass starts with nothing delivered. -/
lemma accounted_start (markers : List Marker) {t : SyntaxTree}
    (hplain : ∀ id, (t.node id).placeholder = false) (comments : List Comment) :
    Accounted markers (start t ⟨comments, 0⟩) [] where
  flushed := rfl
  read := rfl
  inTree := by simp
  entries := rfl
  single := fun id hid => by
    have hno := hplain id
    exact absurd (hno.symm.trans hid) (by simp)

/-- **The account after a flush**: one more group is delivered, to the node `home`.  That is a
genuine node or a new placeholder, and no other placeholder is new. -/
lemma Accounted.deliver (h : Accounted markers p deliveries) {move : Move}
    (hmove : move.group? = some p.group) {after : Placement} {home : NodeId}
    (hgroup : after.group = []) (hhome : home < after.tree.size)
    (hsize : p.tree.size ≤ after.tree.size)
    (hentries : after.map.entries =
      if p.group.compose markers = "" then p.map.entries
      else CommentMap.put home (p.group.compose markers) p.map.entries)
    (hnew : ∀ id, (after.tree.node id).placeholder = true →
      (id ≠ home ∧ (p.tree.node id).placeholder = true) ∨
        (id = home ∧ p.tree.size ≤ home ∧ p.group.compose markers ≠ "")) :
    Accounted markers { p with toPlacement := after, trace := p.trace.push move }
      (deliveries ++ [(home, p.group)]) where
  flushed := by
    rw [List.map_append, h.flushed]
    simp [hmove]
  read := by
    show _ ++ after.group = _
    rw [hgroup, List.append_nil, ← h.read]
    simp
  inTree := by
    intro d hd
    rcases List.mem_append.mp hd with hd | hd
    · exact Nat.lt_of_lt_of_le (h.inTree d hd) hsize
    · obtain rfl := List.mem_singleton.mp hd
      exact hhome
  entries := by
    show after.map.entries = _
    rw [hentries, assignedOf_concat, ledger, List.foldl_append, ← ledger, foldl_record_map,
      h.entries]
  single := by
    intro id hid
    rw [List.filter_append]
    rcases hnew id hid with ⟨hne, hold⟩ | ⟨rfl, hfresh, htext⟩
    · obtain ⟨group, hgroup, htext⟩ := h.single id hold
      exact ⟨group, by simp [hgroup, Ne.symm hne], htext⟩
    · have hnone : deliveries.filter (fun d => decide (d.1 = id)) = [] := by
        rw [List.filter_eq_nil_iff]
        intro d hd
        have hlt := h.inTree d hd
        simpa using Nat.ne_of_lt (Nat.lt_of_lt_of_le hlt hfresh)
      exact ⟨p.group, by simp [hnone], htext⟩

/-- **The account after a graft**: the new placeholder gets the group. -/
lemma Accounted.graft (h : Accounted markers p deliveries) {move : Move}
    (hmove : move.group? = some p.group) {after : Placement} {parent : NodeId}
    {left right : List NodeId} {fresh : Node}
    (g : p.tree.Graft after.tree parent left right fresh) (hgroup : after.group = [])
    (htext : p.group.compose markers ≠ "")
    (hmap : after.map = p.map.extend p.tree.size (p.group.compose markers)) :
    Accounted markers { p with toPlacement := after, trace := p.trace.push move }
      (deliveries ++ [(p.tree.size, p.group)]) := by
  have hsize : p.tree.size < after.tree.size := g.size_eq ▸ Nat.lt_succ_self _
  refine h.deliver hmove hgroup hsize (Nat.le_of_lt hsize) ?_ ?_
  · rw [if_neg htext, hmap]
    rfl
  · intro id hid
    by_cases hfresh : id = p.tree.size
    · exact .inr ⟨hfresh, Nat.le_refl _, htext⟩
    · exact .inl ⟨hfresh, (g.placeholder_eq hfresh).symm.trans hid⟩

/-- Noting something that places no group delivers nothing. -/
lemma Accounted.noted (h : Accounted markers p deliveries) {move : Move} {journal : Journal}
    (silent : move.group? = none) :
    Accounted markers { p with trace := p.trace.push move, journal := journal } deliveries := by
  refine ⟨?_, h.read, h.inTree, h.entries, h.single⟩
  rw [h.flushed]
  simp [silent]

/-- Reading a comment delivers nothing. -/
lemma Accounted.advanced (h : Accounted markers p deliveries) :
    Accounted markers p.advanced deliveries := by
  refine ⟨h.flushed, ?_, h.inTree, h.entries, h.single⟩
  show _ ++ (p.group ++ _) = p.stream.comments.take (p.stream.cursor + 1 + 1)
  rw [← List.append_assoc, h.read]
  exact List.take_add_one.symm

/-- **A flush delivers the group under way** to one node. -/
lemma Accounted.flush (h : Accounted markers p deliveries) (hp : p.Sound) (hsize : 0 < p.tree.size)
    {move : Move} (flushed : move.group? = some p.group) {after : Placement}
    (flush : Placement.Flush markers visited p.toPlacement after) :
    ∃ home, Accounted markers { p with toPlacement := after, trace := p.trace.push move }
      (deliveries ++ [(home, p.group)]) := by
  -- a genuine node gets the group, or a new placeholder does
  have hgenuine : ∀ {home id : NodeId}, (p.tree.node home).placeholder = false →
      (p.tree.node id).placeholder = true → id ≠ home := by
    rintro home id hhome hid rfl
    rw [hhome] at hid
    exact Bool.noConfusion hid
  cases flush with
  | dissolve journal blank =>
    refine ⟨_, h.deliver flushed rfl hsize (Nat.le_refl _) (by simp [blank]) ?_⟩
    intro id hid
    exact .inl ⟨hgenuine hp.root_genuine hid, hid⟩
  | deliver target journal text inTree accepts genuine =>
    refine ⟨_, h.deliver flushed rfl inTree (Nat.le_refl _)
      (by simp [text, CommentMap.extend]) ?_⟩
    intro id hid
    exact .inl ⟨hgenuine genuine hid, hid⟩
  | insert journal text visiting onWay tolerates count graft =>
    exact ⟨_, h.graft flushed graft rfl text rfl⟩
  | append journal text ended count graft =>
    exact ⟨_, h.graft flushed graft rfl text rfl⟩

/-- **Steps keep the account.** -/
lemma Step.accounted (hs : Step markers visited p q) (hp : p.Sound) (hsize : 0 < p.tree.size)
    (h : Accounted markers p deliveries) : ∃ after, Accounted markers q after := by
  cases hs with
  | note move journal silent => exact ⟨deliveries, h.noted silent⟩
  | advance unread kept => exact ⟨deliveries, h.advanced⟩
  | flush move flushed flush =>
    obtain ⟨home, h'⟩ := h.flush hp hsize flushed flush
    exact ⟨_, h'⟩

/-- Whole runs keep the account. -/
lemma Runs.accounted (hr : Runs markers p q) (hp : p.Sound) (hsize : 0 < p.tree.size)
    (h : Accounted markers p deliveries) : ∃ after, Accounted markers q after := by
  induction hr with
  | refl => exact ⟨deliveries, h⟩
  | @tail q r hpq hs ih =>
    obtain ⟨visited, hs⟩ := hs
    obtain ⟨after, hafter⟩ := ih
    exact hs.accounted (Runs.sound hpq hp) (Nat.lt_of_lt_of_le hsize (Runs.size_le hpq)) hafter

end

/-- A pass without comments only closes its map. -/
lemma run_start_nil (settings : LinkSettings) (t : SyntaxTree) :
    run settings (start t ⟨[], 0⟩) =
      .ok () { start t ⟨[], 0⟩ with map := CommentMap.empty.freeze } :=
  rfl

/-- **A pass that succeeds accounts for all comments**: the groups that it flushed are, one behind
the other, all comments of the source. -/
theorem exists_accounted (settings : LinkSettings) {tree : SyntaxTree} (hb : tree.Built)
    {comments : List Comment} (horder : CommentStream.checkOrder comments = .ok ())
    (hroot : comments = [] ∨ 0 < tree.size) :
    ∃ p deliveries, run settings (start tree ⟨comments, 0⟩) = .ok () p ∧
      linkComments settings tree comments = ⟨p.tree, p.map, p.journal, none⟩ ∧
      (∃ q, Runs settings.markers (start tree ⟨comments, 0⟩) q ∧ p.tree = q.tree) ∧
      Accounted settings.markers p deliveries ∧ (deliveries.map Prod.snd).flatten = comments := by
  obtain ⟨hwf, hplain, -⟩ := hb.wellFormed_and_plain
  by_cases hnil : comments = []
  · subst hnil
    have hstart := accounted_start settings.markers hplain []
    refine ⟨_, [], run_start_nil settings tree, ?_, ⟨_, .refl, rfl⟩, ?_, rfl⟩
    · rw [linkComments_of_checkOrder_ok horder, run_start_nil]
    · exact ⟨hstart.flushed, hstart.read, hstart.inTree, hstart.entries, hstart.single⟩
  · obtain ⟨p, q, hrun, hruns, hdone, hgroup, ⟨journal, rfl⟩, he⟩ :=
      exists_runs_of_linkComments settings hb horder hroot
    obtain ⟨deliveries, h⟩ := hruns.accounted (sound_start hwf hplain _)
      (hroot.resolve_left hnil) (accounted_start settings.markers hplain comments)
    refine ⟨_, deliveries, hrun, he, ⟨q, hruns, rfl⟩,
      ⟨h.flushed, h.read, h.inTree, h.entries, h.single⟩, ?_⟩
    have hread := h.read
    have hall : q.stream.comments.length ≤ q.stream.cursor + 1 :=
      Nat.le_succ_of_le (of_decide_eq_true hdone)
    rw [hgroup, List.append_nil, List.take_of_length_le hall, hruns.stream.1] at hread
    exact hread

end Pass

/-! ## Conservation -/

/-- **No comment is lost, duplicated, overwritten or moved.**  A pass over comments in order assigns
each of them to a node of the final tree.  The nodes with an entry are those that got a comment of
which something is left; the entry is the text of the comments of the node in their order; and the
entries stand in the order of the first such comment. -/
theorem linkComments_conserves (settings : LinkSettings) {tree : SyntaxTree} (hb : tree.Built)
    {comments : List Comment} {stream : CommentStream}
    (hstream : CommentStream.ofComments comments = .ok stream)
    (hroot : comments = [] ∨ tree.root? ≠ none) :
    (linkComments settings tree comments).failure = none ∧
      ∃ assigned : List (NodeId × Comment),
        assigned.map Prod.snd = comments ∧
        (∀ a ∈ assigned, a.1 < (linkComments settings tree comments).tree.size) ∧
        (∀ v : Int, (linkComments settings tree comments).map.contains v = true ↔
          ∃ c ∈ commentsAt v assigned, c.filtered settings.markers ≠ "") ∧
        (∀ (v : Int) (text : String), (linkComments settings tree comments).map.get? v = some text →
          text = "\n".intercalate
            (((commentsAt v assigned).map (Comment.filtered settings.markers)).filter
              fun text => !text.isEmpty)) ∧
        (linkComments settings tree comments).map.keys =
          ((assigned.filter fun a => decide (a.2.filtered settings.markers ≠ "")).map
            fun a => (a.1 : Int)).eraseDups := by
  have horder := CommentStream.checkOrder_of_ofComments hstream
  have hsize : comments = [] ∨ 0 < tree.size := hroot.imp_right SyntaxTree.size_pos_of_root?
  obtain ⟨p, deliveries, -, he, -, h, hall⟩ := Pass.exists_accounted settings hb horder hsize
  have hget : ∀ v, p.map.get? v = if (commentsAt v (Pass.assignedOf deliveries)).compose
      settings.markers = "" then none
      else some ((commentsAt v (Pass.assignedOf deliveries)).compose settings.markers) := by
    intro v
    rw [CommentMap.get?, h.entries, lookup_ledger]
  rw [he]
  refine ⟨rfl, Pass.assignedOf deliveries, ?_, ?_, ?_, ?_, ?_⟩
  · rw [Pass.map_snd_assignedOf, hall]
  · intro a ha
    obtain ⟨d, hd, ha⟩ := List.mem_flatMap.mp ha
    obtain ⟨c, -, rfl⟩ := List.mem_map.mp ha
    exact h.inTree d hd
  · intro v
    rw [← CommentGroup.survivors_ne_nil_iff, Ne, ← CommentGroup.compose_eq_empty_iff,
      CommentMap.contains, hget]
    split <;> simp_all
  · intro v text htext
    rw [hget] at htext
    split at htext
    · simp at htext
    · exact (Option.some.inj htext).symm
  · rw [CommentMap.keys, h.entries, keys_ledger]

/-- Comments in order around the sample tree: the first one floats, the second one stands above a
node, and the third one stands at the end. -/
def sampleComments : List Comment :=
  [⟨.line, ⟨1, 0⟩, ⟨1, 4⟩, "// a"⟩, ⟨.line, ⟨3, 0⟩, ⟨3, 4⟩, "// b"⟩,
    ⟨.line, ⟨8, 0⟩, ⟨8, 4⟩, "// c"⟩]

/-- The sample comments are in order. -/
lemma ofComments_sampleComments :
    CommentStream.ofComments sampleComments = .ok ⟨sampleComments, 0⟩ := rfl

/-- The comments around the sample tree are all assigned, as `linkComments_conserves` says. -/
theorem linkComments_conserves_sample :
    SyntaxTree.sample.Built ∧
      CommentStream.ofComments sampleComments = .ok ⟨sampleComments, 0⟩ ∧
      SyntaxTree.sample.root? ≠ none ∧
      (linkComments .standard SyntaxTree.sample sampleComments).failure = none ∧
      ∃ assigned : List (NodeId × Comment), assigned.map Prod.snd = sampleComments ∧
        ∀ v : Int, (linkComments .standard SyntaxTree.sample sampleComments).map.contains v = true ↔
          ∃ c ∈ commentsAt v assigned, c.filtered LinkSettings.standard.markers ≠ "" := by
  have hroot : SyntaxTree.sample.root? ≠ none := by decide
  obtain ⟨hfailure, assigned, hall, -, hcontains, -⟩ :=
    linkComments_conserves .standard SyntaxTree.built_sample ofComments_sampleComments (.inr hroot)
  exact ⟨SyntaxTree.built_sample, ofComments_sampleComments, hroot, hfailure, assigned, hall,
    hcontains⟩

end Marginalia
