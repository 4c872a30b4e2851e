import Marginalia.Proofs.Link.Conservation
import Marginalia.Proofs.Link.Course
import Mathlib.Data.List.Chain

/-!
# Groups are the runs between blank lines

The groups that a pass flushes cut the comments of a source into contiguous runs, and no run has a
gap of more than one line inside.  Grouping happens bit by bit: a group stays under way over many
nodes and grows by one comment at a time.  What carries the proof is that a group under way always
ends with the current comment, so that the test made before a comment is read compares the right two
comments, and that the advance without a test takes place only when no group is under way.

## Main definitions

* `CommentGroup.Tight` — consecutive comments have no line between them.
* `Pass.flushedGroups` — the groups that a pass flushed, without the empty ones.
* `Pass.Grouped` — the invariant.

## Main results

* `Pass.Ending.grouped`, `Pass.Reached.grouped` — visits keep the invariant.
* `linkComments_groups` — the flushed groups partition the comments, and each of them is tight.
-/

namespace Marginalia

/-- Consecutive comments of a group have at most a line break between them. -/
def CommentGroup.Tight (group : CommentGroup) : Prop := group.IsChain fun c d => c.lineGap d ≤ 1

/-- A cut between two neighbours that no chain holds is a cut between two of the chains. -/
lemma exists_cut_of_isChain {α : Type} {R : α → α → Prop} :
    ∀ (chains : List (List α)), (∀ chain ∈ chains, chain.IsChain R) →
      ∀ {i : Nat} {a b : α}, chains.flatten[i]? = some a → chains.flatten[i + 1]? = some b →
        ¬ R a b →
        ∃ before after, chains = before ++ after ∧
          before.flatten = chains.flatten.take (i + 1) := by
  intro chains
  induction chains with
  | nil =>
    intro _ i a b ha
    simp at ha
  | cons chain rest ih =>
    intro hchains i a b ha hb hR
    rw [List.flatten_cons] at ha hb ⊢
    rcases Nat.lt_trichotomy (i + 1) chain.length with hlt | heq | hgt
    · -- both neighbours are in the first chain
      have hchain := hchains chain (List.mem_cons_self ..)
      rw [List.getElem?_append_left (by omega), List.getElem?_eq_getElem (by omega)] at ha
      rw [List.getElem?_append_left hlt, List.getElem?_eq_getElem hlt] at hb
      obtain rfl := Option.some.inj ha
      obtain rfl := Option.some.inj hb
      exact absurd (List.isChain_iff_getElem.mp hchain i hlt) hR
    · exact ⟨[chain], rest, rfl, by simp [heq]⟩
    · rw [List.getElem?_append_right (by omega)] at ha hb
      obtain ⟨before, after, hsplit, hflat⟩ :=
        ih (fun chain' h => hchains chain' (List.mem_cons_of_mem _ h)) (i := i - chain.length)
          ha (by rwa [show i + 1 - chain.length = i - chain.length + 1 by omega] at hb) hR
      refine ⟨chain :: before, after, by rw [hsplit]; rfl, ?_⟩
      rw [List.flatten_cons, hflat, List.take_append,
        List.take_of_length_le (show chain.length ≤ i + 1 by omega),
        show i + 1 - chain.length = i - chain.length + 1 by omega]

namespace Pass

/-- The groups that a pass flushed, in order and without the empty ones. -/
def flushedGroups (p : Pass) : List CommentGroup :=
  (p.trace.toList.filterMap Move.group?).filter fun group => !group.isEmpty

/-- The group under way ends with the current comment, and this and all flushed groups are tight. -/
structure Grouped (p : Pass) : Prop where
  last : ∀ c, p.group.getLast? = some c → p.Current c
  tight : CommentGroup.Tight p.group
  flushed : ∀ move ∈ p.trace.toList, ∀ group, move.group? = some group → CommentGroup.Tight group

/-! ## What one operation keeps -/

section Operations

variable {settings : LinkSettings} {x parent : NodeId} {line : Int} {moved : Bool} {p q : Pass}

/-- At the start no group is under way. -/
lemma grouped_start (tree : SyntaxTree) (comments : List Comment) :
    Grouped (start tree ⟨comments, 0⟩) where
  last := by
    intro c hc
    cases comments with
    | nil => simp [start, CommentStream.firstGroup] at hc
    | cons d rest =>
      obtain rfl : d = c := by simpa [start, CommentStream.firstGroup] using hc
      rfl
  tight := by
    cases comments with
    | nil => exact .nil
    | cons d rest => exact .singleton d
  flushed := by simp [start]

/-- Noting something that places no group keeps the groups. -/
lemma Grouped.noted (h : Grouped p) {move : Move} {journal : Journal}
    (silent : move.group? = none) :
    Grouped { p with trace := p.trace.push move, journal := journal } where
  last := h.last
  tight := h.tight
  flushed := by
    intro m hm group hgroup
    rw [Array.toList_push] at hm
    rcases List.mem_append.mp hm with hm | hm
    · exact h.flushed m hm group hgroup
    · rw [List.mem_singleton.mp hm, silent] at hgroup
      simp at hgroup

/-- After a flush the flushed group is one more tight group. -/
lemma Grouped.flush (h : Grouped p) {move : Move} (hflush : Flushed move p q)
    (hmove : move.group? = some p.group) : Grouped q where
  last := by simp [hflush.group_eq]
  tight := by
    rw [hflush.group_eq]
    exact .nil
  flushed := by
    intro m hm group hgroup
    rw [hflush.trace_eq, Array.toList_push] at hm
    rcases List.mem_append.mp hm with hm | hm
    · exact h.flushed m hm group hgroup
    · rw [List.mem_singleton.mp hm, hmove] at hgroup
      rw [← Option.some.inj hgroup]
      exact h.tight

/-- **The next comment is read without a test only when no group is under way.** -/
lemma Grouped.advance_of_nil (h : Grouped p) (hnil : p.group = []) : Grouped p.advanced := by
  have hgroup : p.advanced.group = p.stream.comments[p.stream.cursor + 1]?.toList := by
    simp [advanced, hnil]
  refine ⟨?_, ?_, h.flushed⟩
  · intro c hc
    rw [hgroup] at hc
    cases hd : p.stream.comments[p.stream.cursor + 1]? with
    | none => simp [hd] at hc
    | some d =>
      obtain rfl : d = c := by simpa [hd] using hc
      exact hd
  · rw [hgroup]
    cases p.stream.comments[p.stream.cursor + 1]? with
    | none => exact .nil
    | some d => exact .singleton d

/-- The next comment is read into the group under way, whose last comment is near. -/
lemma Grouped.advance_of_near (h : Grouped p) {c d : Comment} (hc : p.Current c)
    (hd : p.Following d) (hnear : c.startsNewGroup d = false) : Grouped p.advanced := by
  have hgroup : p.advanced.group = p.group ++ [d] := by
    show p.group ++ p.stream.comments[p.stream.cursor + 1]?.toList = _
    rw [show p.stream.comments[p.stream.cursor + 1]? = some d from hd]
    rfl
  refine ⟨?_, ?_, h.flushed⟩
  · intro e he
    rw [hgroup, List.getLast?_concat] at he
    rw [← Option.some.inj he]
    exact hd.current_advanced
  · rw [hgroup]
    refine List.IsChain.append h.tight (.singleton d) ?_
    intro e he f hf
    obtain rfl : d = f := by simpa using hf
    -- the last comment of the group is the current one
    rw [← hc.eq (h.last e he)]
    exact startsNewGroup_eq_false_iff.mp hnear

/-- Moving on behind a flush keeps the groups tight. -/
lemma Grouped.movedOn (h : Grouped p) (hnil : p.group = []) : Grouped (p.movedOn moved) := by
  cases moved with
  | true => exact h
  | false => exact h.advance_of_nil hnil

/-- **Rounds keep the groups tight.** -/
lemma Rounds.grouped (hr : Rounds settings x line p q) (h : Grouped p) : Grouped q := by
  induction hr with
  | refl => exact h
  | tail _ hround ih =>
    cases hround with
    | join current following above apart close => exact ih.advance_of_near current following close
    | float current following above apart gap flush =>
      have hflush := flushed_of_float flush
      exact (ih.flush hflush rfl).advance_of_nil hflush.group_eq

/-- **The end of a visit keeps the groups tight**: it reads a comment only after a flush. -/
lemma Ending.grouped (he : Ending settings x parent line moved p q) (h : Grouped p) :
    Grouped q := by
  cases he with
  | wait => exact h
  | behind => exact h
  | leave => exact h
  | defer current level argument asked =>
    obtain ⟨c, after, -, hasked, rfl⟩ := exists_of_resolve asked
    obtain ⟨⟨journal, rfl⟩, -⟩ := Placement.exists_of_resolveArgument hasked
    exact h.noted rfl
  | argue current level argument asked flush =>
    obtain ⟨c, after, -, hasked, rfl⟩ := exists_of_resolve asked
    obtain ⟨⟨journal, rfl⟩, -⟩ := Placement.exists_of_resolveArgument hasked
    have hflush := flushed_of_link flush
    exact ((h.noted rfl).flush hflush rfl).movedOn hflush.group_eq
  | link current near touches flush =>
    have hflush := flushed_of_link flush
    exact (h.flush hflush rfl).movedOn hflush.group_eq
  | float current last above unmoved flush =>
    have hflush := flushed_of_float flush
    exact (h.flush hflush rfl).advance_of_nil hflush.group_eq

/-- **What happens after the walk keeps the groups tight.** -/
lemma Ends.grouped (he : Ends settings p q) (h : Grouped p) : Grouped q := by
  refine he.keeps h (fun hr hb hc hclose => hr.advance_of_near hb hc hclose) ?_
  intro r s b hr _ _ flush
  have hflush := flushed_of_trail flush
  exact (hr.flush hflush rfl).advance_of_nil hflush.group_eq

/-- **Visits keep the groups tight.** -/
lemma Reached.grouped {tree : SyntaxTree} {comments : List Comment} {visited stack : List NodeId}
    (h : Reached settings tree comments p visited stack) : Grouped p := by
  induction h with
  | start => exact grouped_start tree comments
  | visit reached unread visits ih =>
    rcases ending_of_visit unread visits with ⟨-, rfl⟩ | ⟨parent, r, -, hrounds, hending⟩
    · exact ih.noted rfl
    · exact hending.grouped (Rounds.grouped hrounds (ih.noted rfl))

end Operations

end Pass

/-! ## The groups of a pass -/

/-- **The groups of a pass partition the comments at blank lines.**  The groups that a pass flushes
are, one behind the other, all comments of the source; each is a contiguous run of them without a
gap of more than one line; so where two neighbours are further apart, one group ends and another
one starts. -/
theorem linkComments_groups (settings : LinkSettings) {tree : SyntaxTree} (hb : tree.Built)
    {comments : List Comment} {stream : CommentStream}
    (hstream : CommentStream.ofComments comments = .ok stream)
    (hroot : comments = [] ∨ tree.root? ≠ none) :
    ∃ p, Pass.run settings (Pass.start tree stream) = .ok () p ∧
      linkComments settings tree comments = ⟨p.tree, p.map, p.journal, none⟩ ∧
      p.flushedGroups.flatten = comments ∧
      (∀ group ∈ p.flushedGroups, group <:+: comments ∧ CommentGroup.Tight group) ∧
      ∀ (i : Nat) (c d : Comment), comments[i]? = some c → comments[i + 1]? = some d →
        1 < c.lineGap d →
        ∃ before after, p.flushedGroups = before ++ after ∧
          before.flatten = comments.take (i + 1) := by
  obtain rfl := CommentStream.eq_of_ofComments hstream
  have horder := CommentStream.checkOrder_of_ofComments hstream
  have hsize : comments = [] ∨ 0 < tree.size := hroot.imp_right SyntaxTree.size_pos_of_root?
  obtain ⟨p, deliveries, hrun, he, -, h, hall⟩ := Pass.exists_accounted settings hb horder hsize
  have hflatten : p.flushedGroups.flatten = comments := by
    rw [Pass.flushedGroups, List.flatten_filter_not_isEmpty, ← h.flushed, hall]
  have htight : ∀ group ∈ p.flushedGroups, CommentGroup.Tight group := by
    intro group hgroup
    obtain ⟨move, hmove, hg⟩ := List.mem_filterMap.mp (List.mem_filter.mp hgroup).1
    by_cases hnil : comments = []
    · subst hnil
      rw [Pass.run_start_nil] at hrun
      obtain ⟨-, rfl⟩ := EStateM.Result.ok.inj hrun
      simp [Pass.start] at hmove
    · obtain ⟨q, visited, stack, final, hreached, -, hends, journal, rfl⟩ :=
        Pass.exists_reached_of_run hb hnil (hsize.resolve_left hnil) hrun
      exact (hends.grouped hreached.grouped).flushed move hmove group hg
  refine ⟨p, hrun, he, hflatten, ?_, ?_⟩
  · intro group hgroup
    refine ⟨?_, htight group hgroup⟩
    rw [← hflatten]
    exact List.infix_of_mem_flatten hgroup
  · intro i c d hc hd hgap
    rw [← hflatten] at hc hd ⊢
    exact exists_cut_of_isChain _ htight hc hd (Int.not_le.mpr hgap)

/-- Around the sample tree a blank line stands behind the first comment, which therefore makes a
group of its own, as `linkComments_groups` says. -/
theorem linkComments_groups_sample :
    SyntaxTree.sample.Built ∧
      CommentStream.ofComments sampleComments = .ok ⟨sampleComments, 0⟩ ∧
      SyntaxTree.sample.root? ≠ none ∧
      ∃ p, Pass.run .standard (Pass.start SyntaxTree.sample ⟨sampleComments, 0⟩) = .ok () p ∧
        p.flushedGroups.flatten = sampleComments ∧
        ∃ before after, p.flushedGroups = before ++ after ∧
          before.flatten = sampleComments.take 1 := by
  have hroot : SyntaxTree.sample.root? ≠ none := by decide
  obtain ⟨p, hrun, -, hflatten, -, hcut⟩ :=
    linkComments_groups .standard SyntaxTree.built_sample ofComments_sampleComments (.inr hroot)
  exact ⟨SyntaxTree.built_sample, ofComments_sampleComments, hroot, p, hrun, hflatten,
    hcut 0 _ _ rfl rfl (by decide)⟩

end Marginalia
