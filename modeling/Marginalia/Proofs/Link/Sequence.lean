import Marginalia.Proofs.Link.Course
import Mathlib.Data.List.Sort

/-!
# The order of placeholders

Placeholders are put into lists of children that keep growing: several before one node, others
before nodes above the one that is visited, and at the end of the source behind all children of the
root.  Still, the placeholders in one list stand in the order in which they were made, and so their
groups stand in the order of the comments.

The reason is that a list is never entered behind the way up from the visited node: what stands
there is still on the stack of the walk, and no placeholder is.  So a new placeholder comes behind
all older ones of its list.

## Main definitions

* `SyntaxTree.OpenBehind` — what stands behind the way up from a node on the stack is on the stack.
* `SyntaxTree.placeholdersBelow`, `SyntaxTree.Ascending` — the placeholders among the children of a
  node, and that they stand in the order of their numbers.
* `Pass.Successive` — placeholders get their groups in the order of their numbers.

## Main results

* `SyntaxTree.OpenBehind.visit`, `SyntaxTree.OpenBehind.graft` — visits and grafts keep lists open.
* `SyntaxTree.Graft.ascending` — a placeholder with no placeholder behind it keeps the order.
* `linkComments_placeholders_in_order` — placeholders of one list hold groups in stream order.
-/

namespace Marginalia

open scoped List

namespace SyntaxTree

section

variable {t t' : SyntaxTree} {p q id : NodeId} {left right : List NodeId} {fresh : Node}

/-- A child stands at one place only, so its list is split there in one way. -/
lemma WellFormed.split_unique (h : t.WellFormed) {left' right' : List NodeId}
    (hc : t.children q = left ++ id :: right) (hc' : t.children q = left' ++ id :: right') :
    left = left' ∧ right = right' := by
  have hnodup := h.nodup q
  rw [hc, List.nodup_append, List.nodup_cons] at hnodup
  have hleft : id ∉ left := fun hid => hnodup.2.2 id hid id (List.mem_cons_self ..) rfl
  obtain ⟨hl, -, hr⟩ :=
    (List.append_cons_inj_of_notMem hleft hnodup.2.1.1).mp (hc.symm.trans hc')
  exact ⟨hl, hr⟩

/-- A graft changes no way up. -/
lemma Graft.upward_eq (g : t.Graft t' p left right fresh) (h : t.WellFormed) (hid : id < t.size) :
    t'.upward id = t.upward id := by
  have h' := g.wellFormed h
  refine h.upward_induction (motive := fun id => t'.upward id = t.upward id) ?_ ?_ id hid
  · intro hpos
    have horphan : t.parent? 0 = none := (h.orphan hpos).mpr rfl
    have horphan' : t'.parent? 0 = none := (g.parent?_eq (Nat.ne_of_lt hpos)).trans horphan
    rw [upward_of_orphan horphan, upward_of_orphan horphan']
  · intro id q hq ih
    have hq' : t'.parent? id = some q :=
      (g.parent?_eq (Nat.ne_of_lt (lt_size_of_parent? hq))).trans hq
    rw [upward_of_parent? h hq, upward_of_parent? h' hq', ih]

end

/-! ## What stands behind the way up -/

/-- What stands behind a node on the way up from a node on the stack is on the stack as well, behind
that node. -/
def OpenBehind (t : SyntaxTree) (stack : List NodeId) : Prop :=
  ∀ (y : NodeId) (later : List NodeId), y :: later <:+ stack → ∀ site ∈ t.upward y,
    ∀ (q : NodeId) (left right : List NodeId), t.children q = left ++ site :: right →
      ∀ c ∈ right, c ∈ later

namespace OpenBehind

variable {t t' : SyntaxTree} {x : NodeId} {visited rest : List NodeId}

/-- Nothing stands beside the root. -/
lemma start (h : t.WellFormed) (hsize : 0 < t.size) : t.OpenBehind [0] := by
  have horphan : t.parent? 0 = none := (h.orphan hsize).mpr rfl
  intro y later hsuffix site hsite q left right hchildren
  obtain rfl : y = 0 := List.mem_singleton.mp (hsuffix.subset (List.mem_cons_self ..))
  rw [upward_of_orphan horphan, List.mem_singleton] at hsite
  have hparent : t.parent? site = some q := h.parent_of_mem (by simp [hchildren])
  simp [hsite, horphan] at hparent

/-- **After a visit** the children of the visited node are on the stack, and nothing else has left
it. -/
lemma visit (ho : t.OpenBehind (x :: rest)) (h : t.WellFormed) :
    t.OpenBehind (t.children x ++ rest) := by
  intro y later ⟨before, hbefore⟩ site hsite q left right hchildren
  rcases List.append_eq_append_iff.mp hbefore with ⟨ahead, hc, hlater⟩ | ⟨behind, hb, hrest⟩
  · cases ahead with
    | nil =>
      have hsuffix : y :: later <:+ x :: rest := ⟨[x], by simp [hlater]⟩
      exact ho y later hsuffix site hsite q left right hchildren
    | cons z ahead =>
      -- the node is a child of the visited one, so the way up goes on from that
      obtain ⟨rfl, rfl⟩ := List.cons.inj hlater
      have hparent : t.parent? y = some x := h.parent_of_mem (by simp [hc])
      rw [upward_of_parent? h hparent] at hsite
      rcases List.mem_cons.mp hsite with rfl | hsite
      · have hq : t.parent? site = some q := h.parent_of_mem (by simp [hchildren])
        obtain rfl : x = q := Option.some.inj (hparent.symm.trans hq)
        obtain ⟨-, rfl⟩ := h.split_unique hchildren hc
        exact fun c hc => List.mem_append_left _ hc
      · have hright := ho x rest List.suffix_rfl site hsite q left right hchildren
        exact fun c hc => List.mem_append_right _ (hright c hc)
  · have hsuffix : y :: later <:+ x :: rest := ⟨x :: behind, by simp [hrest]⟩
    exact ho y later hsuffix site hsite q left right hchildren

/-- **A graft before a node on the way up from the top of the stack keeps lists open**: that node is
not behind the way up from any node on the stack, as it would be still to come then. -/
lemma graft {left right : List NodeId} {parent site : NodeId} {fresh : Node}
    (ho : t.OpenBehind (x :: rest)) (f : t.Frontier visited (x :: rest)) (h : t.WellFormed)
    (g : t.Graft t' parent left (site :: right) fresh) (hway : site ∈ t.upward x) :
    t'.OpenBehind (x :: rest) := by
  intro y later hsuffix a ha q before after hchildren
  have hy : y ∈ x :: rest := hsuffix.subset (List.mem_cons_self ..)
  rw [g.upward_eq h (f.stack_lt hy)] at ha
  have halt : a < t.size := h.lt_size_of_mem_upward (f.stack_lt hy) ha
  by_cases hq : q = parent
  · subst hq
    rw [g.children_after] at hchildren
    rcases List.append_eq_append_iff.mp hchildren with ⟨ahead, hb, hgrafted⟩ | ⟨behind, hl, ha'⟩
    · cases ahead with
      | nil =>
        -- the node is older than the fresh one
        obtain ⟨rfl, -⟩ := List.cons.inj hgrafted
        exact absurd halt (Nat.lt_irrefl _)
      | cons z ahead =>
        have hright : site :: right = ahead ++ a :: after := (List.cons.inj hgrafted).2
        refine ho y later hsuffix a ha q (left ++ ahead) after ?_
        rw [g.children_before, hright, List.append_assoc]
    · -- the place of the graft would be behind the way up
      cases behind with
      | nil =>
        obtain ⟨rfl, -⟩ := List.cons.inj ha'
        exact absurd halt (Nat.lt_irrefl _)
      | cons z behind =>
        obtain rfl : a = z := (List.cons.inj ha').1
        have hsite : site ∈ later := by
          refine ho y later hsuffix a ha q before (behind ++ site :: right) ?_ site (by simp)
          rw [g.children_before, hl]
          simp
        have hlater : later <:+ rest := by
          obtain ⟨c, hc⟩ := hsuffix
          cases c with
          | nil => exact ⟨[], (List.cons.inj hc).2⟩
          | cons d c => exact ⟨c ++ [y], by simpa using (List.cons.inj hc).2⟩
        have hrest : site ∈ rest := hlater.subset hsite
        rcases List.mem_cons.mp hway with rfl | hvisited
        · exact absurd hrest (List.nodup_cons.mp f.nodup).1
        · exact absurd (f.mem_visited_of_mem_ancestors h hvisited)
            (f.ahead (List.mem_cons_of_mem _ hrest))
  · have hqt : q ≠ t.size := by
      rintro rfl
      rw [g.children_fresh] at hchildren
      simp at hchildren
    rw [g.children_eq hq hqt] at hchildren
    exact ho y later hsuffix a ha q before after hchildren

end OpenBehind

/-! ## Placeholders in the order of their numbers -/

/-- The placeholders among the children of a node, from first to last. -/
def placeholdersBelow (t : SyntaxTree) (id : NodeId) : List NodeId :=
  (t.children id).filter fun c => (t.node c).placeholder

/-- In every list of children the placeholders stand in the order of their numbers. -/
def Ascending (t : SyntaxTree) : Prop := ∀ id : NodeId, (t.placeholdersBelow id).Pairwise (· < ·)

section

variable {t t' : SyntaxTree} {p id : NodeId} {left right : List NodeId} {fresh : Node}

/-- A tree without placeholders. -/
lemma ascending_of_plain (hplain : ∀ id, (t.node id).placeholder = false) : t.Ascending := by
  intro id
  simp [placeholdersBelow, hplain]

/-- **A placeholder with no placeholder behind it keeps the order**, as its number is the
highest. -/
lemma Graft.ascending (g : t.Graft t' p left right fresh) (h : t.WellFormed)
    (hfresh : fresh.placeholder = true) (hright : ∀ c ∈ right, (t.node c).placeholder = false)
    (ha : t.Ascending) : t'.Ascending := by
  have hold : ∀ {l : List NodeId}, (∀ c ∈ l, c < t.size) →
      l.filter (fun c => (t'.node c).placeholder) = l.filter fun c => (t.node c).placeholder :=
    fun hl => List.filter_congr fun c hc => by rw [g.placeholder_eq (Nat.ne_of_lt (hl c hc))]
  intro id
  by_cases hp : id = p
  · subst hp
    have hlt : ∀ c ∈ left ++ right, c < t.size := fun c hc =>
      h.lt_size_of_mem (g.children_before ▸ hc)
    have hleft : ∀ c ∈ left, c < t.size := fun c hc => hlt c (List.mem_append_left _ hc)
    have hnone : right.filter (fun c => (t'.node c).placeholder) = [] := by
      rw [hold fun c hc => hlt c (List.mem_append_right _ hc), List.filter_eq_nil_iff]
      intro c hc
      simp [hright c hc]
    have hlist : t'.placeholdersBelow id =
        left.filter (fun c => (t.node c).placeholder) ++ [t.size] := by
      have hnew : (t'.node t.size).placeholder = true := g.placeholder_fresh.trans hfresh
      rw [placeholdersBelow, g.children_after, List.filter_append, List.filter_cons, if_pos hnew,
        hnone, hold hleft]
    rw [hlist, List.pairwise_append]
    refine ⟨?_, List.pairwise_singleton .., ?_⟩
    · refine (ha id).sublist ?_
      rw [placeholdersBelow, g.children_before]
      exact (List.sublist_append_left ..).filter _
    · intro c hc d hd
      rw [List.mem_singleton.mp hd]
      exact hleft c (List.mem_of_mem_filter hc)
  · by_cases hsize : id = t.size
    · simp [placeholdersBelow, hsize, g.children_fresh]
    · rw [placeholdersBelow, g.children_eq hp hsize, hold fun c hc => h.lt_size_of_mem hc]
      exact ha id

end

end SyntaxTree

namespace Pass

/-! ## The order along a pass -/

section Order

variable {settings : LinkSettings} {markers : List Marker} {tree : SyntaxTree}
  {comments : List Comment} {p q : Pass} {x : NodeId} {visited rest stack : List NodeId}

/-- **The steps of a visit keep lists open and placeholders in order.** -/
lemma Steps.ascending (hs : Steps markers (some x) p q) (hp : p.Sound)
    (f : p.tree.Frontier visited (x :: rest)) (ho : p.tree.OpenBehind (x :: rest))
    (ha : p.tree.Ascending) : q.tree.OpenBehind (x :: rest) ∧ q.tree.Ascending := by
  induction hs with
  | refl => exact ⟨ho, ha⟩
  | tail hsteps hstep ih =>
    have hsound := Steps.sound hsteps hp
    have hf := Steps.frontier hsteps hp f
    obtain ⟨ho, ha⟩ := ih
    cases hstep with
    | note => exact ⟨ho, ha⟩
    | advance => exact ⟨ho, ha⟩
    | flush move flushed flush =>
      cases flush with
      | dissolve => exact ⟨ho, ha⟩
      | deliver => exact ⟨ho, ha⟩
      | append journal text ended count graft => simp at ended
      | @insert _ site _ _ right _ journal text visiting onWay tolerates count graft =>
        obtain rfl := Option.some.inj visiting
        have htop := List.mem_cons_self (a := x) (l := rest)
        refine ⟨ho.graft hf hsound.wellFormed graft onWay,
          graft.ascending hsound.wellFormed rfl ?_ ha⟩
        -- behind the graft stand a node of the way up and nodes of the stack
        intro c hc
        rcases List.mem_cons.mp hc with rfl | hc
        · exact hsound.genuine_upward (hf.stack_lt htop) (hf.genuine htop) c onWay
        · have hopen := ho x rest List.suffix_rfl site onWay _ _ _ graft.children_before c hc
          exact hf.genuine (List.mem_cons_of_mem _ hopen)

/-- **Between visits** lists are open and placeholders in order. -/
lemma Reached.ascending (h : Reached settings tree comments p visited stack) (hb : tree.Built)
    (hsize : 0 < tree.size) : p.tree.OpenBehind stack ∧ p.tree.Ascending := by
  obtain ⟨hwf, hplain, -⟩ := hb.wellFormed_and_plain
  induction h with
  | start => exact ⟨SyntaxTree.OpenBehind.start hwf hsize, SyntaxTree.ascending_of_plain hplain⟩
  | visit reached unread visits ih =>
    have hu := reached.underway hb hsize
    have hsteps := (achieves_visit hu.sound unread hu.frontier).of_eq_ok visits
    obtain ⟨ho, ha⟩ := Steps.ascending hsteps hu.sound hu.frontier ih.1 ih.2
    exact ⟨ho.visit (Steps.sound hsteps hu.sound).wellFormed, ha⟩

/-- **At the end of the source** placeholders are put behind all others of the root. -/
lemma Ends.ascending (he : Ends settings p q) (hp : p.Sound) (hsize : 0 < p.tree.size)
    (ha : p.tree.Ascending) : q.tree.Ascending := by
  refine (he.keeps (motive := fun r => r.Sound ∧ 0 < r.tree.size ∧ r.tree.Ascending)
    ⟨hp, hsize, ha⟩ ?_ ?_).2.2
  · rintro r b c ⟨hr, hpos, har⟩ - - -
    exact ⟨⟨hr.wellFormed, hr.root_genuine, hr.leaf, hr.unfrozen⟩, hpos, har⟩
  · rintro r s b ⟨hr, hpos, har⟩ - - htrail
    obtain ⟨hstep, -⟩ := (achieves_trail hr hpos).of_eq_ok htrail
    have hs := hstep.sound hr
    have has : s.tree.Ascending := by
      cases hstep with
      | note => exact har
      | advance => exact har
      | flush move flushed flush =>
        cases flush with
        | dissolve => exact har
        | deliver => exact har
        | insert journal text visiting onWay tolerates count graft => simp at visiting
        | append journal text ended count graft =>
          exact graft.ascending hr.wellFormed rfl (by simp) har
    exact ⟨⟨hs.wellFormed, hs.root_genuine, hs.leaf, hs.unfrozen⟩,
      Nat.lt_of_lt_of_le hpos hstep.size_le, has⟩

end Order

/-! ## Groups in the order of their placeholders -/

/-- The flushed groups are accounted for, and placeholders get theirs in the order of their
numbers. -/
structure Successive (markers : List Marker) (p : Pass)
    (deliveries : List (NodeId × CommentGroup)) : Prop where
  accounted : Accounted markers p deliveries
  ascending : ((deliveries.map Prod.fst).filter fun id =>
    (p.tree.node id).placeholder).Pairwise (· < ·)

section Successive

variable {markers : List Marker} {visited : Option NodeId} {p q : Pass}
  {deliveries : List (NodeId × CommentGroup)}

/-- **Steps keep the order of the groups**: a placeholder that gets a group is new, since older ones
have one already. -/
lemma Step.successive (hs : Step markers visited p q) (hp : p.Sound) (hsize : 0 < p.tree.size)
    (h : Successive markers p deliveries) : ∃ after, Successive markers q after := by
  have hcore := fun {id : NodeId} (hid : id < p.tree.size) =>
    congrArg Node.placeholder (hs.core_eq hid)
  cases hs with
  | note move journal silent => exact ⟨deliveries, h.accounted.noted silent, h.ascending⟩
  | advance unread kept => exact ⟨deliveries, h.accounted.advanced, h.ascending⟩
  | @flush move after flushed flush =>
    obtain ⟨home, h'⟩ := h.accounted.flush hp hsize flushed flush
    refine ⟨_, h', ?_⟩
    have hold : (deliveries.map Prod.fst).filter (fun id => (after.tree.node id).placeholder) =
        (deliveries.map Prod.fst).filter fun id => (p.tree.node id).placeholder := by
      refine List.filter_congr fun id hid => ?_
      obtain ⟨d, hd, rfl⟩ := List.mem_map.mp hid
      exact hcore (h.accounted.inTree d hd)
    rw [List.map_append, List.filter_append, List.pairwise_append, hold]
    refine ⟨h.ascending, (List.pairwise_singleton (· < ·) home).sublist List.filter_sublist, ?_⟩
    intro id hid new hnew
    obtain ⟨d, hd, rfl⟩ := List.mem_map.mp (List.mem_of_mem_filter hid)
    obtain ⟨hhome, hplaceholder⟩ := List.mem_filter.mp hnew
    obtain rfl : new = home := List.mem_singleton.mp hhome
    refine Nat.lt_of_lt_of_le (h.accounted.inTree d hd) (Nat.not_lt.mp fun holder => ?_)
    -- an older placeholder would have got two groups
    obtain ⟨group, hgroup, -⟩ := h.accounted.single new ((hcore holder).symm.trans hplaceholder)
    obtain ⟨group', hgroup', -⟩ := h'.single new hplaceholder
    rw [List.filter_append, hgroup] at hgroup'
    simp at hgroup'

/-- Whole runs keep the order of the groups. -/
lemma Runs.successive (hr : Runs markers p q) (hp : p.Sound) (hsize : 0 < p.tree.size)
    (h : Successive markers p deliveries) : ∃ after, Successive markers q after := by
  induction hr with
  | refl => exact ⟨deliveries, h⟩
  | tail hpq hs ih =>
    obtain ⟨visited, hs⟩ := hs
    obtain ⟨after, hafter⟩ := ih
    exact hs.successive (Runs.sound hpq hp) (Nat.lt_of_lt_of_le hsize (Runs.size_le hpq)) hafter

/-- **The placeholders below a node get their groups in the order in which they stand.** -/
lemma Successive.map_fst_filter (h : Successive markers p deliveries) (ha : p.tree.Ascending)
    (parent : NodeId) :
    (deliveries.filter fun d => decide (d.1 ∈ p.tree.placeholdersBelow parent)).map Prod.fst =
      p.tree.placeholdersBelow parent := by
  have hempty : ∀ {id : NodeId}, id ∈ p.tree.placeholdersBelow parent →
      (p.tree.node id).placeholder = true := fun hid => (List.mem_filter.mp hid).2
  refine List.Pairwise.eq_of_mem_iff (r := (· < ·)) ?_ (ha parent) fun id => ⟨?_, ?_⟩
  · refine h.ascending.sublist ?_
    rw [List.filter_map]
    refine List.Sublist.map _ (List.monotone_filter_right _ fun d hd => ?_)
    exact hempty (of_decide_eq_true hd)
  · intro hid
    obtain ⟨d, hd, rfl⟩ := List.mem_map.mp hid
    exact of_decide_eq_true (List.mem_filter.mp hd).2
  · intro hid
    obtain ⟨group, hgroup, -⟩ := h.accounted.single id (hempty hid)
    have hmem : (id, group) ∈ deliveries.filter fun d => decide (d.1 = id) := by simp [hgroup]
    exact List.mem_map.mpr ⟨(id, group),
      List.mem_filter.mpr ⟨List.mem_of_mem_filter hmem, decide_eq_true hid⟩, rfl⟩

end Successive

/-- **A pass that succeeds** gives the groups to placeholders in the order of their numbers, and
leaves the placeholders of each list in this order. -/
theorem exists_successive (settings : LinkSettings) {tree : SyntaxTree} (hb : tree.Built)
    {comments : List Comment} (horder : CommentStream.checkOrder comments = .ok ())
    (hroot : comments = [] ∨ 0 < tree.size) :
    ∃ p deliveries, run settings (start tree ⟨comments, 0⟩) = .ok () p ∧
      linkComments settings tree comments = ⟨p.tree, p.map, p.journal, none⟩ ∧
      Successive settings.markers p deliveries ∧ (deliveries.map Prod.snd).flatten = comments ∧
      p.tree.Ascending := by
  obtain ⟨hwf, hplain, -⟩ := hb.wellFormed_and_plain
  have haccounted := accounted_start settings.markers hplain comments
  by_cases hnil : comments = []
  · subst hnil
    refine ⟨_, [], run_start_nil settings tree, ?_, ⟨?_, by simp⟩, rfl,
      SyntaxTree.ascending_of_plain hplain⟩
    · rw [linkComments_of_checkOrder_ok horder, run_start_nil]
    · exact ⟨haccounted.flushed, haccounted.read, haccounted.inTree, haccounted.entries,
        haccounted.single⟩
  · have hsize := hroot.resolve_left hnil
    obtain ⟨p, q, hrun, hruns, hdone, hgroup, ⟨journal, rfl⟩, he⟩ :=
      exists_runs_of_linkComments settings hb horder hroot
    obtain ⟨deliveries, h, hascending⟩ := hruns.successive (sound_start hwf hplain _) hsize
      ⟨haccounted, by simp⟩
    refine ⟨_, deliveries, hrun, he,
      ⟨⟨h.flushed, h.read, h.inTree, h.entries, h.single⟩, hascending⟩, ?_, ?_⟩
    · have hread := h.read
      have hall : q.stream.comments.length ≤ q.stream.cursor + 1 :=
        Nat.le_succ_of_le (of_decide_eq_true hdone)
      rw [hgroup, List.append_nil, List.take_of_length_le hall, hruns.stream.1] at hread
      exact hread
    · obtain ⟨r, visited, stack, final, hreached, -, hends, journal', hfinal⟩ :=
        exists_reached_of_run hb hnil hsize hrun
      have hu := hreached.underway hb hsize
      have htree := congrArg (fun r : Pass => r.tree) hfinal
      dsimp only at htree ⊢
      rw [htree]
      exact hends.ascending hu.sound (Nat.lt_of_lt_of_le hsize hu.runs.size_le)
        (hreached.ascending hb hsize).2

end Pass

/-! ## Placeholders hold groups in stream order -/

/-- Two members of a list in this order, and what stands around them. -/
lemma exists_split_of_pair {α : Type} {a b : α} {l : List α} (h : [a, b] <+ l) :
    ∃ before between after, l = before ++ a :: between ++ b :: after := by
  obtain ⟨upTo, behind, rfl, ha, hb⟩ := List.cons_sublist_iff.mp h
  obtain ⟨before, between, rfl⟩ := List.append_of_mem ha
  obtain ⟨between', after, rfl⟩ := List.append_of_mem (List.singleton_sublist.mp hb)
  exact ⟨before, between ++ between', after, by simp⟩

/-- **Placeholders of one list hold groups in stream order.**  The flushed groups, in the order of
the pass, are the comments of the source.  Reading the placeholders among the children of any node
from first to last, those at the end of the source included, gives some of these groups in this
order: each placeholder holds one of them, and all comments of an earlier placeholder stand before
all comments of a later one. -/
theorem linkComments_placeholders_in_order (settings : LinkSettings) {tree : SyntaxTree}
    (hb : tree.Built) {comments : List Comment} {stream : CommentStream}
    (hstream : CommentStream.ofComments comments = .ok stream)
    (hroot : comments = [] ∨ tree.root? ≠ none) :
    ∃ p deliveries, Pass.run settings (Pass.start tree stream) = .ok () p ∧
      linkComments settings tree comments = ⟨p.tree, p.map, p.journal, none⟩ ∧
      deliveries.map Prod.snd = p.trace.toList.filterMap Move.group? ∧
      (deliveries.map Prod.snd).flatten = comments ∧
      p.map.entries = ledger settings.markers (Pass.assignedOf deliveries) ∧
      ∀ parent : NodeId, ∃ held : List (NodeId × CommentGroup),
        held <+ deliveries ∧ held.map Prod.fst = p.tree.placeholdersBelow parent ∧
        (∀ d ∈ held, deliveries.filter (fun e => decide (e.1 = d.1)) = [d] ∧
          d.2.compose settings.markers ≠ "" ∧
          p.map.get? d.1 = some (d.2.compose settings.markers)) ∧
        held.Pairwise fun d e => ∃ before between after : List Comment,
          comments = before ++ d.2 ++ between ++ e.2 ++ after := by
  obtain rfl := CommentStream.eq_of_ofComments hstream
  have horder := CommentStream.checkOrder_of_ofComments hstream
  obtain ⟨p, deliveries, hrun, he, h, hall, hascending⟩ := Pass.exists_successive settings hb horder
    (hroot.imp_right SyntaxTree.size_pos_of_root?)
  refine ⟨p, deliveries, hrun, he, h.accounted.flushed, hall, h.accounted.entries, ?_⟩
  intro parent
  refine ⟨_, List.filter_sublist, h.map_fst_filter hascending parent, ?_, ?_⟩
  · rintro ⟨id, group⟩ hd
    obtain ⟨hmem, hbelow⟩ := List.mem_filter.mp hd
    have hempty := (List.mem_filter.mp (of_decide_eq_true hbelow)).2
    obtain ⟨only, honly, htext, hget, -⟩ := h.accounted.get?_placeholder hempty
    have heq : (id, group) ∈ deliveries.filter fun e => decide (e.1 = id) :=
      List.mem_filter.mpr ⟨hmem, by simp⟩
    rw [honly, List.mem_singleton] at heq
    obtain ⟨-, rfl⟩ := Prod.mk.inj heq
    exact ⟨honly, htext, hget⟩
  · rw [List.pairwise_iff_forall_sublist]
    intro d e hpair
    obtain ⟨before, between, after, hsplit⟩ :=
      exists_split_of_pair (hpair.trans List.filter_sublist)
    refine ⟨(before.map Prod.snd).flatten, (between.map Prod.snd).flatten,
      (after.map Prod.snd).flatten, ?_⟩
    rw [← hall, hsplit]
    simp

/-- Comments above the call, above the statement and behind the statement of the sample tree, all of
them between blank lines. -/
def scatteredComments : List Comment :=
  [⟨.line, ⟨1, 0⟩, ⟨1, 4⟩, "// a"⟩, ⟨.line, ⟨5, 0⟩, ⟨5, 4⟩, "// b"⟩,
    ⟨.line, ⟨8, 0⟩, ⟨8, 4⟩, "// c"⟩]

/-- Below the root of the sample tree three placeholders stand before the call, before the statement
and at the end, in the order of their comments, as `linkComments_placeholders_in_order` says. -/
theorem linkComments_placeholders_in_order_sample :
    SyntaxTree.sample.Built ∧
      CommentStream.ofComments scatteredComments = .ok ⟨scatteredComments, 0⟩ ∧
      SyntaxTree.sample.root? ≠ none ∧
      ∃ p deliveries held,
        Pass.run .standard (Pass.start SyntaxTree.sample ⟨scatteredComments, 0⟩) = .ok () p ∧
        p.tree.children 0 = [4, 1, 5, 3, 6] ∧
        (deliveries.map Prod.snd).flatten = scatteredComments ∧ held <+ deliveries ∧
        held.map Prod.fst = [4, 5, 6] ∧
        held.Pairwise fun d e => ∃ before between after : List Comment,
          scatteredComments = before ++ d.2 ++ between ++ e.2 ++ after := by
  have hstream : CommentStream.ofComments scatteredComments = .ok ⟨scatteredComments, 0⟩ := rfl
  have hroot : SyntaxTree.sample.root? ≠ none := by decide
  obtain ⟨p, deliveries, hrun, he, -, hall, -, hheld⟩ :=
    linkComments_placeholders_in_order .standard SyntaxTree.built_sample hstream (.inr hroot)
  obtain ⟨held, hsub, hbelow, -, hpairwise⟩ := hheld 0
  have hchildren : (linkComments .standard SyntaxTree.sample scatteredComments).tree.children 0 =
      [4, 1, 5, 3, 6] := by
    decide +kernel
  have hlist : (linkComments .standard SyntaxTree.sample scatteredComments).tree.placeholdersBelow
      0 = [4, 5, 6] := by
    decide +kernel
  rw [he] at hchildren hlist
  exact ⟨SyntaxTree.built_sample, hstream, hroot, p, deliveries, held, hrun, hchildren, hall, hsub,
    hbelow.trans hlist, hpairwise⟩

end Marginalia
