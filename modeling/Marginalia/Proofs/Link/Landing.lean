import Marginalia.Proofs.Link.Step

/-!
# Where a group lands

A flush that succeeds leaves no group under way, and its group has landed: on a node on the way up
from the node it was meant for, or on a new placeholder before such a node.  This is read off the
operations backwards, from their outcome, so it holds whatever the state they start in.

## Main definitions

* `Placement.Lands` — a group landed on a node of the tree, or on a new placeholder.

## Main results

* `Placement.lands_of_linkGroup`, `Placement.lands_of_placeFloating` — where groups land.
* `Pass.flushed_of_link`, `Pass.flushed_of_float`, `Pass.flushed_of_trail` — what a flush leaves of
  the rest of the state.
-/

namespace Marginalia

/-! ## Operations that succeed, read backwards -/

section

variable {σ α β : Type}

/-- Two operations in a row succeed only if both of them do. -/
lemma bind_eq_ok {ε : Type} {op : EStateM ε σ α} {next : α → EStateM ε σ β} {s s' : σ} {b : β}
    (h : (op >>= next) s = .ok b s') : ∃ a t, op s = .ok a t ∧ next a t = .ok b s' := by
  have hbind : EStateM.bind op next s = .ok b s' := h
  rw [EStateM.bind] at hbind
  cases hop : op s with
  | ok a t =>
    rw [hop] at hbind
    exact ⟨a, t, rfl, hbind⟩
  | error e t =>
    rw [hop] at hbind
    simp at hbind

/-- Returning a value gives this value and keeps the state. -/
lemma pure_eq_ok {ε : Type} {a b : α} {s s' : σ} (h : (pure a : EStateM ε σ α) s = .ok b s') :
    a = b ∧ s = s' := EStateM.Result.ok.inj h

/-- An operation that has one outcome has no other one. -/
lemma Achieves.of_eq_ok {op : EStateM LinkError σ α} {s s' : σ} {a : α} {post : α → σ → Prop}
    (h : Achieves op s post) (he : op s = .ok a s') : post a s' := by
  obtain ⟨b, t, hop, hpost⟩ := h
  obtain ⟨rfl, rfl⟩ := EStateM.Result.ok.inj (hop.symm.trans he)
  exact hpost

end

namespace Placement

variable {markers : List Marker} {p q : Placement} {id : NodeId}

/-- The group of `p`, which was meant for the node `id`, landed on the node `home` of `q`. -/
inductive Lands (markers : List Marker) (p : Placement) (id : NodeId) : NodeId → Placement → Prop
  /-- It landed on a node on the way up, or nothing was left of it. -/
  | on {home : NodeId} {q : Placement} (onWay : home ∈ p.tree.upward id) (tree_eq : q.tree = p.tree)
    (group_eq : q.group = [])
    (entries_eq : q.map.entries =
      if p.group.compose markers = "" then p.map.entries
      else CommentMap.put home (p.group.compose markers) p.map.entries) : Lands markers p id home q
  /-- It landed on a new placeholder before a node on the way up. -/
  | before {site parent : NodeId} {left right : List NodeId} {place : Position} {q : Placement}
    (onWay : site ∈ p.tree.upward id) (text : p.group.compose markers ≠ "")
    (graft : p.tree.Graft q.tree parent left (site :: right)
      (SyntaxTree.placeholderAt parent place left.length))
    (group_eq : q.group = [])
    (map_eq : q.map = p.map.extend p.tree.size (p.group.compose markers)) :
    Lands markers p id p.tree.size q

/-- A text is added only to an open map. -/
lemma frozen_of_addEntry {text : String} (h : addEntry id text p = .ok () q) :
    p.map.frozen = false := by
  obtain ⟨_, _, hget, h⟩ := bind_eq_ok h
  obtain ⟨rfl, rfl⟩ := EStateM.Result.ok.inj hget
  obtain ⟨extended, r, hadd, -⟩ := bind_eq_ok h
  cases hf : p.map.frozen with
  | false => rfl
  | true =>
    simp only [CommentMap.add, hf, if_true, ofExcept] at hadd
    cases hadd

/-- Adding an entry extends the map, and writes to the journal only. -/
lemma exists_of_addEntry {text : String} (h : addEntry id text p = .ok () q) :
    ∃ journal, q = { p with map := p.map.extend id text, journal := journal } :=
  (achieves_addEntry (frozen_of_addEntry h)).of_eq_ok h

/-- Storing a text on a placeholder extends the map, and writes to the journal only. -/
lemma exists_of_anchor {text : String} {home : NodeId} (h : anchor id text p = .ok home q) :
    ∃ journal, q = { p with map := p.map.extend id text, journal := journal } := by
  obtain ⟨_, r, hadd, -⟩ := bind_eq_ok h
  exact ((achieves_anchor (frozen_of_addEntry hadd)).of_eq_ok h).2

/-- The node that takes a comment is on the way up, and the state is kept. -/
lemma exists_of_destination {home : NodeId} (h : destination id p = .ok home q) :
    home ∈ p.tree.upward id ∧ q = p := by
  unfold destination at h
  rw [get_bind_apply] at h
  cases htarget : p.tree.destination? id with
  | some target =>
    simp only [htarget] at h
    obtain ⟨rfl, rfl⟩ := pure_eq_ok h
    exact ⟨List.mem_of_find?_eq_some htarget, rfl⟩
  | none =>
    simp only [htarget] at h
    cases h

/-- **A group that is placed on a node lands on the way up from it.** -/
lemma lands_of_linkGroup {written : Bool} (h : linkGroup markers id p = .ok written q) :
    ∃ home ∈ p.tree.upward id, q.tree = p.tree ∧ q.group = [] ∧
      q.map.entries =
        if p.group.compose markers = "" then p.map.entries
        else CommentMap.put home (p.group.compose markers) p.map.entries := by
  obtain ⟨home, r, hdest, hrest⟩ := bind_eq_ok h
  obtain ⟨hway, rfl⟩ := exists_of_destination hdest
  obtain ⟨text, s, htake, hrest⟩ := bind_eq_ok hrest
  obtain ⟨rfl, journal, rfl⟩ := achieves_takeGroup.of_eq_ok htake
  refine ⟨home, hway, ?_⟩
  by_cases htext : r.group.compose markers = ""
  · rw [if_pos (by simp [htext])] at hrest
    obtain ⟨-, rfl⟩ := pure_eq_ok hrest
    exact ⟨rfl, rfl, by rw [if_pos htext]⟩
  · rw [if_neg (by simpa using htext)] at hrest
    obtain ⟨_, u, hadd, hrest⟩ := bind_eq_ok hrest
    obtain ⟨journal, rfl⟩ := exists_of_addEntry hadd
    obtain ⟨_, _, hget, hrest⟩ := bind_eq_ok hrest
    obtain ⟨rfl, rfl⟩ := EStateM.Result.ok.inj hget
    obtain ⟨_, v, hnote, hrest⟩ := bind_eq_ok hrest
    obtain ⟨journal, rfl⟩ := (achieves_note _).of_eq_ok hnote
    obtain ⟨-, rfl⟩ := pure_eq_ok hrest
    exact ⟨rfl, rfl, by rw [if_neg htext]; rfl⟩

/-- Inserting a placeholder before a node changes the tree, and writes to the journal only. -/
lemma exists_of_insertBefore {fresh : NodeId} (h : insertBefore id p = .ok fresh q) :
    ∃ grown journal, p.tree.insertPlaceholderBefore id = .ok (fresh, grown) ∧
      q = { p with tree := grown, journal := journal } := by
  unfold insertBefore at h
  rw [get_bind_apply] at h
  cases hinsert : p.tree.insertPlaceholderBefore id with
  | error e =>
    simp only [hinsert] at h
    cases h
  | ok inserted =>
    simp only [hinsert] at h
    obtain ⟨rfl, rfl⟩ := EStateM.Result.ok.inj h
    exact ⟨_, _, rfl, rfl⟩

/-- A floating group is placed on a node on the way up, or on a placeholder before such a node. -/
lemma exists_of_placeFloating {held : Option NodeId}
    (h : placeFloating markers id p = .ok held q) :
    ∃ site ∈ p.tree.upward id,
      (∃ written, linkGroup markers site p = .ok written q) ∨
      (p.group.compose markers = "" ∧ ∃ journal, q = { p with group := [], journal := journal }) ∨
      (p.group.compose markers ≠ "" ∧ p.tree.parentTolerates site = true ∧
        ∃ fresh grown journal, p.tree.insertPlaceholderBefore site = .ok (fresh, grown) ∧
          q = { tree := grown, group := [], map := p.map.extend fresh (p.group.compose markers),
                journal := journal }) := by
  set site := (p.tree.floatingSite? id).getD id with hsite
  have hway : site ∈ p.tree.upward id := by
    cases hs : p.tree.floatingSite? id with
    | none =>
      rw [hsite, hs]
      exact List.mem_cons_self ..
    | some found =>
      rw [hsite, hs]
      exact List.mem_of_find?_eq_some hs
  refine ⟨site, hway, ?_⟩
  have hbranch : (if p.tree.parentTolerates site then do
        let text ← takeGroup markers
        if text.isEmpty then return none
        else
          let placeholder ← insertBefore site
          return some (← anchor placeholder text)
      else do
        let written ← linkGroup markers site
        return if written then some site else none : Placing (Option NodeId)) p = .ok held q := h
  by_cases htol : p.tree.parentTolerates site = true
  · rw [if_pos htol] at hbranch
    obtain ⟨text, r, htake, hrest⟩ := bind_eq_ok hbranch
    obtain ⟨rfl, journal, rfl⟩ := achieves_takeGroup.of_eq_ok htake
    by_cases htext : p.group.compose markers = ""
    · rw [if_pos (by simp [htext])] at hrest
      obtain ⟨-, rfl⟩ := pure_eq_ok hrest
      exact .inr (.inl ⟨htext, journal, rfl⟩)
    · rw [if_neg (by simpa using htext)] at hrest
      obtain ⟨fresh, r, hinsert, hrest⟩ := bind_eq_ok hrest
      obtain ⟨grown, journal, hgrown, rfl⟩ := exists_of_insertBefore hinsert
      obtain ⟨_, r, hanchor, hrest⟩ := bind_eq_ok hrest
      obtain ⟨journal, rfl⟩ := exists_of_anchor hanchor
      obtain ⟨-, rfl⟩ := pure_eq_ok hrest
      exact .inr (.inr ⟨htext, htol, fresh, grown, journal, hgrown, rfl⟩)
  · rw [if_neg htol] at hbranch
    obtain ⟨written, r, hlink, hrest⟩ := bind_eq_ok hbranch
    obtain ⟨-, rfl⟩ := pure_eq_ok hrest
    exact .inl ⟨written, hlink⟩

/-- No group is under way once a floating one is placed. -/
lemma group_of_placeFloating {held : Option NodeId}
    (h : placeFloating markers id p = .ok held q) : q.group = [] := by
  obtain ⟨site, -, ⟨written, hlink⟩ | ⟨-, journal, rfl⟩ | ⟨-, -, fresh, grown, journal, -, rfl⟩⟩ :=
    exists_of_placeFloating h
  · obtain ⟨-, -, -, hgroup, -⟩ := lands_of_linkGroup hlink
    exact hgroup
  · rfl
  · rfl

/-- **A floating group lands** on the way up, or on a new placeholder before a node there. -/
lemma lands_of_placeFloating (hwf : p.tree.WellFormed) (hid : id < p.tree.size)
    {held : Option NodeId} (h : placeFloating markers id p = .ok held q) :
    ∃ home, Lands markers p id home q := by
  obtain ⟨site, hway, ⟨written, hlink⟩ | ⟨hblank, journal, rfl⟩ |
    ⟨htext, htol, fresh, grown, journal, hinsert, rfl⟩⟩ := exists_of_placeFloating h
  · obtain ⟨home, hhome, htree, hgroup, hentries⟩ := lands_of_linkGroup hlink
    exact ⟨home, .on (hwf.mem_upward_trans hid hway hhome) htree hgroup hentries⟩
  · exact ⟨site, .on hway rfl rfl (by rw [if_pos hblank])⟩
  · cases hparent : p.tree.parent? site with
    | none => simp [SyntaxTree.parentTolerates, hparent] at htol
    | some parent =>
      obtain ⟨t', left, right, ht', -, hgraft⟩ :=
        SyntaxTree.graft_insertPlaceholderBefore hwf hparent
      obtain ⟨rfl, rfl⟩ := Prod.mk.inj (Except.ok.inj (ht'.symm.trans hinsert))
      exact ⟨p.tree.size, .before hway htext hgraft rfl rfl⟩

/-- No group is under way once a trailing one is placed. -/
lemma group_of_placeTrailing {held : Option NodeId}
    (h : placeTrailing markers p = .ok held q) : q.group = [] := by
  unfold placeTrailing at h
  rw [get_bind_apply] at h
  cases hroot : p.tree.root? with
  | none =>
    simp only [hroot] at h
    cases h
  | some root =>
    simp only [hroot] at h
    obtain ⟨text, r, htake, hrest⟩ := bind_eq_ok h
    obtain ⟨rfl, journal, rfl⟩ := achieves_takeGroup.of_eq_ok htake
    by_cases htext : p.group.compose markers = ""
    · rw [if_pos (by simp [htext])] at hrest
      obtain ⟨-, rfl⟩ := pure_eq_ok hrest
      rfl
    · rw [if_neg (by simpa using htext)] at hrest
      obtain ⟨fresh, r, happend, hrest⟩ := bind_eq_ok hrest
      obtain ⟨-, rfl⟩ := EStateM.Result.ok.inj happend
      obtain ⟨_, r, hanchor, hrest⟩ := bind_eq_ok hrest
      obtain ⟨journal, rfl⟩ := exists_of_anchor hanchor
      obtain ⟨-, rfl⟩ := pure_eq_ok hrest
      rfl

/-- **Asking for an argument** changes the journal only.  The answer is the argument itself if there
is no next one or a comma stands before that, nothing if the comment ends behind the start of the
next one, and else the next one. -/
lemma exists_of_resolveArgument {comment : Comment} {sourceLine : String} {target : Option NodeId}
    (h : resolveArgument id comment sourceLine p = .ok target q) :
    (∃ journal, q = { p with journal := journal }) ∧
      (target = some id ∨ ∃ next, p.tree.nextSibling id = .ok (some next) ∧
        (target = none ∧ (p.tree.node next).start.column ≤ comment.stop.column ∨
          target = some next ∧ commaBetween comment (p.tree.node next) sourceLine = false)) := by
  cases hnext : p.tree.nextSibling id with
  | error e =>
    rw [resolveArgument, get_bind_apply, hnext] at h
    cases h
  | ok found =>
    cases found with
    | none =>
      rw [resolveArgument_of_last hnext] at h
      obtain ⟨rfl, rfl⟩ := EStateM.Result.ok.inj h
      exact ⟨⟨_, rfl⟩, .inl rfl⟩
    | some next =>
      rw [resolveArgument_of_nextSibling hnext] at h
      split at h
      · obtain ⟨rfl, rfl⟩ := EStateM.Result.ok.inj h
        refine ⟨⟨_, rfl⟩, ?_⟩
        cases hcomma : commaBetween comment (p.tree.node next) sourceLine with
        | true => exact .inl rfl
        | false => exact .inr ⟨next, rfl, .inr ⟨rfl, hcomma⟩⟩
      · next hbehind =>
        obtain ⟨rfl, rfl⟩ := EStateM.Result.ok.inj h
        exact ⟨⟨_, rfl⟩, .inr ⟨next, rfl, .inl ⟨rfl, Int.not_lt.mp hbehind⟩⟩⟩

end Placement

namespace Pass

variable {settings : LinkSettings} {p q : Pass} {id : NodeId}

/-- The step `move` took place and left no group under way; nothing was read. -/
structure Flushed (move : Move) (p q : Pass) : Prop where
  group_eq : q.group = []
  stream_eq : q.stream = p.stream
  trace_eq : q.trace = p.trace.push move

/-- An operation of placing that succeeds in a pass changes its placement only. -/
lemma exists_of_place {α : Type} {operation : Placing α} {a : α}
    (h : place operation p = .ok a q) :
    ∃ after, operation p.toPlacement = .ok a after ∧ q = { p with toPlacement := after } := by
  rw [place] at h
  cases he : operation p.toPlacement with
  | ok b after =>
    rw [he] at h
    obtain ⟨rfl, rfl⟩ := EStateM.Result.ok.inj h
    exact ⟨after, rfl, rfl⟩
  | error e after =>
    rw [he] at h
    cases h

/-- A flush inside a pass, and the note of it in the trace. -/
lemma exists_of_flush {α : Type} {operation : Placing α} {move : CommentGroup → Move}
    (h : (do record (move (← get).group); let _ ← place operation : Linking Unit) p = .ok () q) :
    ∃ a after, operation p.toPlacement = .ok a after ∧
      q = { p with toPlacement := after, trace := p.trace.push (move p.group) } := by
  rw [get_bind_apply] at h
  obtain ⟨_, r, hrecord, hrest⟩ := bind_eq_ok h
  obtain ⟨-, rfl⟩ := EStateM.Result.ok.inj hrecord
  obtain ⟨a, r, hplace, hrest⟩ := bind_eq_ok hrest
  obtain ⟨after, hafter, rfl⟩ := exists_of_place hplace
  obtain ⟨-, rfl⟩ := pure_eq_ok hrest
  exact ⟨a, after, hafter, rfl⟩

/-- Linking a group to a node is a flush. -/
lemma flushed_of_link (h : link settings id p = .ok () q) : Flushed (.link id p.group) p q := by
  obtain ⟨_, after, hafter, rfl⟩ := exists_of_flush h
  obtain ⟨-, -, -, hgroup, -⟩ := Placement.lands_of_linkGroup hafter
  exact ⟨hgroup, rfl, rfl⟩

/-- Placing a floating group is a flush. -/
lemma flushed_of_float (h : float settings id p = .ok () q) : Flushed (.float id p.group) p q := by
  obtain ⟨_, after, hafter, rfl⟩ := exists_of_flush h
  exact ⟨Placement.group_of_placeFloating hafter, rfl, rfl⟩

/-- Placing a trailing group is a flush. -/
lemma flushed_of_trail (h : trail settings p = .ok () q) : Flushed (.trail p.group) p q := by
  obtain ⟨_, after, hafter, rfl⟩ := exists_of_flush h
  exact ⟨Placement.group_of_placeTrailing hafter, rfl, rfl⟩

end Pass

end Marginalia
