import Marginalia.Proofs.Comment.Ledger
import Marginalia.Proofs.Link.Placing
import Marginalia.Proofs.Syntax.Arranged

/-!
# Floating groups from end to end

A floating group goes up from a node until it meets the root, a node whose parent tolerates
placeholders, or a node that accepts comments.  What becomes of it there depends on this node and on
the text of the group alone, and holds for every arrangement of flags: on a root that does not
accept comments nothing is done at all, and else the group is gone and its text, if there is one, is
added to one entry.

## Main definitions

* `SyntaxTree.Stops`, `SyntaxTree.FirstStop` — where the way up of a floating group ends.
* `CommentMap.Gains` — a map has one text more.
* `Placement.Floated` — what becomes of a floating group at that place.

## Main results

* `SyntaxTree.Arranged.exists_firstStop` — the way up ends, and there the group is placed.
* `Placement.placeFloating_end_to_end` — what becomes of a floating group.
-/

namespace Marginalia

/-! ## Where the way up ends -/

namespace SyntaxTree

/-- The way up of a floating group ends at a node that is the root, or whose parent tolerates
placeholders, or that accepts comments. -/
def Stops (t : SyntaxTree) (id : NodeId) : Prop :=
  t.parent? id = none ∨ (∃ p, t.parent? id = some p ∧ (t.node p).tolerates = true) ∨
    (t.node id).accepts = true

/-- The first node at which the way up ends: of a node, its parent, the parent of that and so on. -/
inductive FirstStop (t : SyntaxTree) : NodeId → NodeId → Prop
  | here {id : NodeId} (stops : t.Stops id) : FirstStop t id id
  | above {id p site : NodeId} (passes : ¬ t.Stops id) (parent : t.parent? id = some p)
    (rest : FirstStop t p site) : FirstStop t id site

variable {t : SyntaxTree} {id p : NodeId}

/-- The parent of a node tolerates placeholders if there is one that does. -/
lemma parentTolerates_iff :
    t.parentTolerates id = true ↔ ∃ p, t.parent? id = some p ∧ (t.node p).tolerates = true := by
  cases h : t.parent? id <;> simp [parentTolerates, h]

/-- The way up ends at a node where the search for it ends. -/
lemma stops_iff :
    t.Stops id ↔
      ((t.parent? id).isNone || t.parentTolerates id || (t.node id).accepts) = true := by
  simp [Stops, parentTolerates_iff, or_assoc]

/-- It can be decided whether the way up ends at a node. -/
instance : Decidable (t.Stops id) := decidable_of_iff _ stops_iff.symm

/-- **The way up ends**, and there the group is placed. -/
lemma Arranged.exists_firstStop (h : t.Arranged) (hid : id < t.size) :
    ∃ site, t.floatingSite? id = some site ∧ t.FirstStop id site ∧ t.Stops site := by
  have hhere : ∀ id, t.Stops id → t.floatingSite? id = some id := by
    intro id hstops
    exact List.find?_cons_of_pos (stops_iff.mp hstops)
  refine h.upward_induction (motive := fun id => ∃ site, t.floatingSite? id = some site ∧
    t.FirstStop id site ∧ t.Stops site) ?_ ?_ id hid
  · intro hpos
    have hroot : t.Stops 0 := .inl ((h.orphan hpos).mpr rfl)
    exact ⟨0, hhere 0 hroot, .here hroot, hroot⟩
  · rintro id p hp ⟨site, hsite, hfirst, hstops⟩
    by_cases hid : t.Stops id
    · exact ⟨id, hhere id hid, .here hid, hid⟩
    · refine ⟨site, ?_, .above hid hp hfirst, hstops⟩
      rw [floatingSite?, h.upward_of_parent? hp]
      refine Eq.trans (List.find?_cons_of_neg ?_) hsite
      exact mt stops_iff.mpr hid

end SyntaxTree

/-! ## One text more -/

/-- The map `m'` is `m` with a text added to the entry of `key`, and to no other. -/
structure CommentMap.Gains (m m' : CommentMap) (key : Int) (text : String) : Prop where
  entry : m'.get? key = some ((m.get? key).elim text fun old => old ++ "\n" ++ text)
  others : ∀ k, k ≠ key → m'.get? k = m.get? k
  keys : m'.keys = if key ∈ m.keys then m.keys else m.keys ++ [key]
  frozen : m'.frozen = m.frozen

/-- Extending the map adds a text to one entry. -/
lemma CommentMap.gains_extend (m : CommentMap) (id : NodeId) (text : String) :
    m.Gains (m.extend id text) id text where
  entry := by
    rw [get?, extend, lookup_put, if_pos rfl, get?]
    cases m.entries.lookup (id : Int) <;> rfl
  others := fun k hk => by rw [get?, extend, lookup_put, if_neg hk, get?]
  keys := keys_put ..
  frozen := rfl

/-! ## What becomes of a floating group -/

namespace Placement

/-- What becomes of a floating group whose way up ends at the node `site`: which node holds it, and
the state afterwards. -/
inductive Floated (markers : List Marker) (p : Placement) (site : NodeId) :
    Option NodeId → Placement → Prop
  /-- Nothing is left of the group, and no node holds it. -/
  | blank (journal : Journal) (text : p.group.compose markers = "") :
    Floated markers p site none { p with group := [], journal := journal }
  /-- A new placeholder just before the node holds it, as the parent tolerates one. -/
  | before {parent : NodeId} {left right : List NodeId} {grown : SyntaxTree} {map : CommentMap}
    (journal : Journal) (text : p.group.compose markers ≠ "")
    (parent_eq : p.tree.parent? site = some parent)
    (tolerates : (p.tree.node parent).tolerates = true)
    (graft : p.tree.Graft grown parent left (site :: right)
      (SyntaxTree.placeholderAt parent (p.tree.node site).start left.length))
    (count : grown.placeholderCount = p.tree.placeholderCount + 1)
    (gains : p.map.Gains map p.tree.size (p.group.compose markers)) :
    Floated markers p site (some p.tree.size)
      { tree := grown, group := [], map := map, journal := journal }
  /-- The node itself holds it. -/
  | on {map : CommentMap} (journal : Journal) (text : p.group.compose markers ≠ "")
    (refuses : p.tree.parentTolerates site = false)
    (gains : p.map.Gains map site (p.group.compose markers)) :
    Floated markers p site (some site) { p with group := [], map := map, journal := journal }

variable {markers : List Marker} {p : Placement} {id site : NodeId}

/-- A group that reached a root that does not accept comments goes nowhere. -/
lemma placeFloating_of_refusing_root (hsite : p.tree.floatingSite? id = some site)
    (hroot : p.tree.parent? site = none) (hrefuses : (p.tree.node site).accepts = false) :
    placeFloating markers id p =
      .error (.noDestination site (p.tree.node site).kind) p := by
  have hnone : p.tree.destination? site = none := by
    simp [SyntaxTree.destination?, SyntaxTree.upward_of_orphan hroot, hrefuses]
  have hdestination : destination site p =
      .error (.noDestination site (p.tree.node site).kind) p := by
    rw [destination, get_bind_apply]
    simp only [hnone]
    rfl
  rw [placeFloating, get_bind_apply]
  simp only [hsite, Option.getD_some]
  rw [if_neg (by simp [SyntaxTree.parentTolerates, hroot]), linkGroup]
  exact bind_apply_of_error (bind_apply_of_error hdestination)

/-- **A floating group, from end to end**: in every tree, whatever its flags are, the way up from a
node ends.  If it ends at the root and that does not accept comments, an assumption is broken and
nothing has changed.  Else the group is gone.  If nothing was left of it, the tree and the map are
as before; and if something was, it has been added to one entry, of a new placeholder just before
the node where the way up ended, if the parent of that tolerates one, and of that node otherwise. -/
theorem placeFloating_end_to_end (markers : List Marker) (p : Placement) (id : NodeId)
    (harranged : p.tree.Arranged) (hid : id < p.tree.size) (hopen : p.map.frozen = false) :
    ∃ site, p.tree.FirstStop id site ∧
      (p.tree.parent? site = none ∧ (p.tree.node site).accepts = false →
        let refusal := LinkError.noDestination site (p.tree.node site).kind
        refusal.breaksInvariant = true ∧ placeFloating markers id p = .error refusal p) ∧
      (¬ (p.tree.parent? site = none ∧ (p.tree.node site).accepts = false) →
        ∃ holder q, placeFloating markers id p = .ok holder q ∧
          Floated markers p site holder q) := by
  obtain ⟨site, hsite, hfirst, hstops⟩ := harranged.exists_firstStop hid
  refine ⟨site, hfirst, ?_, ?_⟩
  · rintro ⟨hroot, hrefuses⟩
    exact ⟨rfl, placeFloating_of_refusing_root hsite hroot hrefuses⟩
  · intro hplaced
    cases htolerates : p.tree.parentTolerates site with
    | true =>
      obtain ⟨parent, hparent, hyes⟩ := SyntaxTree.parentTolerates_iff.mp htolerates
      obtain ⟨grown, left, right, hinsert, hcount, hgraft⟩ :=
        harranged.graft_insertPlaceholderBefore hparent
      refine (achieves_placeFloating_before hsite htolerates hinsert hopen).mono ?_
      rintro _ _ (⟨htext, rfl, journal, rfl⟩ | ⟨htext, rfl, journal, rfl⟩)
      · exact .blank journal htext
      · exact .before journal htext hparent hyes hgraft hcount (CommentMap.gains_extend ..)
    | false =>
      have haccepts : (p.tree.node site).accepts = true := by
        rcases hstops with hroot | hparent | haccepts
        · simpa [hroot] using hplaced
        · exact absurd (SyntaxTree.parentTolerates_iff.mpr hparent) (by simp [htolerates])
        · exact haccepts
      refine (achieves_placeFloating_on hsite htolerates haccepts hopen).mono ?_
      rintro _ _ (⟨htext, rfl, journal, rfl⟩ | ⟨htext, rfl, journal, rfl⟩)
      · exact .blank journal htext
      · exact .on journal htext htolerates (CommentMap.gains_extend ..)

/-- The small tree, with a root that does not accept comments, and a comment under way. -/
def refusing : Placement :=
  ⟨SyntaxTree.sample.setAccepts 0 false, [⟨.line, ⟨2, 0⟩, ⟨2, 6⟩, "// one"⟩], .empty, #[]⟩

/-- From the argument list, which does not accept comments either, the way up ends at the call, and
from the root at once, as `placeFloating_end_to_end` says. -/
theorem placeFloating_end_to_end_refusing :
    refusing.tree.Arranged ∧ refusing.map.frozen = false ∧
      (∃ holder q, placeFloating [] 2 refusing = .ok holder q ∧
        Floated [] refusing 1 holder q) ∧
      placeFloating [] 0 refusing = .error (.noDestination 0 "program") refusing := by
  have harranged : refusing.tree.Arranged :=
    SyntaxTree.built_sample.wellFormed_and_plain.1.arranged.setAccepts 0 false
  refine ⟨harranged, rfl, ?_, ?_⟩
  · obtain ⟨site, hfirst, -, hplaced⟩ :=
      placeFloating_end_to_end [] refusing 2 harranged (by decide) rfl
    have hpasses : ¬ refusing.tree.Stops 2 := by decide
    have hstops : refusing.tree.Stops 1 := by decide
    have hsite : site = 1 := by
      cases hfirst with
      | here stops => exact absurd stops hpasses
      | above _ parent rest =>
        obtain rfl := Option.some.inj (parent.symm.trans (rfl : _ = some 1))
        cases rest with
        | here => rfl
        | above passes => exact absurd hstops passes
    subst hsite
    exact hplaced (by decide)
  · obtain ⟨site, hfirst, hrefused, -⟩ :=
      placeFloating_end_to_end [] refusing 0 harranged (by decide) rfl
    have hstops : refusing.tree.Stops 0 := by decide
    cases hfirst with
    | here => exact (hrefused (by decide)).2
    | above passes => exact absurd hstops passes

end Placement

end Marginalia
