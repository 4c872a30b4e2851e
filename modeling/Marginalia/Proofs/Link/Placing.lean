import Marginalia.Link.Argument
import Marginalia.Proofs.Syntax.Graft

/-!
# Placing a group succeeds

Whatever the tree looks like, as long as it is well formed, a group under way can be placed: on a
node, as a floating one before a node, or at the end of the source.  What a placement can come to is
said once, as a relation between the states before and after it.

## Main definitions

* `Achieves` — an operation succeeds, and its value and its state satisfy a condition.
* `Placement.Flush` — what the placing of the group under way can come to.

## Main results

* `SyntaxTree.WellFormed.exists_destination`, `SyntaxTree.WellFormed.exists_floatingSite` — the way
  up from a node always meets a node that holds comments.
* `Placement.achieves_linkGroup`, `Placement.achieves_placeFloating`,
  `Placement.achieves_placeTrailing` — placing a group succeeds and is a flush.
* `Placement.resolveArgument_of_last`, `Placement.resolveArgument_of_nextSibling` — which argument
  is told.
* `Placement.achieves_resolveArgument` — asking for an argument succeeds, and its answer is the
  argument itself or the one behind it.
-/

namespace Marginalia

/-! ## Operations that succeed -/

/-- An operation that succeeds, and then another one from where it ended. -/
lemma bind_apply_of_ok {ε σ α β : Type} {op : EStateM ε σ α} {next : α → EStateM ε σ β} {s t : σ}
    {a : α} (h : op s = .ok a t) : (op >>= next) s = next a t := by
  show EStateM.bind op next s = _
  rw [EStateM.bind, h]

/-- An operation that fails ends what it is part of. -/
lemma bind_apply_of_error {ε σ α β : Type} {op : EStateM ε σ α} {next : α → EStateM ε σ β}
    {s t : σ} {e : ε} (h : op s = .error e t) : (op >>= next) s = .error e t := by
  show EStateM.bind op next s = _
  rw [EStateM.bind, h]

/-- Looking at the state changes nothing. -/
lemma get_bind_apply {ε σ β : Type} (next : σ → EStateM ε σ β) (s : σ) :
    (get >>= next) s = next s s := rfl

/-- The operation `op` succeeds in the state `s`, with a value and a state that satisfy `post`. -/
def Achieves {σ α : Type} (op : EStateM LinkError σ α) (s : σ) (post : α → σ → Prop) : Prop :=
  ∃ a s', op s = .ok a s' ∧ post a s'

namespace Achieves

variable {σ α β : Type} {s : σ} {post : α → σ → Prop}

/-- Returning a value achieves what holds of it. -/
lemma pure {a : α} (h : post a s) : Achieves (Pure.pure a : EStateM LinkError σ α) s post :=
  ⟨a, s, rfl, h⟩

/-- An operation and then another one: the second starts where the first ended. -/
lemma bind {op : EStateM LinkError σ α} {next : α → EStateM LinkError σ β}
    {final : β → σ → Prop} (h : Achieves op s post)
    (hn : ∀ a s', post a s' → Achieves (next a) s' final) : Achieves (op >>= next) s final := by
  obtain ⟨a, s', he, hpost⟩ := h
  obtain ⟨b, s'', he', hfinal⟩ := hn a s' hpost
  refine ⟨b, s'', ?_, hfinal⟩
  show EStateM.bind op next s = _
  rw [EStateM.bind, he]
  exact he'

/-- What achieves a postcondition achieves a weaker one. -/
lemma mono {op : EStateM LinkError σ α} {weaker : α → σ → Prop} (h : Achieves op s post)
    (hw : ∀ a s', post a s' → weaker a s') : Achieves op s weaker := by
  obtain ⟨a, s', he, hpost⟩ := h
  exact ⟨a, s', he, hw a s' hpost⟩

/-- Looking at the state, and then another operation. -/
lemma get_bind {next : σ → EStateM LinkError σ β} {final : β → σ → Prop}
    (h : Achieves (next s) s final) : Achieves (get >>= next) s final := by
  obtain ⟨b, s', he, hfinal⟩ := h
  exact ⟨b, s', (get_bind_apply next s).trans he, hfinal⟩

end Achieves

/-! ## The way up meets a holder -/

namespace SyntaxTree

variable {t : SyntaxTree} {id : NodeId}

/-- **A destination exists**: the way up ends at the root, which accepts comments. -/
lemma WellFormed.exists_destination (h : t.WellFormed) (hid : id < t.size) :
    ∃ target ∈ t.upward id, t.destination? id = some target ∧
      (t.node target).accepts = true := by
  have hpos : 0 < t.size := Nat.lt_of_le_of_lt (Nat.zero_le id) hid
  have hsome : (t.destination? id).isSome = true := by
    rw [destination?, List.find?_isSome]
    exact ⟨0, h.zero_mem_upward hid, h.root_accepts hpos⟩
  obtain ⟨target, ht⟩ := Option.isSome_iff_exists.mp hsome
  have ht' := ht
  rw [destination?] at ht'
  have haccepts := List.find?_some (p := fun n => (t.node n).accepts) ht'
  exact ⟨target, List.mem_of_find?_eq_some ht', ht, haccepts⟩

/-- A node that accepts comments is its own destination. -/
lemma destination?_of_accepts (h : (t.node id).accepts = true) : t.destination? id = some id := by
  simp [destination?, upward, h]

/-- **A floating site exists**: a place before it, or itself, holds the group. -/
lemma WellFormed.exists_floatingSite (h : t.WellFormed) (hid : id < t.size) :
    ∃ site ∈ t.upward id, t.floatingSite? id = some site ∧
      ((∃ p, t.parent? site = some p ∧ (t.node p).tolerates = true) ∨
        t.parentTolerates site = false ∧ (t.node site).accepts = true) := by
  have hpos : 0 < t.size := Nat.lt_of_le_of_lt (Nat.zero_le id) hid
  have hroot : t.parent? 0 = none := (h.orphan hpos).mpr rfl
  have hsome : (t.floatingSite? id).isSome = true := by
    rw [floatingSite?, List.find?_isSome]
    exact ⟨0, h.zero_mem_upward hid, by simp [hroot]⟩
  obtain ⟨site, hs⟩ := Option.isSome_iff_exists.mp hsome
  have hs' := hs
  rw [floatingSite?] at hs'
  have hmem := List.mem_of_find?_eq_some hs'
  have hcond := List.find?_some hs'
  refine ⟨site, hmem, hs, ?_⟩
  cases hp : t.parent? site with
  | none =>
    obtain rfl := (h.orphan (h.lt_size_of_mem_upward hid hmem)).mp hp
    exact .inr ⟨by simp [parentTolerates, hp], h.root_accepts hpos⟩
  | some p =>
    cases htol : (t.node p).tolerates with
    | true => exact .inl ⟨p, rfl, htol⟩
    | false =>
      have hno : t.parentTolerates site = false := by simp [parentTolerates, hp, htol]
      refine .inr ⟨hno, ?_⟩
      simpa [hp, hno] using hcond

end SyntaxTree

/-- The map with a text added to a node's entry. -/
def CommentMap.extend (m : CommentMap) (id : NodeId) (text : String) : CommentMap :=
  { m with entries := put id text m.entries }

namespace Placement

/-! ## What a placement comes to -/

/-- What the placing of the group under way can come to, when the node `visited` is visited; no node
is visited at the end of the source. -/
inductive Flush (markers : List Marker) (visited : Option NodeId) (p : Placement) :
    Placement → Prop
  /-- Nothing is left of the group. -/
  | dissolve (journal : Journal) (blank : p.group.compose markers = "") :
    Flush markers visited p { p with group := [], journal := journal }
  /-- The text goes on a node that is there already. -/
  | deliver (target : NodeId) (journal : Journal) (text : p.group.compose markers ≠ "")
    (inTree : target < p.tree.size) (accepts : (p.tree.node target).accepts = true)
    (genuine : (p.tree.node target).placeholder = false) :
    Flush markers visited p
      { p with
        group := []
        map := p.map.extend target (p.group.compose markers)
        journal := journal }
  /-- The text goes on a new placeholder before a node on the way up from the visited one. -/
  | insert {x site parent : NodeId} {left right : List NodeId} {grown : SyntaxTree}
    (journal : Journal) (text : p.group.compose markers ≠ "") (visiting : visited = some x)
    (onWay : site ∈ p.tree.upward x) (tolerates : (p.tree.node parent).tolerates = true)
    (count : grown.placeholderCount = p.tree.placeholderCount + 1)
    (graft : p.tree.Graft grown parent left (site :: right)
      (SyntaxTree.placeholderAt parent (p.tree.node site).start left.length)) :
    Flush markers visited p
      { tree := grown, group := [], map := p.map.extend p.tree.size (p.group.compose markers),
        journal := journal }
  /-- The text goes on a new placeholder at the end of the source. -/
  | append {grown : SyntaxTree} (journal : Journal) (text : p.group.compose markers ≠ "")
    (ended : visited = none) (count : grown.placeholderCount = p.tree.placeholderCount + 1)
    (graft : p.tree.Graft grown 0 (p.tree.children 0) []
      (SyntaxTree.placeholderAt 0 (p.tree.node 0).stop (p.tree.children 0).length)) :
    Flush markers visited p
      { tree := grown, group := [], map := p.map.extend p.tree.size (p.group.compose markers),
        journal := journal }

/-- A flush leaves no group behind. -/
lemma Flush.group_eq {markers : List Marker} {visited : Option NodeId} {p q : Placement}
    (h : Flush markers visited p q) : q.group = [] := by
  cases h <;> rfl

/-! ## The operations -/

section Operations

variable {markers : List Marker} {p : Placement} {id target : NodeId} {text : String}

/-- Taking the text of a group gives the composed text, and leaves no group. -/
lemma achieves_takeGroup :
    Achieves (takeGroup markers) p fun text q =>
      text = p.group.compose markers ∧ ∃ journal, q = { p with group := [], journal := journal } :=
  ⟨_, _, rfl, rfl, _, rfl⟩

/-- Noting an event changes the journal only. -/
lemma achieves_note (e : Event) :
    Achieves (note e) p fun _ q => ∃ journal, q = { p with journal := journal } :=
  ⟨_, _, rfl, _, rfl⟩

/-- Adding an entry to a map that is not frozen extends the map. -/
lemma achieves_addEntry (hopen : p.map.frozen = false) :
    Achieves (addEntry id text) p fun _ q =>
      ∃ journal, q = { p with map := p.map.extend id text, journal := journal } := by
  have hadd : p.map.add id text = .ok (p.map.extend id text) := by
    simp [CommentMap.add, CommentMap.extend, hopen]
  refine Achieves.get_bind ?_
  simp only [hadd]
  by_cases hc : p.map.contains id = true
  · simp only [hc]
    exact ⟨_, _, rfl, _, rfl⟩
  · simp only [hc]
    exact ⟨_, _, rfl, _, rfl⟩

/-- Placing a group on a node writes its text to the node's destination, if there is one. -/
lemma achieves_linkGroup_to (hd : p.tree.destination? id = some target)
    (hopen : p.map.frozen = false) :
    Achieves (linkGroup markers id) p fun written q =>
      (p.group.compose markers = "" ∧ written = false ∧
        ∃ journal, q = { p with group := [], journal := journal }) ∨
      (p.group.compose markers ≠ "" ∧ written = true ∧
        ∃ journal, q = { p with
          group := []
          map := p.map.extend target (p.group.compose markers)
          journal := journal }) := by
  have hdest : Achieves (destination id) p fun a q => a = target ∧ q = p := by
    refine Achieves.get_bind ?_
    simp only [hd]
    exact .pure ⟨rfl, rfl⟩
  refine hdest.bind ?_
  rintro a q ⟨rfl, rfl⟩
  refine achieves_takeGroup.bind ?_
  rintro text _ ⟨rfl, journal, rfl⟩
  by_cases htext : q.group.compose markers = ""
  · rw [if_pos (by simp [htext])]
    exact .pure (.inl ⟨htext, rfl, journal, rfl⟩)
  · rw [if_neg (by simpa using htext)]
    refine Achieves.bind (achieves_addEntry hopen) ?_
    rintro _ _ ⟨journal, rfl⟩
    refine Achieves.get_bind ((achieves_note _).bind ?_)
    rintro _ _ ⟨journal, rfl⟩
    exact .pure (.inr ⟨htext, rfl, journal, rfl⟩)

/-- Placing a group on a node is a flush. -/
lemma achieves_linkGroup (visited : Option NodeId) (hd : p.tree.destination? id = some target)
    (hopen : p.map.frozen = false) (hlt : target < p.tree.size)
    (haccepts : (p.tree.node target).accepts = true)
    (hgenuine : (p.tree.node target).placeholder = false) :
    Achieves (linkGroup markers id) p fun _ q => Flush markers visited p q := by
  refine (achieves_linkGroup_to hd hopen).mono ?_
  rintro _ _ (⟨htext, -, journal, rfl⟩ | ⟨htext, -, journal, rfl⟩)
  · exact .dissolve journal htext
  · exact .deliver target journal htext hlt haccepts hgenuine

/-- Storing a text on a placeholder adds an entry. -/
lemma achieves_anchor (hopen : p.map.frozen = false) :
    Achieves (anchor id text) p fun a q =>
      a = id ∧ ∃ journal, q = { p with map := p.map.extend id text, journal := journal } := by
  refine (achieves_addEntry hopen).bind ?_
  rintro _ _ ⟨journal, rfl⟩
  refine Achieves.get_bind ((achieves_note _).bind ?_)
  rintro _ _ ⟨journal, rfl⟩
  exact .pure ⟨rfl, journal, rfl⟩

/-- Inserting a placeholder before a node changes the tree, and writes to the journal only. -/
lemma achieves_insertBefore {fresh : NodeId} {grown : SyntaxTree}
    (h : p.tree.insertPlaceholderBefore id = .ok (fresh, grown)) :
    Achieves (insertBefore id) p fun a q =>
      a = fresh ∧ ∃ journal, q = { p with tree := grown, journal := journal } := by
  refine Achieves.get_bind ?_
  simp only [h]
  exact ⟨_, _, rfl, rfl, _, rfl⟩

/-- A floating group goes before its site if the parent of that tolerates placeholders. -/
lemma achieves_placeFloating_before {site fresh : NodeId} {grown : SyntaxTree}
    (hsite : p.tree.floatingSite? id = some site) (htolerates : p.tree.parentTolerates site = true)
    (hinsert : p.tree.insertPlaceholderBefore site = .ok (fresh, grown))
    (hopen : p.map.frozen = false) :
    Achieves (placeFloating markers id) p fun holder q =>
      (p.group.compose markers = "" ∧ holder = none ∧
        ∃ journal, q = { p with group := [], journal := journal }) ∨
      (p.group.compose markers ≠ "" ∧ holder = some fresh ∧
        ∃ journal, q =
          { tree := grown, group := [], map := p.map.extend fresh (p.group.compose markers),
            journal := journal }) := by
  refine Achieves.get_bind ?_
  simp only [hsite, Option.getD_some]
  rw [if_pos htolerates]
  refine achieves_takeGroup.bind ?_
  rintro text _ ⟨rfl, journal, rfl⟩
  by_cases htext : p.group.compose markers = ""
  · rw [if_pos (by simp [htext])]
    exact .pure (.inl ⟨htext, rfl, journal, rfl⟩)
  · rw [if_neg (by simpa using htext)]
    refine Achieves.bind (achieves_insertBefore hinsert) ?_
    rintro _ _ ⟨rfl, journal, rfl⟩
    refine Achieves.bind (achieves_anchor hopen) ?_
    rintro _ _ ⟨rfl, journal, rfl⟩
    exact .pure (.inr ⟨htext, rfl, journal, rfl⟩)

/-- A floating group goes on its site if it cannot go before it. -/
lemma achieves_placeFloating_on {site : NodeId} (hsite : p.tree.floatingSite? id = some site)
    (hrefuses : p.tree.parentTolerates site = false)
    (haccepts : (p.tree.node site).accepts = true) (hopen : p.map.frozen = false) :
    Achieves (placeFloating markers id) p fun holder q =>
      (p.group.compose markers = "" ∧ holder = none ∧
        ∃ journal, q = { p with group := [], journal := journal }) ∨
      (p.group.compose markers ≠ "" ∧ holder = some site ∧
        ∃ journal, q = { p with
          group := []
          map := p.map.extend site (p.group.compose markers)
          journal := journal }) := by
  refine Achieves.get_bind ?_
  simp only [hsite, Option.getD_some]
  rw [if_neg (by simp [hrefuses])]
  refine (achieves_linkGroup_to (SyntaxTree.destination?_of_accepts haccepts) hopen).bind ?_
  rintro _ _ (⟨htext, rfl, journal, rfl⟩ | ⟨htext, rfl, journal, rfl⟩)
  · exact .pure (.inl ⟨htext, rfl, journal, rfl⟩)
  · exact .pure (.inr ⟨htext, rfl, journal, rfl⟩)

/-- **A floating group is placed**: before the floating site if the parent of that tolerates
placeholders, and else on it. -/
lemma achieves_placeFloating (h : p.tree.WellFormed) (hid : id < p.tree.size)
    (hopen : p.map.frozen = false)
    (hgenuine : ∀ a ∈ p.tree.upward id, (p.tree.node a).placeholder = false) :
    Achieves (placeFloating markers id) p fun _ q => Flush markers (some id) p q := by
  obtain ⟨site, hway, hsite, hcase⟩ := h.exists_floatingSite hid
  rcases hcase with ⟨parent, hparent, htolerates⟩ | ⟨hrefuses, haccepts⟩
  · -- the parent takes a placeholder
    have hyes : p.tree.parentTolerates site = true := by
      simp [SyntaxTree.parentTolerates, hparent, htolerates]
    obtain ⟨grown, left, right, hinsert, hcount, hgraft⟩ :=
      SyntaxTree.graft_insertPlaceholderBefore h hparent
    refine (achieves_placeFloating_before hsite hyes hinsert hopen).mono ?_
    rintro _ _ (⟨htext, -, journal, rfl⟩ | ⟨htext, -, journal, rfl⟩)
    · exact .dissolve journal htext
    · exact .insert journal htext rfl hway htolerates hcount hgraft
  · refine (achieves_placeFloating_on hsite hrefuses haccepts hopen).mono ?_
    rintro _ _ (⟨htext, -, journal, rfl⟩ | ⟨htext, -, journal, rfl⟩)
    · exact .dissolve journal htext
    · exact .deliver site journal htext (h.lt_size_of_mem_upward hid hway) haccepts
        (hgenuine site hway)

/-- **A group at the end of the source is placed** on a placeholder of the root. -/
lemma achieves_placeTrailing (hsize : 0 < p.tree.size) (hopen : p.map.frozen = false) :
    Achieves (placeTrailing markers) p fun _ q => Flush markers none p q := by
  refine Achieves.get_bind ?_
  simp only [SyntaxTree.root?_of_pos hsize]
  refine achieves_takeGroup.bind ?_
  rintro text _ ⟨rfl, journal, rfl⟩
  by_cases htext : p.group.compose markers = ""
  · rw [if_pos (by simp [htext])]
    exact .pure (.dissolve journal htext)
  · rw [if_neg (by simpa using htext)]
    have happend : Achieves (append 0) { p with group := [], journal := journal } fun a q =>
        a = p.tree.size ∧ ∃ journal, q =
          { p with tree := (p.tree.appendPlaceholder 0).2, group := [], journal := journal } :=
      ⟨_, _, rfl, rfl, _, rfl⟩
    refine happend.bind ?_
    rintro _ _ ⟨rfl, journal, rfl⟩
    refine Achieves.bind (achieves_anchor hopen) ?_
    rintro _ _ ⟨-, journal, rfl⟩
    exact .pure (.append journal htext rfl rfl (SyntaxTree.graft_appendPlaceholder hsize))

/-- The last argument is its own answer. -/
lemma resolveArgument_of_last (hlast : p.tree.nextSibling id = .ok none) (comment : Comment)
    (sourceLine : String) : resolveArgument id comment sourceLine p = .ok (some id) p := by
  rw [resolveArgument, get_bind_apply, hlast]
  rfl

/-- An argument with a next one: the columns are compared, and then the comma is looked for. -/
lemma resolveArgument_of_nextSibling {next : NodeId}
    (hnext : p.tree.nextSibling id = .ok (some next)) (comment : Comment) (sourceLine : String) :
    resolveArgument id comment sourceLine p =
      if comment.stop.column < (p.tree.node next).start.column then
        .ok (some (if commaBetween comment (p.tree.node next) sourceLine then id else next)) p
      else .ok none
        { p with journal := p.journal.push (.argumentDeferred comment.stop.column id) } := by
  have hbranch : resolveArgument id comment sourceLine p =
      (if (p.tree.node next).start.column ≤ comment.stop.column then do
        note (.argumentDeferred comment.stop.column id)
        return none
      else if commaBetween comment (p.tree.node next) sourceLine then return some id
      else return some next : Placing (Option NodeId)) p := by
    rw [resolveArgument, get_bind_apply, hnext]
    rfl
  rw [hbranch]
  by_cases hcolumn : comment.stop.column < (p.tree.node next).start.column
  · rw [if_pos hcolumn, if_neg (Int.not_le.mpr hcolumn)]
    by_cases hcomma : commaBetween comment (p.tree.node next) sourceLine = true
    · rw [if_pos hcomma, if_pos hcomma]
      rfl
    · rw [if_neg hcomma, if_neg hcomma]
      rfl
  · rw [if_neg hcolumn, if_pos (Int.not_lt.mp hcolumn)]
    rfl

/-- **Asking for an argument succeeds**, and its answer is the argument or the one behind it. -/
lemma achieves_resolveArgument (h : p.tree.WellFormed) {parent : NodeId} {left right : List NodeId}
    (hp : p.tree.parent? id = some parent) (hc : p.tree.children parent = left ++ id :: right)
    (comment : Comment) (sourceLine : String) :
    Achieves (resolveArgument id comment sourceLine) p fun target q =>
      (∀ y, target = some y → y = id ∨ right.head? = some y) ∧
        ∃ journal, q = { p with journal := journal } := by
  have hnext := h.nextSibling_eq hp hc
  cases right with
  | nil => exact ⟨_, _, resolveArgument_of_last hnext comment sourceLine, by simp, _, rfl⟩
  | cons next rest =>
    rw [Achieves, resolveArgument_of_nextSibling hnext]
    split
    · refine ⟨_, _, rfl, ?_, _, rfl⟩
      rintro y hy
      split at hy
      · exact .inl (Option.some.inj hy).symm
      · exact .inr hy
    · exact ⟨_, _, rfl, by simp, _, rfl⟩

end Operations

end Placement

end Marginalia
