import Marginalia.Source.Outline
import Marginalia.Proofs.Syntax.Graft

/-!
# The walk of the cursor

The syntax tree of a source is built by a cursor that goes down, sideways and up in the parse tree,
and by a stack of unfinished nodes that goes with it.  The same tree is built by recursion on the
parse tree: a node that is kept is added, and then what is below it, child by child.

What carries the proof is the work that is left at a place of the cursor.  It consists of levels:
for each unfinished node the siblings still to be read below it.  A step of the cursor does the
first piece of that work, and going up drops the levels with nothing left.

## Main definitions

* `Outline.grow`, `Outline.growAll` — what a parse tree, or a list of them, adds below a node.
* `Outline.pending`, `Outline.beyond` — the work left at a place, with and without its node.

## Main results

* `Outline.onward_spec` — going on drops no work.
* `Outline.walk_eq` — the walk does the work left at its place.
* `Outline.build_eq` — building is growing below the root.
* `Outline.built_of_build` — what is built grows from the empty tree by adding nodes.
* `Outline.exists_of_build` — building fails only where a position cannot be converted.
-/

namespace Marginalia

namespace Outline

variable {rows : SourceRows}

/-! ## Growing by recursion -/

mutual

/-- What a parse tree adds below the node `parent`: nothing, unless its root is kept. -/
def grow (rows : SourceRows) : ParseTree → SyntaxTree → NodeId → Except SourceError SyntaxTree
  | .node label children, t, parent =>
    if label.isSyntax then do
      let spec ← spec rows label
      growAll rows children (t.addChild parent spec).2 t.size
    else .ok t

/-- What the parse trees of a list add below the node `parent`, one after the other. -/
def growAll (rows : SourceRows) :
    List ParseTree → SyntaxTree → NodeId → Except SourceError SyntaxTree
  | [], t, _ => .ok t
  | parsed :: rest, t, parent => do
    let grown ← grow rows parsed t parent
    growAll rows rest grown parent

end

/-- The work of some levels: the parse trees of each level are added below its node. -/
def growLevels (rows : SourceRows) :
    List (NodeId × List ParseTree) → SyntaxTree → Except SourceError SyntaxTree
  | [], t => .ok t
  | (parent, parsed) :: levels, t => do
    let grown ← growAll rows parsed t parent
    growLevels rows levels grown

/-- The first parse tree of the first level is done first. -/
lemma growLevels_cons_cons (parent : NodeId) (parsed : ParseTree) (rest : List ParseTree)
    (levels : List (NodeId × List ParseTree)) (t : SyntaxTree) :
    growLevels rows ((parent, parsed :: rest) :: levels) t = (do
      let grown ← grow rows parsed t parent
      growLevels rows ((parent, rest) :: levels) grown) := by
  simp only [growLevels, growAll, bind, Except.bind]
  cases grow rows parsed t parent with
  | error e => rfl
  | ok grown => rfl

/-! ## The work left at a place -/

/-- The levels above a place: what stands behind each node above it. -/
def above (c : ParseCursor) (parents : List NodeId) : List (NodeId × List ParseTree) :=
  parents.zip (c.above.map Prod.snd)

/-- The work left at a place, whose node is included; the unfinished nodes are `parents`, nearest
first. -/
def pending (c : ParseCursor) : List NodeId → List (NodeId × List ParseTree)
  | [] => []
  | parent :: parents => (parent, c.focus :: c.right) :: above c parents

/-- The work left behind the node of a place. -/
def beyond (c : ParseCursor) : List NodeId → List (NodeId × List ParseTree)
  | [] => []
  | parent :: parents => (parent, c.right) :: above c parents

/-- The number of nodes in the work of some levels. -/
def weight : List (NodeId × List ParseTree) → Nat
  | [] => 0
  | level :: levels => ParseTree.sizeOfAll level.2 + weight levels

/-- Every unfinished node but the nearest one has a level above the place. -/
def Level (c : ParseCursor) (parents : List NodeId) : Prop :=
  parents ≠ [] ∧ parents.length ≤ c.above.length + 1

/-- **Going on drops no work**: if there is a next place, the work left behind the node is that of
the next place, and if there is none, nothing is left.

**Proof sketch.** Induction on the unfinished nodes.  Without a sibling on the right the nearest
level is empty, so it may be dropped. -/
lemma onward_spec (rows : SourceRows) (parents : List NodeId) (c : ParseCursor)
    (hlevel : Level c parents) :
    match onward c parents with
    | none => weight (beyond c parents) = 0 ∧ ∀ t, growLevels rows (beyond c parents) t = .ok t
    | some (next, rest) => Level next rest ∧
        weight (pending next rest) = weight (beyond c parents) ∧
        ∀ t, growLevels rows (beyond c parents) t = growLevels rows (pending next rest) t := by
  induction parents generalizing c with
  | nil => exact absurd rfl hlevel.1
  | cons parent parents ih =>
    obtain ⟨focus, right, above⟩ := c
    cases right with
    | cons sibling rest =>
      -- the next place is the sibling, on the same level
      exact ⟨hlevel, rfl, fun t => rfl⟩
    | nil =>
      cases parents with
      | nil => exact ⟨rfl, fun t => rfl⟩
      | cons upper parents =>
        cases above with
        | nil =>
          have hle := hlevel.2
          simp at hle
        | cons up above =>
          obtain ⟨upFocus, upRight⟩ := up
          have hup : Level ⟨upFocus, upRight, above⟩ (upper :: parents) := by
            refine ⟨by simp, ?_⟩
            have hle := hlevel.2
            simp only [List.length_cons] at hle ⊢
            omega
          have hsame : beyond ⟨focus, [], (upFocus, upRight) :: above⟩ (parent :: upper :: parents)
              = (parent, []) :: beyond ⟨upFocus, upRight, above⟩ (upper :: parents) := rfl
          have hweight :
              weight ((parent, []) :: beyond ⟨upFocus, upRight, above⟩ (upper :: parents))
              = weight (beyond ⟨upFocus, upRight, above⟩ (upper :: parents)) := by
            simp [weight, ParseTree.sizeOfAll]
          rw [hsame, hweight]
          exact ih ⟨upFocus, upRight, above⟩ hup

/-- The work left at a place is the node there and what is behind it. -/
lemma weight_pending (c : ParseCursor) (parent : NodeId) (parents : List NodeId) :
    weight (pending c (parent :: parents)) =
      c.focus.size + weight (beyond c (parent :: parents)) := by
  simp only [pending, beyond, weight, ParseTree.sizeOfAll]
  omega

/-- The work left at the first child of a node is what is below the node, and then what is behind
it. -/
lemma pending_firstChild {c child : ParseCursor} (h : c.firstChild? = some child)
    (id parent : NodeId) (parents : List NodeId) :
    pending child (id :: parent :: parents) =
      (id, c.focus.children) :: beyond c (parent :: parents) := by
  obtain ⟨focus, right, above⟩ := c
  unfold ParseCursor.firstChild? at h
  cases hchildren : focus.children with
  | nil => simp [hchildren] at h
  | cons first rest =>
    simp only [hchildren, Option.some.injEq] at h
    subst h
    rfl

/-- The first child is one level further down. -/
lemma length_above_firstChild {c child : ParseCursor} (h : c.firstChild? = some child) :
    child.above.length = c.above.length + 1 := by
  unfold ParseCursor.firstChild? at h
  split at h
  · cases h
  · rw [← Option.some.inj h]
    rfl

/-- A node without a first child has no children. -/
lemma children_of_firstChild {c : ParseCursor} (h : c.firstChild? = none) :
    c.focus.children = [] := by
  unfold ParseCursor.firstChild? at h
  split at h
  · assumption
  · cases h

/-- The work at a node that is not kept is nothing, and that at a kept one is the node and then what
is below it. -/
lemma grow_eq (parsed : ParseTree) (t : SyntaxTree) (parent : NodeId) :
    grow rows parsed t parent =
      if parsed.label.isSyntax then do
        let spec ← spec rows parsed.label
        growAll rows parsed.children (t.addChild parent spec).2 t.size
      else .ok t := by
  obtain ⟨label, children⟩ := parsed
  rw [grow]
  rfl

/-- A parse tree has one node more than there are below its root. -/
lemma size_eq (parsed : ParseTree) :
    parsed.size = ParseTree.sizeOfAll parsed.children + 1 := by
  obtain ⟨label, children⟩ := parsed
  rw [ParseTree.size]
  rfl

/-- **The walk does the work left at its place**, if it may take as many steps as there are nodes
left.

**Proof sketch.** Induction on the steps.  A step reads the node of the place, and the walk goes on
with the first child or with the next place, where one node less is left. -/
lemma walk_eq : ∀ (steps : Nat) (t : SyntaxTree) (c : ParseCursor) (parents : List NodeId),
    Level c parents → weight (pending c parents) ≤ steps →
      walk rows steps t c parents = growLevels rows (pending c parents) t := by
  intro steps
  induction steps with
  | zero =>
    intro t c parents hlevel hweight
    obtain ⟨parent, rest, rfl⟩ := List.exists_cons_of_ne_nil hlevel.1
    rw [weight_pending, size_eq] at hweight
    omega
  | succ steps ih =>
    intro t c parents hlevel hweight
    obtain ⟨parent, rest, rfl⟩ := List.exists_cons_of_ne_nil hlevel.1
    rw [weight_pending, size_eq] at hweight
    -- what the walk does once it leaves the node of the place
    have hmoveOn : ∀ t : SyntaxTree,
        (onward c (parent :: rest)).elim (.ok t) (fun place => walk rows steps t place.1 place.2) =
          growLevels rows (beyond c (parent :: rest)) t := by
      intro t
      have hspec := onward_spec rows (parent :: rest) c hlevel
      cases honward : onward c (parent :: rest) with
      | none =>
        rw [honward] at hspec
        exact (hspec.2 t).symm
      | some place =>
        obtain ⟨next, parents⟩ := place
        rw [honward] at hspec
        obtain ⟨hnext, hsame, hgrow⟩ := hspec
        rw [hgrow t]
        exact ih t next parents hnext (by omega)
    rw [walk, pending, growLevels_cons_cons, grow_eq]
    simp only [List.headD_cons]
    by_cases hkept : c.focus.label.isSyntax = true
    · rw [if_pos hkept, if_pos hkept]
      cases hs : spec rows c.focus.label with
      | error e => rfl
      | ok s =>
        simp only [bind, Except.bind]
        cases hchild : c.firstChild? with
        | none =>
          rw [children_of_firstChild hchild, growAll]
          refine Eq.trans ?_ (hmoveOn (t.addChild parent s).2)
          cases onward c (parent :: rest) with
          | none => rfl
          | some place => rfl
        | some child =>
          have hbelow : Level child (t.size :: parent :: rest) := by
            refine ⟨by simp, ?_⟩
            rw [length_above_firstChild hchild]
            exact Nat.succ_le_succ hlevel.2
          have hpending := pending_firstChild hchild t.size parent rest
          have hless : weight (pending child (t.size :: parent :: rest)) ≤ steps := by
            rw [hpending]
            simp only [weight] at hweight ⊢
            omega
          show walk rows steps (t.addChild parent s).2 child (t.size :: parent :: rest) = _
          rw [ih _ child _ hbelow hless, hpending, growLevels]
          rfl
    · rw [if_neg hkept, if_neg hkept]
      refine Eq.trans ?_ (hmoveOn t)
      cases onward c (parent :: rest) with
      | none => rfl
      | some place => rfl

/-! ## Building a tree -/

/-- The tree that holds a root alone. -/
def rooted (policy : KindPolicy) (lines : List String) (root : NodeSpec) : SyntaxTree :=
  (SyntaxTree.empty policy lines).push
    { kind := root.kind, start := root.start, stop := root.stop, field := none, accepts := true,
      tolerates := policy.blockLike.contains root.kind, placeholder := false, parent := none,
      children := [], index := none }

/-- Adding a root to the empty tree gives the tree that holds it alone. -/
lemma addRoot_empty (policy : KindPolicy) (lines : List String) (root : NodeSpec) :
    (SyntaxTree.empty policy lines).addRoot { root with field := none } =
      .ok (0, rooted policy lines root) := rfl

/-- **Building is growing below the root.** -/
lemma build_eq (policy : KindPolicy) (lines : List String) (rows : SourceRows)
    (parsed : ParseTree) :
    build policy lines rows parsed = (do
      let root ← spec rows parsed.label
      growAll rows parsed.children (rooted policy lines root) 0) := by
  rw [build]
  cases spec rows parsed.label with
  | error e => rfl
  | ok root =>
    simp only [bind, Except.bind, addRoot_empty]
    cases hchild : (ParseCursor.atRoot parsed).firstChild? with
    | none =>
      rw [show parsed.children = [] from children_of_firstChild hchild]
      rfl
    | some child =>
      have hpending : pending child [0] = [(0, parsed.children)] := by
        have hchildren : parsed.children = child.focus :: child.right := by
          unfold ParseCursor.firstChild? at hchild
          split at hchild
          · cases hchild
          · next first rest hfirst =>
            rw [← Option.some.inj hchild]
            exact hfirst
        rw [hchildren]
        rfl
      have hweight : weight (pending child [0]) ≤ parsed.size := by
        rw [hpending, size_eq]
        simp [weight]
      have hlevel : Level child [0] := ⟨by simp, by simp⟩
      show walk rows parsed.size _ child [0] = _
      rw [walk_eq parsed.size _ child [0] hlevel hweight, hpending, growLevels]
      simp only [bind, Except.bind, growLevels]
      cases growAll rows parsed.children (rooted policy lines root) 0 with
      | error e => rfl
      | ok t => rfl

/-! ## What is built -/

mutual

/-- Growing adds nodes, so it leads from built trees to built trees. -/
lemma built_of_grow (parsed : ParseTree) {t t' : SyntaxTree} {parent : NodeId} (hb : t.Built)
    (hparent : parent < t.size) (h : grow rows parsed t parent = .ok t') :
    t'.Built ∧ t.size ≤ t'.size := by
  match parsed with
  | .node label children =>
    rw [grow] at h
    by_cases hkept : label.isSyntax = true
    · rw [if_pos hkept] at h
      cases hs : spec rows label with
      | error e => simp [hs, bind, Except.bind] at h
      | ok s =>
        simp only [hs, bind, Except.bind] at h
        obtain ⟨fresh, -, g, -⟩ := SyntaxTree.graft_addChild s hparent
        have hsize : (t.addChild parent s).2.size = t.size + 1 := g.size_eq
        have hlt : t.size < (t.addChild parent s).2.size := hsize ▸ Nat.lt_succ_self _
        obtain ⟨hbuilt, hle⟩ := built_of_growAll children (.addChild s hb hparent) hlt h
        exact ⟨hbuilt, Nat.le_of_lt (Nat.lt_of_lt_of_le hlt hle)⟩
    · rw [if_neg hkept] at h
      obtain rfl := Except.ok.inj h
      exact ⟨hb, Nat.le_refl _⟩

/-- Growing by a list of parse trees leads from built trees to built trees. -/
lemma built_of_growAll (parsed : List ParseTree) {t t' : SyntaxTree} {parent : NodeId}
    (hb : t.Built) (hparent : parent < t.size) (h : growAll rows parsed t parent = .ok t') :
    t'.Built ∧ t.size ≤ t'.size := by
  match parsed with
  | [] =>
    obtain rfl := Except.ok.inj h
    exact ⟨hb, Nat.le_refl _⟩
  | first :: rest =>
    rw [growAll] at h
    cases hfirst : grow rows first t parent with
    | error e => simp [hfirst, bind, Except.bind] at h
    | ok grown =>
      simp only [hfirst, bind, Except.bind] at h
      obtain ⟨hbuilt, hle⟩ := built_of_grow first hb hparent hfirst
      obtain ⟨hbuilt', hle'⟩ :=
        built_of_growAll rest hbuilt (Nat.lt_of_lt_of_le hparent hle) h
      exact ⟨hbuilt', Nat.le_trans hle hle'⟩

end

/-- **What is built grows from the empty tree by adding nodes**, and has a root. -/
lemma built_of_build {policy : KindPolicy} {lines : List String} {parsed : ParseTree}
    {t : SyntaxTree} (h : build policy lines rows parsed = .ok t) : t.Built ∧ 0 < t.size := by
  rw [build_eq] at h
  cases hs : spec rows parsed.label with
  | error e => simp [hs, bind, Except.bind] at h
  | ok root =>
    simp only [hs, bind, Except.bind] at h
    have hroot : (rooted policy lines root).Built :=
      .addRoot (.empty policy lines) (addRoot_empty policy lines root)
    have hpos : 0 < (rooted policy lines root).size := Nat.one_pos
    obtain ⟨hb, hle⟩ := built_of_growAll parsed.children hroot hpos h
    exact ⟨hb, Nat.lt_of_lt_of_le hpos hle⟩

mutual

/-- Growing succeeds if the positions of all nodes can be converted. -/
lemma exists_of_grow (parsed : ParseTree) (h : ∀ n ∈ parsed.nodes, ∃ s, spec rows n = .ok s)
    (t : SyntaxTree) (parent : NodeId) : ∃ t', grow rows parsed t parent = .ok t' := by
  match parsed with
  | .node label children =>
    rw [ParseTree.nodes] at h
    rw [grow]
    by_cases hkept : label.isSyntax = true
    · obtain ⟨s, hs⟩ := h label (List.mem_cons_self ..)
      obtain ⟨t', ht⟩ := exists_of_growAll children
        (fun n hn => h n (List.mem_cons_of_mem _ hn)) (t.addChild parent s).2 t.size
      exact ⟨t', by simp only [if_pos hkept, hs, bind, Except.bind, ht]⟩
    · exact ⟨t, if_neg hkept⟩

/-- Growing trees one after another succeeds if the positions of all nodes can be converted. -/
lemma exists_of_growAll (parsed : List ParseTree)
    (h : ∀ n ∈ ParseTree.nodesOf parsed, ∃ s, spec rows n = .ok s) (t : SyntaxTree)
    (parent : NodeId) : ∃ t', growAll rows parsed t parent = .ok t' := by
  match parsed with
  | [] => exact ⟨t, rfl⟩
  | first :: rest =>
    rw [ParseTree.nodesOf] at h
    obtain ⟨grown, hgrown⟩ := exists_of_grow first
      (fun n hn => h n (List.mem_append_left _ hn)) t parent
    obtain ⟨t', ht⟩ := exists_of_growAll rest
      (fun n hn => h n (List.mem_append_right _ hn)) grown parent
    exact ⟨t', by simp only [growAll, hgrown, bind, Except.bind, ht]⟩

end

/-- **Building succeeds if the positions of all nodes can be converted.** -/
lemma exists_of_build (policy : KindPolicy) (lines : List String) (parsed : ParseTree)
    (h : ∀ n ∈ parsed.nodes, ∃ s, spec rows n = .ok s) :
    ∃ t, build policy lines rows parsed = .ok t := by
  obtain ⟨label, children⟩ := parsed
  rw [ParseTree.nodes] at h
  obtain ⟨root, hroot⟩ := h label (List.mem_cons_self ..)
  obtain ⟨t, ht⟩ := exists_of_growAll children (fun n hn => h n (List.mem_cons_of_mem _ hn))
    (rooted policy lines root) 0
  refine ⟨t, ?_⟩
  rw [build_eq]
  show (do let root ← spec rows label; growAll rows children (rooted policy lines root) 0) = _
  simp only [hroot, bind, Except.bind, ht]

end Outline

end Marginalia
