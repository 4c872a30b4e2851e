import Marginalia.Source.Link
import Marginalia.Proofs.Link.Progress
import Marginalia.Proofs.Source.Cursor
import Marginalia.Proofs.Source.Rows

/-!
# Linking the source of a coherent parse tree

A parse tree is coherent with the bytes of a source if its comments cover parts of these bytes that
do not overlap, and their points are those of their offsets.  Linking such a source succeeds,
whatever the bytes are.  Comments are sorted by offsets, but the pass compares positions, which
count decoded characters; so what is needed is that conversion never reverses two places.

## Main definitions

* `ParseTree.Coherent` — the comments of a parse tree are parts of the source.
* `Source.commentOf` — the comment that a comment node stands for.
* `Source.Succeeds` — an operation on sources succeeds, whatever was noted before.

## Main results

* `ParseTree.Coherent.pairwise_commentNodes` — sorted comment nodes follow each other.
* `ParseTree.Coherent.checkOrder` — the pass accepts the comments.
* `Source.linkBytes_succeeds` — linking succeeds, with one comment for each comment node.
-/

namespace Marginalia

/-! ## Coherent parse trees -/

/-- The points of a parse tree are points of a source, and its comments are parts of `bytes` that do
not overlap, at the points of their offsets. -/
structure ParseTree.Coherent (bytes : Bytes) (parsed : ParseTree) : Prop where
  nonneg : ∀ n ∈ parsed.nodes, n.start.point.Nonneg ∧ n.stop.point.Nonneg
  /-- A comment covers at least one byte of the source. -/
  covers : ∀ n ∈ parsed.nodes, n.isComment = true →
    0 ≤ n.start.offset ∧ n.start.offset < n.stop.offset ∧ n.stop.offset ≤ bytes.length
  /-- No two comments overlap. -/
  disjoint : (parsed.nodes.filter fun n => n.isComment).Pairwise fun a b =>
    a.stop.offset ≤ b.start.offset ∨ b.stop.offset ≤ a.start.offset
  /-- The points of a comment are those of its offsets. -/
  points : ∀ n ∈ parsed.nodes, n.isComment = true →
    n.start.point = pointBehind (bytes.take n.start.offset.toNat) ∧
      n.stop.point = pointBehind (bytes.take n.stop.offset.toNat)

/-- It can be decided whether a parse tree is coherent. -/
instance (bytes : Bytes) (parsed : ParseTree) : Decidable (parsed.Coherent bytes) :=
  decidable_of_iff
    ((∀ n ∈ parsed.nodes, n.start.point.Nonneg ∧ n.stop.point.Nonneg) ∧
      (∀ n ∈ parsed.nodes, n.isComment = true →
        0 ≤ n.start.offset ∧ n.start.offset < n.stop.offset ∧ n.stop.offset ≤ bytes.length) ∧
      ((parsed.nodes.filter fun n => n.isComment).Pairwise fun a b =>
        a.stop.offset ≤ b.start.offset ∨ b.stop.offset ≤ a.start.offset) ∧
      ∀ n ∈ parsed.nodes, n.isComment = true →
        n.start.point = pointBehind (bytes.take n.start.offset.toNat) ∧
          n.stop.point = pointBehind (bytes.take n.stop.offset.toNat))
    ⟨fun h => ⟨h.1, h.2.1, h.2.2.1, h.2.2.2⟩, fun h => ⟨h.nonneg, h.covers, h.disjoint, h.points⟩⟩

namespace Source

/-- The position of a point of a source. -/
def positionOf (bytes : Bytes) (point : Point) : Position :=
  ⟨point.row + 1, (SourceRows.ofBytes bytes).columnAt point⟩

/-- The text of a node: its bytes, decoded. -/
def textOf (bytes : Bytes) (n : ParseNode) : String :=
  String.ofList (Utf8.decode ((bytes.take n.stop.offset.toNat).drop n.start.offset.toNat))

/-- The comment that a comment node stands for. -/
def commentOf (bytes : Bytes) (n : ParseNode) : Comment where
  kind := CommentKind.classify (textOf bytes n)
  start := positionOf bytes n.start.point
  stop := positionOf bytes n.stop.point
  text := textOf bytes n

end Source

namespace ParseTree.Coherent

open Source

variable {bytes : Bytes} {parsed : ParseTree} {n : ParseNode}

/-- The comment nodes are the nodes of the tree that are comments. -/
lemma mem_commentNodes : n ∈ commentNodes parsed ↔ n ∈ parsed.nodes ∧ n.isComment = true := by
  rw [commentNodes, (List.mergeSort_perm ..).mem_iff, List.mem_filter]

/-- **A comment node is read.** -/
lemma comment_eq (h : parsed.Coherent bytes) (hn : n ∈ commentNodes parsed) :
    comment bytes (SourceRows.ofBytes bytes) n = .ok (commentOf bytes n) := by
  obtain ⟨hmem, hcomment⟩ := mem_commentNodes.mp hn
  obtain ⟨hstart, hstop⟩ := h.nonneg n hmem
  obtain ⟨hzero, hlt, hle⟩ := h.covers n hmem hcomment
  have hclamp : ∀ {bound : Int}, 0 ≤ bound → bound ≤ bytes.length →
      Text.clampBound bytes.length bound = bound.toNat := by
    intro bound hpos hbound
    rw [← Int.toNat_of_nonneg hpos]
    exact Text.clampBound_of_le (by omega)
  have hslice : Text.slice bytes n.start.offset n.stop.offset =
      (bytes.take n.stop.offset.toNat).drop n.start.offset.toNat := by
    rw [Text.slice, hclamp hzero (by omega), hclamp (by omega) hle, List.drop_take]
  simp only [comment, hslice, SourceRows.convert_of_nonneg _ hstart.1,
    SourceRows.convert_of_nonneg _ hstop.1, bind, Except.bind, pure, Except.pure]
  rfl

/-- **Sorted comment nodes follow each other.**

**Proof sketch.** They are sorted by their first bytes.  Of two that do not overlap, the one with
the earlier first byte ends before the other one starts, as no comment is empty. -/
lemma pairwise_commentNodes (h : parsed.Coherent bytes) :
    (commentNodes parsed).Pairwise fun a b => a.stop.offset ≤ b.start.offset := by
  have hsorted : (commentNodes parsed).Pairwise fun a b => a.start.offset ≤ b.start.offset := by
    refine List.Pairwise.imp of_decide_eq_true (List.pairwise_mergeSort ?_ ?_ _)
    · intro a b c hab hbc
      simp only [decide_eq_true_eq] at *
      omega
    · intro a b
      simp only [Bool.or_eq_true, decide_eq_true_eq]
      omega
  have hapart : (commentNodes parsed).Pairwise fun a b =>
      a.stop.offset ≤ b.start.offset ∨ b.stop.offset ≤ a.start.offset :=
    (List.mergeSort_perm ..).symm.pairwise h.disjoint fun hab => hab.symm
  refine (hsorted.and hapart).imp_of_mem ?_
  rintro a b - hb ⟨hle, hab | hba⟩
  · exact hab
  · obtain ⟨hmem, hcomment⟩ := mem_commentNodes.mp hb
    have hlt := (h.covers b hmem hcomment).2.1
    omega

/-- A comment that follows another one starts no earlier than that ends. -/
lemma start_not_before_stop (h : parsed.Coherent bytes) {a b : ParseNode}
    (ha : a ∈ commentNodes parsed) (hb : b ∈ commentNodes parsed)
    (hab : a.stop.offset ≤ b.start.offset) :
    (commentOf bytes b).start.before (commentOf bytes a).stop = false := by
  obtain ⟨hamem, hacomment⟩ := mem_commentNodes.mp ha
  obtain ⟨hbmem, hbcomment⟩ := mem_commentNodes.mp hb
  have hastop := (h.nonneg a hamem).2
  have hbstart := (h.nonneg b hbmem).1
  have hpoints : a.stop.point.NotAfter b.start.point := by
    rw [(h.points a hamem hacomment).2, (h.points b hbmem hbcomment).1]
    have hle : a.stop.offset.toNat ≤ b.start.offset.toNat := Int.toNat_le_toNat hab
    have htake : bytes.take a.stop.offset.toNat =
        (bytes.take b.start.offset.toNat).take a.stop.offset.toNat := by
      rw [List.take_take, Nat.min_eq_left hle]
    rw [htake]
    conv_rhs => rw [← List.take_append_drop a.stop.offset.toNat (bytes.take b.start.offset.toNat)]
    exact pointBehind_notAfter ..
  exact (SourceRows.ofBytes bytes).convert_not_before hastop hbstart hpoints
    (SourceRows.convert_of_nonneg _ hastop.1) (SourceRows.convert_of_nonneg _ hbstart.1)

/-- **The pass accepts the comments** of a coherent parse tree. -/
lemma checkOrder (h : parsed.Coherent bytes) :
    CommentStream.checkOrder ((commentNodes parsed).map (commentOf bytes)) = .ok () := by
  rw [CommentStream.checkOrder_eq_ok_iff]
  rintro ⟨i, previous, following, hprevious, hfollowing, hbefore⟩
  rw [List.getElem?_map, Option.map_eq_some_iff] at hprevious hfollowing
  obtain ⟨a, ha, rfl⟩ := hprevious
  obtain ⟨b, hb, rfl⟩ := hfollowing
  have hab : a.stop.offset ≤ b.start.offset := by
    obtain ⟨hi, rfl⟩ := List.getElem?_eq_some_iff.mp ha
    obtain ⟨hj, rfl⟩ := List.getElem?_eq_some_iff.mp hb
    exact List.pairwise_iff_getElem.mp h.pairwise_commentNodes i (i + 1) hi hj (Nat.lt_succ_self i)
  have hnot := h.start_not_before_stop (List.mem_of_getElem? ha) (List.mem_of_getElem? hb) hab
  rw [hnot] at hbefore
  exact Bool.false_ne_true hbefore

end ParseTree.Coherent

/-! ## Operations on sources -/

namespace Source

/-- The operation gives `a`, whatever was noted before. -/
def Succeeds {α : Type} (operation : Sourcing α) (a : α) : Prop :=
  ∀ journal, ∃ journal', operation journal = .ok a journal'

section Succeeds

variable {α β : Type} {operation : Sourcing α} {next : α → Sourcing β} {a : α} {b : β}

/-- Two operations in a row succeed if each of them does. -/
lemma Succeeds.bind (h : Succeeds operation a) (hnext : Succeeds (next a) b) :
    Succeeds (operation >>= next) b := by
  intro journal
  obtain ⟨journal', hop⟩ := h journal
  obtain ⟨journal'', hrest⟩ := hnext journal'
  refine ⟨journal'', ?_⟩
  show EStateM.bind operation next journal = _
  rw [EStateM.bind, hop]
  exact hrest

/-- Returning a value succeeds. -/
lemma succeeds_pure (a : α) : Succeeds (pure a) a := fun journal => ⟨journal, rfl⟩

/-- Noting an event succeeds. -/
lemma succeeds_note (e : Event) : Succeeds (note e) () := fun _ => ⟨_, rfl⟩

/-- A computation with a value succeeds as an operation. -/
lemma succeeds_ofExcept {x : Except SourceError α} (h : x = .ok a) : Succeeds (ofExcept x) a := by
  rw [h]
  exact succeeds_pure a

/-- An event that is noted under a condition does not change the outcome. -/
lemma Succeeds.if_note {c : Prop} [Decidable c] {e : Event} (h : Succeeds operation a) :
    Succeeds (if c then note e >>= fun _ => operation else operation) a := by
  split
  · exact (succeeds_note e).bind h
  · exact h

end Succeeds

section Stages

variable {bytes : Bytes} {parsed : ParseTree}

/-- A list is read if each of its members is. -/
lemma mapM_eq_ok {α β : Type} {f : α → Except SourceError β} {g : α → β} (l : List α)
    (h : ∀ a ∈ l, f a = .ok (g a)) : l.mapM f = .ok (l.map g) := by
  induction l with
  | nil => rfl
  | cons a rest ih =>
    rw [List.mapM_cons, h a (List.mem_cons_self ..),
      ih fun b hb => h b (List.mem_cons_of_mem _ hb)]
    rfl

/-- Parsing succeeds if the parser does. -/
lemma succeeds_parse {parser : SourceParser} (h : parser bytes = .ok parsed) :
    Succeeds (parse parser bytes) parsed := by
  refine (succeeds_note _).bind ?_
  simp only [h]
  exact (succeeds_note _).bind (succeeds_pure _)

/-- The comments of a coherent parse tree can be read off, in the order of the source. -/
lemma succeeds_comments (h : parsed.Coherent bytes) :
    Succeeds (comments bytes (SourceRows.ofBytes bytes) parsed)
      ((commentNodes parsed).map (commentOf bytes)) :=
  (succeeds_ofExcept (mapM_eq_ok _ fun _ hn => h.comment_eq hn)).bind
    ((succeeds_note _).bind (succeeds_pure _))

/-- The syntax tree of a source is built if no point is negative. -/
lemma succeeds_outline (policy : KindPolicy) (h : parsed.Coherent bytes) :
    ∃ tree : SyntaxTree, Succeeds (outline policy bytes (SourceRows.ofBytes bytes) parsed) tree ∧
      tree.Built ∧ 0 < tree.size := by
  have hspec : ∀ n ∈ parsed.nodes, ∃ s, Outline.spec (SourceRows.ofBytes bytes) n = .ok s := by
    intro n hn
    obtain ⟨hstart, hstop⟩ := h.nonneg n hn
    simp only [Outline.spec, SourceRows.convert_of_nonneg _ hstart.1,
      SourceRows.convert_of_nonneg _ hstop.1, bind, Except.bind, pure, Except.pure]
    exact ⟨_, rfl⟩
  obtain ⟨tree, htree⟩ := Outline.exists_of_build policy (sourceLines bytes) parsed hspec
  obtain ⟨hb, hsize⟩ := Outline.built_of_build htree
  exact ⟨tree, (succeeds_ofExcept htree).bind (succeeds_pure tree).if_note, hb, hsize⟩

/-- The comments are placed if the pass accepts them. -/
lemma succeeds_place (settings : LinkSettings) {tree : SyntaxTree} (hb : tree.Built)
    (hsize : 0 < tree.size) {found : List Comment}
    (horder : CommentStream.checkOrder found = .ok ()) :
    ∃ placed, Succeeds (place settings tree found) placed := by
  obtain ⟨p, -, -, -, -, -, -, he⟩ := exists_runs_of_linkComments settings hb horder (.inr hsize)
  refine ⟨(p.tree, p.map), ?_⟩
  intro journal
  unfold place
  rw [he]
  exact ⟨_, rfl⟩

end Stages

/-! ## Linking succeeds -/

/-- **Linking a source succeeds on a coherent parse tree**, for all bytes, UTF-8 or not, and all
settings.  The comments are, one for each comment node of the parse tree wherever it stands, the
comments of these nodes: their texts are the bytes of the nodes, decoded, and each node ends before
the next one starts. -/
theorem linkBytes_succeeds (parser : SourceParser) (settings : LinkSettings) (path : String)
    (bytes : Bytes) {parsed : ParseTree} (hparse : parser bytes = .ok parsed)
    (h : parsed.Coherent bytes) :
    ∃ result : LinkResult,
      (∀ journal, ∃ journal',
        linkBytes parser settings path bytes journal = .ok result journal') ∧
      result.comments = (commentNodes parsed).map (commentOf bytes) ∧
      (commentNodes parsed).Perm (parsed.nodes.filter fun n => n.isComment) ∧
      (commentNodes parsed).Pairwise fun a b =>
        a.start.offset < a.stop.offset ∧ a.stop.offset ≤ b.start.offset := by
  obtain ⟨tree, houtline, hb, hsize⟩ := succeeds_outline settings.policy h
  obtain ⟨⟨placed, map⟩, hplace⟩ := succeeds_place settings hb hsize h.checkOrder
  refine ⟨⟨path, placed, (commentNodes parsed).map (commentOf bytes), map, parsed.errorCount⟩,
    ?_, rfl, List.mergeSort_perm .., h.pairwise_commentNodes.imp_of_mem ?_⟩
  · refine (succeeds_parse hparse).bind (Succeeds.if_note ?_)
    exact (succeeds_comments h).bind (houtline.bind (hplace.bind (succeeds_pure _)))
  · intro a b ha _ hab
    obtain ⟨hmem, hcomment⟩ := ParseTree.Coherent.mem_commentNodes.mp ha
    exact ⟨(h.covers a hmem hcomment).2.1, hab⟩

/-- The bytes of `é/*�*/` and `x//b`, on two rows, with a byte that is not UTF-8 in the block
comment. -/
def mixedBytes : Bytes := [0xC3, 0xA9, 0x2F, 0x2A, 0xFF, 0x2A, 0x2F, 0x0A, 0x78, 0x2F, 0x2F, 0x62]

/-- A parse tree of `mixedBytes` that gives the second comment first, and the first one below a node
that is not named. -/
def mixedTree : ParseTree :=
  .node ⟨"program", true, false, ⟨0, ⟨0, 0⟩⟩, ⟨12, ⟨1, 4⟩⟩, none⟩
    [.node ⟨commentType, true, false, ⟨9, ⟨1, 1⟩⟩, ⟨12, ⟨1, 4⟩⟩, none⟩ [],
      .node ⟨";", false, false, ⟨0, ⟨0, 0⟩⟩, ⟨9, ⟨1, 1⟩⟩, none⟩
        [.node ⟨commentType, true, false, ⟨2, ⟨0, 2⟩⟩, ⟨7, ⟨0, 7⟩⟩, none⟩ []]]

/-- The comments of `mixedTree` come back in the order of the source, each with its text. -/
theorem linkBytes_succeeds_mixed :
    mixedTree.Coherent mixedBytes ∧ ∃ result : LinkResult,
      (∀ journal, ∃ journal',
        linkBytes (fun _ => .ok mixedTree) .standard memory mixedBytes journal =
          .ok result journal') ∧
      result.comments =
        [⟨.block, ⟨1, 1⟩, ⟨1, 6⟩, "/*\uFFFD*/"⟩, ⟨.line, ⟨2, 1⟩, ⟨2, 4⟩, "//b"⟩] := by
  have hc : mixedTree.Coherent mixedBytes := by decide +kernel
  obtain ⟨result, hrun, hcomments, -, -⟩ :=
    linkBytes_succeeds (fun _ => .ok mixedTree) .standard memory mixedBytes rfl hc
  have hnodes : commentNodes mixedTree =
      [⟨commentType, true, false, ⟨2, ⟨0, 2⟩⟩, ⟨7, ⟨0, 7⟩⟩, none⟩,
        ⟨commentType, true, false, ⟨9, ⟨1, 1⟩⟩, ⟨12, ⟨1, 4⟩⟩, none⟩] := by
    have hfilter : mixedTree.nodes.filter (fun n => n.isComment) =
        [⟨commentType, true, false, ⟨9, ⟨1, 1⟩⟩, ⟨12, ⟨1, 4⟩⟩, none⟩,
          ⟨commentType, true, false, ⟨2, ⟨0, 2⟩⟩, ⟨7, ⟨0, 7⟩⟩, none⟩] := by
      decide +kernel
    rw [commentNodes, hfilter]
    simp [List.mergeSort]
  refine ⟨hc, result, hrun, ?_⟩
  rw [hcomments, hnodes]
  decide +kernel

end Source

end Marginalia
