import Marginalia.Proofs.Files.Isolation
import Marginalia.Proofs.Link.Eligibility
import Marginalia.Proofs.Link.Landing
import Marginalia.Proofs.Source.Cursor

/-!
# Statistics agree with the records

The statistics of a batch count the entries of the maps of linked files, while its records are read
off their trees.  In a file that was linked every entry has a node of the tree, so the two agree
file by file; and as a file is counted when it is taken in, they agree in every state that a batch
goes through, also where it stops with a failure.

## Main definitions

* `Batch.Emits` — what a batch has come to by emitting records.
* `Batch.Balanced` — an operation of a batch emits as many records as it counts.

## Main results

* `length_entries_of_linkFile` — a linked file has as many linked comments as entries.
* `Batch.balanced_linkEach` — linking files is balanced.
* `Batch.balanced_linkPath` — **linking a path is balanced**, however it ends.
-/

namespace Marginalia

/-! ## Linked files -/

/-- What a pass over a built tree comes to, if it does not fail, has **as many linked comments as
entries**. -/
lemma length_entries_of_linkComments {settings : LinkSettings} {tree : SyntaxTree} (hb : tree.Built)
    (hsize : 0 < tree.size) {comments : List Comment} {r : LinkResult}
    (hfailure : (linkComments settings tree comments).failure = none)
    (htree : r.tree = (linkComments settings tree comments).tree)
    (hmap : r.map = (linkComments settings tree comments).map) :
    r.entries.length = r.map.size := by
  cases horder : CommentStream.checkOrder comments with
  | error e =>
    rw [linkComments_of_checkOrder_error horder] at hfailure
    cases hfailure
  | ok _ =>
    obtain ⟨hwf, hplain, -⟩ := hb.wellFormed_and_plain
    obtain ⟨p, q, -, hruns, -, -, ⟨journal, rfl⟩, he⟩ :=
      exists_runs_of_linkComments settings hb horder (.inr hsize)
    have hstart := Pass.sound_start hwf hplain ⟨comments, 0⟩
    have hsound := hruns.sound hstart
    have hhoused := hruns.housed hstart (Pass.housed_start hb.selective _)
    rw [he] at htree hmap
    have hkeys : ∀ key ∈ r.map.keys, ∃ id < r.tree.size, key = (id : NodeId) := by
      intro key hkey
      rw [hmap] at hkey
      obtain ⟨id, rfl, haccepts⟩ := hhoused.accepts key hkey
      exact ⟨id, htree ▸ SyntaxTree.lt_size_of_accepts haccepts, rfl⟩
    have hperm := LinkResult.perm_entries (htree ▸ hsound.wellFormed) (hmap ▸ hhoused.nodup) hkeys
    simpa [CommentMap.size] using hperm.length_eq

/-- The tree of an outline is the one that is built from the parse tree. -/
lemma build_of_outline {policy : KindPolicy} {bytes : Bytes} {rows : SourceRows}
    {parsed : ParseTree} {tree : SyntaxTree} {journal journal' : Journal}
    (h : Source.outline policy bytes rows parsed journal = .ok tree journal') :
    Outline.build policy (sourceLines bytes) rows parsed = .ok tree := by
  obtain ⟨built, _, hbuild, h⟩ := bind_eq_ok h
  have htree : built = tree := by
    split at h
    · obtain ⟨_, _, -, h⟩ := bind_eq_ok h
      exact (pure_eq_ok h).1
    · exact (pure_eq_ok h).1
  cases hresult : Outline.build policy (sourceLines bytes) rows parsed with
  | error e =>
    rw [hresult] at hbuild
    cases hbuild
  | ok result =>
    rw [hresult] at hbuild
    rw [← htree, (pure_eq_ok hbuild).1]

/-- Comments that could be placed are linked without a failure, as the linker links them. -/
lemma linkComments_of_place {settings : LinkSettings} {tree final : SyntaxTree}
    {comments : List Comment} {map : CommentMap} {journal journal' : Journal}
    (h : Source.place settings tree comments journal = .ok (final, map) journal') :
    (linkComments settings tree comments).failure = none ∧
      final = (linkComments settings tree comments).tree ∧
      map = (linkComments settings tree comments).map := by
  obtain ⟨_, _, -, h⟩ := bind_eq_ok h
  cases hfailure : (linkComments settings tree comments).failure with
  | some cause =>
    simp only [hfailure] at h
    cases h
  | none =>
    simp only [hfailure] at h
    obtain ⟨rfl, rfl⟩ := Prod.mk.inj (pure_eq_ok h).1
    exact ⟨rfl, rfl, rfl⟩

/-- Linking a parse tree gives one entry for each comment that is linked. -/
lemma length_entries_of_linkTree {settings : LinkSettings} {path : String} {bytes : Bytes}
    {parsed : ParseTree} {r : LinkResult} {journal journal' : Journal}
    (h : Source.linkTree settings path bytes parsed journal = .ok r journal') :
    r.entries.length = r.map.size := by
  obtain ⟨noted, h⟩ : ∃ noted, (do
      let comments ← Source.comments bytes (.ofBytes bytes) parsed
      let tree ← Source.outline settings.policy bytes (.ofBytes bytes) parsed
      let placed ← Source.place settings tree comments
      return ⟨path, placed.1, comments, placed.2, parsed.errorCount⟩ : Sourcing LinkResult) noted =
        .ok r journal' := by
    unfold Source.linkTree at h
    split at h
    · obtain ⟨_, noted, -, h⟩ := bind_eq_ok h
      exact ⟨noted, h⟩
    · exact ⟨journal, h⟩
  obtain ⟨comments, _, -, h⟩ := bind_eq_ok h
  obtain ⟨tree, _, houtline, h⟩ := bind_eq_ok h
  obtain ⟨⟨final, map⟩, _, hplace, h⟩ := bind_eq_ok h
  obtain ⟨rfl, -⟩ := pure_eq_ok h
  obtain ⟨hb, hsize⟩ := Outline.built_of_build (build_of_outline houtline)
  obtain ⟨hfailure, htree, hmap⟩ := linkComments_of_place hplace
  exact length_entries_of_linkComments hb hsize hfailure htree hmap

/-- Linking a parsed file gives one entry for each comment that is linked. -/
lemma length_entries_of_linkParsed {settings : LinkSettings} {path : String} {bytes : Bytes}
    {parsed : ParseTree} {r : LinkResult} {records records' : Records}
    (h : linkParsed settings path bytes parsed records = .ok r records') :
    r.entries.length = r.map.size := by
  rw [linkParsed, Filing.onSource] at h
  cases hlink : Source.linkTree settings path bytes parsed #[] with
  | ok linked journal =>
    rw [hlink] at h
    obtain ⟨rfl, -⟩ := EStateM.Result.ok.inj h
    exact length_entries_of_linkTree hlink
  | error cause journal =>
    rw [hlink] at h
    dsimp only at h
    split at h <;> cases h

/-- **A linked file has as many linked comments as entries.** -/
lemma length_entries_of_linkFile {w : Workspace} {settings : FileSettings} {path : String}
    {r : LinkResult} {records records' : Records}
    (h : linkFile w settings path records = .ok r records') : r.entries.length = r.map.size := by
  unfold linkFile at h
  dsimp only at h
  split at h
  next => cases h
  next =>
    split at h
    next => cases h
    next =>
      obtain ⟨⟨parsed, bytes⟩, _, -, hlink⟩ := bind_eq_ok h
      exact length_entries_of_linkParsed hlink

/-! ## Batches -/

namespace Batch

/-- The batch `c` has come from the batch `b` **by emitting records**, and has counted them. -/
structure Emits (b c : Batch) (emitted : List LinkEntry) : Prop where
  entries : c.entries = b.entries ++ emitted
  entriesWritten : c.stats.entriesWritten = b.stats.entriesWritten + emitted.length

/-- An operation is **balanced** if it emits as many records as it counts, however it ends. -/
def Balanced {α : Type} (operation : Batching α) : Prop :=
  ∀ b, ∃ c emitted, ((∃ a, operation b = .ok a c) ∨ ∃ failure, operation b = .error failure c) ∧
    b.Emits c emitted

/-- A batch emits nothing towards itself. -/
lemma Emits.refl (b : Batch) : b.Emits b [] := ⟨(List.append_nil _).symm, rfl⟩

/-- What is emitted in two parts is emitted in a row. -/
lemma Emits.trans {b c d : Batch} {first second : List LinkEntry} (h : b.Emits c first)
    (h' : c.Emits d second) : b.Emits d (first ++ second) := by
  refine ⟨?_, ?_⟩
  · rw [h'.entries, h.entries, List.append_assoc]
  · rw [h'.entriesWritten, h.entriesWritten, List.length_append, Nat.add_assoc]

/-- Records of what has happened are no records of linked comments. -/
lemma emits_records (b : Batch) (records : Records) : b.Emits { b with records } [] :=
  ⟨(List.append_nil _).symm, rfl⟩

section Operations

variable {α β : Type} {operation : Batching α} {next : α → Batching β}

/-- Returning a value is balanced. -/
lemma balanced_pure (a : α) : Balanced (pure a : Batching α) :=
  fun b => ⟨b, [], .inl ⟨a, rfl⟩, .refl b⟩

/-- Failing is balanced. -/
lemma balanced_throw (failure : FileFailure) : Balanced (throw failure : Batching α) :=
  fun b => ⟨b, [], .inr ⟨failure, rfl⟩, .refl b⟩

/-- Noting an event is balanced. -/
lemma balanced_note (e : Event) : Balanced (note e) :=
  fun b => ⟨_, [], .inl ⟨(), rfl⟩, emits_records b _⟩

/-- Counting a failure is balanced: it counts no entry. -/
lemma balanced_countFailure : Balanced countFailure :=
  fun _ => ⟨_, [], .inl ⟨(), rfl⟩, (List.append_nil _).symm, rfl⟩

/-- Taking a file in emits its linked comments, and counts its entries. -/
lemma balanced_accept {r : LinkResult} (h : r.entries.length = r.map.size) :
    Balanced (accept r) := by
  refine fun b => ⟨_, r.entries, .inl ⟨(), rfl⟩, ?_, ?_⟩
  · simp [entries]
  · rw [h]
    rfl

/-- Work on one file is balanced. -/
lemma balanced_filing (operation : Filing α) : Balanced (filing operation) := by
  intro b
  cases h : operation b.records with
  | ok a records =>
    exact ⟨{ b with records }, [], .inl ⟨a, by rw [filing, h]⟩, emits_records b records⟩
  | error failure records =>
    exact ⟨{ b with records }, [], .inr ⟨failure, by rw [filing, h]⟩, emits_records b records⟩

/-- Balanced operations in a row are balanced. -/
lemma Balanced.bind (h : Balanced operation) (hnext : ∀ a, Balanced (next a)) :
    Balanced (operation >>= next) := by
  intro b
  obtain ⟨c, first, ⟨a, hop⟩ | ⟨failure, hop⟩, hfirst⟩ := h b
  · obtain ⟨d, second, hend, hsecond⟩ := hnext a c
    refine ⟨d, first ++ second, ?_, hfirst.trans hsecond⟩
    rw [bind_apply_of_ok hop]
    exact hend
  · exact ⟨c, first, .inr ⟨failure, bind_apply_of_error hop⟩, hfirst⟩

/-- Looking at what was done so far changes nothing. -/
lemma balanced_get_bind {next : Batch → Batching β} (h : ∀ b, Balanced (next b)) :
    Balanced (get >>= next) :=
  fun b => h b b

/-- A file is tried, and then what follows need only be balanced where the file has as many linked
comments as entries, or fails. -/
lemma balanced_attempt_bind {w : Workspace} {settings : FileSettings} {path : String}
    {next : Except FileFailure LinkResult → Batching β}
    (hok : ∀ r : LinkResult, r.entries.length = r.map.size → Balanced (next (.ok r)))
    (herror : ∀ failure, Balanced (next (.error failure))) :
    Balanced (attempt (linkFile w settings path) >>= next) := by
  intro b
  have htried : ∀ result records, attempt (linkFile w settings path) b =
      .ok result { b with records } → Balanced (next result) →
      ∃ c emitted, ((∃ a, (attempt (linkFile w settings path) >>= next) b = .ok a c) ∨
        ∃ failure, (attempt (linkFile w settings path) >>= next) b = .error failure c) ∧
        b.Emits c emitted := by
    intro result records hattempt hnext
    obtain ⟨c, emitted, hend, hemits⟩ := hnext { b with records }
    rw [bind_apply_of_ok hattempt]
    exact ⟨c, emitted, hend, (emits_records b records).trans hemits⟩
  cases h : linkFile w settings path b.records with
  | ok r records =>
    exact htried (.ok r) records (by rw [attempt, h]) (hok r (length_entries_of_linkFile h))
  | error failure records =>
    exact htried (.error failure) records (by rw [attempt, h]) (herror failure)

end Operations

/-- **Linking files is balanced.** -/
lemma balanced_linkEach (view : View) (settings : FileSettings) (goOn : Bool)
    (paths : List String) : Balanced (linkEach view settings goOn paths) := by
  induction paths with
  | nil => exact balanced_pure ()
  | cons path rest ih =>
    rw [linkEach]
    refine balanced_get_bind fun b => balanced_attempt_bind (fun r hr => ?_) fun failure => ?_
    · exact (balanced_accept hr).bind fun _ => ih
    · refine (balanced_note _).bind fun _ => balanced_countFailure.bind fun _ => ?_
      split
      · exact (balanced_throw failure).bind fun _ => ih
      · exact ih

/-- Linking a folder is balanced. -/
lemma balanced_linkFolder (view : View) (settings : FileSettings) (goOn : Bool)
    (folder : String) : Balanced (linkFolder view settings goOn folder) := by
  refine balanced_get_bind fun b => ?_
  dsimp only
  split
  · exact balanced_throw _
  · refine (balanced_filing _).bind fun found => ?_
    split
    · exact balanced_note _
    · refine (balanced_note _).bind fun _ => (balanced_linkEach view _ goOn found).bind fun _ => ?_
      exact balanced_get_bind fun _ => balanced_note _

/-- **Linking a path is balanced**, however it ends. -/
lemma balanced_linkPath (view : View) (settings : FileSettings) (goOn : Bool) (path : String) :
    Balanced (linkPath view settings goOn path) := by
  refine balanced_get_bind fun b => ?_
  dsimp only
  split
  · refine balanced_attempt_bind (fun r hr => balanced_accept hr) fun failure => ?_
    exact balanced_countFailure.bind fun _ => balanced_throw failure
  · split
    · exact balanced_linkFolder view settings goOn _
    · exact balanced_throw _

end Batch

end Marginalia
