import Marginalia.Command.Run
import Marginalia.Proofs.Files.Accounting
import Marginalia.Proofs.Files.Storage
import Marginalia.Proofs.Source.Records

/-!
# The output of a run

A run opens the output file, links the source and then fills the file with the records.  Printing
does not touch any file, so the output file is still where it was opened, and takes the records in;
this is so whether the source could be linked or not.  Each record is a line, and the statistics
agree with the records: the output file has as many lines as the statistics say.

## Main results

* `Run.openOutput_of_files` — opening the output file depends on the files only.
* `Run.exists_fillOutput` — an output file that was opened takes the records in.
* `Run.exists_linkInto` — what is linked into an output file that could be opened.
* `records_match_entriesWritten` — **records agree with the statistics** however linking ends, and
  so do the lines of the output file.
-/

namespace Marginalia

/-- How an operation of a batch ends, with the failure that ended it. -/
def Batch.ending (failure : Option FileFailure) (b : Batch) :
    EStateM.Result FileFailure Batch Unit :=
  match failure with
  | none => .ok () b
  | some failure => .error failure b

/-- A balanced operation emits as many records as it counts, with or without a failure. -/
lemma Batch.Balanced.exists_emits {operation : Batching Unit} (h : Balanced operation) (b : Batch) :
    ∃ failure c emitted, operation b = ending failure c ∧ b.Emits c emitted := by
  obtain ⟨c, emitted, ⟨_, hop⟩ | ⟨failure, hop⟩, hemits⟩ := h b
  · exact ⟨none, c, emitted, hop, hemits⟩
  · exact ⟨some failure, c, emitted, hop, hemits⟩

namespace Run

variable {s t opened : RunState} {output : String}

/-! ## Printing -/

/-- Printing a record succeeds, and keeps the files. -/
lemma exists_print (r : LogRecord) (s : RunState) :
    ∃ t, print r s = .ok () t ∧ t.files = s.files := by
  refine ⟨_, rfl, ?_⟩
  dsimp only
  split <;> rfl

/-- **Printing does not touch any file.** -/
lemma exists_printAll (rs : List LogRecord) (s : RunState) :
    ∃ t, printAll rs s = .ok () t ∧ t.files = s.files := by
  induction rs generalizing s with
  | nil => exact ⟨s, rfl, rfl⟩
  | cons r rs ih =>
    obtain ⟨t, hprint, ht⟩ := exists_print r s
    obtain ⟨u, hrest, hu⟩ := ih t
    refine ⟨u, ?_, hu.trans ht⟩
    show (print r >>= fun _ => printAll rs) s = _
    rw [bind_apply_of_ok hprint, hrest]

/-! ## The output file -/

/-- A storing operation that succeeds is a run step that hands its files on. -/
lemma store_of_ok {operation : Storing Unit} {files : FileSystem}
    (h : operation s.files = .ok () files) : store operation s = .ok none { s with files } := by
  rw [store, h]

/-- What was stored without a fault. -/
lemma of_store_eq_ok {operation : Storing Unit} (h : store operation s = .ok none t) :
    operation s.files = .ok () t.files := by
  rw [store] at h
  split at h
  next hop =>
    rw [hop, ← (EStateM.Result.ok.inj h).2]
  next => cases (EStateM.Result.ok.inj h).1

/-- **Opening the output file depends on the files only.** -/
lemma openOutput_of_files (h : openOutput output s = .ok none opened) (hfiles : t.files = s.files) :
    openOutput output t = .ok none { t with files := opened.files } := by
  rw [openOutput, get_bind_apply] at h ⊢
  refine store_of_ok ?_
  rw [hfiles]
  exact of_store_eq_ok h

/-- An output that could be opened has been written, empty. -/
lemma exists_write_of_openOutput (h : openOutput output s = .ok none opened) :
    ∃ made : FileSystem, made.write output [] = .ok opened.files := by
  rw [openOutput, get_bind_apply] at h
  obtain ⟨_, made, -, hwrite⟩ := bind_eq_ok (of_store_eq_ok h)
  refine ⟨made, ?_⟩
  rw [Storing.write, Storing.change] at hwrite
  split at hwrite
  next files hfiles => rw [hfiles, (EStateM.Result.ok.inj hwrite).2]
  next => cases hwrite

/-- **An output file that was opened takes the records in.** -/
lemma exists_fillOutput (h : openOutput output s = .ok none opened)
    (hfiles : t.files = opened.files) (entries : List LinkEntry) :
    ∃ u, fillOutput output entries t = .ok () u ∧
      u.files.read output = .ok (Utf8.encode (LinkEntry.lines entries)) := by
  obtain ⟨made, hmade⟩ := exists_write_of_openOutput h
  obtain ⟨files, hwrite⟩ := FileSystem.exists_write_of_write hmade
    (Utf8.encode (LinkEntry.lines entries))
  refine ⟨{ t with files }, ?_, FileSystem.read_of_write hwrite⟩
  have hstore : store (Storing.write output (Utf8.encode (LinkEntry.lines entries))) t =
      .ok none { t with files } := by
    refine store_of_ok ?_
    rw [hfiles, Storing.write, Storing.change, hwrite]
  show EStateM.map _ _ t = _
  rw [EStateM.map, hstore]

/-- What is linked into an output file that could be opened: the records of the batch stand in the
file, and its statistics and its failure are handed on. -/
lemma exists_linkInto (w : Surroundings) (config : Config) (goOn : Bool) (source : String)
    (h : openOutput output s = .ok none opened) {failure : Option FileFailure} {c : Batch}
    (hc : Batch.linkPath (viewDuring w.parser opened.files output)
      ⟨config.linkSettings, config.extensions, none⟩ goOn source (.start .zero) =
        Batch.ending failure c) (hfiles : t.files = s.files) :
    ∃ u, linkInto w config goOn source output t = .ok ⟨c.stats, failure⟩ u ∧
      u.files.read output = .ok (Utf8.encode (LinkEntry.lines c.entries)) := by
  obtain ⟨t₁, hnote, hfiles₁⟩ := exists_print ⟨noFile, .runOutput (t.files.absolute output)⟩ t
  have hopen := openOutput_of_files h (hfiles₁.trans hfiles)
  obtain ⟨t₂, hprint, hfiles₂⟩ := exists_printAll c.records.toList { t₁ with files := opened.files }
  obtain ⟨t₃, hfill, hread⟩ := exists_fillOutput h hfiles₂ c.entries
  rw [linkInto, get_bind_apply, note, bind_apply_of_ok hnote, bind_apply_of_ok hopen]
  dsimp only
  rw [get_bind_apply]
  cases failure with
  | some failure =>
    simp only [hc, Batch.ending]
    rw [bind_apply_of_ok hprint, bind_apply_of_ok hfill]
    exact ⟨t₃, rfl, hread⟩
  | none =>
    simp only [hc, Batch.ending]
    rw [bind_apply_of_ok hprint, bind_apply_of_ok hfill]
    obtain ⟨t₄, hnote₄, hfiles₄⟩ :=
      exists_print ⟨noFile, .recordsWritten c.entries.length output⟩ t₃
    refine ⟨t₄, bind_apply_of_ok hnote₄, ?_⟩
    rw [hfiles₄]
    exact hread

/-- Linking a source that exists, into an output file that can be opened. -/
lemma exists_link (w : Surroundings) {args : Arguments} (config : Config) {source : String}
    (hsource : args.source = .text source) (houtput : args.outputFile = .text output)
    (hexists : s.files.exists? source = true) (h : openOutput output s = .ok none opened)
    {failure : Option FileFailure} {c : Batch}
    (hc : Batch.linkPath (viewDuring w.parser opened.files output)
      ⟨config.linkSettings, config.extensions, none⟩ (config.goOn && !args.failFast) source
        (.start .zero) = Batch.ending failure c) :
    ∃ u, link w args config s = .ok ⟨c.stats, failure⟩ u ∧
      u.files.read output = .ok (Utf8.encode (LinkEntry.lines c.entries)) := by
  obtain ⟨t, hnote, hfiles⟩ := exists_print ⟨noFile, .runSource (s.files.absolute source)⟩ s
  obtain ⟨u, hlink, hread⟩ := exists_linkInto w config _ source h hc hfiles
  refine ⟨u, ?_, hread⟩
  unfold link
  rw [hsource]
  dsimp only
  rw [get_bind_apply, if_neg (by simp [hexists]), note, bind_apply_of_ok hnote, houtput]
  exact hlink

end Run

/-- **Records agree with the statistics.**  Linking a path, from any state of a batch and whatever
it finds, emits as many records as the counter of written entries grows by, whether it succeeds or
stops with a failure.  And once a run has opened the output file, it ends with that many lines in
the file, the records in order, whether or not there was a failure. -/
theorem records_match_entriesWritten :
    (∀ (view : Batch.View) (settings : FileSettings) (goOn : Bool) (path : String) (b : Batch),
      ∃ failure c emitted, Batch.linkPath view settings goOn path b = Batch.ending failure c ∧
        c.entries = b.entries ++ emitted ∧
        c.stats.entriesWritten = b.stats.entriesWritten + emitted.length) ∧
    ∀ (w : Surroundings) (args : Arguments) (config : Config) (source output : String)
      (s opened : RunState), args.source = .text source → args.outputFile = .text output →
      s.files.exists? source = true → Run.openOutput output s = .ok none opened →
      ∃ failure c t raw,
        Batch.linkPath (Run.viewDuring w.parser opened.files output)
          ⟨config.linkSettings, config.extensions, none⟩ (config.goOn && !args.failFast) source
          (.start .zero) = Batch.ending failure c ∧
        Run.link w args config s = .ok ⟨c.stats, failure⟩ t ∧
        t.files.read output = .ok raw ∧
        Text.splitAt newlineByte raw = c.entries.map LinkEntry.row ++ [[]] ∧
        raw.count newlineByte = c.stats.entriesWritten := by
  refine ⟨fun view settings goOn path b => ?_, ?_⟩
  · obtain ⟨failure, c, emitted, hend, hentries, hwritten⟩ :=
      (Batch.balanced_linkPath view settings goOn path).exists_emits b
    exact ⟨failure, c, emitted, hend, hentries, hwritten⟩
  · intro w args config source output s opened hsource houtput hexists hopen
    obtain ⟨failure, c, emitted, hend, hentries, hwritten⟩ :=
      (Batch.balanced_linkPath (Run.viewDuring w.parser opened.files output)
        ⟨config.linkSettings, config.extensions, none⟩ (config.goOn && !args.failFast)
        source).exists_emits (.start .zero)
    obtain ⟨t, hlink, hread⟩ := Run.exists_link w config hsource houtput hexists hopen hend
    refine ⟨failure, c, t, _, hend, hlink, hread, LinkEntry.splitAt_encode_lines c.entries, ?_⟩
    -- nothing was written and nothing was counted before
    have hall : c.entries = emitted := hentries
    rw [LinkEntry.count_encode_lines, hall, hwritten]
    exact (Nat.zero_add _).symm

/-- A run over one source, which consists of a comment. -/
def remarkSurroundings : Surroundings where
  platform := .plain
  environment := .empty
  parser := fun _ => .ok (.node ⟨"program", true, false, ⟨0, ⟨0, 0⟩⟩, ⟨5, ⟨1, 0⟩⟩, none⟩
    [.node ⟨"comment", true, false, ⟨0, ⟨0, 0⟩⟩, ⟨4, ⟨0, 4⟩⟩, none⟩ []])
  runId := "r"
  timestamp := "t"

/-- The arguments of that run. -/
def remarkArguments : Arguments where
  source := .text "a.js"
  outputFile := .text "out/linked.jsonl"
  config := none
  reportDir := .text "reports"
  failFast := false
  strictConfig := none

/-- The state of that run at its start. -/
def remarkStart : RunState :=
  Run.start ⟨.folder [("w", .folder [("a.js", .file [47, 47, 32, 97, 10])])], "/w"⟩
    .initial

/-- A step of a run comes to an end without a fault. -/
def isFaultless {α : Type} : EStateM.Result RunFailure RunState (Option α) → Bool
  | .ok none _ => true
  | _ => false

/-- A result that is faultless is one without a fault to report. -/
lemma exists_of_isFaultless {α : Type} {result : EStateM.Result RunFailure RunState (Option α)}
    (h : isFaultless result = true) : ∃ s, result = .ok none s := by
  cases result with
  | error failure s => simp [isFaultless] at h
  | ok fault s =>
    cases fault with
    | none => exact ⟨s, rfl⟩
    | some fault => simp [isFaultless] at h

/-- How many entries a run has written, if it comes to an end. -/
def entriesOf : EStateM.Result RunFailure RunState LinkOutcome → Nat
  | .ok outcome _ => outcome.stats.entriesWritten
  | .error .. => 0

/-- The comment is linked, and the output file has one line, as `records_match_entriesWritten`
says. -/
theorem records_match_entriesWritten_remark :
    remarkStart.files.exists? "a.js" = true ∧
    ∃ opened, Run.openOutput "out/linked.jsonl" remarkStart = .ok none opened ∧
      ∃ outcome t raw,
        Run.link remarkSurroundings remarkArguments .standard remarkStart = .ok outcome t ∧
        t.files.read "out/linked.jsonl" = .ok raw ∧
        raw.count newlineByte = 1 ∧ outcome.stats.entriesWritten = 1 := by
  have hexists : remarkStart.files.exists? "a.js" = true := by decide +kernel
  have hfaultless : isFaultless (Run.openOutput "out/linked.jsonl" remarkStart) = true := by
    decide +kernel
  obtain ⟨opened, hopen⟩ := exists_of_isFaultless hfaultless
  obtain ⟨failure, c, t, raw, -, hlink, hread, -, hcount⟩ :=
    records_match_entriesWritten.2 remarkSurroundings remarkArguments .standard "a.js"
      "out/linked.jsonl" remarkStart opened rfl rfl hexists hopen
  have hone : c.stats.entriesWritten = 1 := by
    have h : entriesOf (Run.link remarkSurroundings remarkArguments .standard remarkStart) = 1 := by
      decide +kernel
    rw [hlink] at h
    exact h
  exact ⟨hexists, opened, hopen, _, t, raw, hlink, hread, hcount.trans hone, hone⟩

end Marginalia
