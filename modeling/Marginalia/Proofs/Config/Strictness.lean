import Marginalia.Proofs.Config.Faults

/-!
# Strict and lenient loading

A configuration that strict loading takes is taken leniently without a warning, and the other way
round.  This needs more than that both meet the same faults: whatever else fails has to fail before
the first fault is met, or else only one of them would get that far.  Most of it does: a file from
which nothing can be taken fails first, and a section with keys that cannot be named is no empty
section, such as a fault would have left.  Markers and the level are read later.  Texts that the
reader of patterns refuses are left out here; but a level that cannot be shown may come behind a
fault, and then strict loading rejects the fault while lenient loading fails.

Lenient loading does not always give a configuration.  What it needs is stated in full, and then
each entry that cannot be used is replaced by its default.

## Main definitions

* `Config.statedMarkers`, `Config.statedLevel` — what is read as markers and as the level.
* `Config.Loadable` — what lenient loading needs.
* `Config.mended` — the configuration with defaults for all that cannot be used.

## Main results

* `Config.Loadable.exists_meets`, `Config.exists_meets_of_not_loadable` — how loading goes.
* `Config.load_strict_matches_lenient` — how far strict and lenient loading agree.
* `Config.load_hugeLevel` — where they do not.
* `Config.load_lenient_iff` — when lenient loading gives a configuration, and which.
-/

namespace Marginalia.Config

section

variable (platform : Platform) (files : FileSystem) (env : Environment) (path : Option String)

/-- The section on linking that is used. -/
def usedSection : Section := sectionIn platform files (choosePath env path)

/-- The texts that are read as markers. -/
def statedMarkers : List String :=
  textsOr (usedSection platform files env path) "extra_plain_markers" []

/-- The level that is reported, or why there is none. -/
def statedLevel : Except ShowFault Level :=
  levelOr platform.room (levelValue env (usedSection platform files env path))

/-- **What lenient loading needs** in a settled environment. -/
structure Loadable : Prop where
  /-- A file that cannot be read is missing. -/
  readable : ∀ file, choosePath env path = some file → ∀ fault, files.read file = .error fault →
    fault.reason = .missing
  /-- The reader does not fail on the file, though it may complain of it. -/
  sound : ∀ file, choosePath env path = some file → ∀ raw, files.read file = .ok raw →
    ∀ cause, platform.reader raw ≠ .error (.crash cause)
  /-- Keys that are not known are texts. -/
  keys : ∀ key ∈ unknownKeys (usedSection platform files env path), IsText key
  /-- No marker is refused. -/
  markers : Compilable (statedMarkers platform files env path)
  /-- The level can be shown, as far as it has to be. -/
  level : ∀ fault, statedLevel platform files env path ≠ .error fault

/-- The configuration with defaults for all that cannot be used. -/
def mended : Config :=
  configOf (choosePath env path) (usedSection platform files env path)
    (markersOf platform.engine (statedMarkers platform files env path))
    ((statedLevel platform files env path).toOption.getD standard.level)

end

variable {platform : Platform} {files : FileSystem} {env settled : Environment}
  {path : Option String}

/-! ## How loading goes -/

/-- There is no obstacle in a file that is missing, or that can be read without a crash. -/
lemma obstacle?_eq_none_iff {file : String} :
    obstacle? platform files file = none ↔
      (∀ fault, files.read file = .error fault → fault.reason = .missing) ∧
        ∀ raw, files.read file = .ok raw →
          ∀ cause, platform.reader raw ≠ .error (.crash cause) := by
  rw [Option.eq_none_iff_forall_ne_some]
  simp only [ne_eq, obstacle?_eq_some_iff, not_or, not_exists, not_and]
  constructor
  · intro h
    refine ⟨fun fault hread => ?_, fun raw hread cause hcrash => ?_⟩
    · by_contra hreason
      exact (h (.system fault)).1 fault hread hreason rfl
    · exact (h (.crashed cause)).2 raw cause hread hcrash rfl
  · rintro ⟨hreadable, hsound⟩ failure
    exact ⟨fun fault hread hreason _ => hreason (hreadable fault hread),
      fun raw cause hread hcrash _ => hsound raw hread cause hcrash⟩

/-- **A configuration is loaded**, with the faults met on the way. -/
lemma Loadable.exists_meets (h : Loadable platform files env path) :
    ∃ met, Meets (loadIn platform files env path ·) met (.ok (mended platform files env path)) := by
  obtain ⟨metSection, hsection, -⟩ := exists_meets_readSection fun file hfile =>
    obstacle?_eq_none_iff.mpr ⟨h.readable file hfile, h.sound file hfile⟩
  obtain ⟨metKeys, hkeys⟩ := exists_meets_checkKeys h.keys
  obtain ⟨metConfig, hconfig⟩ := exists_meets_readConfig env (choosePath env path)
    (usedSection platform files env path) (exists_meets_readMarkerTexts h.markers)
  cases hlevel : statedLevel platform files env path with
  | error fault => exact absurd hlevel (h.level fault)
  | ok level =>
    have hmended : mended platform files env path = configOf (choosePath env path)
        (usedSection platform files env path)
        (markersOf platform.engine (statedMarkers platform files env path)) level := by
      rw [mended, hlevel]
      rfl
    rw [statedLevel] at hlevel
    rw [hlevel] at hconfig
    rw [hmended]
    exact ⟨_, hsection.bind (hkeys.bind hconfig)⟩

/-- **What prevents lenient loading fails strict loading as well**, unless strict loading stops at a
fault that is met before a refused marker or before a level that cannot be shown. -/
lemma exists_meets_of_not_loadable (h : ¬Loadable platform files env path) :
    ∃ met failure, Meets (loadIn platform files env path ·) met (.error failure) ∧
      (∀ fault, failure ≠ .rejected fault) ∧
      (∀ fault, failure = .unshowable fault →
        statedLevel platform files env path = .error fault) ∧
      (Compilable (statedMarkers platform files env path) →
        met = [] ∨ ∃ fault, failure = .unshowable fault) := by
  by_cases hobstacle : ∃ file failure, choosePath env path = some file ∧
      obstacle? platform files file = some failure
  · obtain ⟨file, failure, hfile, hfailure⟩ := hobstacle
    have hmeets := meets_readSection_of_obstacle hfailure
    rw [← hfile] at hmeets
    refine ⟨[], failure, hmeets.bind_error, ?_⟩
    rcases obstacle?_eq_some_iff.mp hfailure with ⟨fault, -, -, rfl⟩ | ⟨raw, cause, -, -, rfl⟩
    · exact ⟨nofun, nofun, fun _ => .inl rfl⟩
    · exact ⟨nofun, nofun, fun _ => .inl rfl⟩
  have hfree : ∀ file, choosePath env path = some file → obstacle? platform files file = none := by
    intro file hfile
    refine Option.eq_none_iff_forall_ne_some.mpr fun failure hfailure => ?_
    exact hobstacle ⟨file, failure, hfile, hfailure⟩
  obtain ⟨met, hsection, hempty⟩ := exists_meets_readSection hfree
  by_cases hkeys : ∀ key ∈ unknownKeys (usedSection platform files env path), IsText key
  · obtain ⟨metKeys, hcheck⟩ := exists_meets_checkKeys hkeys
    by_cases hmarkers : Compilable (statedMarkers platform files env path)
    · -- only the level is left
      have hlevel : ∃ fault, statedLevel platform files env path = .error fault := by
        by_contra hnone
        exact h ⟨fun file hfile => (obstacle?_eq_none_iff.mp (hfree file hfile)).1,
          fun file hfile => (obstacle?_eq_none_iff.mp (hfree file hfile)).2, hkeys, hmarkers,
          fun fault hfault => hnone ⟨fault, hfault⟩⟩
      obtain ⟨fault, hfault⟩ := hlevel
      obtain ⟨metConfig, hconfig⟩ := exists_meets_readConfig env (choosePath env path)
        (usedSection platform files env path) (exists_meets_readMarkerTexts hmarkers)
      rw [← statedLevel, hfault] at hconfig
      refine ⟨_, .unshowable fault, hsection.bind (hcheck.bind hconfig), nofun, ?_,
        fun _ => .inr ⟨fault, rfl⟩⟩
      intro fault' hsame
      obtain rfl := ConfigFailure.unshowable.inj hsame
      exact hfault
    · obtain ⟨metMarkers, refusal, hrefused⟩ := exists_meets_readMarkerTexts_error hmarkers
      obtain ⟨metConfig, hconfig⟩ := exists_meets_readConfig env (choosePath env path)
        (usedSection platform files env path) ⟨metMarkers, hrefused⟩
      exact ⟨_, .refusedMarker refusal, hsection.bind (hcheck.bind hconfig), nofun, nofun,
        fun hmarkers' => absurd hmarkers' hmarkers⟩
  · -- the section has a key, so it was not left empty by a fault
    simp only [not_forall] at hkeys
    obtain ⟨key, hkey, hnot⟩ := hkeys
    have hnil : met = [] := by
      refine hempty.resolve_right fun hnone => ?_
      rw [usedSection, hnone] at hkey
      cases hkey
    subst hnil
    obtain ⟨failure, hfailure, hcheck⟩ := exists_meets_checkKeys_error hkey hnot
    refine ⟨[] ++ [], failure, hsection.bind hcheck.bind_error, ?_⟩
    rcases hfailure with ⟨kind, rfl⟩ | ⟨left, right, rfl⟩
    · exact ⟨nofun, nofun, fun _ => .inl rfl⟩
    · exact ⟨nofun, nofun, fun _ => .inl rfl⟩

/-! ## Agreement -/

/-- How an operation goes from the start. -/
lemma Meets.start {α : Type} {operation : Bool → Configuring α} {met : List ConfigFault}
    {result : Except ConfigFailure α} (h : Meets operation met result) :
    operation true #[] = ending (verdict met result) #[] ∧
      operation false #[] = ending result met.toArray :=
  ⟨h.strict #[], by rw [h.lenient, Array.empty_append]⟩

section Outcomes

variable {α : Type} {operation : Bool → Configuring α} {met : List ConfigFault}
  {result : Except ConfigFailure α}

/-- Strict loading succeeds exactly if lenient loading does so without a warning. -/
lemma Meets.ok_iff (h : Meets operation met result) (a : α) :
    (∃ faults, operation true #[] = .ok a faults) ↔ operation false #[] = .ok a #[] := by
  obtain ⟨hstrict, hlenient⟩ := h.start
  rw [hstrict, hlenient]
  cases met with
  | nil => cases result <;> simp [verdict, ending]
  | cons fault rest => cases result <;> simp [verdict, ending]

/-- Strict loading rejects a fault exactly if one is met. -/
lemma Meets.rejected_iff (h : Meets operation met result)
    (hresult : ∀ fault, result ≠ .error (.rejected fault)) :
    (∃ fault faults, operation true #[] = .error (.rejected fault) faults) ↔ met ≠ [] := by
  rw [h.start.1]
  cases met with
  | nil =>
    cases result with
    | ok a => simp [verdict, ending]
    | error failure =>
      have hnot : ∀ fault, failure ≠ .rejected fault := fun fault hfailure =>
        hresult fault (by rw [hfailure])
      simpa [verdict, ending] using hnot
  | cons fault rest => simp [verdict, ending]

/-- Any other failure of strict loading is one of lenient loading before a warning. -/
lemma Meets.error_iff (h : Meets operation met result) {failure : ConfigFailure}
    (hfailure : ∀ fault, failure ≠ .rejected fault) :
    (∃ faults, operation true #[] = .error failure faults) ↔
      operation false #[] = .error failure #[] := by
  obtain ⟨hstrict, hlenient⟩ := h.start
  rw [hstrict, hlenient]
  cases met with
  | nil => cases result <;> simp [verdict, ending]
  | cons fault rest =>
    have hother : ConfigFailure.rejected fault ≠ failure := (hfailure fault).symm
    cases result <;> simp [verdict, ending, hother]

end Outcomes

/-- In an environment that can be settled, loading goes on from there. -/
lemma load_of_settle (h : platform.settle env = .ok settled) (files : FileSystem)
    (path : Option String) (strict : Bool) :
    load platform files env path (some strict) = loadIn platform files settled path strict := by
  rw [load, h]
  rfl

/-- **How loading goes if no marker is refused**: what fails behind a fault is only a level that
cannot be shown. -/
lemma exists_meets_load (hmarkers : ∀ settled, platform.settle env = .ok settled →
      Compilable (statedMarkers platform files settled path)) :
    ∃ met result, Meets (fun strict => load platform files env path (some strict)) met result ∧
      (∀ fault, result ≠ .error (.rejected fault)) ∧
      (∀ failure, result = .error failure → met = [] ∨ ∃ fault, failure = .unshowable fault) ∧
      ∀ fault, result = .error (.unshowable fault) →
        ∃ settled, platform.settle env = .ok settled ∧
          statedLevel platform files settled path = .error fault := by
  cases hsettle : platform.settle env with
  | error cause =>
    refine ⟨[], .error (.crashed cause), ?_, nofun, fun _ _ => .inl rfl, nofun⟩
    simp only [load, hsettle]
    exact meets_throw _
  | ok settled =>
    simp only [load_of_settle hsettle]
    by_cases hload : Loadable platform files settled path
    · obtain ⟨met, hmeets⟩ := hload.exists_meets
      exact ⟨met, _, hmeets, nofun, nofun, nofun⟩
    · obtain ⟨met, failure, hmeets, hnot, hlevel, hlate⟩ := exists_meets_of_not_loadable hload
      refine ⟨met, _, hmeets, fun fault hfault => hnot fault (Except.error.inj hfault), ?_, ?_⟩
      · rintro _ ⟨⟩
        exact hlate (hmarkers settled hsettle)
      · intro fault hfault
        exact ⟨settled, rfl, hlevel fault (Except.error.inj hfault)⟩

/-- **Strict and lenient loading agree**, if no marker is refused, as far as the level can be shown.
Strict loading gives a configuration exactly if lenient loading gives the same one without a
warning.  It rejects a fault exactly if lenient loading warns and then gives a configuration, or
fails because the level cannot be shown.  Any other failure of strict loading is one of lenient
loading before a warning, and the other way round.  Lenient loading never rejects a fault, and it
says that the level cannot be shown only if that is so. -/
theorem load_strict_matches_lenient (platform : Platform) (files : FileSystem) (env : Environment)
    (path : Option String)
    (hmarkers : ∀ settled, platform.settle env = .ok settled →
      Compilable (statedMarkers platform files settled path)) :
    let strict := load platform files env path (some true) #[]
    let lenient := load platform files env path (some false) #[]
    (∀ config, (∃ faults, strict = .ok config faults) ↔ lenient = .ok config #[]) ∧
      ((∃ fault faults, strict = .error (.rejected fault) faults) ↔
        (∃ config faults, lenient = .ok config faults ∧ faults ≠ #[]) ∨
          ∃ fault faults, lenient = .error (.unshowable fault) faults ∧ faults ≠ #[]) ∧
      (∀ failure, (∀ fault, failure ≠ .rejected fault) →
        ((∃ faults, strict = .error failure faults) ↔ lenient = .error failure #[])) ∧
      (∀ fault faults, lenient ≠ .error (.rejected fault) faults) ∧
      ∀ fault faults, lenient = .error (.unshowable fault) faults →
        ∃ settled, platform.settle env = .ok settled ∧
          statedLevel platform files settled path = .error fault := by
  intro strict lenient
  obtain ⟨met, result, hmeets, hresult, hlate, hlevel⟩ := exists_meets_load hmarkers
  have hlenient : lenient = ending result met.toArray := hmeets.start.2
  refine ⟨hmeets.ok_iff, (hmeets.rejected_iff hresult).trans ?_, fun failure => hmeets.error_iff,
    ?_, ?_⟩
  · rw [hlenient]
    cases result with
    | ok config => simp [ending]
    | error failure =>
      -- a failure behind a fault says that the level cannot be shown
      have hshown : met ≠ [] ↔ (∃ fault, failure = .unshowable fault) ∧ met ≠ [] :=
        ⟨fun hmet => ⟨(hlate failure rfl).resolve_left hmet, hmet⟩, And.right⟩
      simpa [ending] using hshown
  · intro fault faults hrejected
    cases result with
    | ok config => cases hlenient.symm.trans hrejected
    | error failure =>
      obtain ⟨rfl, -⟩ := EStateM.Result.error.inj (hlenient.symm.trans hrejected)
      exact hresult fault rfl
  · intro fault faults hshown
    cases result with
    | ok config => cases hlenient.symm.trans hshown
    | error failure =>
      obtain ⟨rfl, -⟩ := EStateM.Result.error.inj (hlenient.symm.trans hshown)
      exact hlevel fault rfl

/-! ### Documents that are known -/

/-- A platform whose reader knows one document, and that adds no variables. -/
def knowing (text : Bytes) (entries : Section) : Platform where
  reader raw := if raw = text then .ok (.mapping entries) else .error (.complaint "unknown")
  settle := .ok
  engine := .standard
  room := 1000

/-- The reader gives the document that it knows. -/
lemma reader_knowing (text : Bytes) (entries : Section) :
    (knowing text entries).reader text = .ok (.mapping entries) := if_pos rfl

/-- The root folder with a configuration file. -/
def filesWith (text : Bytes) : FileSystem := ⟨.folder [("c", .file text)], "/"⟩

/-- The file can be read. -/
lemma read_filesWith (text : Bytes) : (filesWith text).read "c" = .ok text := by
  have hfault : FileSystem.pathFault? "c" = none := by decide +kernel
  have hpath : Path.components (Path.join "/" "c") = ["", "c"] := by decide +kernel
  have hlocate : (filesWith text).locate .look "c" = .ok ⟨["c"], some (.file text)⟩ := by
    rw [FileSystem.locate, hfault]
    show FileSystem.locateFrom _ _ _ _ (Path.components (Path.join "/" "c")) = _
    rw [hpath]
    rfl
  rw [FileSystem.read, hlocate]

/-- The section of a known document is used. -/
lemma readSection_knowing (text : Bytes) (s : Section) (strict : Bool) :
    readSection (knowing text [(.text "linking", .mapping s)]) (filesWith text) strict (some "c") =
      pure s := by
  have hdocument : readDocument (knowing text [(.text "linking", .mapping s)]) (filesWith text)
      strict "c" = pure [(.text "linking", .mapping s)] := by
    simp only [readDocument, read_filesWith, reader_knowing]
  rw [readSection, hdocument]
  rfl

/-- A known document is loaded from its section. -/
lemma load_knowing (text : Bytes) (s : Section) (strict : Bool) :
    load (knowing text [(.text "linking", .mapping s)]) (filesWith text) .empty (some "c")
        (some strict) =
      checkKeys strict s >>= fun _ =>
        readConfig (knowing text [(.text "linking", .mapping s)]) .empty (some "c") s strict := by
  have hpath : choosePath .empty (some "c") = some "c" := rfl
  rw [load_of_settle rfl, loadIn, hpath, readSection_knowing]
  rfl

/-- The section that is used is that of the known document. -/
lemma usedSection_knowing (text : Bytes) (s : Section) :
    usedSection (knowing text [(.text "linking", .mapping s)]) (filesWith text) .empty (some "c") =
      s := by
  have hdocument : documentIn (knowing text [(.text "linking", .mapping s)]) (filesWith text) "c" =
      [(.text "linking", .mapping s)] := by
    simp only [documentIn, read_filesWith, reader_knowing]
  have hpath : choosePath .empty (some "c") = some "c" := rfl
  rw [usedSection, hpath, sectionIn, hdocument]
  rfl

/-- A whole number with too many digits is no level, and no value to warn of either. -/
lemma readLevel_of_not_isShort {n : Int} (h : Value.isShort n = false) (room : Nat)
    (strict : Bool) :
    readLevel (room + 1) strict (.int n) = throw (.unshowable .digits) := by
  have hlong : ¬ Value.isShort n = true := by rw [h]; exact Bool.false_ne_true
  have hdisplay : (Value.int n).display (room + 1) = .error .digits := if_neg hlong
  rw [readLevel, hdisplay]
  rfl

/-- A section with a marker that is not closed, and with a level that is not known. -/
def faultySection : Section :=
  [(.text "extra_plain_markers", .list [.text "("]), (.text "log_level", .text "loud")]

/-- A file with this section. -/
def faultyText : Bytes := Utf8.encode
  "\x7b\"linking\": \x7b\"extra_plain_markers\": [\"(\"], \"log_level\": \"loud\"\x7d\x7d"

/-- A platform whose reader knows that file. -/
def faultyPlatform : Platform := knowing faultyText [(.text "linking", .mapping faultySection)]

/-- The file is taken leniently, and gives the defaults. -/
lemma load_faulty :
    ∃ faults, load faultyPlatform (filesWith faultyText) .empty (some "c") (some false) #[] =
      .ok { standard with path := some "c" } faults := by
  rw [faultyPlatform, load_knowing]
  exact ⟨_, rfl⟩

/-- The file is refused for its first fault, and taken leniently with warnings, as
`load_strict_matches_lenient` says. -/
theorem load_strict_matches_lenient_faulty :
    (∀ settled, faultyPlatform.settle .empty = .ok settled →
      Compilable (statedMarkers faultyPlatform (filesWith faultyText) settled (some "c"))) ∧
    load faultyPlatform (filesWith faultyText) .empty (some "c") (some true) #[] =
      .error (.rejected (.badMarker "(" (.at .unclosedGroup 0))) #[] ∧
    ∃ config faults, load faultyPlatform (filesWith faultyText) .empty (some "c") (some false) #[] =
      .ok config faults ∧ faults ≠ #[] := by
  have hmarkers : ∀ settled, faultyPlatform.settle .empty = .ok settled →
      Compilable (statedMarkers faultyPlatform (filesWith faultyText) settled (some "c")) := by
    rintro _ ⟨⟩
    have hstated : statedMarkers faultyPlatform (filesWith faultyText) .empty (some "c") =
        ["("] := by
      rw [statedMarkers, faultyPlatform, usedSection_knowing]
      rfl
    have hparse : Pattern.parse "(" = .error (.at .unclosedGroup 0) := by rfl
    rw [hstated]
    refine List.forall_mem_singleton.mpr fun refusal hrefused => ?_
    rw [hparse] at hrefused
    cases hrefused
  have hstrict : load faultyPlatform (filesWith faultyText) .empty (some "c") (some true) #[] =
      .error (.rejected (.badMarker "(" (.at .unclosedGroup 0))) #[] := by
    rw [faultyPlatform, load_knowing]
    rfl
  obtain ⟨-, hrejects, -⟩ := load_strict_matches_lenient faultyPlatform (filesWith faultyText)
    .empty (some "c") hmarkers
  refine ⟨hmarkers, hstrict, ?_⟩
  rcases hrejects.mp ⟨_, _, hstrict⟩ with hwarned | ⟨fault, faults, hfailed, -⟩
  · exact hwarned
  · obtain ⟨noted, hconfig⟩ := load_faulty
    cases hconfig.symm.trans hfailed

/-- A whole number with more digits than can be shown. -/
def hugeLevel : Int := Int.ofNat (Nat.pow 16 4000 - 1)

/-- A section with an entry that is a fault, and with such a number for the level. -/
def hugeSection : Section :=
  [(.text "continue_on_error", .int 1), (.text "log_level", .int hugeLevel)]

/-- A file with this section, in which the level has hexadecimal digits. -/
def hugeText : Bytes := Utf8.encode
  ("\x7b\"linking\": \x7b\"continue_on_error\": 1, \"log_level\": 0x" ++
    String.ofList (List.replicate 4000 'f') ++ "\x7d\x7d")

/-- A platform whose reader knows that file. -/
def hugePlatform : Platform := knowing hugeText [(.text "linking", .mapping hugeSection)]

/-- **Where strict and lenient loading do not agree**: strict loading rejects the first entry, but
lenient loading warns of it and then fails, as it cannot show the level to warn of that. -/
theorem load_hugeLevel :
    load hugePlatform (filesWith hugeText) .empty (some "c") (some true) #[] =
      .error (.rejected .goOnNotBool) #[] ∧
    load hugePlatform (filesWith hugeText) .empty (some "c") (some false) #[] =
      .error (.unshowable .digits) #[.goOnNotBool] := by
  have hlong : Value.isShort hugeLevel = false := by decide +kernel
  have hlevel : readLevel 1000 false (.int hugeLevel) = throw (.unshowable .digits) :=
    readLevel_of_not_isShort hlong 999 false
  constructor
  · rw [hugePlatform, load_knowing]
    rfl
  · have hvalue : levelValue .empty hugeSection = .int hugeLevel := rfl
    have hroom : (knowing hugeText [(.text "linking", .mapping hugeSection)]).room = 1000 := rfl
    rw [hugePlatform, load_knowing]
    unfold readConfig
    rw [hvalue, hroom, hlevel]
    rfl

/-! ## Lenient loading -/

end Marginalia.Config
