import Marginalia.Config.Load
import Marginalia.Proofs.Link.Placing

/-!
# Faults of a configuration, met strictly and leniently

Both ways of loading read the same entries in the same order, and part only where they meet a fault.
So an operation of loading is described once for both, by the faults it meets and by what it comes
to if it goes on behind them.  Lenient loading notes these faults and comes to this; strict loading
stops at the first of them.  Descriptions of operations one behind the other are put together, as
long as each of them goes on.

## Main definitions

* `Config.Meets` — an operation meets some faults and comes to a result.
* `Config.documentIn`, `Config.sectionIn` — the mapping and the section that are used.
* `Config.obstacle?` — why no document can be taken from a file.
* `Config.textsOr`, `Config.goOnOr`, `Config.markersOf`, `Config.levelOr` — entries, or defaults.

## Main results

* `Config.Meets.bind` — one operation behind another.
* `Config.exists_meets_readSection`, `Config.exists_meets_checkKeys` — the section and its keys.
* `Config.exists_meets_readMarkerTexts`, `Config.exists_meets_readLevel` — the entries that may
  fail.
* `Config.exists_meets_readConfig` — **all entries of a section**.
-/

namespace Marginalia.Config

open scoped List

/-! ## What an operation meets -/

section Meets

variable {α β : Type}

/-- How an operation ends, with these faults noted. -/
def ending : Except ConfigFailure α → Array ConfigFault →
    EStateM.Result ConfigFailure (Array ConfigFault) α
  | .ok a, faults => .ok a faults
  | .error failure, faults => .error failure faults

/-- What strict loading comes to: the first fault is its failure. -/
def verdict (met : List ConfigFault) (result : Except ConfigFailure α) : Except ConfigFailure α :=
  match met with
  | [] => result
  | fault :: _ => .error (.rejected fault)

/-- The operation **meets the faults `met` and comes to `result`** if it goes on behind them,
whatever was noted before.  Lenient loading goes on, and strict loading stops at the first fault. -/
structure Meets (operation : Bool → Configuring α) (met : List ConfigFault)
    (result : Except ConfigFailure α) : Prop where
  lenient : ∀ faults, operation false faults = ending result (faults ++ met.toArray)
  strict : ∀ faults, operation true faults = ending (verdict met result) faults

variable {operation : Bool → Configuring α} {next : Bool → α → Configuring β}
  {met more : List ConfigFault} {a : α} {result : Except ConfigFailure β} {failure : ConfigFailure}

/-- A value is returned without a fault. -/
lemma meets_pure (a : α) : Meets (fun _ => pure a) [] (.ok a) :=
  ⟨fun faults => by rw [Array.append_empty]; rfl, fun _ => rfl⟩

/-- A failure ends both. -/
lemma meets_throw (failure : ConfigFailure) :
    Meets (fun _ => (throw failure : Configuring α)) [] (.error failure) :=
  ⟨fun faults => by rw [Array.append_empty]; rfl, fun _ => rfl⟩

/-- A fault is met. -/
lemma meets_meet (fault : ConfigFault) : Meets (fun strict => meet strict fault) [fault] (.ok ()) :=
  ⟨fun _ => rfl, fun _ => rfl⟩

/-- **One operation behind another** meets the faults of both. -/
lemma Meets.bind (h : Meets operation met (.ok a))
    (hnext : Meets (fun strict => next strict a) more result) :
    Meets (fun strict => operation strict >>= next strict) (met ++ more) result := by
  constructor
  · intro faults
    rw [bind_apply_of_ok (h.lenient faults), hnext.lenient, Array.append_assoc]
    simp only [List.append_toArray]
  · intro faults
    cases met with
    | nil => exact (bind_apply_of_ok (h.strict faults)).trans (hnext.strict faults)
    | cons fault rest => exact bind_apply_of_error (h.strict faults)

/-- Behind an operation that fails nothing is met. -/
lemma Meets.bind_error (h : Meets operation met (.error failure)) :
    Meets (fun strict => operation strict >>= next strict) met (.error failure) := by
  constructor
  · intro faults
    exact bind_apply_of_error (h.lenient faults)
  · intro faults
    cases met with
    | nil => exact bind_apply_of_error (h.strict faults)
    | cons fault rest => exact bind_apply_of_error (h.strict faults)

/-- Behind a fault the default is taken. -/
lemma meets_default (fault : ConfigFault) (default : α) :
    Meets (fun strict => do meet strict fault; return default) [fault] (.ok default) :=
  (meets_meet fault).bind (meets_pure default)

end Meets

/-! ## The document and its section -/

section Document

variable (platform : Platform) (files : FileSystem)

/-- The mapping that is taken from a configuration file: empty, if the file holds none. -/
def documentIn (path : String) : Section :=
  match files.read path with
  | .error _ => []
  | .ok raw =>
    match platform.reader raw with
    | .ok (.mapping entries) => entries
    | _ => []

/-- Why no document can be taken from a configuration file, not even an empty one. -/
def obstacle? (path : String) : Option ConfigFailure :=
  match files.read path with
  | .error fault => if fault.reason = .missing then none else some (.system fault)
  | .ok raw =>
    match platform.reader raw with
    | .error (.crash cause) => some (.crashed cause)
    | _ => none

/-- The section on linking that is used: empty, if there is none. -/
def sectionIn : Option String → Section
  | none => []
  | some path =>
    match Section.get? (documentIn platform files path) "linking" with
    | some (.mapping entries) => entries
    | _ => []

end Document

variable {platform : Platform} {files : FileSystem} {path : String} {failure : ConfigFailure}

/-- **The obstacles**: a fault of the system, unless the file is missing, and a crash of the
reader. -/
lemma obstacle?_eq_some_iff :
    obstacle? platform files path = some failure ↔
      (∃ fault, files.read path = .error fault ∧ fault.reason ≠ .missing ∧
        failure = .system fault) ∨
      ∃ raw cause, files.read path = .ok raw ∧ platform.reader raw = .error (.crash cause) ∧
        failure = .crashed cause := by
  unfold obstacle?
  cases files.read path with
  | error fault =>
    have hflip : .system fault = failure ↔ failure = .system fault := eq_comm
    by_cases hreason : fault.reason = .missing <;> simp [hreason, hflip]
  | ok raw =>
    cases hreader : platform.reader raw with
    | ok v => simp [hreader]
    | error fault => cases fault <;> simp [hreader, eq_comm]

/-- An obstacle fails both. -/
lemma meets_readDocument_of_obstacle (h : obstacle? platform files path = some failure) :
    Meets (fun strict => readDocument platform files strict path) [] (.error failure) := by
  unfold readDocument
  rcases obstacle?_eq_some_iff.mp h with
    ⟨fault, hread, hreason, rfl⟩ | ⟨raw, cause, hread, hcrash, rfl⟩
  · simp only [hread, if_neg hreason]
    exact meets_throw _
  · simp only [hread, hcrash]
    exact meets_throw _

/-- **Without an obstacle there is a mapping**; it is empty if a fault is met. -/
lemma exists_meets_readDocument (h : obstacle? platform files path = none) :
    ∃ met, Meets (fun strict => readDocument platform files strict path) met
        (.ok (documentIn platform files path)) ∧
      (met = [] ∨ documentIn platform files path = []) := by
  unfold obstacle? at h
  unfold readDocument documentIn
  cases hread : files.read path with
  | error fault =>
    have hreason : fault.reason = .missing := by simpa [hread] using h
    simp only [if_pos hreason]
    exact ⟨_, meets_default _ _, .inr trivial⟩
  | ok raw =>
    cases hreader : platform.reader raw with
    | error fault =>
      cases fault with
      | crash cause => simp [hread, hreader] at h
      | complaint text =>
        simp only [hreader]
        exact ⟨_, meets_default _ _, .inr trivial⟩
    | ok v =>
      simp only [hreader]
      cases v with
      | mapping entries => exact ⟨_, meets_pure _, .inl rfl⟩
      | _ => exact ⟨_, meets_default _ _, .inr rfl⟩

/-- An obstacle fails the reading of the section, too. -/
lemma meets_readSection_of_obstacle (h : obstacle? platform files path = some failure) :
    Meets (fun strict => readSection platform files strict (some path)) [] (.error failure) :=
  (meets_readDocument_of_obstacle h).bind_error

/-- **Without an obstacle there is a section**; it is empty if a fault is met. -/
lemma exists_meets_readSection {chosen : Option String}
    (h : ∀ path, chosen = some path → obstacle? platform files path = none) :
    ∃ met, Meets (fun strict => readSection platform files strict chosen) met
        (.ok (sectionIn platform files chosen)) ∧
      (met = [] ∨ sectionIn platform files chosen = []) := by
  cases chosen with
  | none => exact ⟨_, meets_pure _, .inl rfl⟩
  | some path =>
    obtain ⟨met, hmet, hempty⟩ := exists_meets_readDocument (h path rfl)
    cases hget : Section.get? (documentIn platform files path) "linking" with
    | none =>
      have hsection : sectionIn platform files (some path) = [] := by simp only [sectionIn, hget]
      rw [hsection]
      refine ⟨met ++ [], hmet.bind ?_, .inr rfl⟩
      simp only [hget]
      exact meets_pure _
    | some v =>
      -- a document with a section is not the empty one, so no fault was met before
      have hnil : met = [] := by
        refine hempty.resolve_right fun hnone => ?_
        rw [hnone] at hget
        cases hget
      subst hnil
      cases v with
      | mapping entries =>
        have hsection : sectionIn platform files (some path) = entries := by
          simp only [sectionIn, hget]
        rw [hsection]
        refine ⟨[] ++ [], hmet.bind ?_, .inl rfl⟩
        simp only [hget]
        exact meets_pure _
      | _ =>
        have hsection : sectionIn platform files (some path) = [] := by simp only [sectionIn, hget]
        rw [hsection]
        refine ⟨[] ++ [.noSection], hmet.bind ?_, .inr rfl⟩
        simp only [hget]
        exact meets_default _ _

/-! ## Keys -/

/-- The keys of a section that are not known. -/
def unknownKeys (s : Section) : List Value := (s.map Prod.fst).filter fun k => !isKnown k

/-- The key is a text. -/
def IsText (key : Value) : Prop := ∃ s, key = .text s

/-- The failures that only keys bring about. -/
def KeyFailure (failure : ConfigFailure) : Prop :=
  (∃ kind, failure = .keyNotText kind) ∨ ∃ left right, failure = .keysUnordered left right

section Keys

variable {key : Value} {keys sorted : List Value}

/-- A key is put among the others. -/
lemma perm_of_insertKey (h : insertKey key keys = .ok sorted) : sorted ~ key :: keys := by
  induction keys generalizing sorted with
  | nil =>
    obtain rfl := Except.ok.inj h
    exact .refl _
  | cons k rest ih =>
    rw [insertKey] at h
    split at h
    · cases h
    · obtain rfl := Except.ok.inj h
      exact .refl _
    · cases hrest : insertKey key rest with
      | error failure =>
        rw [hrest] at h
        cases h
      | ok inserted =>
        rw [hrest] at h
        obtain rfl := Except.ok.inj h
        exact ((ih hrest).cons k).trans (.swap ..)

/-- All that can fail when a key is sorted in is the comparison of keys. -/
lemma keyFailure_of_insertKey (h : insertKey key keys = .error failure) : KeyFailure failure := by
  induction keys with
  | nil => cases h
  | cons k rest ih =>
    rw [insertKey] at h
    split at h
    · obtain rfl := Except.error.inj h
      exact .inr ⟨_, _, rfl⟩
    · cases h
    · cases hrest : insertKey key rest with
      | error failure' =>
        rw [hrest] at h
        obtain rfl := Except.error.inj h
        exact ih hrest
      | ok inserted =>
        rw [hrest] at h
        cases h

/-- Texts have an order. -/
lemma exists_insertKey (hkey : IsText key) (h : ∀ k ∈ keys, IsText k) :
    ∃ sorted, insertKey key keys = .ok sorted := by
  induction keys with
  | nil => exact ⟨_, rfl⟩
  | cons k rest ih =>
    obtain ⟨s, rfl⟩ := hkey
    obtain ⟨t, rfl⟩ := h k (List.mem_cons_self ..)
    obtain ⟨sorted, hsorted⟩ := ih fun k' hk' => h k' (List.mem_cons_of_mem _ hk')
    simp only [insertKey, Value.keyBefore?, hsorted]
    split
    · next hnone => cases hnone
    · exact ⟨_, rfl⟩
    · exact ⟨_, rfl⟩

/-- Sorting keys in loses none of them, and adds none. -/
lemma perm_of_foldlM {start : List Value}
    (h : keys.foldlM (fun sorted key => insertKey key sorted) start = .ok sorted) :
    sorted ~ keys ++ start := by
  induction keys generalizing start with
  | nil =>
    obtain rfl := Except.ok.inj h
    exact .refl _
  | cons k rest ih =>
    rw [List.foldlM_cons] at h
    cases hk : insertKey k start with
    | error failure =>
      rw [hk] at h
      cases h
    | ok inserted =>
      rw [hk] at h
      calc sorted ~ rest ++ inserted := ih h
        _ ~ rest ++ k :: start := (perm_of_insertKey hk).append_left rest
        _ ~ k :: rest ++ start := List.perm_middle

/-- Sorting keys keeps them. -/
lemma perm_of_sortKeys (h : sortKeys keys = .ok sorted) : sorted ~ keys := by
  simpa using perm_of_foldlM h

/-- All that can fail when keys are sorted in is the comparison of keys. -/
lemma keyFailure_of_foldlM {start : List Value}
    (h : keys.foldlM (fun sorted key => insertKey key sorted) start = .error failure) :
    KeyFailure failure := by
  induction keys generalizing start with
  | nil => cases h
  | cons k rest ih =>
    rw [List.foldlM_cons] at h
    cases hk : insertKey k start with
    | error failure' =>
      rw [hk] at h
      obtain rfl := Except.error.inj h
      exact keyFailure_of_insertKey hk
    | ok inserted =>
      rw [hk] at h
      exact ih h

/-- Keys that are texts can be sorted in. -/
lemma exists_foldlM {start : List Value} (hstart : ∀ k ∈ start, IsText k)
    (h : ∀ k ∈ keys, IsText k) :
    ∃ sorted, keys.foldlM (fun sorted key => insertKey key sorted) start =
      (.ok sorted : Except ConfigFailure (List Value)) := by
  induction keys generalizing start with
  | nil => exact ⟨_, rfl⟩
  | cons k rest ih =>
    have hk := h k (List.mem_cons_self ..)
    obtain ⟨inserted, hinserted⟩ := exists_insertKey hk hstart
    rw [List.foldlM_cons, hinserted]
    refine ih (fun k' hk' => ?_) fun k' hk' => h k' (List.mem_cons_of_mem _ hk')
    rcases List.mem_cons.mp ((perm_of_insertKey hinserted).mem_iff.mp hk') with rfl | hold
    · exact hk
    · exact hstart k' hold

/-- Texts are listed. -/
lemma exists_keyTexts (h : ∀ k ∈ keys, IsText k) : ∃ texts, keyTexts keys = .ok texts := by
  induction keys with
  | nil => exact ⟨_, rfl⟩
  | cons k rest ih =>
    obtain ⟨s, rfl⟩ := h k (List.mem_cons_self ..)
    obtain ⟨texts, htexts⟩ := ih fun k' hk' => h k' (List.mem_cons_of_mem _ hk')
    exact ⟨s :: texts, by rw [keyTexts, htexts]; rfl⟩

/-- A key that is no text fails, whatever stands before it. -/
lemma keyFailure_of_keyTexts (hkey : key ∈ keys) (h : ¬IsText key) :
    ∃ failure, KeyFailure failure ∧ keyTexts keys = .error failure := by
  induction keys with
  | nil => cases hkey
  | cons k rest ih =>
    by_cases hk : IsText k
    · obtain ⟨s, rfl⟩ := hk
      have hrest : key ∈ rest := by
        refine (List.mem_cons.mp hkey).resolve_left ?_
        rintro rfl
        exact h ⟨s, rfl⟩
      obtain ⟨failure, hfailure, hrest⟩ := ih hrest
      exact ⟨failure, hfailure, by rw [keyTexts, hrest]; rfl⟩
    · have hnot : ∀ s, k = .text s → False := fun s e => hk ⟨s, e⟩
      exact ⟨.keyNotText k.fullKindName, .inl ⟨_, rfl⟩, by rw [keyTexts]; exact hnot⟩

/-- **Unknown keys that are texts are at most a fault.** -/
lemma exists_meets_checkKeys {s : Section} (h : ∀ key ∈ unknownKeys s, IsText key) :
    ∃ met, Meets (fun strict => checkKeys strict s) met (.ok ()) := by
  obtain ⟨sorted, hsorted⟩ := exists_foldlM (List.forall_mem_nil IsText) h
  obtain ⟨texts, htexts⟩ := exists_keyTexts fun k hk =>
    h k ((perm_of_sortKeys hsorted).mem_iff.mp hk)
  have hnamed : (sortKeys (unknownKeys s)).bind keyTexts = .ok texts := by
    rw [sortKeys, hsorted]
    exact htexts
  unfold unknownKeys at hnamed
  unfold checkKeys
  cases texts with
  | nil =>
    simp only [hnamed]
    exact ⟨_, meets_pure _⟩
  | cons text rest =>
    simp only [hnamed]
    exact ⟨_, meets_meet _⟩

/-- **An unknown key that is no text fails both.** -/
lemma exists_meets_checkKeys_error {s : Section} (hkey : key ∈ unknownKeys s) (h : ¬IsText key) :
    ∃ failure, KeyFailure failure ∧
      Meets (fun strict => checkKeys strict s) [] (.error failure) := by
  have hnamed : ∃ failure, KeyFailure failure ∧
      (sortKeys (unknownKeys s)).bind keyTexts = .error failure := by
    cases hsorted : sortKeys (unknownKeys s) with
    | error failure => exact ⟨failure, keyFailure_of_foldlM hsorted, rfl⟩
    | ok sorted => exact keyFailure_of_keyTexts ((perm_of_sortKeys hsorted).mem_iff.mpr hkey) h
  obtain ⟨failure, hfailure, hnamed⟩ := hnamed
  refine ⟨failure, hfailure, ?_⟩
  unfold unknownKeys at hnamed
  unfold checkKeys
  simp only [hnamed]
  exact meets_throw _

end Keys

/-! ## Entries -/

section Entries

variable (s : Section)

/-- Whether a run goes on behind a failing file: the entry, or the default. -/
def goOnOr : Bool :=
  match s.get? "continue_on_error" with
  | some (.bool b) => b
  | _ => standard.goOn

/-- The texts under a key, or the default. -/
def textsOr (key : String) (default : List String) : List String :=
  ((s.get? key).bind Value.texts?).getD default

/-- The entry is true or false, or it is a fault. -/
lemma exists_meets_readGoOn :
    ∃ met, Meets (fun strict => readGoOn strict s) met (.ok (goOnOr s)) := by
  unfold readGoOn goOnOr
  cases s.get? "continue_on_error" with
  | none => exact ⟨_, meets_pure _⟩
  | some v =>
    cases v with
    | bool b => exact ⟨_, meets_pure _⟩
    | _ => exact ⟨_, meets_default _ _⟩

/-- An entry is a list of texts, or it is a fault. -/
lemma exists_meets_readTexts (key : String) (default : List String) :
    ∃ met, Meets (fun strict => readTexts strict s key default) met
      (.ok (textsOr s key default)) := by
  unfold readTexts textsOr
  cases s.get? key with
  | none => exact ⟨_, meets_pure _⟩
  | some v =>
    cases htexts : v.texts? with
    | none =>
      simp only [htexts, Option.bind_some]
      exact ⟨_, meets_default _ _⟩
    | some texts =>
      simp only [htexts, Option.bind_some]
      exact ⟨_, meets_pure _⟩

end Entries

/-! ## The level -/

section Level

variable (room : Nat) (v : Value)

/-- The level that a value names, or the default; neither, if the value has to be shown and cannot
be. -/
def levelOr : Except ShowFault Level :=
  match v.display room with
  | .error fault => .error fault
  | .ok text =>
    match levelOf? text with
    | some level => .ok level
    | none => (v.literal room).map fun _ => standard.level

/-- **A level that is not known is a fault, and one that cannot be shown fails both.** -/
lemma exists_meets_readLevel :
    ∃ met, Meets (fun strict => readLevel room strict v) met
      ((levelOr room v).mapError .unshowable) := by
  unfold readLevel levelOr
  cases v.display room with
  | error fault => exact ⟨_, (meets_throw (.unshowable fault)).bind_error⟩
  | ok text =>
    simp only [shown, pure_bind]
    cases levelOf? text with
    | some level => exact ⟨_, meets_pure level⟩
    | none =>
      cases v.literal room with
      | error fault => exact ⟨_, (meets_throw (.unshowable fault)).bind_error⟩
      | ok literal => exact ⟨_, (meets_pure literal).bind (meets_default _ _)⟩

end Level

/-! ## Markers -/

/-- The markers among texts: those that are patterns. -/
def markersOf (engine : Pattern.Engine) (texts : List String) : List Marker :=
  texts.filterMap fun text =>
    (Pattern.parse text).toOption.map fun pattern => ⟨text, engine.adapt pattern⟩

/-- No marker among the texts is refused: each of them is a pattern, or it is not well-formed. -/
def Compilable (texts : List String) : Prop :=
  ∀ text ∈ texts, ∀ refusal, Pattern.parse text ≠ .error (.refused refusal)

section Markers

variable {engine : Pattern.Engine} {texts : List String}

/-- **Texts that are no patterns are left out.** -/
lemma exists_meets_readMarkerTexts (h : Compilable texts) :
    ∃ met, Meets (fun strict => readMarkerTexts engine strict texts) met
      (.ok (markersOf engine texts)) := by
  induction texts with
  | nil => exact ⟨_, meets_pure _⟩
  | cons text rest ih =>
    obtain ⟨met, hmet⟩ := ih fun t ht => h t (List.mem_cons_of_mem _ ht)
    have hrefused := h text (List.mem_cons_self ..)
    unfold readMarkerTexts
    cases hparse : Pattern.parse text with
    | ok pattern =>
      have hmarkers : markersOf engine (text :: rest) =
          ⟨text, engine.adapt pattern⟩ :: markersOf engine rest := by
        simp [markersOf, hparse, Except.toOption]
      rw [hmarkers]
      exact ⟨_, hmet.bind (meets_pure _)⟩
    | error fault =>
      have hmarkers : markersOf engine (text :: rest) = markersOf engine rest := by
        simp [markersOf, hparse, Except.toOption]
      rw [hmarkers]
      cases fault with
      | refused refusal => exact absurd hparse (hrefused refusal)
      | _ => exact ⟨_, (meets_meet _).bind hmet⟩

/-- A marker that is not refused leaves the refused one among the others. -/
lemma not_compilable_of_cons {text : String} (h : ¬Compilable (text :: texts))
    (htext : ∀ refusal, Pattern.parse text ≠ .error (.refused refusal)) : ¬Compilable texts :=
  fun hrest => h (List.forall_mem_cons.mpr ⟨htext, hrest⟩)

/-- **A refused marker fails**, though faults may be met before it. -/
lemma exists_meets_readMarkerTexts_error (h : ¬Compilable texts) :
    ∃ met refusal, Meets (fun strict => readMarkerTexts engine strict texts) met
      (.error (.refusedMarker refusal)) := by
  induction texts with
  | nil => exact absurd (List.forall_mem_nil _) h
  | cons text rest ih =>
    unfold readMarkerTexts
    cases hparse : Pattern.parse text with
    | ok pattern =>
      obtain ⟨met, refusal, hmet⟩ := ih (not_compilable_of_cons h (by simp [hparse]))
      exact ⟨met, refusal, hmet.bind_error⟩
    | error fault =>
      cases fault with
      | refused refusal => exact ⟨[], refusal, meets_throw _⟩
      | _ =>
        obtain ⟨met, refusal, hmet⟩ := ih (not_compilable_of_cons h (by simp [hparse]))
        exact ⟨_, refusal, (meets_meet _).bind hmet⟩

end Markers

/-! ## All entries -/

/-- The configuration of a section with given markers and a given level, and with defaults for all
other entries that cannot be used. -/
def configOf (path : Option String) (s : Section) (extraMarkers : List Marker) (level : Level) :
    Config where
  extensions := textsOr s "extensions" standard.extensions
  blockLike := textsOr s "block_like_kinds" standard.blockLike
  ignored := textsOr s "ignore_comment_kinds" standard.ignored
  extraMarkers
  goOn := goOnOr s
  level
  path

/-- **All entries of a section**: what becomes of it is up to its markers and its level. -/
lemma exists_meets_readConfig (env : Environment) (path : Option String) (s : Section)
    {markers : Except ConfigFailure (List Marker)}
    (h : ∃ met, Meets (fun strict => readMarkerTexts platform.engine strict
      (textsOr s "extra_plain_markers" [])) met markers) :
    ∃ met, Meets (readConfig platform env path s ·) met (markers.bind fun extraMarkers =>
      ((levelOr platform.room (levelValue env s)).mapError .unshowable).map
        (configOf path s extraMarkers)) := by
  obtain ⟨metGoOn, hgoOn⟩ := exists_meets_readGoOn s
  obtain ⟨metExtensions, hextensions⟩ := exists_meets_readTexts s "extensions" standard.extensions
  obtain ⟨metBlockLike, hblockLike⟩ :=
    exists_meets_readTexts s "block_like_kinds" standard.blockLike
  obtain ⟨metIgnored, hignored⟩ := exists_meets_readTexts s "ignore_comment_kinds" standard.ignored
  obtain ⟨metStated, hstated⟩ := exists_meets_readTexts s "extra_plain_markers" []
  obtain ⟨metMarkers, hmarkers⟩ := h
  obtain ⟨metLevel, hlevel⟩ := exists_meets_readLevel platform.room (levelValue env s)
  have hall : ∀ {met result}, Meets (fun strict => do
        let extraMarkers ← readMarkers platform.engine strict s
        let level ← readLevel platform.room strict (levelValue env s)
        return configOf path s extraMarkers level) met result →
      ∃ met, Meets (readConfig platform env path s ·) met result := fun hrest =>
    ⟨_, hgoOn.bind (hextensions.bind (hblockLike.bind (hignored.bind hrest)))⟩
  cases markers with
  | error failure => exact hall (hstated.bind hmarkers).bind_error
  | ok extraMarkers =>
    cases hvalue : levelOr platform.room (levelValue env s) with
    | error fault =>
      rw [hvalue] at hlevel
      exact hall ((hstated.bind hmarkers).bind hlevel.bind_error)
    | ok level =>
      rw [hvalue] at hlevel
      exact hall ((hstated.bind hmarkers).bind (hlevel.bind (meets_pure _)))

end Marginalia.Config
