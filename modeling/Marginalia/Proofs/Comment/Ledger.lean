import Marginalia.Link.Placement
import Mathlib.Data.List.Induction
import Mathlib.Data.List.Nodup
import Mathlib.Tactic.Lemma

/-!
# The ledger of assigned comments

If every comment has a node, the map that the comments leave behind is determined: they are entered
one after the other, each under its node and only if something is left of it.  This is the ledger of
the comments.  Its entries are read off the assignment.

## Main definitions

* `commentsAt` — the comments that are assigned to a node, in order.
* `ledger` — the entries that assigned comments leave behind.

## Main results

* `lookup_ledger` — the entry of a node is the text of the comments assigned to it.
* `keys_ledger` — the keys stand in the order of the first comment of which something is left.
* `foldl_record_map` — entering a group as one text is entering its comments one by one.
-/

namespace Marginalia

namespace CommentMap

variable (key v : Int) (text other : String) (entries : List (Int × String))

/-- A value is looked up in the first entry, and then in the rest. -/
lemma lookup_cons_eq_ite :
    ((key, text) :: entries).lookup v = if v = key then some text else entries.lookup v := by
  rw [List.lookup_cons]
  by_cases hv : v = key
  · simp [hv]
  · simp [hv, beq_eq_false_iff_ne.mpr hv]

/-- Adding a text changes the entry of its key only. -/
lemma lookup_put :
    (put key text entries).lookup v =
      if v = key then
        some (match entries.lookup key with
          | some old => old ++ "\n" ++ text
          | none => text)
      else entries.lookup v := by
  induction entries with
  | nil => simp [put, lookup_cons_eq_ite]
  | cons e rest ih =>
    obtain ⟨k, old⟩ := e
    rw [put]
    by_cases hk : k = key
    · subst hk
      by_cases hv : v = k <;> simp [hv, lookup_cons_eq_ite]
    · rw [if_neg hk, lookup_cons_eq_ite, ih, lookup_cons_eq_ite, lookup_cons_eq_ite]
      by_cases hv : v = k
      · simp [hv, hk]
      · simp [hv, Ne.symm hk]

/-- A new key goes to the end. -/
lemma keys_put :
    (put key text entries).map Prod.fst =
      if key ∈ entries.map Prod.fst then entries.map Prod.fst
      else entries.map Prod.fst ++ [key] := by
  induction entries with
  | nil => simp [put]
  | cons e rest ih =>
    obtain ⟨k, old⟩ := e
    rw [put]
    by_cases hk : k = key
    · simp [hk]
    · rw [if_neg hk, List.map_cons, ih]
      have hmem : key ∈ ((k, old) :: rest).map Prod.fst ↔ key ∈ rest.map Prod.fst := by
        simp [Ne.symm hk]
      simp only [hmem]
      split <;> simp

/-- No key is repeated by adding a text. -/
lemma nodup_keys_put (h : (entries.map Prod.fst).Nodup) :
    ((put key text entries).map Prod.fst).Nodup := by
  rw [keys_put]
  split
  · exact h
  · next hnew =>
    rw [← List.concat_eq_append]
    exact h.concat hnew

/-- Two texts added to one key are one text of two parts. -/
lemma put_put :
    put key other (put key text entries) = put key (text ++ "\n" ++ other) entries := by
  induction entries with
  | nil => simp [put]
  | cons e rest ih =>
    obtain ⟨k, old⟩ := e
    by_cases hk : k = key
    · simp [put, hk, String.append_assoc]
    · simp [put, hk, ih]

end CommentMap

/-! ## The text of a group -/

namespace CommentGroup

variable (markers : List Marker)

/-- The texts left of two groups are those of the one and then those of the other. -/
lemma survivors_append (g h : CommentGroup) :
    survivors markers (g ++ h) = survivors markers g ++ survivors markers h := by
  simp [survivors]

/-- Something is left of a group exactly if something is left of one of its comments. -/
lemma survivors_ne_nil_iff (g : CommentGroup) :
    survivors markers g ≠ [] ↔ ∃ c ∈ g, c.filtered markers ≠ "" := by
  simp [survivors, List.filter_eq_nil_iff]

/-- The text of a group is empty exactly if nothing is left of its comments. -/
lemma compose_eq_empty_iff (g : CommentGroup) :
    compose markers g = "" ↔ survivors markers g = [] := by
  constructor
  · intro h
    have hne : ∀ text ∈ survivors markers g, text ≠ "" := by
      simp [survivors]
    rw [compose] at h
    cases hs : survivors markers g with
    | nil => rfl
    | cons text rest =>
      rw [hs] at h hne
      have htext := hne text (by simp)
      cases rest with
      | nil => simp [htext] at h
      | cons => simp [String.append_eq_empty_iff, htext] at h
  · intro h
    rw [compose, h, String.intercalate_nil]

/-- The text of two groups in a row. -/
lemma compose_append (g h : CommentGroup) :
    compose markers (g ++ h) =
      if compose markers g = "" then compose markers h
      else if compose markers h = "" then compose markers g
      else compose markers g ++ "\n" ++ compose markers h := by
  simp only [compose_eq_empty_iff]
  by_cases hg : survivors markers g = []
  · simp [compose, survivors_append, hg]
  by_cases hh : survivors markers h = []
  · simp [compose, survivors_append, hg, hh]
  rw [if_neg hg, if_neg hh, compose, survivors_append,
    String.intercalate_append_of_ne_nil hg hh, compose, compose]

/-- A group of which nothing is left adds nothing. -/
lemma compose_append_of_blank {g h : CommentGroup} (hh : compose markers h = "") :
    compose markers (g ++ h) = compose markers g := by
  rw [compose_append, hh]
  by_cases hg : compose markers g = "" <;> simp [hg]

/-- The text of one comment alone is its filtered text. -/
lemma compose_singleton (c : Comment) : compose markers [c] = c.filtered markers := by
  by_cases hc : c.filtered markers = "" <;> simp [compose, survivors, hc]

end CommentGroup

/-! ## The ledger -/

/-- The comments that are assigned to a node, in order. -/
def commentsAt (v : Int) (assigned : List (NodeId × Comment)) : CommentGroup :=
  (assigned.filter fun a => decide ((a.1 : Int) = v)).map Prod.snd

/-- Enters a comment under its node, if something is left of it. -/
def record (markers : List Marker) (entries : List (Int × String)) (a : NodeId × Comment) :
    List (Int × String) :=
  if a.2.filtered markers = "" then entries else CommentMap.put a.1 (a.2.filtered markers) entries

/-- The entries that assigned comments leave behind. -/
def ledger (markers : List Marker) (assigned : List (NodeId × Comment)) : List (Int × String) :=
  assigned.foldl (record markers) []

section

variable (markers : List Marker)

/-- What is assigned to a node in two parts is assigned in a row. -/
lemma commentsAt_append (v : Int) (as bs : List (NodeId × Comment)) :
    commentsAt v (as ++ bs) = commentsAt v as ++ commentsAt v bs := by
  simp [commentsAt]

/-- A comment alone is assigned to its own node only. -/
lemma commentsAt_singleton (v : Int) (a : NodeId × Comment) :
    commentsAt v [a] = if (a.1 : Int) = v then [a.2] else [] := by
  by_cases ha : (a.1 : Int) = v <;> simp [commentsAt, ha]

/-- The comments of a group are all assigned to its node. -/
lemma commentsAt_map (v : Int) (home : NodeId) (group : CommentGroup) :
    commentsAt v (group.map fun c => (home, c)) = if (home : Int) = v then group else [] := by
  by_cases h : (home : Int) = v
  · rw [if_pos h, commentsAt, List.filter_eq_self.mpr (by simp [h]), List.map_map]
    exact List.map_id group
  · rw [if_neg h, commentsAt, List.filter_eq_nil_iff.mpr (by simp [h])]
    rfl

/-- The ledger grows by one record with each comment that is assigned. -/
lemma ledger_concat (assigned : List (NodeId × Comment)) (a : NodeId × Comment) :
    ledger markers (assigned ++ [a]) = record markers (ledger markers assigned) a := by
  simp [ledger]

/-- **The entry of a node is the text of the comments assigned to it**, and there is none if nothing
is left of these comments. -/
lemma lookup_ledger (v : Int) (assigned : List (NodeId × Comment)) :
    (ledger markers assigned).lookup v =
      if (commentsAt v assigned).compose markers = "" then none
      else some ((commentsAt v assigned).compose markers) := by
  induction assigned using List.reverseRecOn with
  | nil => rfl
  | append_singleton assigned a ih =>
    rw [ledger_concat, commentsAt_append, commentsAt_singleton, record]
    by_cases htext : a.2.filtered markers = ""
    · -- nothing is entered, and nothing joins the text of any node
      have hblank : CommentGroup.compose markers (if (a.1 : Int) = v then [a.2] else []) = "" := by
        split
        · rw [CommentGroup.compose_singleton, htext]
        · rfl
      rw [if_pos htext, ih, CommentGroup.compose_append_of_blank markers hblank]
    · rw [if_neg htext, CommentMap.lookup_put]
      by_cases hv : v = (a.1 : Int)
      · subst hv
        rw [if_pos rfl, if_pos rfl, ih, CommentGroup.compose_append,
          CommentGroup.compose_singleton]
        by_cases hold : (commentsAt a.1 assigned).compose markers = ""
        · simp [hold, htext]
        · simp [hold, htext, String.append_eq_empty_iff]
      · simp [hv, Ne.symm hv, ih]

/-- **The keys stand in the order of the first comment of which something is left.** -/
lemma keys_ledger (assigned : List (NodeId × Comment)) :
    (ledger markers assigned).map Prod.fst =
      ((assigned.filter fun a => decide (a.2.filtered markers ≠ "")).map
        fun a => (a.1 : Int)).eraseDups := by
  induction assigned using List.reverseRecOn with
  | nil => rfl
  | append_singleton assigned a ih =>
    rw [ledger_concat, record]
    by_cases htext : a.2.filtered markers = ""
    · simpa [htext] using ih
    · have hlast : [a].filter (fun a => decide (a.2.filtered markers ≠ "")) = [a] := by
        simp [htext]
      rw [if_neg htext, CommentMap.keys_put, ih, List.filter_append, hlast, List.map_append,
        List.eraseDups_append, List.map_singleton, List.cons_removeAll]
      generalize (assigned.filter _).map _ = keys
      by_cases hmem : (a.1 : Int) ∈ keys
      · simp [hmem, List.removeAll]
      · simp [hmem, List.removeAll, List.eraseDups_cons]

/-- No node has two entries. -/
lemma nodup_keys_ledger (assigned : List (NodeId × Comment)) :
    ((ledger markers assigned).map Prod.fst).Nodup := by
  induction assigned using List.reverseRecOn with
  | nil => exact List.nodup_nil
  | append_singleton assigned a ih =>
    rw [ledger_concat, record]
    split
    · exact ih
    · exact CommentMap.nodup_keys_put _ _ _ ih

/-- **A group entered as one text** leaves the same entries as its comments entered one by one. -/
lemma foldl_record_map (v : NodeId) (group : CommentGroup) (entries : List (Int × String)) :
    (group.map fun c => (v, c)).foldl (record markers) entries =
      if group.compose markers = "" then entries
      else CommentMap.put v (group.compose markers) entries := by
  induction group using List.reverseRecOn with
  | nil => simp [CommentGroup.compose, CommentGroup.survivors]
  | append_singleton group c ih =>
    have hc := CommentGroup.compose_singleton markers c
    rw [List.map_append, List.foldl_append, ih, List.map_singleton, List.foldl_cons,
      List.foldl_nil, record]
    by_cases htext : c.filtered markers = ""
    · rw [if_pos htext, CommentGroup.compose_append_of_blank markers (hc.trans htext)]
    · rw [if_neg htext, CommentGroup.compose_append, hc]
      by_cases hold : CommentGroup.compose markers group = ""
      · simp [hold, htext]
      · simp [hold, htext, String.append_eq_empty_iff, CommentMap.put_put]

end

end Marginalia
