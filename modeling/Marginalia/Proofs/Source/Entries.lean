import Marginalia.Source.Link
import Marginalia.Proofs.Syntax.Preorder

/-!
# The linked comments of a result

The linked comments of a source are read off its tree: the walk is followed, and each node that has
an entry in the map gives a linked comment.  An entry whose number the walk does not meet would be
left out silently.  If all keys of the map are numbers of nodes, none is, and the linked comments
are the entries of the map in the order of the walk.

## Main results

* `CommentMap.get?_eq_some_iff` — what is looked up is an entry.
* `LinkResult.map_node_entries` — linked comments stand in the order of the walk.
* `LinkResult.perm_entries` — every entry of the map is listed once.
-/

namespace Marginalia

open scoped List

namespace CommentMap

variable {m : CommentMap} {key : Int} {text : String}

/-- **What is looked up is an entry**, and every entry is found, if no key is repeated. -/
lemma get?_eq_some_iff (h : m.keys.Nodup) : m.get? key = some text ↔ (key, text) ∈ m.entries := by
  rw [get?, List.lookup_eq_some_iff]
  constructor
  · rintro ⟨before, after, hsplit, -⟩
    simp [hsplit]
  · intro hmem
    obtain ⟨before, after, hsplit⟩ := List.append_of_mem hmem
    refine ⟨before, after, hsplit, ?_⟩
    -- the key stands behind the entries before it, so it is none of their keys
    intro entry hentry
    rw [keys, hsplit, List.map_append, List.nodup_append] at h
    have hne := h.2.2 entry.1 (List.mem_map_of_mem hentry) key (by simp)
    simpa using Ne.symm hne

end CommentMap

namespace LinkResult

variable {r : LinkResult}

/-- A linked comment is the entry of a node on the walk, with what the tree says of the node. -/
lemma mem_entries {e : LinkEntry} :
    e ∈ r.entries ↔ e.node ∈ r.tree.preorder ∧ r.map.get? e.node = some e.text ∧ e.path = r.path ∧
      e.kind = (r.tree.node e.node).kind ∧ e.start = (r.tree.node e.node).start ∧
      e.placeholder = (r.tree.node e.node).placeholder := by
  simp only [entries, List.mem_filterMap, Option.map_eq_some_iff]
  constructor
  · rintro ⟨id, hid, text, htext, rfl⟩
    exact ⟨hid, htext, rfl, rfl, rfl, rfl⟩
  · rintro ⟨hid, htext, hpath, hkind, hstart, hplaceholder⟩
    refine ⟨e.node, hid, e.text, htext, ?_⟩
    rw [← hpath, ← hkind, ← hstart, ← hplaceholder]

/-- **Linked comments stand in the order of the walk**, one for each node on it that is a key. -/
lemma map_node_entries (r : LinkResult) :
    r.entries.map LinkEntry.node =
      r.tree.preorder.filter fun id => r.map.contains (id : NodeId) := by
  rw [entries]
  induction r.tree.preorder with
  | nil => rfl
  | cons id rest ih =>
    rw [List.filterMap_cons]
    cases htext : r.map.get? id with
    | none => simpa [CommentMap.contains, htext] using ih
    | some text => simpa [CommentMap.contains, htext] using ih

/-- **Every entry of the map is listed once**, if its keys are numbers of nodes, without repetition.

**Proof sketch.** Neither list has a repetition: the walk meets no node twice, and no key is
repeated.  They have the same members, as the walk meets every node. -/
lemma perm_entries (hwf : r.tree.WellFormed) (hnodup : r.map.keys.Nodup)
    (hkeys : ∀ key ∈ r.map.keys, ∃ id < r.tree.size, key = (id : NodeId)) :
    (r.entries.map fun e => ((e.node : Int), e.text)) ~ r.map.entries := by
  have hlisted : (r.entries.map fun e => ((e.node : Int), e.text)).Nodup := by
    have hnodes : (r.entries.map LinkEntry.node).Nodup := by
      rw [map_node_entries]
      exact hwf.nodup_preorder.filter _
    refine List.Nodup.of_map (fun entry => entry.1.toNat) ?_
    simpa [List.map_map, Function.comp_def] using hnodes
  rw [List.perm_ext_iff_of_nodup hlisted hnodup.of_map]
  rintro ⟨key, text⟩
  rw [← CommentMap.get?_eq_some_iff hnodup, List.mem_map]
  constructor
  · rintro ⟨e, he, hpair⟩
    obtain ⟨rfl, rfl⟩ := Prod.mk.inj hpair
    exact (mem_entries.mp he).2.1
  · intro htext
    have hkey : key ∈ r.map.keys :=
      List.mem_map_of_mem ((CommentMap.get?_eq_some_iff hnodup).mp htext)
    obtain ⟨id, hid, rfl⟩ := hkeys key hkey
    refine ⟨⟨r.path, id, (r.tree.node id).kind, (r.tree.node id).start,
      (r.tree.node id).placeholder, text⟩, mem_entries.mpr ?_, rfl⟩
    exact ⟨hwf.mem_preorder hid, htext, rfl, rfl, rfl, rfl⟩

end LinkResult

end Marginalia
