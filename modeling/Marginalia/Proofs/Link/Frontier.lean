import Marginalia.Proofs.Link.Step
import Mathlib.Data.List.Infix

/-!
# The frontier of a walk

A walk over a tree keeps a stack of nodes that are still to be visited, and placeholders are put
into the lists of children that this stack was filled from.  They are put only before a node that is
being visited or that was visited, so in every list the nodes still to come stand together at the
end, with no placeholder among them.

## Main definitions

* `SyntaxTree.Frontier` — how the stack of a walk lies in the tree.

## Main results

* `SyntaxTree.Frontier.start` — the stack that a walk starts with.
* `SyntaxTree.Frontier.visit` — after a visit the children of the visited node come first.
* `SyntaxTree.Frontier.split_top` — the top of the stack among its siblings.
* `Pass.Steps.frontier` — the steps of a visit keep the frontier.
-/

namespace Marginalia

namespace SyntaxTree

/-- The nodes of `stack` are still to be visited, in this order, after those of `visited`. -/
structure Frontier (t : SyntaxTree) (visited stack : List NodeId) : Prop where
  nodup : stack.Nodup
  ahead : ∀ {x : NodeId}, x ∈ stack → x ∉ visited
  visited_lt : ∀ {x : NodeId}, x ∈ visited → x < t.size
  stack_lt : ∀ {x : NodeId}, x ∈ stack → x < t.size
  genuine : ∀ {x : NodeId}, x ∈ stack → (t.node x).placeholder = false
  /-- Parents are visited before their children. -/
  visited_parent : ∀ {x p : NodeId}, x ∈ visited → t.parent? x = some p → p ∈ visited
  stack_parent : ∀ {x p : NodeId}, x ∈ stack → t.parent? x = some p → p ∈ visited
  /-- The children of a visited node that are still to come stand at the end of its list, and one
  behind the other on the stack. -/
  split : ∀ {p : NodeId}, p ∈ visited →
    ∃ done todo, t.children p = done ++ todo ∧ todo <:+: stack ∧ ∀ x ∈ done, x ∉ stack
  /-- No placeholder stands below a node that was not visited. -/
  untouched : ∀ {p c : NodeId}, p ∉ visited → c ∈ t.children p → (t.node c).placeholder = false

namespace Frontier

variable {t : SyntaxTree} {visited stack : List NodeId} {x : NodeId}

/-- A walk starts at the root. -/
lemma start (h : t.WellFormed) (hsize : 0 < t.size)
    (hplain : ∀ id, (t.node id).placeholder = false) : t.Frontier [] [0] where
  nodup := List.nodup_singleton 0
  ahead := fun _ => List.not_mem_nil
  visited_lt := fun hx => absurd hx List.not_mem_nil
  stack_lt := fun hx => by rw [List.mem_singleton.mp hx]; exact hsize
  genuine := fun _ => hplain _
  visited_parent := fun hx => absurd hx List.not_mem_nil
  stack_parent := fun hx hp => by
    rw [List.mem_singleton.mp hx, (h.orphan hsize).mpr rfl] at hp
    simp at hp
  split := fun hp => absurd hp List.not_mem_nil
  untouched := fun _ _ => hplain _

/-- A part of a list without repetitions that holds its head starts with it. -/
lemma infix_head {todo rest : List NodeId} (hnd : (x :: rest).Nodup) (h : todo <:+: x :: rest)
    (hx : x ∈ todo) : ∃ todo', todo = x :: todo' ∧ todo' <:+: rest := by
  obtain ⟨l, r, he⟩ := h
  cases l with
  | nil =>
    cases todo with
    | nil => simp at hx
    | cons y todo' =>
      simp only [List.nil_append, List.cons_append, List.cons.injEq] at he
      obtain ⟨rfl, he⟩ := he
      exact ⟨todo', rfl, [], r, by simpa using he⟩
  | cons y l =>
    simp only [List.cons_append, List.cons.injEq] at he
    obtain ⟨rfl, he⟩ := he
    have hmem : y ∈ rest := by
      rw [← he]
      exact List.mem_append_left _ (List.mem_append_right _ hx)
    exact absurd hmem (List.nodup_cons.mp hnd).1

/-- A part of a list that does not hold its head is a part of its tail. -/
lemma infix_tail {todo rest : List NodeId} (h : todo <:+: x :: rest) (hx : x ∉ todo) :
    todo <:+: rest := by
  rcases List.infix_cons_iff.mp h with hpre | hinf
  · cases todo with
    | nil => exact List.nil_infix
    | cons y todo =>
      obtain ⟨rfl, -⟩ := List.cons_prefix_cons.mp hpre
      exact absurd (List.mem_cons_self ..) hx
  · exact hinf

/-- **The top of the stack among its siblings**: those behind it are on the stack as well. -/
lemma split_top {rest : List NodeId} {p : NodeId} (f : t.Frontier visited (x :: rest))
    (h : t.WellFormed) (hp : t.parent? x = some p) :
    ∃ done todo, t.children p = done ++ x :: todo ∧ todo <:+: rest ∧
      ∀ y ∈ done, y ∉ x :: rest := by
  have htop : x ∈ x :: rest := List.mem_cons_self ..
  obtain ⟨done, todo, hc, hinf, hdone⟩ := f.split (f.stack_parent htop hp)
  have hx : x ∈ todo := by
    have hmem := h.mem_children hp
    rw [hc] at hmem
    rcases List.mem_append.mp hmem with hd | ht
    · exact absurd htop (hdone x hd)
    · exact ht
  obtain ⟨todo', rfl, hinf'⟩ := infix_head f.nodup hinf hx
  exact ⟨done, todo', hc, hinf', hdone⟩

/-- All nodes above the top of the stack were visited. -/
lemma mem_visited_of_mem_ancestors {rest : List NodeId} (f : t.Frontier visited (x :: rest))
    (h : t.WellFormed) {a : NodeId} (ha : a ∈ t.ancestors x) : a ∈ visited := by
  have hup : ∀ v < t.size, v ∈ visited → ∀ a ∈ t.upward v, a ∈ visited := by
    refine h.upward_induction ?_ ?_
    · intro hpos h0 a ha
      rw [upward_of_orphan ((h.orphan hpos).mpr rfl)] at ha
      rwa [List.mem_singleton.mp ha]
    · intro v p hp ih hv a ha
      rw [upward_of_parent? h hp] at ha
      rcases List.mem_cons.mp ha with rfl | ha
      · exact hv
      · exact ih (f.visited_parent hv hp) a ha
  cases hp : t.parent? x with
  | none =>
    have hnil := upward_of_orphan hp
    rw [upward, List.cons_inj_right] at hnil
    rw [hnil] at ha
    exact absurd ha List.not_mem_nil
  | some p =>
    have hpv := f.stack_parent (List.mem_cons_self ..) hp
    rw [ancestors_of_parent? h hp] at ha
    exact hup p (f.visited_lt hpv) hpv a ha

/-- **After a visit** the children of the visited node come first. -/
lemma visit {rest : List NodeId} (f : t.Frontier visited (x :: rest)) (h : t.WellFormed) :
    t.Frontier (x :: visited) (t.children x ++ rest) := by
  have htop : x ∈ x :: rest := List.mem_cons_self ..
  have hx : x ∉ visited := f.ahead htop
  obtain ⟨hxrest, hrest⟩ := List.nodup_cons.mp f.nodup
  have hparent : ∀ {c}, c ∈ t.children x → t.parent? c = some x := fun hc => h.parent_of_mem hc
  -- children of the visited node are new to the stack
  have hnew : ∀ c ∈ t.children x, c ∉ rest := fun c hc hr =>
    hx (f.stack_parent (List.mem_cons_of_mem _ hr) (hparent hc))
  refine ⟨?_, ?_, ?_, ?_, ?_, ?_, ?_, ?_, ?_⟩
  · exact List.nodup_append.mpr ⟨h.nodup x, hrest, fun a ha b hb e => hnew a ha (e ▸ hb)⟩
  · intro y hy hv
    rcases List.mem_append.mp hy with hc | hr
    · rcases List.mem_cons.mp hv with rfl | hv
      · exact h.not_mem_children_self y hc
      · exact hx (f.visited_parent hv (hparent hc))
    · rcases List.mem_cons.mp hv with rfl | hv
      · exact hxrest hr
      · exact f.ahead (List.mem_cons_of_mem _ hr) hv
  · intro y hy
    rcases List.mem_cons.mp hy with rfl | hy
    · exact f.stack_lt htop
    · exact f.visited_lt hy
  · intro y hy
    rcases List.mem_append.mp hy with hc | hr
    · exact h.lt_size_of_mem hc
    · exact f.stack_lt (List.mem_cons_of_mem _ hr)
  · intro y hy
    rcases List.mem_append.mp hy with hc | hr
    · exact f.untouched hx hc
    · exact f.genuine (List.mem_cons_of_mem _ hr)
  · intro y p hy hp
    rcases List.mem_cons.mp hy with rfl | hy
    · exact List.mem_cons_of_mem _ (f.stack_parent htop hp)
    · exact List.mem_cons_of_mem _ (f.visited_parent hy hp)
  · intro y p hy hp
    rcases List.mem_append.mp hy with hc | hr
    · rw [hparent hc] at hp
      rw [← Option.some.inj hp]
      exact List.mem_cons_self ..
    · exact List.mem_cons_of_mem _ (f.stack_parent (List.mem_cons_of_mem _ hr) hp)
  · intro p hp
    by_cases hpx : p = x
    · subst hpx
      exact ⟨[], t.children p, rfl, (List.prefix_append ..).isInfix, by simp⟩
    · have hpv : p ∈ visited := (List.mem_cons.mp hp).resolve_left hpx
      -- a child of `p` is no child of `x`
      have hother : ∀ c ∈ t.children p, c ∉ t.children x := fun c hc hcx =>
        hpx (Option.some.inj ((h.parent_of_mem hc).symm.trans (hparent hcx)))
      obtain ⟨done, todo, hc, hinf, hdone⟩ := f.split hpv
      by_cases hmem : x ∈ todo
      · obtain ⟨todo', rfl, hinf'⟩ := infix_head f.nodup hinf hmem
        refine ⟨done ++ [x], todo', by simp [hc], hinf'.trans (List.suffix_append ..).isInfix, ?_⟩
        intro y hy hstack
        have hyp : y ∈ t.children p := by
          rw [hc]
          rcases List.mem_append.mp hy with hd | hs
          · exact List.mem_append_left _ hd
          · rw [List.mem_singleton.mp hs]
            exact List.mem_append_right _ (List.mem_cons_self ..)
        have hyrest := (List.mem_append.mp hstack).resolve_left (hother y hyp)
        rcases List.mem_append.mp hy with hd | hs
        · exact hdone y hd (List.mem_cons_of_mem _ hyrest)
        · rw [List.mem_singleton.mp hs] at hyrest
          exact hxrest hyrest
      · refine ⟨done, todo, hc,
          (infix_tail hinf hmem).trans (List.suffix_append ..).isInfix, ?_⟩
        intro y hy hstack
        have hyp : y ∈ t.children p := by rw [hc]; exact List.mem_append_left _ hy
        have hyrest := (List.mem_append.mp hstack).resolve_left (hother y hyp)
        exact hdone y hy (List.mem_cons_of_mem _ hyrest)
  · intro p c hp hc
    exact f.untouched (fun hv => hp (List.mem_cons_of_mem _ hv)) hc

/-- **A graft before a node on the way up from the top of the stack keeps the frontier.** -/
lemma graft {t' : SyntaxTree} {rest left right : List NodeId} {parent site : NodeId} {fresh : Node}
    (f : t.Frontier visited (x :: rest)) (h : t.WellFormed)
    (g : t.Graft t' parent left (site :: right) fresh) (hway : site ∈ t.upward x) :
    t'.Frontier visited (x :: rest) := by
  have htop : x ∈ x :: rest := List.mem_cons_self ..
  have hsite : t.parent? site = some parent := by
    refine h.parent_of_mem ?_
    rw [g.children_before]
    exact List.mem_append_right _ (List.mem_cons_self ..)
  have hcase : site = x ∨ site ∈ visited :=
    (List.mem_cons.mp hway).imp_right (f.mem_visited_of_mem_ancestors h)
  have hparent : parent ∈ visited := by
    rcases hcase with rfl | hv
    · exact f.stack_parent htop hsite
    · exact f.visited_parent hv hsite
  have hold : ∀ {y}, y < t.size → y ≠ t.size := fun hy => Nat.ne_of_lt hy
  have hlt : t.size ≤ t'.size := by rw [g.size_eq]; exact Nat.le_succ _
  refine ⟨f.nodup, f.ahead, ?_, ?_, ?_, ?_, ?_, ?_, ?_⟩
  · intro y hy
    exact Nat.lt_of_lt_of_le (f.visited_lt hy) hlt
  · intro y hy
    exact Nat.lt_of_lt_of_le (f.stack_lt hy) hlt
  · intro y hy
    rw [g.placeholder_eq (hold (f.stack_lt hy))]
    exact f.genuine hy
  · intro y p hy hp
    rw [g.parent?_eq (hold (f.visited_lt hy))] at hp
    exact f.visited_parent hy hp
  · intro y p hy hp
    rw [g.parent?_eq (hold (f.stack_lt hy))] at hp
    exact f.stack_parent hy hp
  · intro p hp
    obtain ⟨done, todo, hc, hinf, hdone⟩ := f.split hp
    by_cases hpp : p = parent
    · subst hpp
      rw [g.children_before] at hc
      -- nothing still to come stands before the fresh node
      have hsplit : ∃ between, done = left ++ between ∧ site :: right = between ++ todo := by
        rcases List.append_eq_append_iff.mp hc with ⟨between, hd, ht⟩ | ⟨before, hl, ht⟩
        · exact ⟨between, hd, ht⟩
        · have hmem : site ∈ todo := by
            rw [ht]
            exact List.mem_append_right _ (List.mem_cons_self ..)
          have hstack := hinf.subset hmem
          obtain rfl : site = x := hcase.resolve_right (f.ahead hstack)
          have htodo : todo.Nodup := hinf.sublist.nodup f.nodup
          obtain ⟨todo', rfl, -⟩ := infix_head f.nodup hinf hmem
          cases before with
          | nil => exact ⟨[], by simpa using hl.symm, by simpa using ht.symm⟩
          | cons y before =>
            simp only [List.cons_append, List.cons.injEq] at ht
            obtain ⟨rfl, rfl⟩ := ht
            exact absurd (List.mem_append_right _ (List.mem_cons_self ..))
              (List.nodup_cons.mp htodo).1
      obtain ⟨between, rfl, hright⟩ := hsplit
      refine ⟨left ++ t.size :: between, todo, ?_, hinf, ?_⟩
      · rw [g.children_after, hright]
        simp
      · intro y hy hstack
        rcases List.mem_append.mp hy with hl | hy
        · exact hdone y (List.mem_append_left _ hl) hstack
        · rcases List.mem_cons.mp hy with rfl | hb
          · exact Nat.lt_irrefl _ (f.stack_lt hstack)
          · exact hdone y (List.mem_append_right _ hb) hstack
    · rw [g.children_eq hpp (hold (f.visited_lt hp))]
      exact ⟨done, todo, hc, hinf, hdone⟩
  · intro p c hp hc
    have hpp : p ≠ parent := fun e => hp (e ▸ hparent)
    rcases g.mem_children hc with ⟨-, he⟩ | hc
    · exact absurd he hpp
    · rw [g.placeholder_eq (hold (h.lt_size_of_mem hc))]
      exact f.untouched hp hc

end Frontier

end SyntaxTree

namespace Pass

/-- **The steps of a visit keep the frontier** with the visited node on top. -/
lemma Steps.frontier {markers : List Marker} {p q : Pass} {x : NodeId} {visited rest : List NodeId}
    (h : Steps markers (some x) p q) (hp : p.Sound)
    (f : p.tree.Frontier visited (x :: rest)) : q.tree.Frontier visited (x :: rest) := by
  induction h with
  | refl => exact f
  | tail hsteps hstep ih =>
    cases hstep with
    | note => exact ih
    | advance => exact ih
    | flush move flushed flush =>
      cases flush with
      | dissolve => exact ih
      | deliver => exact ih
      | insert journal text visiting onWay tolerates count graft =>
        obtain rfl := Option.some.inj visiting
        exact ih.graft (Steps.sound hsteps hp).wellFormed graft onWay
      | append journal text ended count graft => simp at ended

end Pass

end Marginalia
