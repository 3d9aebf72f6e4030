import Mathlib.Data.List.Nodup
import QueryLint.Proofs.Fix.Exact
import QueryLint.Proofs.Segment.Placing

/-!
QueryLint.Proofs.Fix.Apart — fixes at different anchors.

Fixes whose anchors are different do not meet: each is a group of its own, and the plan asks for no
more than they do. If nothing but leaves is taken away, and nothing but new leaves is brought in,
then all of them are made, and the tree that they leave is told by what each does at its anchor.

* `Segment.members` — a segment and all inside it, which are told apart by their identities.
* `FixPlan.IsApart` — a plan of such fixes; `FixPlan.IsApart.spotOf_eq` is what it leaves of an
  anchor.
* `Segment.Suits` — fixes with anchors in a tree that can be made in it.
* `Segment.Suits.applyFixes` — they are made, and no anchor is left over.
-/

namespace QueryLint

open Segment

namespace Segment

/-! ## 1. Members of a tree -/

mutual

/-- A segment and all inside it. -/
def members : Segment → List Segment
  | mk i cs => mk i cs :: membersAll cs

/-- Several segments and all inside them. -/
def membersAll : List Segment → List Segment
  | [] => []
  | s :: rest => s.members ++ membersAll rest

end

variable {s t : Segment} {ss : List Segment}

theorem members_eq (s : Segment) : s.members = s :: membersAll s.children := by
  cases s with
  | mk i cs => rw [members]; rfl

theorem mem_membersAll : t ∈ membersAll ss ↔ ∃ s ∈ ss, t ∈ s.members := by
  induction ss with
  | nil => simp [membersAll]
  | cons s ss ih => simp [membersAll, ih]

theorem mem_members_self (s : Segment) : s ∈ s.members := by simp [members_eq]

theorem mem_membersAll_of_mem (h : s ∈ ss) : s ∈ membersAll ss :=
  mem_membersAll.2 ⟨s, h, mem_members_self s⟩

mutual

theorem map_id_members (s : Segment) : s.members.map (·.id) = s.ids := by
  match s with
  | mk i cs =>
    rw [members, ids, List.map_cons, map_id_membersAll cs]
    rfl

theorem map_id_membersAll (ss : List Segment) : (membersAll ss).map (·.id) = idsAll ss := by
  match ss with
  | [] => rw [membersAll, idsAll]; rfl
  | s :: rest =>
    rw [membersAll, idsAll, List.map_append, map_id_members s, map_id_membersAll rest]

end

/-- What segments hand down to their children holds of all members. -/
theorem forall_mem_members {Q : Segment → Prop} (inside : ∀ s, Q s → ∀ c ∈ s.children, Q c)
    (h : Q s) : ∀ t ∈ s.members, Q t := by
  induction s using Segment.induction with
  | mk i cs ih =>
    intro t ht
    rw [members, List.mem_cons] at ht
    rcases ht with rfl | ht
    · exact h
    · obtain ⟨c, hc, ht⟩ := mem_membersAll.1 ht
      exact ih c hc (inside _ h c hc) t ht

/-- What holds of everything in a segment holds of its members. -/
theorem Every.of_mem_members {P : SegmentInfo → Prop} (h : Every P s) :
    ∀ t ∈ s.members, Every P t :=
  forall_mem_members (fun _ h => h.inside) h

theorem Every.of_mem_membersAll {P : SegmentInfo → Prop} (h : Every P s) :
    ∀ t ∈ membersAll s.children, Every P t := by
  intro t ht
  refine h.of_mem_members t ?_
  rw [members_eq]
  exact List.mem_cons_of_mem _ ht

theorem id_mem_idsAll (h : s ∈ membersAll ss) : s.id ∈ idsAll ss := by
  rw [← map_id_membersAll]
  exact List.mem_map_of_mem h

/-- Where identities are different, a member is told by its own. -/
theorem eq_of_id_eq (h : (idsAll ss).Nodup) (hs : s ∈ membersAll ss) (ht : t ∈ membersAll ss)
    (hid : s.id = t.id) : s = t := by
  rw [← map_id_membersAll] at h
  exact List.inj_on_of_nodup_map h hs ht hid

mutual

theorem leaves_sublist_members (s : Segment) : s.leaves.Sublist s.members := by
  match s with
  | mk i cs =>
    rw [leaves, members]
    split
    · simp
    · exact (leavesAll_sublist_membersAll cs).cons _

/-- Leaves come in the order of the members. -/
theorem leavesAll_sublist_membersAll (ss : List Segment) :
    (leavesAll ss).Sublist (membersAll ss) := by
  match ss with
  | [] => exact List.Sublist.slnil
  | s :: rest =>
    rw [leavesAll, membersAll]
    exact (leaves_sublist_members s).append (leavesAll_sublist_membersAll rest)

end

/-- All in a member of some segments is in the segments. -/
theorem membersAll_children_subset (h : s ∈ membersAll ss) :
    membersAll s.children ⊆ membersAll ss := by
  obtain ⟨u, hu, hs⟩ := mem_membersAll.1 h
  refine forall_mem_members (Q := fun t => membersAll t.children ⊆ membersAll ss)
    (fun v hv c hc t ht => hv (mem_membersAll.2 ⟨c, hc, ?_⟩)) (fun t ht => ?_) s hs
  · rw [members_eq]
    exact List.mem_cons_of_mem _ ht
  · refine mem_membersAll.2 ⟨u, hu, ?_⟩
    rw [members_eq]
    exact List.mem_cons_of_mem _ ht

/-- What is inside a tree is a tree. -/
theorem isTree_of_mem_members (hs : s.isTree = true) : ∀ t ∈ s.members, t.isTree = true :=
  forall_mem_members (fun _ h => (isTree_iff.1 h).2) hs

end Segment

/-! ## 2. Plans of fixes at different anchors -/

/-- What an edit leaves of a segment. -/
def Edit.around (e : Edit) (s : Segment) : List Segment :=
  match e with
  | .insertBefore new => new ++ [s]
  | .insertAfter new => s :: new
  | .replace new => new
  | .delete => []

/-- The first fix of a group is all there is in it. -/
theorem FixGroup.fixes_add (x : Fix) (n : Nat) :
    ((({} : FixGroup).add x).run n).1.fixes = [x] := by
  unfold FixGroup.add
  split
  · next h => simp at h
  · split
    · rfl
    · split
      · next h => simp [firstReplace?] at h
      · rfl

namespace FixPlan

variable {plan : FixPlan} {fixes : List Fix}

/-- Every fix is the only one at its anchor. -/
structure IsApart (plan : FixPlan) (fixes : List Fix) : Prop where
  groups : plan.map (fun g => (g.1, g.2.fixes)) = fixes.map fun x => (x.anchor.id, [x])
  apart : (fixes.map (·.anchor.id)).Nodup

/-- A fix at an anchor of its own comes last in the plan. -/
theorem add_of_not_mem (x : Fix) (plan : FixPlan) (n : Nat) (h : x.anchor.id ∉ plan.map (·.1)) :
    ((add x plan).run n).1.map (fun g => (g.1, g.2.fixes)) =
      plan.map (fun g => (g.1, g.2.fixes)) ++ [(x.anchor.id, [x])] := by
  induction plan with
  | nil =>
    show [(x.anchor.id, ((({} : FixGroup).add x).run n).1.fixes)] = _
    rw [FixGroup.fixes_add x n]
    rfl
  | cons g plan ih =>
    obtain ⟨id, g⟩ := g
    rw [List.map_cons, List.mem_cons, not_or] at h
    rw [add, if_neg (Ne.symm h.1)]
    show (id, g.fixes) :: ((add x plan).run n).1.map (fun g => (g.1, g.2.fixes)) = _
    rw [ih h.2]
    rfl

/-- Fixes at different anchors make such a plan. -/
theorem isApart_ofFixes {fixes : List Fix} (h : (fixes.map (·.anchor.id)).Nodup) (n : Nat) :
    IsApart ((ofFixes fixes).run n).1 fixes := by
  have added (fixes : List Fix) : ∀ (plan : FixPlan) (n : Nat),
      (plan.map (·.1) ++ fixes.map (·.anchor.id)).Nodup →
      ((fixes.foldlM (fun plan x => add x plan) plan : Fresh FixPlan).run n).1.map
          (fun g => (g.1, g.2.fixes)) =
        plan.map (fun g => (g.1, g.2.fixes)) ++ fixes.map fun x => (x.anchor.id, [x]) := by
    induction fixes with
    | nil => exact fun plan n h => (List.append_nil _).symm
    | cons x fixes ih =>
      intro plan n h
      rw [List.map_cons] at h
      have fresh : x.anchor.id ∉ plan.map (·.1) := fun hmem =>
        (List.nodup_append.1 h).2.2 _ hmem _ (List.mem_cons_self ..) rfl
      have first := add_of_not_mem x plan n fresh
      have keys : ((FixPlan.add x plan).run n).1.map (·.1) = plan.map (·.1) ++ [x.anchor.id] := by
        have := congrArg (List.map (·.1)) first
        simpa [Function.comp_def] using this
      rw [List.foldlM_cons]
      refine (ih ((add x plan).run n).1 ((add x plan).run n).2 ?_).trans ?_
      · rw [keys, List.append_assoc]
        exact h
      · rw [first, List.append_assoc]
        rfl
  exact ⟨added fixes [] n (by simpa using h), h⟩

namespace IsApart

variable (h : plan.IsApart fixes)

include h

theorem keys_eq : plan.map (·.1) = fixes.map (·.anchor.id) := by
  have := congrArg (List.map (·.1)) h.groups
  simpa [Function.comp_def] using this

theorem fixes_of_mem {g : Nat × FixGroup} (hg : g ∈ plan) :
    ∃ x ∈ fixes, x.anchor.id = g.1 ∧ g.2.fixes = [x] := by
  have member : (g.1, g.2.fixes) ∈ plan.map fun g => (g.1, g.2.fixes) :=
    List.mem_map_of_mem hg
  rw [h.groups] at member
  obtain ⟨x, hx, heq⟩ := List.mem_map.1 member
  obtain ⟨hid, hfixes⟩ := Prod.mk.inj heq
  exact ⟨x, hx, hid, hfixes.symm⟩

theorem isValid : plan.isValid = true := by
  refine List.all_eq_true.2 fun g hg => ?_
  obtain ⟨x, -, -, hfixes⟩ := h.fixes_of_mem hg
  simp [FixGroup.isValid, FixGroup.size, hfixes]

theorem isKeyed : plan.IsKeyed where
  nodup := by
    rw [h.keys_eq]
    exact h.apart
  nonempty g hg := by
    obtain ⟨x, -, -, hfixes⟩ := h.fixes_of_mem hg
    simp [hfixes]

theorem mem_new {t : Segment} : t ∈ plan.new ↔ ∃ x ∈ fixes, t ∈ x.new := by
  have flat : plan.new = (plan.map fun g => (g.1, g.2.fixes)).flatMap
      fun g => g.2.flatMap (·.new) := by
    rw [List.flatMap_map]
    rfl
  rw [flat, h.groups, List.flatMap_map, List.mem_flatMap]
  simp

theorem lookup_eq_none {k : Nat} (hk : ∀ x ∈ fixes, x.anchor.id ≠ k) : plan.lookup k = none := by
  cases hg : plan.lookup k with
  | none => rfl
  | some g =>
    obtain ⟨x, hx, hid, -⟩ := h.fixes_of_mem (mem_of_lookup hg)
    exact absurd hid (hk x hx)

theorem lookup_eq_some {x : Fix} (hx : x ∈ fixes) :
    ∃ g, plan.lookup x.anchor.id = some g ∧ g.fixes = [x] := by
  have member : x.anchor.id ∈ plan.map (·.1) := by
    rw [h.keys_eq]
    exact List.mem_map_of_mem hx
  obtain ⟨g, hg, hid⟩ := List.mem_map.1 member
  obtain ⟨found, hfound⟩ := Option.ne_none_iff_exists'.1 (lookup_ne_none_of_mem hg)
  rw [hid] at hfound
  obtain ⟨y, hy, hyid, hfixes⟩ := h.fixes_of_mem (mem_of_lookup hfound)
  have same : y = x := List.inj_on_of_nodup_map h.apart hy hx hyid
  exact ⟨found, hfound, same ▸ hfixes⟩

/-- Of an anchor the plan leaves what its fix does. -/
theorem spotOf_eq {x : Fix} (hx : x ∈ fixes) {s : Segment} (hs : s.id = x.anchor.id) :
    plan.spotOf s = x.edit.around s := by
  obtain ⟨g, hg, hfixes⟩ := h.lookup_eq_some hx
  rw [FixPlan.spotOf, hs, hg]
  show g.spot s = x.edit.around s
  unfold FixGroup.spot FixGroup.front FixGroup.back FixGroup.instead FixGroup.keepsAnchor
  rw [hfixes]
  cases hedit : x.edit <;> simp [hedit, Edit.front, Edit.back, Edit.instead, Edit.around,
    Edit.isInsertion, Edit.isInsertBefore, Edit.isInsertAfter]

/-- A segment that is no anchor stays. -/
theorem spotOf_self {s : Segment} (hs : ∀ x ∈ fixes, x.anchor.id ≠ s.id) :
    plan.spotOf s = [s] := spotOf_of_none (h.lookup_eq_none hs)

end IsApart

/-- No anchor is lost inside of another if nothing but leaves is taken away. -/
theorem spares_of_leaves (s : Segment)
    (h : ∀ c ∈ membersAll s.children, ∀ g, plan.lookup c.id = some g → g.keepsAnchor = false →
      c.children = []) : plan.spares s = true := by
  induction s using Segment.induction with
  | mk i cs ih =>
    refine spares_iff.2 fun c hc => ⟨ih c hc fun u hu => ?_, fun g hg hkeeps => ?_⟩
    · exact h u (membersAll_children_subset (mem_membersAll_of_mem hc) hu)
    · rw [h c (mem_membersAll_of_mem hc) g hg hkeeps]
      simp [idsAll]

end FixPlan

/-! ## 3. Fixes of a tree -/

namespace Segment

/-- Fixes that can all be made in a tree. Each has an anchor of its own, nothing but leaves is taken
away, and what is brought in are leaves that are not there. -/
structure Suits (tree : Segment) (fixes : List Fix) : Prop where
  apart : (fixes.map (·.anchor.id)).Nodup
  anchors : ∀ x ∈ fixes, x.anchor ∈ membersAll tree.children
  takes : ∀ x ∈ fixes, x.edit.isInsertion = true ∨ x.anchor.isLeaf = true
  brings : ∀ x ∈ fixes, ∀ t ∈ x.new, t.isLeaf = true ∧ t.children = [] ∧ t.id ∉ idsAll tree.children

namespace Suits

variable {tree : Segment} {fixes : List Fix} {plan : FixPlan} (h : tree.Suits fixes)
  (hplan : plan.IsApart fixes) (hids : (idsAll tree.children).Nodup)

include h

omit hplan in
include hids in
/-- A fix is at a member of the tree if that is its anchor. -/
theorem eq_anchor {x : Fix} (hx : x ∈ fixes) {s : Segment} (hs : s ∈ membersAll tree.children)
    (hid : s.id = x.anchor.id) : s = x.anchor := eq_of_id_eq hids hs (h.anchors x hx) hid

include hplan

theorem isExact : plan.IsExact where
  toIsKeyed := hplan.isKeyed
  valid := hplan.isValid
  trees := allTrees_iff.2 fun t ht => by
    obtain ⟨x, hx, ht⟩ := hplan.mem_new.1 ht
    obtain ⟨-, children, -⟩ := h.brings x hx t ht
    exact isTree_iff.2 ⟨fun _ => children, by simp [children]⟩
  fresh k hk := by
    obtain ⟨t, ht, x, hx, hnew⟩ : ∃ t, t.id = k ∧ ∃ x ∈ fixes, t ∈ x.new := by
      rcases mem_idsAll.1 hk with hk | hk
      · obtain ⟨t, ht, rfl⟩ := List.mem_map.1 hk
        exact ⟨t, rfl, hplan.mem_new.1 ht⟩
      · obtain ⟨t, ht, hk⟩ := List.mem_flatMap.1 hk
        obtain ⟨x, hx, ht⟩ := hplan.mem_new.1 ht
        rw [(h.brings x hx t ht).2.1] at hk
        cases hk
    refine hplan.lookup_eq_none fun y hy hid => (h.brings x hx t hnew).2.2 ?_
    rw [ht, ← hid]
    exact id_mem_idsAll (h.anchors y hy)

include hids

theorem spares (htree : tree.isTree = true) : plan.spares tree = true := by
  refine FixPlan.spares_of_leaves tree fun c hc g hg hkeeps => ?_
  obtain ⟨x, hx, hid, hfixes⟩ := hplan.fixes_of_mem (FixPlan.mem_of_lookup hg)
  obtain rfl := h.eq_anchor hids hx hc hid.symm
  rw [FixGroup.keepsAnchor, hfixes, List.all_cons, List.all_nil, Bool.and_true] at hkeeps
  have leaf := (h.takes x hx).resolve_left (by simp [hkeeps])
  have inside : x.anchor ∈ tree.members := by
    rw [members_eq]
    exact List.mem_cons_of_mem _ hc
  exact (isTree_iff.1 (isTree_of_mem_members htree _ inside)).1 leaf

/-- Of a member of the tree, remade or not, the plan leaves what the fix at it does, if it is an
anchor. -/
theorem spotOf_cases {s : Segment} (hs : s ∈ membersAll tree.children) :
    (∃ x ∈ fixes, x.anchor = s ∧ ∀ u : Segment, u.id = s.id → plan.spotOf u = x.edit.around u) ∨
      (∀ x ∈ fixes, x.anchor ≠ s) ∧ ∀ u : Segment, u.id = s.id → plan.spotOf u = [u] := by
  by_cases hanchor : ∃ x ∈ fixes, x.anchor = s
  · obtain ⟨x, hx, rfl⟩ := hanchor
    exact .inl ⟨x, hx, rfl, fun u hu => hplan.spotOf_eq hx hu⟩
  · have other : ∀ x ∈ fixes, x.anchor ≠ s := fun x hx heq => hanchor ⟨x, hx, heq⟩
    refine .inr ⟨other, fun u hu => hplan.spotOf_self fun x hx hid => other x hx ?_⟩
    exact (h.eq_anchor hids hx hs (hu ▸ hid.symm)).symm

end Suits

/-- Fixes that suit a file are all made. The tokens that they leave are those of the tree with every
anchor exchanged, and so is the whole tree if its rows have code at their edges. -/
theorem Suits.applyFixes {tree : Segment} {fixes : List Fix} (h : tree.Suits fixes) (p : Parser)
    (hfile : tree.isFile = true) (htree : tree.isTree = true) (hids : tree.ids.Nodup) (m n : Nat) :
    let plan := ((FixPlan.ofFixes fixes).run m).1
    let r := ((tree.applyFixes p plan).run n).1
    plan.isValid = true ∧ r.2 = [] ∧ words [r.1.segment] = words [plan.remade tree] ∧
      (Tight (plan.remade tree) → r.1.segment.unplaced = (plan.remade tree).unplaced) := by
  intro plan r
  have hplan : plan.IsApart fixes := FixPlan.isApart_ofFixes h.apart m
  have inner : (idsAll tree.children).Nodup := by
    rw [ids_eq, List.nodup_cons] at hids
    exact hids.2
  have exact_ := h.isExact hplan
  have made : Makes plan tree r.1 r.2 := makes_applyFixes p fixes m n rfl htree hids exact_.valid
    (h.spares hplan inner htree) exact_.trees exact_.fresh
  have anchors : ∀ g ∈ plan, g.1 ∈ idsAll tree.children := fun g hg => by
    obtain ⟨x, hx, hid, -⟩ := hplan.fixes_of_mem hg
    rw [← hid]
    exact id_mem_idsAll (h.anchors x hx)
  obtain ⟨words, before, after, left⟩ := made.whole hfile anchors
  refine ⟨exact_.valid, left, words.trans (FixPlan.words_remade tree htree).symm, fun htight => ?_⟩
  have stays := made.stays htight
  rw [Applied.all, before, after] at stays
  simpa [Alike] using stays

end Segment

end QueryLint
