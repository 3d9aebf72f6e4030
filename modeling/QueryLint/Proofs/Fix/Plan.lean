import QueryLint.Proofs.Fix.Reached
import QueryLint.Proofs.Fix.Words

/-!
QueryLint.Proofs.Fix.Plan — what plans ask for.

A plan holds a group of fixes for every anchor. What a group leaves of its anchor does not depend on
the order in which its fixes were added, and taking the group of one anchor leaves the groups of all
others.

* `FixGroup.spot`, `FixGroup.leave` — what the fixes of an anchor leave there.
* `FixPlan.IsExact` — plans whose groups can each be made.
* `FixPlan.without` — a plan without some anchors.
-/

namespace QueryLint

open Segment

/-! ## 1. What becomes of an anchor -/

namespace Edit

/-- What it puts in front of its anchor. -/
def front : Edit → List Segment
  | insertBefore new => new
  | _ => []

/-- What it puts behind its anchor. -/
def back : Edit → List Segment
  | insertAfter new => new
  | _ => []

/-- What it puts in place of its anchor. -/
def instead : Edit → List Segment
  | replace new => new
  | _ => []

end Edit

namespace FixGroup

variable (g : FixGroup)

/-- What the fixes put in front of their anchor. -/
def front : List Segment := g.fixes.flatMap (·.edit.front)

/-- What the fixes put behind their anchor. -/
def back : List Segment := g.fixes.flatMap (·.edit.back)

/-- What the fixes put in place of their anchor. -/
def instead : List Segment := g.fixes.flatMap (·.edit.instead)

/-- The anchor stays: the fixes only insert beside it. -/
def keepsAnchor : Bool := g.fixes.all (·.edit.isInsertion)

/-- The tokens that fixes leave of an anchor with some tokens. -/
def leave (own : List Segment) : List Segment :=
  words g.front ++ (if g.keepsAnchor then own else words g.instead) ++ words g.back

/-- The segments that fixes leave of an anchor. -/
def spot (anchor : Segment) : List Segment :=
  g.front ++ (if g.keepsAnchor then [anchor] else g.instead) ++ g.back

variable {g}

/-- The fixes of a valid group are made as they ask, in whatever order they were added. -/
theorem alike_inPlaceOf (hvalid : g.isValid = true) (hsome : g.fixes ≠ []) (anchor : Segment) :
    Alike (g.inPlaceOf anchor) (g.spot anchor) := by
  obtain ⟨fixes, sourceFixes⟩ := g
  match fixes with
  | [] => exact absurd rfl hsome
  | [x] =>
    have one : FixGroup.inPlaceOf ⟨[x], sourceFixes⟩ anchor = x.inPlaceOf anchor true := by
      simp [FixGroup.inPlaceOf, FixGroup.ordered, FixGroup.size]
    rw [one]
    unfold Fix.inPlaceOf
    cases hedit : x.edit with
    | delete =>
      simp [spot, keepsAnchor, front, back, instead, Edit.front, Edit.back, Edit.instead,
        Edit.isInsertion, Edit.isInsertBefore, Edit.isInsertAfter, hedit, Alike]
    | replace new =>
      have alike : Alike (placeFirst anchor new) new := map_unplaced_placeFirst anchor new
      simpa [spot, keepsAnchor, front, back, instead, Edit.front, Edit.back, Edit.instead,
        Edit.isInsertion, Edit.isInsertBefore, Edit.isInsertAfter, hedit] using alike
    | insertBefore new =>
      simp [spot, keepsAnchor, front, back, Edit.front, Edit.back, Edit.isInsertion,
        Edit.isInsertBefore, hedit, Alike]
    | insertAfter new =>
      simp [spot, keepsAnchor, front, back, Edit.front, Edit.back, Edit.isInsertion,
        Edit.isInsertBefore, Edit.isInsertAfter, hedit, Alike]
  | [x, y] =>
    simp only [isValid, size, List.length_cons, List.length_nil, List.any_cons, List.any_nil,
      Bool.or_false] at hvalid
    cases hx : x.edit <;> cases hy : y.edit <;>
      simp_all [Edit.isInsertBefore, Edit.isInsertAfter, FixGroup.inPlaceOf, FixGroup.ordered,
        FixGroup.size, Fix.inPlaceOf, spot, keepsAnchor, front, back, Edit.front, Edit.back,
        Edit.isInsertion, Alike]
  | _ :: _ :: _ :: _ => simp [isValid, size] at hvalid

end FixGroup

/-! ## 2. Plans -/

namespace FixPlan

variable {plan : FixPlan} {ids : List Nat} {k : Nat}

/-- All segments that a plan brings in. -/
def new (plan : FixPlan) : List Segment := plan.flatMap fun g => g.2.fixes.flatMap (·.new)

/-- Every anchor has one group of fixes, which is not empty. -/
structure IsKeyed (plan : FixPlan) : Prop where
  nodup : (plan.map (·.1)).Nodup
  nonempty : ∀ g ∈ plan, g.2.fixes ≠ []

/-- The group of every anchor has one fix or one on each side, and what a plan brings in are trees
without anchors in them. -/
structure IsExact (plan : FixPlan) : Prop extends IsKeyed plan where
  valid : plan.isValid = true
  trees : allTrees plan.new = true
  fresh : ∀ k ∈ idsAll plan.new, plan.lookup k = none

/-- A plan without some anchors. -/
def without (plan : FixPlan) (ids : List Nat) : FixPlan := plan.filter fun g => !ids.contains g.1

theorem without_nil (plan : FixPlan) : plan.without [] = plan := by
  rw [without, List.filter_eq_self]
  simp

theorem without_without (plan : FixPlan) (ids ids' : List Nat) :
    (plan.without ids).without ids' = plan.without (ids ++ ids') := by
  rw [without, without, without, List.filter_filter]
  congr 1
  funext g
  rw [List.contains_append, Bool.not_or, Bool.and_comm]

theorem lookup_without (plan : FixPlan) (ids : List Nat) (k : Nat) :
    (plan.without ids).lookup k = if k ∈ ids then none else plan.lookup k := by
  induction plan with
  | nil => simp [without]
  | cons g plan ih =>
    obtain ⟨id, g⟩ := g
    rw [without, List.filter_cons]
    by_cases hid : id ∈ ids
    · rw [if_neg (by simpa using hid)]
      refine ih.trans ?_
      split
      · rfl
      · next hk =>
        have ne : (k == id) = false := by
          rw [beq_eq_false_iff_ne]
          rintro rfl
          exact hk hid
        rw [List.lookup_cons, ne]
    · rw [if_pos (by simpa using hid), List.lookup_cons, List.lookup_cons]
      by_cases hk : k = id
      · subst hk
        simp [hid]
      · rw [beq_eq_false_iff_ne.2 hk]
        exact ih

theorem lookup_without_of_not_mem (h : k ∉ ids) : (plan.without ids).lookup k = plan.lookup k := by
  rw [lookup_without, if_neg h]

theorem lookup_without_of_none (h : plan.lookup k = none) : (plan.without ids).lookup k = none := by
  rw [lookup_without, h]
  exact ite_self none

theorem mem_of_lookup {g : FixGroup} (h : plan.lookup k = some g) : (k, g) ∈ plan := by
  obtain ⟨front, back, heq, -⟩ := List.lookup_eq_some_iff.1 h
  rw [heq]
  simp

theorem lookup_ne_none_of_mem {g : Nat × FixGroup} (h : g ∈ plan) : plan.lookup g.1 ≠ none := by
  intro hnone
  have := List.lookup_eq_none_iff.1 hnone g h
  simp at this

/-- Where every anchor has one group, taking a group leaves the others. -/
theorem take_eq (h : (plan.map (·.1)).Nodup) (k : Nat) :
    plan.take k = (plan.lookup k, plan.without [k]) := by
  induction plan with
  | nil => rfl
  | cons g plan ih =>
    obtain ⟨id, g⟩ := g
    rw [List.map_cons, List.nodup_cons] at h
    rw [take, List.lookup_cons, without, List.filter_cons]
    by_cases hid : id = k
    · subst hid
      have others : FixPlan.without plan [id] = plan := by
        rw [FixPlan.without, List.filter_eq_self]
        intro g hg
        have : g.1 ≠ id := by
          rintro rfl
          exact h.1 (List.mem_map.2 ⟨g, hg, rfl⟩)
        simpa using this
      simp only [if_true, beq_self_eq_true]
      simpa [without] using others.symm
    · rw [if_neg hid, beq_eq_false_iff_ne.2 (Ne.symm hid), if_pos (by simpa using hid), ih h.2]
      rfl

theorem new_without_sublist (plan : FixPlan) (ids : List Nat) :
    (plan.without ids).new.Sublist plan.new := by
  induction plan with
  | nil => exact .slnil
  | cons g plan ih =>
    rw [without, List.filter_cons]
    split
    · exact (List.Sublist.refl _).append ih
    · exact ih.trans (List.sublist_append_right _ _)

namespace IsExact

/-- A plan stays exact when groups are taken out. -/
theorem without (h : plan.IsExact) (ids : List Nat) : (plan.without ids).IsExact where
  nodup := h.nodup.sublist (List.filter_sublist.map _)
  nonempty g hg := h.nonempty g (List.mem_filter.1 hg).1
  valid := List.all_eq_true.2 fun g hg =>
    List.all_eq_true.1 h.valid g (List.mem_filter.1 hg).1
  trees := allTrees_iff.2 fun s hs =>
    allTrees_iff.1 h.trees s ((plan.new_without_sublist ids).subset hs)
  fresh k hk := by
    refine lookup_without_of_none (h.fresh k ?_)
    rw [mem_idsAll] at hk ⊢
    have sub := (plan.new_without_sublist ids).subset
    rcases hk with hk | hk
    · obtain ⟨s, hs, rfl⟩ := List.mem_map.1 hk
      exact .inl (List.mem_map_of_mem (sub hs))
    · obtain ⟨s, hs, hk⟩ := List.mem_flatMap.1 hk
      exact .inr (List.mem_flatMap.2 ⟨s, sub hs, hk⟩)

end IsExact

end FixPlan

/-! ## 3. Plans of fixes -/

namespace FixGroup

theorem length_setFirstReplace (x : Fix) (fixes : List Fix) :
    (setFirstReplace x fixes).length = fixes.length := by
  induction fixes with
  | nil => rfl
  | cons y fixes ih =>
    rw [setFirstReplace]
    split
    · rfl
    · rw [List.length_cons, List.length_cons, ih]

/-- A group that a fix was added to is not empty. -/
theorem fixes_add_ne_nil (g : FixGroup) (x : Fix) (n : Nat) : ((g.add x).run n).1.fixes ≠ [] := by
  have condensed (h : FixGroup) (hsome : (firstReplace? h.fixes).isSome) (y : Fix) :
      ((h.condense y).run n).1.fixes ≠ [] := by
    intro hnil
    have length := congrArg List.length hnil
    change (setFirstReplace _ h.fixes).length = 0 at length
    rw [length_setFirstReplace, List.length_eq_zero_iff] at length
    rw [length] at hsome
    cases hsome
  have appended : g.fixes ++ [x] ≠ [] := by simp
  unfold add
  split
  · next hsame =>
    intro hnil
    change g.fixes = [] at hnil
    rw [hnil] at hsame
    cases hsame
  · split
    · dsimp only
      split
      · next y hy => exact condensed _ (by rw [hy]; rfl) y
      · exact appended
    · split
      · next hreplace =>
        refine condensed g ?_ x
        cases hfirst : firstReplace? g.fixes with
        | none => simp [hfirst] at hreplace
        | some y => rfl
      · exact appended

end FixGroup

namespace FixPlan

/-- Adding a fix makes its anchor one of the plan and leaves the others. -/
theorem mem_map_add (x : Fix) (plan : FixPlan) (n k : Nat) :
    k ∈ ((plan.add x).run n).1.map (·.1) ↔ k = x.anchor.id ∨ k ∈ plan.map (·.1) := by
  induction plan generalizing n with
  | nil => exact List.mem_cons
  | cons g plan ih =>
    obtain ⟨id, g⟩ := g
    rw [add]
    split
    · next hid =>
      show k ∈ id :: plan.map (·.1) ↔ k = x.anchor.id ∨ k ∈ id :: plan.map (·.1)
      rw [List.mem_cons, hid]
      exact (or_iff_right_of_imp .inl).symm
    · show k ∈ id :: ((add x plan).run n).1.map (·.1) ↔ k = x.anchor.id ∨ k ∈ id :: plan.map (·.1)
      rw [List.mem_cons, List.mem_cons, ih, or_left_comm]

theorem isKeyed_add (x : Fix) {plan : FixPlan} (h : plan.IsKeyed) (n : Nat) :
    IsKeyed ((plan.add x).run n).1 := by
  induction plan generalizing n with
  | nil =>
    refine ⟨List.pairwise_singleton .., fun g hg => ?_⟩
    rw [List.mem_singleton.1 hg]
    exact FixGroup.fixes_add_ne_nil {} x n
  | cons g plan ih =>
    obtain ⟨id, g⟩ := g
    obtain ⟨nodup, nonempty⟩ := h
    have others : ∀ g' ∈ plan, g'.2.fixes ≠ [] := fun g' hg' => nonempty g' (.tail _ hg')
    rw [add]
    split
    · refine ⟨nodup, fun g' hg' => ?_⟩
      rcases List.mem_cons.1 hg' with rfl | hg'
      · exact g.fixes_add_ne_nil x n
      · exact others g' hg'
    · next hid =>
      rw [List.map_cons, List.nodup_cons] at nodup
      obtain ⟨nodup', nonempty'⟩ := ih ⟨nodup.2, others⟩ n
      refine ⟨?_, fun g' hg' => ?_⟩
      · show (id :: ((add x plan).run n).1.map (·.1)).Nodup
        rw [List.nodup_cons, mem_map_add, not_or]
        exact ⟨⟨hid, nodup.1⟩, nodup'⟩
      · rcases List.mem_cons.1 hg' with rfl | hg'
        · exact nonempty (id, g) (.head _)
        · exact nonempty' g' hg'

/-- Grouping fixes by anchor gives every anchor one group. -/
theorem isKeyed_ofFixes (fixes : List Fix) (n : Nat) : IsKeyed ((ofFixes fixes).run n).1 := by
  have added (fixes : List Fix) : ∀ (plan : FixPlan) (n : Nat), plan.IsKeyed →
      IsKeyed ((fixes.foldlM (fun plan x => add x plan) plan : Fresh FixPlan).run n).1 := by
    induction fixes with
    | nil => exact fun plan n h => h
    | cons x fixes ih => exact fun plan n h => ih _ _ (isKeyed_add x h n)
  exact added fixes [] n ⟨List.nodup_nil, by simp⟩

end FixPlan

end QueryLint
