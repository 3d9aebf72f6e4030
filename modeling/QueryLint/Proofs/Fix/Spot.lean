import Mathlib.Data.List.Basic
import QueryLint.Proofs.Fix.Plan

/-!
QueryLint.Proofs.Fix.Spot — what a plan leaves of siblings.

What a plan asks for can be said without saying how it is done: the tokens of a tree are listed in
order, and those of every anchor have others in their place or beside them. Positions and markers
are left out, since making fixes places segments anew and moves markers.

The groups of a node's segments are taken out of the plan before the segments are rebuilt, one
after the other. An anchor is there once, so what is taken for one segment is of no use to another:
each can be rebuilt as if it had the whole plan.

* `FixPlan.edited` — the tokens that a plan leaves of a tree.
* `FixPlan.spares` — no anchor stands inside of one that is taken away.
* `FixPlan.anchorsIn` — the anchors among some identities.
* `FixPlan.takeAll_eq` — anchors among siblings find their groups.
* `FixPlan.spotOf` — the segments that a plan leaves of a segment.
* `FixPlan.flatMap_edited_spots` — they have the tokens that the plan asks for.
-/

namespace QueryLint

open Segment

namespace FixPlan

/-! ## 1. What is expected -/

mutual

/-- The tokens that a plan leaves of a segment whose own group has been taken. -/
def edited (plan : FixPlan) : Segment → List Segment
  | .mk i cs => if i.kind.isLeaf then words [.mk i cs] else editedAll plan cs

/-- The tokens that a plan leaves of several segments. -/
def editedAll (plan : FixPlan) : List Segment → List Segment
  | [] => []
  | s :: rest =>
    (match plan.lookup s.id with
      | none => edited plan s
      | some g => g.leave (edited plan s)) ++ editedAll plan rest

end

mutual

/-- No anchor stands inside of an anchor that is taken away. -/
def spares (plan : FixPlan) : Segment → Bool
  | .mk _ cs => sparesAll plan cs

/-- The same of several segments. -/
def sparesAll (plan : FixPlan) : List Segment → Bool
  | [] => true
  | s :: rest =>
    (match plan.lookup s.id with
      | none => true
      | some g => g.keepsAnchor || (idsAll s.children).all fun k => (plan.lookup k).isNone) &&
      spares plan s && sparesAll plan rest

end

mutual

theorem edited_unplaced (plan : FixPlan) (s : Segment) :
    edited plan s.unplaced = edited plan s := by
  match s with
  | .mk i cs =>
    have alike : Alike [unplaced (.mk i cs)] [.mk i cs] := by simp [Alike, unplaced_unplaced]
    have same := alike.words_eq
    rw [unplaced] at same ⊢
    rw [edited, edited, same, editedAll_unplacedAll plan cs]

theorem editedAll_unplacedAll (plan : FixPlan) (ss : List Segment) :
    editedAll plan (unplacedAll ss) = editedAll plan ss := by
  match ss with
  | [] => rw [unplacedAll]
  | s :: rest =>
    rw [unplacedAll, editedAll, editedAll, id_unplaced, edited_unplaced plan s,
      editedAll_unplacedAll plan rest]

end

/-- The tokens that a plan leaves of a segment, which may be an anchor. -/
def editedAt (plan : FixPlan) (s : Segment) : List Segment :=
  match plan.lookup s.id with
  | none => plan.edited s
  | some g => g.leave (plan.edited s)

theorem editedAll_eq_flatMap (plan : FixPlan) (ss : List Segment) :
    editedAll plan ss = ss.flatMap plan.editedAt := by
  induction ss with
  | nil => rw [editedAll]; rfl
  | cons s ss ih =>
    rw [editedAll, ih]
    rfl

theorem edited_of_not_isLeaf {plan : FixPlan} {s : Segment} (h : s.isLeaf = false) :
    plan.edited s = editedAll plan s.children := by
  cases s with
  | mk i cs =>
    change i.kind.isLeaf = false at h
    rw [edited, h]
    rfl

mutual

/-- Only the groups of what is inside a segment matter for it. -/
theorem edited_congr {plan plan' : FixPlan} (s : Segment)
    (h : ∀ k ∈ idsAll s.children, plan.lookup k = plan'.lookup k) :
    plan.edited s = plan'.edited s := by
  match s with
  | .mk i cs => rw [edited, edited, editedAll_congr cs h]

theorem editedAll_congr {plan plan' : FixPlan} (ss : List Segment)
    (h : ∀ k ∈ idsAll ss, plan.lookup k = plan'.lookup k) :
    plan.editedAll ss = plan'.editedAll ss := by
  match ss with
  | [] => rw [editedAll, editedAll]
  | s :: rest =>
    rw [idsAll, ids_eq] at h
    rw [editedAll, editedAll, h s.id (by simp), edited_congr s fun k hk => h k (by simp [hk]),
      editedAll_congr rest fun k hk => h k (by simp [hk])]

end

mutual

/-- A plan without groups leaves all tokens. -/
theorem edited_nil (s : Segment) : edited [] s = words [s] := by
  match s with
  | .mk i cs =>
    rw [edited, editedAll_nil cs]
    split
    · rfl
    · next hleaf =>
      have inner : (Segment.mk i cs).isLeaf = false := by simpa [isLeaf, kind, info] using hleaf
      exact (words_of_not_isLeaf inner).symm

theorem editedAll_nil (ss : List Segment) : editedAll [] ss = words ss := by
  match ss with
  | [] => rw [editedAll, words_nil]
  | s :: rest => rw [editedAll, List.lookup_nil, edited_nil s, editedAll_nil rest, ← words_cons]

end

/-- Without anchors in it a segment keeps its tokens. -/
theorem edited_of_none {plan : FixPlan} {s : Segment}
    (h : ∀ k ∈ idsAll s.children, plan.lookup k = none) : plan.edited s = words [s] := by
  rw [edited_congr s fun k hk => (h k hk).trans (List.lookup_nil ..).symm, edited_nil]

theorem spares_iff {plan : FixPlan} {s : Segment} :
    plan.spares s = true ↔ ∀ c ∈ s.children, plan.spares c = true ∧
      ∀ g, plan.lookup c.id = some g → g.keepsAnchor = false →
        ∀ k ∈ idsAll c.children, plan.lookup k = none := by
  cases s with
  | mk i cs =>
    rw [spares]
    show _ ↔ ∀ c ∈ cs, _
    induction cs with
    | nil => simp [sparesAll]
    | cons c cs ih =>
      rw [sparesAll, Bool.and_eq_true, Bool.and_eq_true, ih, List.forall_mem_cons]
      refine and_congr_left' ⟨fun h => ⟨h.2, fun g hg hkeeps k hk => ?_⟩, fun h => ⟨?_, h.1⟩⟩
      · have h := h.1
        rw [hg] at h
        simp only [hkeeps, Bool.false_or, List.all_eq_true] at h
        simpa using h k hk
      · cases hg : plan.lookup c.id with
        | none => rfl
        | some g =>
          cases hkeeps : g.keepsAnchor with
          | true => simp [hkeeps]
          | false => simpa [hkeeps] using h.2 g hg hkeeps

mutual

/-- Without anchors inside a segment none is taken away. -/
theorem spares_of_none {plan : FixPlan} {s : Segment}
    (h : ∀ k ∈ idsAll s.children, plan.lookup k = none) : plan.spares s = true := by
  match s with
  | .mk i cs =>
    rw [spares]
    exact sparesAll_of_none h

theorem sparesAll_of_none {plan : FixPlan} {ss : List Segment}
    (h : ∀ k ∈ idsAll ss, plan.lookup k = none) : plan.sparesAll ss = true := by
  match ss with
  | [] => rw [sparesAll]
  | s :: rest =>
    rw [idsAll, ids_eq] at h
    rw [sparesAll, h s.id (by simp), spares_of_none fun k hk => h k (by simp [hk]),
      sparesAll_of_none fun k hk => h k (by simp [hk])]
    rfl

end

mutual

/-- A plan with fewer groups takes fewer anchors away. -/
theorem spares_without {plan : FixPlan} (ids : List Nat) (s : Segment)
    (h : plan.spares s = true) : (plan.without ids).spares s = true := by
  match s with
  | .mk i cs =>
    rw [spares] at h ⊢
    exact sparesAll_without ids cs h

theorem sparesAll_without {plan : FixPlan} (ids : List Nat) (ss : List Segment)
    (h : plan.sparesAll ss = true) : (plan.without ids).sparesAll ss = true := by
  match ss with
  | [] => rw [sparesAll]
  | s :: rest =>
    rw [sparesAll, Bool.and_eq_true, Bool.and_eq_true] at h ⊢
    obtain ⟨⟨own, inside⟩, others⟩ := h
    refine ⟨⟨?_, spares_without ids s inside⟩, sparesAll_without ids rest others⟩
    rw [lookup_without]
    split
    · next hnone => rfl
    · next g hg =>
      split at hg
      · cases hg
      · rw [hg] at own
        simp only [Bool.or_eq_true, List.all_eq_true, Option.isNone_iff_eq_none] at own ⊢
        exact own.imp id fun own k hk => lookup_without_of_none (own k hk)

end

mutual

theorem spares_unplaced (plan : FixPlan) (s : Segment) :
    plan.spares s.unplaced = plan.spares s := by
  match s with
  | .mk i cs => rw [unplaced, spares, spares, sparesAll_unplacedAll plan cs]

theorem sparesAll_unplacedAll (plan : FixPlan) (ss : List Segment) :
    plan.sparesAll (unplacedAll ss) = plan.sparesAll ss := by
  match ss with
  | [] => rw [unplacedAll]
  | s :: rest =>
    rw [unplacedAll, sparesAll, sparesAll, id_unplaced, idsAll_children_unplaced,
      spares_unplaced plan s, sparesAll_unplacedAll plan rest]

end

end FixPlan

end QueryLint

namespace QueryLint

open Segment

/-! ## 2. Anchors among siblings -/

namespace FixPlan

variable {plan : FixPlan}

/-- The anchors among some identities. -/
def anchorsIn (plan : FixPlan) (ids : List Nat) : List Nat :=
  ids.filter fun k => (plan.lookup k).isSome

theorem mem_anchorsIn {ids : List Nat} {k : Nat} :
    k ∈ plan.anchorsIn ids ↔ k ∈ ids ∧ plan.lookup k ≠ none := by
  rw [anchorsIn, List.mem_filter, Option.isSome_iff_ne_none]

theorem anchorsIn_append (ids ids' : List Nat) :
    plan.anchorsIn (ids ++ ids') = plan.anchorsIn ids ++ plan.anchorsIn ids' :=
  List.filter_append ..

theorem anchorsIn_eq_nil {ids : List Nat} (h : ∀ k ∈ ids, plan.lookup k = none) :
    plan.anchorsIn ids = [] := by
  rw [anchorsIn, List.filter_eq_nil_iff]
  intro k hk
  rw [h k hk]
  simp

theorem anchorsIn_without_sublist (taken ids : List Nat) :
    ((plan.without taken).anchorsIn ids).Sublist (plan.anchorsIn ids) := by
  have fewer : (plan.without taken).anchorsIn ids =
      (plan.anchorsIn ids).filter fun k => ((plan.without taken).lookup k).isSome := by
    rw [anchorsIn, anchorsIn, List.filter_filter]
    refine List.filter_congr fun k _ => ?_
    rw [lookup_without]
    split <;> simp
  rw [fewer]
  exact List.filter_sublist

/-- An anchor that is once among identities is in one part of them only. -/
theorem lookup_without_of_nodup {ids ids' : List Nat} (h : (plan.anchorsIn (ids ++ ids')).Nodup)
    {k : Nat} (hk : k ∈ ids') : (plan.without ids).lookup k = plan.lookup k := by
  cases hnone : plan.lookup k with
  | none => exact lookup_without_of_none hnone
  | some g =>
    rw [lookup_without_of_not_mem, hnone]
    intro hk'
    have some : plan.lookup k ≠ none := by simp [hnone]
    rw [anchorsIn_append, List.nodup_append] at h
    exact h.2.2 k (mem_anchorsIn.2 ⟨hk', some⟩) k (mem_anchorsIn.2 ⟨hk, some⟩) rfl

/-- Only the anchors among identities matter when they are taken out. -/
theorem without_congr {ids ids' : List Nat} (h : ∀ g ∈ plan, g.1 ∈ ids ↔ g.1 ∈ ids') :
    plan.without ids = plan.without ids' := by
  refine List.filter_congr fun g hg => ?_
  rw [Bool.eq_iff_iff]
  simp [h g hg]

/-- Without anchors among identities nothing is taken out. -/
theorem without_of_none {ids : List Nat} (h : ∀ k ∈ ids, plan.lookup k = none) :
    plan.without ids = plan := by
  rw [without_congr fun g hg => ?_, without_nil]
  refine iff_of_false (fun hid => lookup_ne_none_of_mem hg (h _ hid)) (by simp)

/-- Anchors among siblings that are different find their groups. -/
theorem takeAll_eq (hplan : (plan.map (·.1)).Nodup) {ss : List Segment}
    (h : (plan.anchorsIn (ss.map (·.id))).Nodup) :
    takeAll plan ss = (ss.map fun s => (plan.lookup s.id, s), plan.without (ss.map (·.id))) := by
  induction ss generalizing plan with
  | nil => rw [takeAll, List.map_nil, List.map_nil, without_nil]
  | cons s ss ih =>
    have h' : (plan.anchorsIn ([s.id] ++ ss.map (·.id))).Nodup := h
    have same : ss.map (fun t => ((plan.without [s.id]).lookup t.id, t)) =
        ss.map fun t => (plan.lookup t.id, t) :=
      List.map_congr_left fun t ht => by
        rw [lookup_without_of_nodup h' (List.mem_map_of_mem ht)]
    have rest : ((plan.without [s.id]).anchorsIn (ss.map (·.id))).Nodup := by
      rw [anchorsIn_append] at h'
      exact (List.nodup_append.1 h').2.1.sublist (anchorsIn_without_sublist _ _)
    have tail : takeAll (plan.without [s.id]) ss =
        (ss.map fun t => ((plan.without [s.id]).lookup t.id, t),
          (plan.without [s.id]).without (ss.map (·.id))) :=
      ih (hplan.sublist (List.filter_sublist.map _)) rest
    rw [same, without_without] at tail
    rw [takeAll, take_eq hplan]
    dsimp only
    rw [tail]
    rfl

/-! ## 3. In place of a segment -/

/-- The segments that a plan leaves of a segment, which may be an anchor. -/
def spotOf (plan : FixPlan) (s : Segment) : List Segment :=
  match plan.lookup s.id with
  | none => [s]
  | some g => g.spot s

theorem alike_piecesOf (hplan : plan.IsExact) (ss : List Segment) :
    Alike (piecesOf (ss.map fun s => (plan.lookup s.id, s))) (ss.flatMap plan.spotOf) := by
  unfold piecesOf
  rw [List.flatMap_map]
  induction ss with
  | nil => rfl
  | cons s ss ih =>
    have first : Alike (((plan.lookup s.id).map (·.inPlaceOf s)).getD [s]) (plan.spotOf s) := by
      unfold spotOf
      cases hg : plan.lookup s.id with
      | none => rfl
      | some g =>
        have member := mem_of_lookup hg
        exact FixGroup.alike_inPlaceOf (List.all_eq_true.1 hplan.valid _ member)
          (hplan.nonempty _ member) s
    unfold Alike at first ih ⊢
    rw [List.flatMap_cons, List.flatMap_cons, List.map_append, List.map_append, first, ih]

/-- What a group brings in is brought in by the plan. -/
theorem mem_new {k : Nat} {g : FixGroup} (hg : plan.lookup k = some g) {s : Segment}
    (hs : s ∈ g.front ∨ s ∈ g.instead ∨ s ∈ g.back) : s ∈ plan.new := by
  refine List.mem_flatMap.2 ⟨(k, g), mem_of_lookup hg, ?_⟩
  rcases hs with hs | hs | hs <;>
  · obtain ⟨x, hx, hs⟩ := List.mem_flatMap.1 hs
    refine List.mem_flatMap.2 ⟨x, hx, ?_⟩
    unfold Fix.new
    cases hedit : x.edit <;> simp_all [Edit.front, Edit.instead, Edit.back, Edit.new]

/-- What a plan brings in has no anchors inside. -/
theorem IsExact.fresh_inside (h : plan.IsExact) {s : Segment} (hs : s ∈ plan.new) :
    ∀ k ∈ idsAll s.children, plan.lookup k = none := by
  intro k hk
  exact h.fresh k (mem_idsAll.2 (.inr (List.mem_flatMap.2 ⟨s, hs, hk⟩)))

theorem anchorsIn_innerIds_new (h : plan.IsExact) {ss : List Segment}
    (hss : ∀ s ∈ ss, s ∈ plan.new) :
    plan.anchorsIn (innerIds ss) = [] := by
  refine anchorsIn_eq_nil fun k hk => ?_
  obtain ⟨s, hs, hk⟩ := List.mem_flatMap.1 hk
  exact h.fresh_inside (hss s hs) k hk

theorem flatMap_edited_new (h : plan.IsExact) {ss : List Segment} (hss : ∀ s ∈ ss, s ∈ plan.new) :
    ss.flatMap plan.edited = words ss := by
  induction ss with
  | nil => exact words_nil.symm
  | cons s ss ih =>
    rw [List.flatMap_cons, words_cons, ih fun t ht => hss t (List.mem_cons_of_mem _ ht),
      edited_of_none (h.fresh_inside (hss s (List.mem_cons_self ..)))]

/-- A segment that a plan leaves of another is that one or one brought in. -/
theorem mem_spotOf {s t : Segment} (h : t ∈ plan.spotOf s) : t = s ∨ t ∈ plan.new := by
  unfold spotOf at h
  cases hg : plan.lookup s.id with
  | none => simpa [hg] using Or.inl h
  | some g =>
    simp only [hg, FixGroup.spot, List.mem_append] at h
    rcases h with (h | h) | h
    · exact .inr (mem_new hg (.inl h))
    · split at h
      · exact .inl (List.mem_singleton.1 h)
      · exact .inr (mem_new hg (.inr (.inl h)))
    · exact .inr (mem_new hg (.inr (.inr h)))

/-- An anchor that is taken away takes no other anchors with it. -/
theorem anchorsIn_spotOf (h : plan.IsExact) {s : Segment}
    (hspare : ∀ g, plan.lookup s.id = some g → g.keepsAnchor = false →
      ∀ k ∈ idsAll s.children, plan.lookup k = none) :
    plan.anchorsIn (innerIds (plan.spotOf s)) = plan.anchorsIn (idsAll s.children) := by
  have alone : innerIds [s] = idsAll s.children := by simp [innerIds]
  unfold spotOf
  cases hg : plan.lookup s.id with
  | none => exact congrArg plan.anchorsIn alone
  | some g =>
    have front := anchorsIn_innerIds_new h fun t ht => mem_new hg (.inl ht)
    have back := anchorsIn_innerIds_new h fun t ht => mem_new hg (.inr (.inr ht))
    show plan.anchorsIn (innerIds (g.spot s)) = _
    rw [FixGroup.spot, innerIds_append, innerIds_append, anchorsIn_append, anchorsIn_append, front,
      back, List.nil_append, List.append_nil]
    cases hkeeps : g.keepsAnchor with
    | true => rw [if_pos rfl, alone]
    | false =>
      rw [if_neg Bool.false_ne_true, anchorsIn_eq_nil (hspare g hg hkeeps)]
      exact anchorsIn_innerIds_new h fun t ht => mem_new hg (.inr (.inl ht))

/-- The segments that a plan leaves of another have the tokens it asks for. -/
theorem flatMap_edited_spotOf (h : plan.IsExact) (s : Segment) :
    (plan.spotOf s).flatMap plan.edited = plan.editedAt s := by
  unfold spotOf editedAt
  cases hg : plan.lookup s.id with
  | none => simp
  | some g =>
    have front := flatMap_edited_new h fun t ht => mem_new hg (.inl ht)
    have back := flatMap_edited_new h fun t ht => mem_new hg (.inr (.inr ht))
    show (g.spot s).flatMap plan.edited = g.leave (plan.edited s)
    rw [FixGroup.spot, FixGroup.leave, List.flatMap_append, List.flatMap_append, front, back]
    cases hkeeps : g.keepsAnchor with
    | true => simp
    | false =>
      rw [if_neg Bool.false_ne_true, if_neg Bool.false_ne_true]
      rw [flatMap_edited_new h fun t ht => mem_new hg (.inr (.inl ht))]

/-! ## 4. In place of siblings -/

/-- No anchor among some segments that is taken away has another inside. -/
def SparesEach (plan : FixPlan) (ss : List Segment) : Prop :=
  ∀ s ∈ ss, ∀ g, plan.lookup s.id = some g → g.keepsAnchor = false →
    ∀ k ∈ idsAll s.children, plan.lookup k = none

/-- Segments have as many anchors inside as what a plan leaves of them. -/
theorem anchorsIn_spots (h : plan.IsExact) {ss : List Segment} (hspare : plan.SparesEach ss) :
    plan.anchorsIn (innerIds (ss.flatMap plan.spotOf)) = plan.anchorsIn (innerIds ss) := by
  induction ss with
  | nil => rfl
  | cons s ss ih =>
    rw [List.flatMap_cons, innerIds_append, anchorsIn_append,
      anchorsIn_spotOf h (hspare s (List.mem_cons_self ..)),
      ih fun t ht => hspare t (List.mem_cons_of_mem _ ht), ← anchorsIn_append]
    rfl

/-- The groups of siblings are taken out first, and those inside of them remain. -/
theorem anchorsIn_siblings_nodup (h : plan.IsExact) {ss : List Segment}
    (hspare : plan.SparesEach ss) (hnodup : (plan.anchorsIn (idsAll ss)).Nodup) :
    (plan.anchorsIn (ss.map (·.id) ++ innerIds (ss.flatMap plan.spotOf))).Nodup := by
  have perm : (plan.anchorsIn (idsAll ss)).Perm (plan.anchorsIn (ss.map (·.id) ++ innerIds ss)) :=
    (idsAll_perm ss).filter _
  rw [anchorsIn_append, anchorsIn_spots h hspare, ← anchorsIn_append]
  exact perm.nodup hnodup

/-- What a plan leaves of siblings has the tokens it asks for, once their groups are taken out. -/
theorem flatMap_edited_spots (h : plan.IsExact) {ss : List Segment}
    (hspare : plan.SparesEach ss) (hnodup : (plan.anchorsIn (idsAll ss)).Nodup) :
    (ss.flatMap plan.spotOf).flatMap (plan.without (ss.map (·.id))).edited = plan.editedAll ss := by
  have distinct := anchorsIn_siblings_nodup h hspare hnodup
  -- No anchor stands inside of one segment and is another, so the whole plan says the same.
  have whole : (ss.flatMap plan.spotOf).flatMap (plan.without (ss.map (·.id))).edited =
      (ss.flatMap plan.spotOf).flatMap plan.edited := by
    refine List.flatMap_congr fun t ht => edited_congr t fun k hk => ?_
    exact lookup_without_of_nodup distinct (List.mem_flatMap.2 ⟨t, ht, hk⟩)
  rw [whole, List.flatMap_assoc, editedAll_eq_flatMap]
  exact List.flatMap_congr fun s _ => flatMap_edited_spotOf h s

/-- Taking out the groups of siblings and then those inside of what is left of them takes out the
groups of all anchors there. -/
theorem without_siblings (h : plan.IsExact) {ss : List Segment} (hspare : plan.SparesEach ss) :
    (plan.without (ss.map (·.id))).without (innerIds (ss.flatMap plan.spotOf)) =
      plan.without (idsAll ss) := by
  rw [without_without]
  refine without_congr fun g hg => ?_
  have inner : g.1 ∈ innerIds (ss.flatMap plan.spotOf) ↔ g.1 ∈ innerIds ss := by
    have anchor := lookup_ne_none_of_mem hg
    have same : g.1 ∈ plan.anchorsIn (innerIds (ss.flatMap plan.spotOf)) ↔
        g.1 ∈ plan.anchorsIn (innerIds ss) := by
      rw [anchorsIn_spots h hspare]
    rwa [mem_anchorsIn, mem_anchorsIn, and_iff_left anchor, and_iff_left anchor] at same
  rw [List.mem_append, inner, mem_idsAll]

end FixPlan

end QueryLint
