import Mathlib.Data.List.TakeWhile
import QueryLint.Proofs.Fix.Spot

/-!
QueryLint.Proofs.Fix.Remade — trees that fixes leave in their form.

A node that was rebuilt gives up what is not code at its edges. As long as there is nothing of the
kind, making fixes is a matter of the rows of segments: every anchor is exchanged in its row for
what its group leaves of it, and nothing else changes.

* `Segment.IsTight`, `Segment.Tight` — rows with code at their edges, and trees of such rows.
* `Segment.splitEdges_of_isTight` — nothing moves out of such a row.
* `FixPlan.remade` — the tree with every anchor exchanged in its row.
* `FixPlan.map_remade_spots` — what is left of the rows when the groups of one row are taken.
* `FixPlan.words_remade` — its tokens are those that the plan asks for.
-/

namespace QueryLint

open Segment

namespace Segment

variable {s : Segment} {cs us : List Segment}

/-! ## 1. Rows with code at their edges -/

/-- What is neither code nor a marker stands between code. -/
def IsTight (cs : List Segment) : Prop :=
  ∀ front s back, cs = front ++ s :: back → s.isCode = false → s.isMarker = false →
    (∃ x ∈ front, x.isCode = true) ∧ ∃ x ∈ back, x.isCode = true

theorem isTight_nil : IsTight [] := by
  intro front s back h
  simp at h

/-- What stands before the first segment that fails a test. -/
theorem exists_split_of_mem_takeWhile {p : Segment → Bool} (h : s ∈ cs.takeWhile p) :
    ∃ front back, cs = front ++ s :: back ∧ ∀ x ∈ front, p x = true := by
  obtain ⟨front, back, heq⟩ := List.append_of_mem h
  refine ⟨front, back ++ cs.dropWhile p, ?_, fun x hx => ?_⟩
  · rw [← List.cons_append, ← List.append_assoc, ← heq, List.takeWhile_append_dropWhile]
  · have member : x ∈ cs.takeWhile p := by
      rw [heq]
      exact List.mem_append_left _ hx
    exact List.mem_takeWhile_imp member

/-- Before the first code of such a row there are only markers. -/
theorem IsTight.isMarker_of_mem_takeWhile (h : IsTight cs)
    (hs : s ∈ cs.takeWhile (!·.isCode)) : s.isMarker = true := by
  have plain : s.isCode = false := by simpa using List.mem_takeWhile_imp hs
  obtain ⟨front, back, heq, hfront⟩ := exists_split_of_mem_takeWhile hs
  by_contra hmarker
  obtain ⟨x, hx, hcode⟩ := (h front s back heq plain (by simpa using hmarker)).1
  simpa [hcode] using hfront x hx

theorem IsTight.reverse (h : IsTight cs) : IsTight cs.reverse := by
  intro front s back heq hcode hmarker
  have heq' : cs = back.reverse ++ s :: front.reverse := by
    rw [← List.reverse_reverse cs, heq]
    simp
  obtain ⟨before, after⟩ := h _ s _ heq' hcode hmarker
  simp only [List.mem_reverse] at before after
  exact ⟨after, before⟩

/-- Nothing moves out of a row with code at its edges. -/
theorem splitEdges_of_isTight (h : IsTight cs) : splitEdges cs = ([], cs, []) := by
  have whole : cs.takeWhile (!·.isCode) ++ cs.dropWhile (!·.isCode) = cs :=
    List.takeWhile_append_dropWhile
  have front : ∀ s ∈ cs.takeWhile (!·.isCode), s.isMarker = true :=
    fun s hs => h.isMarker_of_mem_takeWhile hs
  generalize hrest : cs.dropWhile (!·.isCode) = rest at whole
  have inside : (rest.reverse.dropWhile (!·.isCode)).reverse ++
      (rest.reverse.takeWhile (!·.isCode)).reverse = rest := by
    rw [← List.reverse_append, List.takeWhile_append_dropWhile, List.reverse_reverse]
  -- behind the last code of the row stands what follows the last code of the rest
  have back : ∀ s ∈ rest.reverse.takeWhile (!·.isCode), s.isMarker = true := by
    intro s hs
    have plain : s.isCode = false := by simpa using List.mem_takeWhile_imp hs
    obtain ⟨after, before, heq, hafter⟩ := exists_split_of_mem_takeWhile hs
    have split : cs.reverse =
        after ++ s :: (before ++ (cs.takeWhile (!·.isCode)).reverse) := by
      rw [← List.cons_append, ← List.append_assoc, ← heq, ← List.reverse_append, whole]
    by_contra hmarker
    obtain ⟨x, hx, hcode⟩ := (h.reverse _ s _ split plain (by simpa using hmarker)).1
    simpa [hcode] using hafter x hx
  have none (ss : List Segment) (hss : ∀ s ∈ ss, s.isMarker = true) :
      ss.filter (!·.isMarker) = [] ∧ ss.filter (·.isMarker) = ss :=
    ⟨List.filter_eq_nil_iff.2 fun s hs => by simp [hss s hs], List.filter_eq_self.2 hss⟩
  have back' : ∀ s ∈ (rest.reverse.takeWhile (!·.isCode)).reverse, s.isMarker = true :=
    fun s hs => back s (List.mem_reverse.1 hs)
  simp only [splitEdges, hrest, (none _ front).1, (none _ front).2, (none _ back').1,
    (none _ back').2]
  rw [List.append_assoc, inside, whole]

/-! ## 2. Positions do not matter -/

mutual

/-- A segment is code if one of its leaves is. -/
theorem isCode_eq_any (s : Segment) : s.isCode = s.leaves.any (·.isCode) := by
  match s with
  | mk i cs =>
    have ih := anyCode_eq_any cs
    unfold leaves
    cases hk : i.kind <;> simp [SegmentKind.isLeaf, isCode, hk, ih]

theorem anyCode_eq_any (ss : List Segment) : anyCode ss = (leavesAll ss).any (·.isCode) := by
  match ss with
  | [] => rfl
  | s :: rest =>
    rw [anyCode, leavesAll, List.any_append, isCode_eq_any s, anyCode_eq_any rest]

end

mutual

@[simp] theorem isCode_unplaced (s : Segment) : s.unplaced.isCode = s.isCode := by
  match s with
  | mk i cs =>
    have ih := anyCode_unplacedAll cs
    rw [unplaced, isCode, isCode]
    split <;> simp_all

theorem anyCode_unplacedAll (ss : List Segment) : anyCode (unplacedAll ss) = anyCode ss := by
  match ss with
  | [] => rw [unplacedAll]
  | s :: rest => rw [unplacedAll, anyCode, anyCode, isCode_unplaced s, anyCode_unplacedAll rest]

end

theorem isTight_map_unplaced : IsTight (cs.map unplaced) ↔ IsTight cs := by
  constructor
  · rintro h front s back rfl hcode hmarker
    have split : (front ++ s :: back).map unplaced =
        front.map unplaced ++ s.unplaced :: back.map unplaced := by simp
    simpa using h _ _ _ split (by simpa using hcode) (by simpa using hmarker)
  · intro h front s back heq hcode hmarker
    obtain ⟨front', rest, rfl, rfl, hrest⟩ := List.map_eq_append_iff.1 heq
    obtain ⟨s', back', rfl, rfl, rfl⟩ := List.map_eq_cons_iff.1 hrest
    simpa using h front' s' back' rfl (by simpa using hcode) (by simpa using hmarker)

/-- Rows that differ in their positions only are both tight or both not. -/
theorem Alike.isTight_iff (h : Alike cs us) : IsTight cs ↔ IsTight us := by
  rw [← isTight_map_unplaced, h, isTight_map_unplaced]

/-- A tree whose rows are tight, but for those of nodes that may have loose ends. -/
inductive Tight : Segment → Prop where
  | mk {i : SegmentInfo} {cs : List Segment}
      (row : (mk i cs).mayHaveLooseEnds = false → IsTight cs) (inside : ∀ s ∈ cs, Tight s) :
      Tight (mk i cs)

namespace Tight

theorem row (h : Tight s) (hs : s.mayHaveLooseEnds = false) : IsTight s.children := by
  cases h with
  | mk row _ => exact row hs

theorem inside (h : Tight s) : ∀ c ∈ s.children, Tight c := by
  cases h with
  | mk _ inside => exact inside

theorem of_children (row : s.mayHaveLooseEnds = false → IsTight s.children)
    (inside : ∀ c ∈ s.children, Tight c) : Tight s := by
  cases s with
  | mk i cs => exact .mk row inside

theorem unplaced (h : Tight s) : Tight s.unplaced := by
  induction h with
  | @mk i cs row inside ih =>
    refine of_children (fun hs => ?_) fun c hc => ?_
    · rw [children_unplaced]
      refine isTight_map_unplaced.2 (row ?_)
      simpa [mayHaveLooseEnds, isFile, isUnparsable] using hs
    · rw [children_unplaced] at hc
      obtain ⟨u, hu, rfl⟩ := List.mem_map.1 hc
      exact ih u hu

theorem of_unplaced (h : Tight s.unplaced) : Tight s := by
  generalize hu : s.unplaced = u at h
  induction h generalizing s with
  | @mk i cs row inside ih =>
    obtain ⟨j, ds⟩ := s
    have children : ds.map Segment.unplaced = cs := by
      have := congrArg children hu
      rwa [children_unplaced] at this
    refine .mk (fun hs => ?_) fun c hc => ?_
    · refine isTight_map_unplaced.1 ?_
      show IsTight (ds.map Segment.unplaced)
      rw [children]
      refine row ?_
      rw [← hu]
      simpa [mayHaveLooseEnds, isFile, isUnparsable] using hs
    · exact ih c.unplaced (children ▸ List.mem_map_of_mem hc) rfl

end Tight

theorem tight_unplaced_iff : Tight s.unplaced ↔ Tight s := ⟨.of_unplaced, .unplaced⟩

end Segment

namespace FixPlan

variable {plan plan' : FixPlan}

/-! ## 3. Rows with their anchors exchanged -/

mutual

/-- A segment whose own group has been taken, with every anchor inside exchanged for what its group
leaves of it. -/
def remade (plan : FixPlan) : Segment → Segment
  | .mk i cs => .mk i (remadeAll plan cs)

/-- The same of several segments, which may be anchors themselves. -/
def remadeAll (plan : FixPlan) : List Segment → List Segment
  | [] => []
  | s :: rest => plan.spotOf (remade plan s) ++ remadeAll plan rest

end

@[simp] theorem info_remade (s : Segment) : (plan.remade s).info = s.info := by
  cases s with
  | mk i cs => rw [remade]; rfl

@[simp] theorem children_remade (s : Segment) :
    (plan.remade s).children = plan.remadeAll s.children := by
  cases s with
  | mk i cs => rw [remade]; rfl

@[simp] theorem id_remade (s : Segment) : (plan.remade s).id = s.id := by simp [Segment.id]

@[simp] theorem kind_remade (s : Segment) : (plan.remade s).kind = s.kind := by simp [kind]

@[simp] theorem isLeaf_remade (s : Segment) : (plan.remade s).isLeaf = s.isLeaf := by simp [isLeaf]

@[simp] theorem isMarker_remade (s : Segment) : (plan.remade s).isMarker = s.isMarker := by
  simp [isMarker, marker?]

@[simp] theorem isType_remade (s : Segment) (type : String) :
    (plan.remade s).isType type = s.isType type := by simp [isType, classTypes]

@[simp] theorem isUnparsable_remade (s : Segment) :
    (plan.remade s).isUnparsable = s.isUnparsable := by simp [isUnparsable]

@[simp] theorem mayHaveLooseEnds_remade (s : Segment) :
    (plan.remade s).mayHaveLooseEnds = s.mayHaveLooseEnds := by
  simp [mayHaveLooseEnds, isFile]

theorem remadeAll_eq_flatMap (ss : List Segment) :
    plan.remadeAll ss = ss.flatMap fun s => plan.spotOf (plan.remade s) := by
  induction ss with
  | nil => rw [remadeAll]; rfl
  | cons s ss ih => rw [remadeAll, ih, List.flatMap_cons]

/-- A segment that is no anchor is left where it is. -/
theorem spotOf_of_none {s : Segment} (h : plan.lookup s.id = none) : plan.spotOf s = [s] := by
  rw [spotOf, h]

mutual

/-- Only the groups of what is inside a segment matter for it. -/
theorem remade_congr (s : Segment) (h : ∀ k ∈ idsAll s.children, plan.lookup k = plan'.lookup k) :
    plan.remade s = plan'.remade s := by
  match s with
  | .mk i cs => rw [remade, remade, remadeAll_congr cs h]

theorem remadeAll_congr (ss : List Segment)
    (h : ∀ k ∈ idsAll ss, plan.lookup k = plan'.lookup k) :
    plan.remadeAll ss = plan'.remadeAll ss := by
  match ss with
  | [] => rw [remadeAll, remadeAll]
  | s :: rest =>
    rw [idsAll, ids_eq] at h
    rw [remadeAll, remadeAll, spotOf, spotOf, id_remade, id_remade, h s.id (by simp),
      remade_congr s fun k hk => h k (by simp [hk]),
      remadeAll_congr rest fun k hk => h k (by simp [hk])]

end

mutual

/-- A segment without anchors inside is left as it is. -/
theorem remade_of_none (s : Segment) (h : ∀ k ∈ idsAll s.children, plan.lookup k = none) :
    plan.remade s = s := by
  match s with
  | .mk i cs => rw [remade, remadeAll_of_none cs h]

theorem remadeAll_of_none (ss : List Segment) (h : ∀ k ∈ idsAll ss, plan.lookup k = none) :
    plan.remadeAll ss = ss := by
  match ss with
  | [] => rw [remadeAll]
  | s :: rest =>
    rw [idsAll, ids_eq] at h
    have none : plan.lookup (plan.remade s).id = none := by
      rw [id_remade]
      exact h s.id (by simp)
    rw [remadeAll, spotOf_of_none none, remade_of_none s fun k hk => h k (by simp [hk]),
      remadeAll_of_none rest fun k hk => h k (by simp [hk])]
    rfl

end

theorem map_unplaced_spotOf (s : Segment) :
    (plan.spotOf s).map unplaced = (plan.spotOf s.unplaced).map unplaced := by
  unfold spotOf
  rw [id_unplaced]
  cases plan.lookup s.id with
  | none => simp [unplaced_unplaced]
  | some g =>
    simp only [FixGroup.spot, List.map_append]
    split <;> simp [unplaced_unplaced]

/-- Segments that differ in their positions only leave such segments. -/
theorem spotOf_of_unplaced {s u : Segment} (h : s.unplaced = u.unplaced) :
    (plan.spotOf s).map unplaced = (plan.spotOf u).map unplaced := by
  rw [map_unplaced_spotOf, h, ← map_unplaced_spotOf]

mutual

theorem unplaced_remade (s : Segment) :
    (plan.remade s.unplaced).unplaced = (plan.remade s).unplaced := by
  match s with
  | .mk i cs =>
    rw [unplaced, remade, remade, unplaced, unplaced, unplacedAll_remadeAll cs]

theorem unplacedAll_remadeAll (ss : List Segment) :
    unplacedAll (plan.remadeAll (unplacedAll ss)) = unplacedAll (plan.remadeAll ss) := by
  match ss with
  | [] => rw [unplacedAll]
  | s :: rest =>
    have ih := unplacedAll_remadeAll rest
    simp only [unplacedAll_eq_map] at ih ⊢
    rw [List.map_cons, remadeAll, remadeAll, List.map_append, List.map_append, ih,
      spotOf_of_unplaced (unplaced_remade s)]

end

/-- A tree that is remade is tight or not wherever it stands. -/
theorem tight_remade_unplaced {s : Segment} :
    Tight (plan.remade s.unplaced) ↔ Tight (plan.remade s) := by
  rw [← tight_unplaced_iff, unplaced_remade, tight_unplaced_iff]

/-- Rows that differ in their positions only are remade into such rows. -/
theorem alike_map_remade {ss us : List Segment} (h : Alike ss us) :
    Alike (ss.map plan.remade) (us.map plan.remade) := by
  have erase (vs : List Segment) :
      (vs.map unplaced).map (fun t => (plan.remade t).unplaced) =
        (vs.map plan.remade).map unplaced := by
    rw [List.map_map, List.map_map]
    exact List.map_congr_left fun t _ => unplaced_remade t
  unfold Alike
  rw [← erase, ← erase, h]

/-- What a plan leaves of a segment, once it is remade, is what it leaves of the segment that was
remade before. -/
theorem map_remade_spotOf (h : plan.IsExact) (s : Segment) :
    (plan.spotOf s).map plan.remade = plan.spotOf (plan.remade s) := by
  unfold spotOf
  rw [id_remade]
  cases hg : plan.lookup s.id with
  | none => rfl
  | some g =>
    have new (ss : List Segment) (hss : ∀ t ∈ ss, t ∈ plan.new) : ss.map plan.remade = ss :=
      (List.map_congr_left fun t ht => remade_of_none t (h.fresh_inside (hss t ht))).trans
        (List.map_id' ss)
    show (g.spot s).map plan.remade = g.spot (plan.remade s)
    rw [FixGroup.spot, FixGroup.spot, List.map_append, List.map_append,
      new g.front fun t ht => mem_new hg (.inl ht),
      new g.back fun t ht => mem_new hg (.inr (.inr ht))]
    split
    · rfl
    · rw [new g.instead fun t ht => mem_new hg (.inr (.inl ht))]

/-- What a plan leaves of siblings, remade with the rest of the plan. -/
theorem map_remade_spots (h : plan.IsExact) {ss : List Segment}
    (hspare : plan.SparesEach ss) (hnodup : (plan.anchorsIn (idsAll ss)).Nodup) :
    (ss.flatMap plan.spotOf).map (plan.without (ss.map (·.id))).remade = plan.remadeAll ss := by
  have distinct := anchorsIn_siblings_nodup h hspare hnodup
  have whole : (ss.flatMap plan.spotOf).map (plan.without (ss.map (·.id))).remade =
      (ss.flatMap plan.spotOf).map plan.remade := by
    refine List.map_congr_left fun t ht => remade_congr t fun k hk => ?_
    exact lookup_without_of_nodup distinct (List.mem_flatMap.2 ⟨t, ht, hk⟩)
  rw [whole, List.map_flatMap, remadeAll_eq_flatMap]
  exact List.flatMap_congr fun s _ => map_remade_spotOf h s

mutual

/-- The tokens of a tree that is remade are those that the plan asks for. -/
theorem words_remade (s : Segment) (hs : s.isTree = true) :
    words [plan.remade s] = plan.edited s := by
  match s with
  | .mk i cs =>
    have tree := isTree_iff.1 hs
    rw [remade, edited]
    split
    · next hleaf =>
      obtain rfl : cs = [] := tree.1 hleaf
      rw [remadeAll]
    · next hleaf =>
      rw [words_of_not_isLeaf (by simpa [isLeaf, kind, info] using hleaf)]
      exact words_remadeAll cs tree.2

theorem words_remadeAll (ss : List Segment) (hss : ∀ s ∈ ss, s.isTree = true) :
    words (plan.remadeAll ss) = plan.editedAll ss := by
  match ss with
  | [] => rw [remadeAll, editedAll, words_nil]
  | s :: rest =>
    obtain ⟨hs, hrest⟩ := List.forall_mem_cons.1 hss
    have own := words_remade s hs
    rw [remadeAll, editedAll, words_append, words_remadeAll rest hrest, spotOf, id_remade]
    cases hg : plan.lookup s.id with
    | none =>
      dsimp only
      rw [own]
    | some g =>
      dsimp only
      rw [FixGroup.spot, FixGroup.leave, words_append, words_append]
      split
      · rw [own]
      · rfl

end

end FixPlan

end QueryLint
