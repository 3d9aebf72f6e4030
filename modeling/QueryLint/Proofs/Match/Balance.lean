import Mathlib.Algebra.BigOperators.Group.List.Basic
import QueryLint.Proofs.Match.Apply
import QueryLint.Proofs.Match.Steady

/-!
QueryLint.Proofs.Match.Balance — the markers in the segments of a match.

What a match puts between its tokens is sorted by where it starts, and what starts at the same token
stays in order, the markers first. So the first few steps of the segments are the steps of some
tokens and those of the first few markers before the next. These are not below zero for an even
match, and what its inner matches make is balanced by itself.

Where something inside is unparsable, it is still there in the segments.

* `Match.filter_sortInlays` — sorting keeps the order of what starts at the same token.
* `Match.balanced_sortInlays` — steady markers and balanced inlays are balanced when sorted.
* `Match.meets_apply_even` — the segments of an even match are even.
-/

namespace QueryLint.Match

open Segment (HasUnparsable IsLexed isInserted nodesAll steps)

variable {n : Nat} {tokens : Array Segment}

/-! ## 1. Sorting -/

theorem filter_insertInlay (k : Nat) (x : Inlay) (ys : List Inlay) :
    (insertInlay x ys).filter (·.start = k) = (x :: ys).filter (·.start = k) := by
  induction ys with
  | nil => rfl
  | cons y ys ih =>
    unfold insertInlay
    split
    · rfl
    · next hxy =>
      -- the two start at different tokens, so one of them is dropped
      rw [List.filter_cons, ih]
      by_cases hx : x.start = k
      · rw [if_neg (by simp; omega), List.filter_cons_of_pos (by simpa using hx),
          List.filter_cons_of_pos (by simpa using hx), List.filter_cons_of_neg (by simp; omega)]
      · rw [List.filter_cons_of_neg (by simpa using hx),
          List.filter_cons_of_neg (by simpa using hx), List.filter_cons]

/-- What starts at the same token stays in order. -/
theorem filter_sortInlays (k : Nat) (xs : List Inlay) :
    (sortInlays xs).filter (·.start = k) = xs.filter (·.start = k) := by
  induction xs with
  | nil => rfl
  | cons x xs ih =>
    show (insertInlay x (sortInlays xs)).filter _ = _
    rw [filter_insertInlay, List.filter_cons, ih, List.filter_cons]

/-! ## 2. Steps of inlays -/

/-- By how much inlays change the indentation. -/
def total (n : Nat) (xs : List Inlay) : Int := (xs.map fun x => (steps n x.segments).sum).sum

@[simp] theorem total_nil : total n [] = 0 := rfl

theorem total_append (xs ys : List Inlay) : total n (xs ++ ys) = total n xs + total n ys := by
  simp [total]

theorem total_perm {xs ys : List Inlay} (h : xs.Perm ys) : total n xs = total n ys :=
  (h.map _).sum_eq

/-- Balanced inlays change nothing. -/
theorem total_of_balanced {xs : List Inlay} (h : ∀ x ∈ xs, Balanced (steps n x.segments)) :
    total n xs = 0 := by
  induction xs with
  | nil => rfl
  | cons x xs ih =>
    obtain ⟨hx, hxs⟩ := List.forall_mem_cons.1 h
    rw [total, List.map_cons, List.sum_cons, hx.sum_eq, Int.zero_add]
    exact ih hxs

/-- The sum of all steps, inlay by inlay. -/
theorem sum_flatten_steps (xs : List Inlay) :
    (xs.map fun x => steps n x.segments).flatten.sum = total n xs := by
  rw [List.sum_flatten, List.map_map]
  rfl

/-- Inlays in order that are made of markers: each starts where its marker goes, makes its step and
holds no node. -/
def MarkerInlays (n : Nat) (is : List (Nat × MarkerKind)) (xs : List Inlay) : Prop :=
  List.Forall₂ (fun i x => x.start = i.1 ∧ steps n x.segments = [i.2.indentation] ∧
    nodesAll x.segments = []) is xs

namespace MarkerInlays

variable {is : List (Nat × MarkerKind)} {xs : List Inlay}

/-- The inlays that start at some places change the indentation like the markers that go there. -/
theorem total_filter (h : MarkerInlays n is xs) (q : Nat → Bool) :
    total n (xs.filter fun x => q x.start) = change (is.filter fun i => q i.1) := by
  induction h with
  | nil => rfl
  | @cons i x is xs hx hxs ih =>
    rw [List.filter_cons, List.filter_cons, hx.1]
    split
    · rw [total, List.map_cons, List.sum_cons, hx.2.1, change_cons, ← ih]
      simp [total]
    · exact ih

theorem total_eq (h : MarkerInlays n is xs) : total n xs = change is := by
  simpa using h.total_filter fun _ => true

theorem step (h : MarkerInlays n is xs) {x : Inlay} (hx : x ∈ xs) :
    ∃ step, steps n x.segments = [step] := by
  induction h with
  | nil => cases hx
  | cons hfirst _ ih =>
    rcases List.mem_cons.1 hx with rfl | hx
    · exact ⟨_, hfirst.2.1⟩
    · exact ih hx

theorem nodesAll_eq_nil (h : MarkerInlays n is xs) {x : Inlay} (hx : x ∈ xs) :
    nodesAll x.segments = [] := by
  induction h with
  | nil => cases hx
  | cons hfirst _ ih =>
    rcases List.mem_cons.1 hx with rfl | hx
    · exact hfirst.2.2
    · exact ih hx

/-- The first few of the inlays at a place after all before it do not lower the indentation if the
markers are steady. -/
theorem nonneg (h : MarkerInlays n is xs) (hsteady : Steady is) {k : Nat} {zs : List Inlay}
    (hz : zs <+: xs.filter (·.start = k)) :
    0 ≤ total n (xs.filter (·.start < k)) + total n zs := by
  obtain ⟨l, hl, rfl⟩ := List.prefix_filter_iff.1 hz
  have firsts : MarkerInlays n (is.take l.length) (xs.take l.length) := List.forall₂_take _ h
  rw [← List.prefix_iff_eq_take.1 hl] at firsts
  rw [h.total_filter (decide <| · < k), firsts.total_filter (decide <| · = k)]
  exact hsteady k _ (List.take_prefix _ _)

end MarkerInlays

/-- Inlays up to a place are those before it and those at it. -/
theorem total_filter_of_le {xs : List Inlay} {k : Nat} (h : ∀ x ∈ xs, x.start ≤ k) :
    total n (xs.filter (·.start < k)) + total n (xs.filter (·.start = k)) = total n xs :=
  sum_map_filter_of_le _ h

/-- The first few of sorted inlays are all before a place and the first few at it. -/
theorem total_of_prefix {xs zs : List Inlay} (hsorted : Sorted xs) (hz : zs <+: xs) :
    zs = [] ∨ ∃ k, zs.filter (·.start = k) <+: xs.filter (·.start = k) ∧
      total n zs = total n (xs.filter (·.start < k)) + total n (zs.filter (·.start = k)) := by
  obtain ⟨rest, rfl⟩ := hz
  rcases List.eq_nil_or_concat zs with rfl | ⟨zs, y, rfl⟩
  · exact .inl rfl
  rw [List.concat_eq_append] at hsorted ⊢
  obtain ⟨sorted, -, after⟩ := List.pairwise_append.1 hsorted
  have upTo : ∀ x ∈ zs ++ [y], x.start ≤ y.start := by
    intro x hx
    rcases List.mem_append.1 hx with hx | hx
    · exact (List.pairwise_append.1 sorted).2.2 x hx y (by simp)
    · obtain rfl := List.mem_singleton.1 hx
      exact Nat.le_refl _
  have behind : rest.filter (·.start < y.start) = [] := by
    refine List.filter_eq_nil_iff.2 fun x hx => ?_
    have := after y (by simp) x hx
    simp only [decide_eq_true_eq]
    omega
  refine .inr ⟨y.start, (List.prefix_append _ rest).filter _, ?_⟩
  rw [List.filter_append (zs ++ [y]) rest, behind, List.append_nil, total_filter_of_le upTo]

/-- Steady markers that come back to where they began, and balanced inlays, are balanced when they
are sorted. -/
theorem balanced_sortInlays {is : List (Nat × MarkerKind)} {markers inner : List Inlay}
    (hmarkers : MarkerInlays n is markers) (hsteady : Steady is) (hzero : change is = 0)
    (hinner : ∀ x ∈ inner, Balanced (steps n x.segments)) :
    Balanced ((sortInlays (markers ++ inner)).map fun x => steps n x.segments).flatten := by
  have perm := perm_sortInlays (markers ++ inner)
  refine .flatten ?_ ?_ ?_
  · intro l hl
    obtain ⟨x, hx, rfl⟩ := List.mem_map.1 hl
    rcases List.mem_append.1 (perm.mem_iff.1 hx) with hx | hx
    · exact .inr (hmarkers.step hx)
    · exact .inl (hinner x hx)
  · rw [sum_flatten_steps, total_perm perm, total_append, hmarkers.total_eq, hzero,
      total_of_balanced hinner, Int.add_zero]
  · intro ps hps
    obtain ⟨zs, hz, rfl⟩ := List.prefix_map_iff.1 hps
    rw [sum_flatten_steps]
    rcases total_of_prefix (n := n) (sorted_sortInlays _) hz with rfl | ⟨k, hk, heq⟩
    · exact Int.le_refl 0
    have before : total n ((sortInlays (markers ++ inner)).filter (·.start < k)) =
        total n (markers.filter (·.start < k)) := by
      rw [total_perm (perm.filter _), List.filter_append, total_append,
        total_of_balanced fun x hx => hinner x (List.mem_filter.1 hx).1, Int.add_zero]
    rw [filter_sortInlays, List.filter_append] at hk
    rw [heq, before]
    rcases prefix_append_cases hk with hk | ⟨zs', hz', hk⟩
    · exact hmarkers.nonneg hsteady hk
    · have here := hmarkers.nonneg hsteady (k := k) List.prefix_rfl
      have between : total n zs' = 0 :=
        total_of_balanced fun x hx => hinner x (List.mem_filter.1 (hz'.subset hx)).1
      rw [hk, total_append, between, Int.add_zero]
      exact here

/-! ## 3. Laying out -/

theorem steps_layOut (hlex : IsLexed n tokens.toList) (stop i : Nat) (xs : List Inlay) :
    steps n (layOut tokens stop i xs) = (xs.map fun x => steps n x.segments).flatten := by
  have none (a b : Nat) : steps n (tokensIn tokens a b) = [] :=
    (hlex.sublist (tokensIn_sublist a b)).steps_eq
  induction xs generalizing i with
  | nil => exact none i stop
  | cons x xs ih =>
    rw [layOut, Segment.steps_append, Segment.steps_append, none, List.nil_append, ih]
    rfl

theorem nodesAll_layOut (hlex : IsLexed n tokens.toList) (stop i : Nat) (xs : List Inlay) :
    nodesAll (layOut tokens stop i xs) = (xs.map fun x => nodesAll x.segments).flatten := by
  have none (a b : Nat) : nodesAll (tokensIn tokens a b) = [] :=
    Segment.nodesAll_of_isLeaf (hlex.sublist (tokensIn_sublist a b)).isLeaf
  induction xs generalizing i with
  | nil => exact none i stop
  | cons x xs ih =>
    rw [layOut, Segment.nodesAll_append, Segment.nodesAll_append, none, List.nil_append, ih]
    rfl

/-- What is unparsable in an inlay is in the tokens that it is laid out among. -/
theorem hasUnparsable_layOut (hlex : IsLexed n tokens.toList) (stop i : Nat) {x : Inlay}
    {xs : List Inlay} (hx : x ∈ xs) (h : HasUnparsable x.segments) :
    HasUnparsable (layOut tokens stop i xs) := by
  refine h.mono fun y hy => ?_
  rw [nodesAll_layOut hlex, List.mem_flatten]
  exact ⟨_, List.mem_map_of_mem hx, hy⟩

/-- Tokens with steady markers and even inlays among them are even. -/
theorem even_layOut (hlex : IsLexed n tokens.toList) (stop i : Nat)
    {is : List (Nat × MarkerKind)} {markers inner : List Inlay}
    (hmarkers : MarkerInlays n is markers) (hsteady : Steady is) (hzero : change is = 0)
    (hinner : ∀ x ∈ inner, Segment.Even n x.segments) :
    Segment.Even n (layOut tokens stop i (sortInlays (markers ++ inner))) := by
  by_cases hun : ∃ x ∈ inner, HasUnparsable x.segments
  · obtain ⟨x, hx, hun⟩ := hun
    have mem := (perm_sortInlays (markers ++ inner)).mem_iff.2 (List.mem_append_right _ hx)
    exact .inl (hasUnparsable_layOut hlex stop i mem hun)
  have even (x : Inlay) (hx : x ∈ inner) := (hinner x hx).resolve_left fun h => hun ⟨x, hx, h⟩
  refine .inr ⟨?_, fun y hy => ?_⟩
  · rw [steps_layOut hlex]
    exact balanced_sortInlays hmarkers hsteady hzero fun x hx => (even x hx).1
  · rw [nodesAll_layOut hlex, List.mem_flatten] at hy
    obtain ⟨ys, hys, hy⟩ := hy
    obtain ⟨x, hx, rfl⟩ := List.mem_map.1 hys
    rcases List.mem_append.1 ((perm_sortInlays (markers ++ inner)).mem_iff.1 hx) with hx | hx
    · rw [hmarkers.nodesAll_eq_nil hx] at hy
      cases hy
    · exact (even x hx).2 y hy

/-! ## 4. Segments of a match -/

/-- A marker that is made is one step. -/
theorem meets_marker_steps (k : MarkerKind) :
    Meets (n ≤ ·) (Segment.marker k none) fun s =>
      steps n [s] = [k.indentation] ∧ s.nodes = [] := by
  refine ((Segment.meets_marker_isInserted k none).and (Q := fun s => s.isLeaf = true ∧
    isInserted n s = true) (R := fun s => s.indentation = k.indentation)
      (Segment.meets_freshId.bind fun id _ => .pure rfl)).mono fun s hs => ⟨?_, ?_⟩
  · simp [steps, Segment.leaves_of_isLeaf hs.1.1, hs.1.2, hs.2]
  · exact Segment.nodes_of_isLeaf hs.1.1

theorem meets_newMarkers_steps (is : List (Nat × MarkerKind)) :
    Meets (n ≤ ·) (newMarkers is) fun ss =>
      steps n ss = is.map (·.2.indentation) ∧ nodesAll ss = [] := by
  induction is with
  | nil => exact .pure ⟨by simp, by simp⟩
  | cons i is ih =>
    refine (meets_marker_steps i.2).bind fun s hs => ih.bind fun ss hss => .pure ⟨?_, ?_⟩
    · rw [show s :: ss = [s] ++ ss from rfl, Segment.steps_append, hs.1, hss.1]
      rfl
    · rw [Segment.nodesAll_cons, hs.2, hss.2, List.append_nil]

theorem meets_markerInlays_steps (is : List (Nat × MarkerKind)) :
    Meets (n ≤ ·) (markerInlays is) (MarkerInlays n is) := by
  induction is with
  | nil => exact .pure .nil
  | cons i is ih =>
    refine (meets_marker_steps i.2).bind fun s hs => ih.bind fun xs hxs =>
      .pure (.cons ⟨rfl, hs.1, ?_⟩ hxs)
    simpa using hs.2

/-- Of two lists that are related one by one, whatever is in one is related to something in the
other. -/
theorem exists_of_forall₂ {α β : Type} {R : α → β → Prop} {xs : List α} {ys : List β}
    (h : List.Forall₂ R xs ys) :
    (∀ x ∈ xs, ∃ y ∈ ys, R x y) ∧ ∀ y ∈ ys, ∃ x ∈ xs, R x y := by
  induction h with
  | nil => simp
  | @cons x y xs ys hxy _ ih =>
    simp only [List.mem_cons, forall_eq_or_imp, exists_eq_or_imp]
    exact ⟨⟨.inl hxy, fun x hx => .inr (ih.1 x hx)⟩, .inl hxy, fun y hy => .inr (ih.2 y hy)⟩

/-- The inlays of inner matches are in the order of these, each as is promised of its match. -/
theorem meets_applyAll_forall₂ {Q : Match → List Segment → Prop} {cs : List Match}
    (h : ∀ m ∈ cs, Meets (n ≤ ·) (m.apply tokens) (Q m)) :
    Meets (n ≤ ·) (applyAll tokens cs) fun xs =>
      List.Forall₂ (fun m x => Q m x.segments) cs xs := by
  induction cs with
  | nil =>
    rw [applyAll]
    exact .pure .nil
  | cons m cs ih =>
    obtain ⟨hm, hcs⟩ := List.forall_mem_cons.1 h
    rw [applyAll]
    exact hm.bind fun ss hss => (ih hcs).bind fun xs hxs => .pure (.cons hss hxs)

/-- Tokens of another type make the same steps, and they are no nodes before or after. -/
theorem meets_retypeTokens_steps (type : String) (normalized : Option String)
    (ss : List Segment) :
    Meets (n ≤ ·) (ss.mapM (retypeToken type normalized)) fun us =>
      steps n us = steps n ss ∧ nodesAll us = nodesAll ss := by
  induction ss with
  | nil => exact .pure ⟨rfl, rfl⟩
  | cons s ss ih =>
    rw [List.mapM_cons]
    refine (meets_retypeToken type normalized s).bind fun u hu =>
      ih.bind fun us hus => .pure ?_
    rw [show u :: us = [u] ++ us from rfl, show s :: ss = [s] ++ ss from rfl,
      Segment.steps_append, Segment.steps_append, Segment.nodesAll_append,
      Segment.nodesAll_append, hus.1, hus.2]
    rcases hu with rfl | ⟨hleaf, hmarker, hbare⟩
    · exact ⟨rfl, rfl⟩
    have leaf : u.isLeaf = true := by rw [← Segment.isLeaf_bare, hbare, Segment.isLeaf_bare, hleaf]
    have marker : u.isMarker = false := by
      rw [← Segment.isMarker_bare, hbare, Segment.isMarker_bare, hmarker]
    constructor
    · simp [steps, Segment.leaves_of_isLeaf, hleaf, leaf, isInserted, hmarker, marker]
    · simp [Segment.nodes_of_isLeaf, hleaf, leaf]

/-- What a match puts even segments into is even. -/
theorem meets_build_even {ss : List Segment} (h : Segment.Even n ss) (c : Option MatchClass) :
    Meets (n ≤ ·) (build ss c) (Segment.Even n) := by
  have node (k : SegmentKind) (type : String) (hk : k.isLeaf = false) :
      Meets (n ≤ ·) (Segment.branch k type ss) fun s => Segment.Even n [s] :=
    (Segment.meets_branch_nodeOver k type ss).mono fun s hs => hs.even hk h
  unfold build
  split
  · exact .pure h
  · exact (meets_retypeTokens_steps _ _ ss).mono fun us hus => h.of_eq hus.1 hus.2
  · split
    · exact .pure h
    · exact (node _ _ rfl).bind fun s hs => .pure hs
  · exact (node _ _ rfl).bind fun s hs => .pure hs
  · exact (node _ _ rfl).bind fun s hs => .pure hs

/-- A match makes something unparsable if it says so, and it keeps what is unparsable inside. -/
theorem meets_build_hasUnparsable {ss : List Segment} {c : Option MatchClass}
    (h : HasUnparsable ss ∨ ∃ expected, c = some (.unparsable expected)) :
    Meets (n ≤ ·) (build ss c) HasUnparsable := by
  rcases h with h | ⟨expected, rfl⟩
  · have node (k : SegmentKind) (type : String) (hk : k.isLeaf = false) :
        Meets (n ≤ ·) (Segment.branch k type ss) fun s => HasUnparsable [s] :=
      (Segment.meets_branch_nodeOver k type ss).mono fun s hs => hs.hasUnparsable hk h
    unfold build
    split
    · exact .pure h
    · refine (meets_retypeTokens_steps (n := n) _ _ ss).mono fun us hus => h.mono fun x hx => ?_
      rw [hus.2]
      exact hx
    · split
      · exact .pure h
      · exact (node _ _ rfl).bind fun s hs => .pure hs
    · exact (node _ _ rfl).bind fun s hs => .pure hs
    · exact (node _ _ rfl).bind fun s hs => .pure hs
  · exact (Segment.meets_branch_nodeOver _ _ ss).bind fun s hs => .pure hs.hasUnparsable_self

/-- Markers of a match of no token are balanced if they are steady: they all go to one place. -/
theorem Steady.balanced {is : List (Nat × MarkerKind)} (h : Steady is) (hzero : change is = 0)
    {a : Nat} (ha : MarkersInside a a is) : Balanced (is.map (·.2.indentation)) where
  sum_eq := hzero
  nonneg steps hsteps := by
    obtain ⟨l, hl, rfl⟩ := List.prefix_map_iff.1 hsteps
    have at_ (x : Nat × MarkerKind) (hx : x ∈ is) : x.1 = a := by
      have := ha x hx
      omega
    have here : l.filter (·.1 = a) = l :=
      List.filter_eq_self.2 fun x hx => by simpa using at_ x (hl.subset hx)
    have before : is.filter (·.1 < a) = [] :=
      List.filter_eq_nil_iff.2 fun x hx => by simp [at_ x hx]
    have := h a l hl
    rw [here, before] at this
    simpa [change] using this

/-- The segments of an even match are even, and what could not be placed is unparsable in them. -/
theorem meets_apply_even (hlex : IsLexed n tokens.toList) {m : Match} (h : m.Tidy False)
    (heven : m.Even) :
    Meets (n ≤ ·) (m.apply tokens) fun ss =>
      Segment.Even n ss ∧ ((∃ k, m.holds isUnparsable k = true) → HasUnparsable ss) := by
  induction h with
  | @mk a b c is cs le inserts bounds children pairwise ih =>
    cases heven with
    | mk markers even =>
    have tidy : (Match.mk a b c is cs).Tidy False := .mk le inserts bounds children pairwise
    rw [apply]
    split
    · next hempty =>
      have nothing (h : ∃ k, (Match.mk a b c is cs).holds isUnparsable k = true) : False := by
        obtain ⟨k, hk⟩ := h
        have := tidy.bounds_of_holds hk
        simp only [start_mk, stop_mk] at this
        omega
      obtain ⟨steady, zero⟩ := markers.resolve_left nothing
      have same : b = a := by omega
      rw [same] at inserts
      refine (meets_newMarkers_steps is).mono fun ss hss =>
        ⟨.inr ⟨?_, ?_⟩, fun h => (nothing h).elim⟩
      · rw [hss.1]
        exact steady.balanced zero inserts
      · rw [hss.2]
        simp
    · refine (meets_markerInlays_steps is).bind fun ms hms =>
        (meets_applyAll_forall₂ fun m hm => ih m hm (even m hm)).bind fun xs hxs => ?_
      by_cases hheld : ∃ k, (Match.mk a b c is cs).holds isUnparsable k = true
      · refine (meets_build_hasUnparsable ?_).mono fun us hus => ⟨.inl hus, fun _ => hus⟩
        obtain ⟨k, hk⟩ := hheld
        rcases holds_iff.1 hk with ⟨-, hself⟩ | hcs
        · refine .inr ?_
          unfold isUnparsable class? at hself
          split at hself
          · exact ⟨_, by assumption⟩
          · cases hself
        · obtain ⟨m, hm, hmk⟩ := anyHolds_iff.1 hcs
          obtain ⟨x, hx, hmx⟩ := (exists_of_forall₂ hxs).1 m hm
          have mem := (perm_sortInlays (ms ++ xs)).mem_iff.2 (List.mem_append_right _ hx)
          exact .inl (hasUnparsable_layOut hlex b a mem (hmx.2 ⟨k, hmk⟩))
      · obtain ⟨steady, zero⟩ := markers.resolve_left hheld
        have inner : ∀ x ∈ xs, Segment.Even n x.segments := by
          intro x hx
          obtain ⟨m, -, hmx⟩ := (exists_of_forall₂ hxs).2 x hx
          exact hmx.1
        exact (meets_build_even (even_layOut hlex b a hms steady zero inner) c).mono fun us hus =>
          ⟨hus, fun h => (hheld h).elim⟩

end QueryLint.Match
