import QueryLint.Proofs.Parse
import QueryLint.Proofs.Parse.Drawn
import QueryLint.Proofs.Parse.Renamed

/-!
QueryLint.Proofs.Match.Appended — the segments of a match with the one after it.

Putting two matches together dissolves those that are put into nothing: their markers and inner
matches become markers and inner matches of the whole. When segments are made of it, all markers
come first, then all inner matches, and what starts at the same token stays in order. So the markers
of the second match are made before what is in the first, and still stand behind it, because what
is in the first match starts before the first ends.

What is left of the difference are the identities: those of the second match's markers and those of
the first one's inner matches are drawn in the other order. A renaming trades the two blocks.

* `Renaming.trade` — two blocks of identities change places.
* `Match.sortInlays_append`, `Match.sortInlays_swap` — sorting inlays of two matches.
* `Match.layOut_append` — laying them out.
* `Match.IsNeat` — what a match has inside keeps within its ends.
* `Match.apply_append` — the segments of a match with the one after it.
-/

namespace QueryLint

open Segment

/-! ## 1. Two blocks of identities change places -/

namespace Renaming

/-- The `k` identities from `m` on change places with the `l` identities behind them. -/
def trade (m k l : Nat) : Renaming where
  image i := if i < m then i else if i < m + k then i + l else if i < m + k + l then i - k else i
  start := m + k + l
  injective := by
    intro i j h
    grind
  next := by
    intro n hn
    rw [if_neg (by omega), if_neg (by omega), if_neg (by omega), if_neg (by omega),
      if_neg (by omega), if_neg (by omega)]

variable {m k l i : Nat}

theorem trade_of_lt (h : i < m) : (trade m k l).image i = i := if_pos h

theorem trade_of_le (h : m + k + l ≤ i) : (trade m k l).image i = i := by
  show ite _ _ _ = _
  rw [if_neg (by omega), if_neg (by omega), if_neg (by omega)]

/-- The first block is taken behind the second, as if the second had been drawn before. -/
theorem trade_first (h : i < m + k) : (trade m k l).image i = (later m l).image i := by
  show ite _ _ _ = ite _ _ _
  by_cases hi : i < m
  · rw [if_pos hi, if_pos hi]
  · rw [if_neg hi, if_neg hi, if_pos h]

/-- The second block is taken back to where it is drawn first. -/
theorem trade_second (h : i < m + l) : (trade m k l).image ((later m k).image i) = i := by
  by_cases hi : i < m
  · rw [later_of_lt hi, trade_of_lt hi]
  · rw [later_of_le (by omega)]
    show ite _ _ _ = _
    rw [if_neg (by omega), if_neg (by omega), if_pos (by omega), Nat.add_sub_cancel]

end Renaming

namespace Segment

variable {ρ σ τ : Renaming} {n : Nat}

mutual

/-- Renaming twice is renaming once, as far as identities that have been drawn are concerned. -/
theorem renamed_renamed (h : ∀ i < n, ρ.image (σ.image i) = τ.image i) (s : Segment)
    (hs : s.DrawnBefore n) : (s.renamed σ).renamed ρ = s.renamed τ := by
  match s with
  | mk i cs =>
    rw [renamed, renamed, renamed, renamedAll_renamedAll h cs hs.inside]
    dsimp only
    rw [h i.id hs.own]

theorem renamedAll_renamedAll (h : ∀ i < n, ρ.image (σ.image i) = τ.image i) (ss : List Segment)
    (hss : ∀ s ∈ ss, s.DrawnBefore n) : renamedAll ρ (renamedAll σ ss) = renamedAll τ ss := by
  match ss with
  | [] => rfl
  | s :: rest =>
    obtain ⟨hs, hrest⟩ := List.forall_mem_cons.1 hss
    rw [renamedAll, renamedAll, renamedAll, renamed_renamed h s hs,
      renamedAll_renamedAll h rest hrest]

end

/-- Identities that a renaming leaves make no difference. -/
theorem renamed_of_fixed (h : ∀ i < n, ρ.image i = i) {s : Segment} (hs : s.DrawnBefore n) :
    s.renamed ρ = s := by
  have twice := renamed_renamed (σ := .later n 0) (τ := .later n 0) (ρ := ρ)
    (fun i hi => by rw [Renaming.later_of_lt hi, h i hi]) s hs
  rwa [renamed_later 0 s hs] at twice

end Segment

namespace Match

variable {tokens : Array Segment} {n m : Nat}

namespace Inlay

variable {ρ σ : Renaming} {x : Inlay}

/-- Renamings that agree on what has been drawn make the same of an inlay. -/
theorem renamed_congr (h : ∀ i < n, ρ.image i = σ.image i) (hx : x.DrawnBefore n) :
    x.renamed ρ = x.renamed σ := by
  have same : x.segments.map (Segment.renamed ρ) = x.segments.map (Segment.renamed σ) :=
    List.map_congr_left fun s hs => by
      have once := renamed_renamed (σ := .later n 0) (ρ := ρ) (τ := σ)
        (fun i hi => by rw [Renaming.later_of_lt hi, h i hi]) s (hx s hs)
      rwa [renamed_later 0 s (hx s hs)] at once
  rw [renamed, renamed, same]

theorem renamed_of_fixed (h : ∀ i < n, ρ.image i = i) (hx : x.DrawnBefore n) :
    x.renamed ρ = x := by
  have same : x.segments.map (Segment.renamed ρ) = x.segments :=
    (List.map_congr_left fun s hs => Segment.renamed_of_fixed h (hx s hs)).trans (List.map_id _)
  rw [renamed, same]

theorem renamed_back (h : ∀ i < n, ρ.image (σ.image i) = i) (hx : x.DrawnBefore n) :
    (x.renamed σ).renamed ρ = x := by
  have same : (x.segments.map (Segment.renamed σ)).map (Segment.renamed ρ) = x.segments := by
    rw [List.map_map]
    refine (List.map_congr_left fun s hs => ?_).trans (List.map_id _)
    have once := renamed_renamed (τ := .later n 0) (ρ := ρ) (σ := σ)
      (fun i hi => by rw [Renaming.later_of_lt hi, h i hi]) s (hx s hs)
    rwa [renamed_later 0 s (hx s hs)] at once
  cases x
  simp only [renamed] at same ⊢
  rw [same]

end Inlay

/-- A computation of inlays that does the same further on, but for the identities that it draws. -/
structure Inlays (n : Nat) (x : Fresh (List Inlay)) : Prop where
  carries : ∀ m, n ≤ m → ∀ d,
    (Renaming.later m d).Carries (List.map (Inlay.renamed (.later m d))) x x
  draws : Draws n (fun m xs => ∀ x ∈ xs, x.DrawnBefore m) x

/-- Where two computations of inlays change places, their identities do. -/
theorem Inlays.trade {x y : Fresh (List Inlay)} (hx : Inlays n x) (hy : Inlays n y)
    (hm : n ≤ m) : ∃ k l xs xs' ys ys', x.run m = (xs, m + k) ∧ y.run (m + k) = (ys, m + k + l) ∧
      y.run m = (ys', m + l) ∧ x.run (m + l) = (xs', m + k + l) ∧
      xs' = xs.map (Inlay.renamed (.trade m k l)) ∧ ys' = ys.map (Inlay.renamed (.trade m k l)) := by
  obtain ⟨hxm, hxs⟩ := hx.draws m hm
  obtain ⟨hym, hys⟩ := hy.draws m hm
  obtain ⟨k, hk⟩ := Nat.exists_eq_add_of_le hxm
  obtain ⟨l, hl⟩ := Nat.exists_eq_add_of_le hym
  rw [hk] at hxs
  rw [hl] at hys
  have xLater := (hx.carries m hm l m (Nat.le_refl m)).2
  have yLater := (hy.carries m hm k m (Nat.le_refl m)).2
  rw [Renaming.later_of_le (Nat.le_refl m), hk, Renaming.later_of_le (by omega)] at xLater
  rw [Renaming.later_of_le (Nat.le_refl m), hl, Renaming.later_of_le (by omega),
    Nat.add_right_comm] at yLater
  refine ⟨k, l, _, _, _, _, Prod.ext rfl hk, yLater, Prod.ext rfl hl, xLater, ?_, ?_⟩
  · exact List.map_congr_left fun z hz =>
      (Inlay.renamed_congr (fun i hi => Renaming.trade_first hi) (hxs z hz)).symm
  · rw [List.map_map]
    refine ((List.map_congr_left fun z hz => ?_).trans (List.map_id _)).symm
    exact Inlay.renamed_back (fun i hi => Renaming.trade_second hi) (hys z hz)

/-! ## 2. Sorting -/

theorem insertInlay_append (x : Inlay) (ys : List Inlay) {zs : List Inlay}
    (h : ∀ z ∈ zs, x.start ≤ z.start) : insertInlay x (ys ++ zs) = insertInlay x ys ++ zs := by
  induction ys with
  | nil =>
    cases zs with
    | nil => rfl
    | cons z zs => exact if_pos (h z (List.mem_cons_self ..))
  | cons y ys ih =>
    rw [List.cons_append, insertInlay, insertInlay, ih]
    split <;> rfl

/-- Inlays that start before others are sorted by themselves. -/
theorem sortInlays_append (xs : List Inlay) {ys : List Inlay}
    (h : ∀ x ∈ xs, ∀ y ∈ ys, x.start ≤ y.start) :
    sortInlays (xs ++ ys) = sortInlays xs ++ sortInlays ys := by
  induction xs with
  | nil => rfl
  | cons x xs ih =>
    obtain ⟨hx, hxs⟩ := List.forall_mem_cons.1 h
    show insertInlay x (sortInlays (xs ++ ys)) = insertInlay x (sortInlays xs) ++ sortInlays ys
    rw [ih hxs, insertInlay_append]
    exact fun y hy => hx y ((perm_sortInlays ys).mem_iff.1 hy)

/-- Of two inlays that start at different tokens either can be put into a list first. -/
theorem insertInlay_comm {x y : Inlay} (h : y.start < x.start) (zs : List Inlay) :
    insertInlay x (insertInlay y zs) = insertInlay y (insertInlay x zs) := by
  induction zs with
  | nil => simp [insertInlay, Nat.not_le.2 h, Nat.le_of_lt h]
  | cons z zs ih =>
    by_cases hy : y.start ≤ z.start <;> by_cases hx : x.start ≤ z.start <;>
      simp [insertInlay, hx, hy, Nat.not_le.2 h, Nat.le_of_lt h, ih]
    omega

/-- It does not matter which come first in a list of inlays of which some start before others. -/
theorem sortInlays_swap {xs ys : List Inlay} (h : ∀ x ∈ xs, ∀ y ∈ ys, y.start < x.start)
    (zs : List Inlay) : sortInlays (xs ++ (ys ++ zs)) = sortInlays (ys ++ (xs ++ zs)) := by
  have past {x : Inlay} {ys : List Inlay} (hx : ∀ y ∈ ys, y.start < x.start) (us : List Inlay) :
      insertInlay x (ys.foldr insertInlay us) = ys.foldr insertInlay (insertInlay x us) := by
    induction ys with
    | nil => rfl
    | cons y ys ih =>
      obtain ⟨hy, hys⟩ := List.forall_mem_cons.1 hx
      rw [List.foldr_cons, List.foldr_cons, ← ih hys, insertInlay_comm hy]
  simp only [sortInlays, List.foldr_append]
  induction xs with
  | nil => rfl
  | cons x xs ih =>
    obtain ⟨hx, hxs⟩ := List.forall_mem_cons.1 h
    rw [List.foldr_cons, ih hxs, past hx, List.foldr_cons]

/-! ## 3. Laying out -/

variable {a b c d i : Nat}

/-- The tokens before the first inlay can be laid out by themselves. -/
theorem layOut_from {ys : List Inlay} (hic : i ≤ c) (hcd : c ≤ d) (h : ∀ y ∈ ys, c ≤ y.start) :
    layOut tokens d i ys = tokensIn tokens i c ++ layOut tokens d c ys := by
  cases ys with
  | nil => exact (tokensIn_append hic hcd).symm
  | cons y ys =>
    have hy := h y (List.mem_cons_self ..)
    rw [layOut, layOut, ← tokensIn_append hic hy, Nat.max_eq_right (Nat.le_trans hic hy),
      Nat.max_eq_right hy]
    simp only [List.append_assoc]

/-- Inlays that end before others start are laid out by themselves, and so are those behind. -/
theorem layOut_append {xs ys : List Inlay} (hib : i ≤ b) (hbc : b ≤ c) (hcd : c ≤ d)
    (hxs : ∀ x ∈ xs, x.start ≤ b ∧ x.stop ≤ b) (hys : ∀ y ∈ ys, c ≤ y.start) :
    layOut tokens d i (xs ++ ys) =
      layOut tokens b i xs ++ tokensIn tokens b c ++ layOut tokens d c ys := by
  induction xs generalizing i with
  | nil =>
    rw [List.nil_append, layOut, tokensIn_append hib hbc]
    exact layOut_from (Nat.le_trans hib hbc) hcd hys
  | cons x xs ih =>
    obtain ⟨⟨hstart, hstop⟩, hrest⟩ := List.forall_mem_cons.1 hxs
    rw [List.cons_append, layOut, layOut, ih (by omega) hrest]
    simp only [List.append_assoc]

/-! ## 4. Neat matches -/

/-- What a match has inside keeps within its ends. Inner matches take tokens, and so does a match
that is put into something. -/
structure IsNeat (m : Match) : Prop where
  le : m.start ≤ m.stop
  solid : m.class?.isSome = true → m.start < m.stop
  markers : MarkersInside m.start m.stop m.inserts
  children : ∀ x ∈ m.children, m.start ≤ x.start ∧ x.start < x.stop ∧ x.stop ≤ m.stop

theorem newMarkers_eq (is : List (Nat × MarkerKind)) :
    newMarkers is = (do return (← markerInlays is).flatMap (·.segments)) := by
  induction is with
  | nil => rfl
  | cons i is ih =>
    rw [newMarkers, markerInlays, ih]
    simp

theorem markerInlays_append (is js : List (Nat × MarkerKind)) :
    markerInlays (is ++ js) = (do return (← markerInlays is) ++ (← markerInlays js)) := by
  induction is with
  | nil => simp [markerInlays]
  | cons i is ih =>
    rw [List.cons_append, markerInlays, markerInlays, ih]
    simp

theorem applyAll_append (xs ys : List Match) : applyAll tokens (xs ++ ys) =
    (do return (← applyAll tokens xs) ++ (← applyAll tokens ys)) := by
  induction xs with
  | nil => simp [applyAll]
  | cons x xs ih =>
    rw [List.cons_append, applyAll, applyAll, ih]
    simp

/-- Inlays of markers take no token, and stand where their markers do. -/
theorem inlays_markerInlays (is : List (Nat × MarkerKind)) (n : Nat) :
    ∀ x ∈ ((markerInlays is).run n).1, x.stop = x.start ∧ ∃ i ∈ is, x.start = i.1 := by
  induction is generalizing n with
  | nil => exact nofun
  | cons i is ih =>
    intro x hx
    rcases List.mem_cons.1 hx with rfl | hx
    · exact ⟨rfl, i, List.mem_cons_self .., rfl⟩
    · obtain ⟨hstop, j, hj, hstart⟩ := ih _ x hx
      exact ⟨hstop, j, List.mem_cons_of_mem i hj, hstart⟩

/-- Inlays of matches stand where their matches do. -/
theorem inlays_applyAll (ms : List Match) (n : Nat) :
    ∀ x ∈ ((applyAll tokens ms).run n).1, ∃ m ∈ ms, x.start = m.start ∧ x.stop = m.stop := by
  induction ms generalizing n with
  | nil =>
    rw [applyAll]
    exact nofun
  | cons m ms ih =>
    rw [applyAll]
    intro x hx
    rcases List.mem_cons.1 hx with rfl | hx
    · exact ⟨m, List.mem_cons_self .., rfl, rfl⟩
    · obtain ⟨m', hm', hx⟩ := ih _ x hx
      exact ⟨m', List.mem_cons_of_mem m hm', hx⟩

/-- Markers at one place are laid out as they come. -/
theorem layOut_sortInlays_point {xs : List Inlay} (h : ∀ x ∈ xs, x.start = a ∧ x.stop = a) :
    layOut tokens a a (sortInlays xs) = xs.flatMap (·.segments) := by
  have sorted : sortInlays xs = xs := by
    induction xs with
    | nil => rfl
    | cons x xs ih =>
      obtain ⟨⟨hx, -⟩, hxs⟩ := List.forall_mem_cons.1 h
      show insertInlay x (sortInlays xs) = x :: xs
      rw [ih hxs]
      exact insertInlay_append x [] fun y hy => Nat.le_of_eq (hx.trans (hxs y hy).1.symm)
  rw [sorted]
  clear sorted
  induction xs with
  | nil => exact tokensIn_of_le (Nat.le_refl a)
  | cons x xs ih =>
    obtain ⟨⟨hstart, hstop⟩, hxs⟩ := List.forall_mem_cons.1 h
    rw [layOut, hstart, hstop, Nat.max_self, Nat.max_self, ih hxs,
      tokensIn_of_le (Nat.le_refl a), List.nil_append, List.flatMap_cons]

/-- The segments of a match, as the match after which or before which it is put sees them. -/
def outerSegments (tokens : Array Segment) (m : Match) : Fresh (List Segment) := do
  let markers ← markerInlays m.outerInserts
  let inner ← applyAll tokens m.outerChildren
  return layOut tokens m.stop m.start (sortInlays (markers ++ inner))

theorem IsNeat.apply_eq {x : Match} (h : x.IsNeat) : x.apply tokens = x.outerSegments tokens := by
  obtain ⟨a, b, k, is, cs⟩ := x
  obtain ⟨le, solid, markers, children⟩ := h
  simp only [start, stop, class?, inserts, Match.children] at le solid markers children
  cases k with
  | some k =>
    have hlt := solid rfl
    show _ = (do
      let inner ← applyAll tokens [Match.mk a b (some k) is cs]
      return layOut tokens b a (sortInlays ([] ++ inner)))
    rw [applyAll, applyAll]
    simp [sortInlays, insertInlay, layOut, start, stop, tokensIn_of_le, Nat.max_eq_right le]
  | none =>
    rw [apply]
    split
    · next hle =>
      have none : cs = [] := by
        refine List.eq_nil_iff_forall_not_mem.2 fun c hc => ?_
        have := children c hc
        omega
      obtain rfl : a = b := Nat.le_antisymm le hle
      subst none
      rw [newMarkers_eq]
      funext n
      have points := inlays_markerInlays is n
      generalize hrun : (markerInlays is).run n = r at points
      have here : ∀ x ∈ r.1, x.start = a ∧ x.stop = a := by
        intro x hx
        obtain ⟨hstop, i, hi, hstart⟩ := points x hx
        have := markers i hi
        omega
      have whole : (outerSegments tokens (Match.mk a a Option.none is [])).run n =
          (layOut tokens a a (sortInlays (r.1 ++ [])), r.2) := by
        rw [← hrun]
        rfl
      rw [List.append_nil, layOut_sortInlays_point here, ← hrun] at whole
      exact whole.symm
    · rfl

namespace IsNeat

variable {x y : Match}

/-- What a match adds to one that it becomes part of keeps within its ends too. -/
theorem outer (h : x.IsNeat) : MarkersInside x.start x.stop x.outerInserts ∧
    ∀ z ∈ x.outerChildren, x.start ≤ z.start ∧ z.start < z.stop ∧ z.stop ≤ x.stop := by
  unfold outerInserts outerChildren
  split
  · next hclass =>
    refine ⟨.nil _ _, fun z hz => ?_⟩
    rw [List.mem_singleton.1 hz]
    exact ⟨Nat.le_refl _, h.solid hclass, Nat.le_refl _⟩
  · exact ⟨h.markers, h.children⟩

theorem append (hx : x.IsNeat) (hy : y.IsNeat) (mx : x.isMatch = true) (my : y.isMatch = true)
    (hxy : x.stop ≤ y.start) : (x.append y).IsNeat := by
  obtain ⟨xmarkers, xchildren⟩ := hx.outer
  obtain ⟨ymarkers, ychildren⟩ := hy.outer
  have xle := hx.le
  have yle := hy.le
  rw [append_of_isMatch mx my]
  refine ⟨?_, nofun, ?_, fun z hz => ?_⟩
  · show x.start ≤ y.stop
    omega
  · show MarkersInside x.start y.stop (x.outerInserts ++ y.outerInserts)
    exact (xmarkers.mono (Nat.le_refl _) (by omega)).append
      (ymarkers.mono (by omega) (Nat.le_refl _))
  · rcases List.mem_append.1 hz with hz | hz
    · have := xchildren z hz
      exact ⟨this.1, this.2.1, show z.stop ≤ y.stop by omega⟩
    · have := ychildren z hz
      exact ⟨show x.start ≤ z.start by omega, this.2⟩

/-- The inlays of the markers of a match lie within its ends. -/
theorem markers_within (h : x.IsNeat) (n : Nat) :
    ∀ z ∈ ((markerInlays x.outerInserts).run n).1,
      x.start ≤ z.start ∧ z.start ≤ x.stop ∧ z.stop ≤ x.stop := by
  intro z hz
  obtain ⟨hstop, i, hi, hstart⟩ := inlays_markerInlays _ n z hz
  have := h.outer.1 i hi
  omega

/-- The inlays of the matches in a match lie within its ends, and start before it ends. -/
theorem inner_within (h : x.IsNeat) (n : Nat) :
    ∀ z ∈ ((applyAll tokens x.outerChildren).run n).1,
      x.start ≤ z.start ∧ z.start < x.stop ∧ z.stop ≤ x.stop := by
  intro z hz
  obtain ⟨m, hm, hstart, hstop⟩ := inlays_applyAll _ n z hz
  have := h.outer.2 m hm
  omega

end IsNeat

/-! ## 5. The segments of two matches -/

/-- The inlays of two matches are laid out one match after the other, although all markers come
before all inner matches. -/
theorem layOut_joined {xm xi ym yi : List Inlay} (hab : a ≤ b) (hbc : b ≤ c) (hcd : c ≤ d)
    (hxm : ∀ x ∈ xm, x.start ≤ b ∧ x.stop ≤ b) (hxi : ∀ x ∈ xi, x.start < b ∧ x.stop ≤ b)
    (hym : ∀ y ∈ ym, c ≤ y.start) (hyi : ∀ y ∈ yi, c ≤ y.start) :
    layOut tokens d a (sortInlays ((xm ++ ym) ++ (xi ++ yi))) =
      layOut tokens b a (sortInlays (xm ++ xi)) ++ tokensIn tokens b c ++
        layOut tokens d c (sortInlays (ym ++ yi)) := by
  have first : ∀ x ∈ xm ++ xi, x.start ≤ b ∧ x.stop ≤ b := by
    refine List.forall_mem_append.2 ⟨hxm, fun x hx => ?_⟩
    have := hxi x hx
    omega
  have second : ∀ y ∈ ym ++ yi, c ≤ y.start := List.forall_mem_append.2 ⟨hym, hyi⟩
  have swapped : sortInlays ((xm ++ ym) ++ (xi ++ yi)) =
      sortInlays ((xm ++ xi) ++ (ym ++ yi)) := by
    have apart (y : Inlay) (hy : y ∈ ym) (x : Inlay) (hx : x ∈ xi) : x.start < y.start := by
      have := hym y hy
      have := hxi x hx
      omega
    have swap := sortInlays_swap apart yi
    simp only [sortInlays, List.append_assoc, List.foldr_append] at swap ⊢
    rw [swap]
  rw [swapped, sortInlays_append _ fun x hx y hy => by
    have := first x hx
    have := second y hy
    omega]
  refine layOut_append hab hbc hcd (fun x hx => ?_) fun y hy => ?_
  · exact first x ((perm_sortInlays _).mem_iff.1 hx)
  · exact second y ((perm_sortInlays _).mem_iff.1 hy)

theorem map_renamed_of_fixed {ρ : Renaming} (fixed : ∀ i < n, ρ.image i = i)
    (h : ∀ t ∈ tokens, t.DrawnBefore n) : tokens.map (Segment.renamed ρ) = tokens := by
  refine Array.ext' ?_
  rw [Array.toList_map]
  refine (List.map_congr_left fun t ht => ?_).trans (List.map_id _)
  exact renamed_of_fixed fixed (h t (Array.mem_toList_iff.1 ht))

theorem inlays_of_markers (is : List (Nat × MarkerKind)) : Inlays n (markerInlays is) :=
  ⟨fun _ _ _ => carries_markerInlays is, draws_markerInlays is⟩

theorem inlays_of_matches (h : ∀ t ∈ tokens, t.DrawnBefore n) (ms : List Match) :
    Inlays n (applyAll tokens ms) := by
  refine ⟨fun m hm e => ?_, draws_applyAll h ms⟩
  have same := map_renamed_of_fixed (ρ := .later m e) (fun i hi => Renaming.later_of_lt hi)
    fun t ht => (h t ht).mono hm
  have carries := carries_applyAll (ρ := .later m e) tokens ms
  rwa [same] at carries

/-- The match of two matches one after the other makes the segments of the first, then the tokens
between the two, then the segments of the second: up to a renaming of the identities that are drawn
for them, which leaves all that were drawn before. It draws as many. Nothing need be known of the
order of the inner matches, nor of what is inside them. -/
theorem apply_append {x y : Match} (hx : x.IsNeat) (hy : y.IsNeat) (mx : x.isMatch = true)
    (my : y.isMatch = true) (hxy : x.stop ≤ y.start) (drawn : ∀ t ∈ tokens, t.DrawnBefore n) :
    ∃ ρ : Renaming, (∀ i < n, ρ.image i = i) ∧
      ((do return (← x.apply tokens) ++ tokensIn tokens x.stop y.start ++ (← y.apply tokens) :
        Fresh (List Segment)).run n) =
        ((((x.append y).apply tokens).run n).1.map (Segment.renamed ρ),
          (((x.append y).apply tokens).run n).2) := by
  -- the markers of the first match are made first on both ways
  obtain ⟨xm, m, hxm⟩ : ∃ xm m, (markerInlays x.outerInserts).run n = (xm, m) := ⟨_, _, rfl⟩
  obtain ⟨hnm, xmDrawn⟩ := draws_markerInlays x.outerInserts n (Nat.le_refl n)
  rw [hxm] at hnm xmDrawn
  obtain ⟨k, l, ym, ym', xi, xi', hym, hxi, hxi', hym', rfl, rfl⟩ :=
    (inlays_of_markers y.outerInserts).trade (inlays_of_matches drawn x.outerChildren) hnm
  obtain ⟨yi, j, hyi⟩ : ∃ yi j, (applyAll tokens y.outerChildren).run (m + k + l) = (yi, j) :=
    ⟨_, _, rfl⟩
  have fixed : ∀ i < n, (Renaming.trade m k l).image i = i :=
    fun i hi => Renaming.trade_of_lt (by omega)
  have same := map_renamed_of_fixed fixed drawn
  refine ⟨.trade m k l, fixed, ?_⟩
  -- what is drawn before the two blocks or behind them stays
  have xm_eq : xm.map (Inlay.renamed (.trade m k l)) = xm :=
    (List.map_congr_left fun z hz =>
      Inlay.renamed_of_fixed (fun i hi => Renaming.trade_of_lt hi) (xmDrawn z hz)).trans
      (List.map_id _)
  have yi_eq : yi.map (Inlay.renamed (.trade m k l)) = yi := by
    have carries := (carries_applyAll (ρ := .trade m k l) tokens y.outerChildren
      (m + k + l) (Nat.le_refl _)).2
    rw [same, Renaming.trade_of_le (Nat.le_refl _), hyi] at carries
    exact (congrArg Prod.fst carries).symm
  have joined : ((x.append y).apply tokens).run n =
      (layOut tokens y.stop x.start (sortInlays ((xm ++ ym) ++ (xi ++ yi))), j) := by
    rw [(hx.append hy mx my hxy).apply_eq, append_of_isMatch mx my]
    show ((markerInlays (x.outerInserts ++ y.outerInserts) >>= fun markers =>
      applyAll tokens (x.outerChildren ++ y.outerChildren) >>= fun inner =>
        pure (layOut tokens y.stop x.start (sortInlays (markers ++ inner)))) : Fresh _).run n = _
    rw [markerInlays_append, applyAll_append]
    simp only [bind_assoc, pure_bind]
    rw [run_bind_of_run hxm, run_bind_of_run hym, run_bind_of_run hxi, run_bind_of_run hyi]
    rfl
  have parts : ((do return (← x.apply tokens) ++ tokensIn tokens x.stop y.start ++
      (← y.apply tokens) : Fresh (List Segment)).run n) =
      (layOut tokens x.stop x.start (sortInlays (xm ++ xi.map (Inlay.renamed (.trade m k l)))) ++
        tokensIn tokens x.stop y.start ++
        layOut tokens y.stop y.start
          (sortInlays (ym.map (Inlay.renamed (.trade m k l)) ++ yi)), j) := by
    rw [hx.apply_eq, hy.apply_eq, outerSegments, outerSegments]
    simp only [bind_assoc, pure_bind]
    rw [run_bind_of_run hxm, run_bind_of_run hxi', run_bind_of_run hym', run_bind_of_run hyi]
    rfl
  have xm_within := hx.markers_within n
  have xi_within := @IsNeat.inner_within tokens x hx (m + k)
  have ym_within := hy.markers_within m
  have yi_within := @IsNeat.inner_within tokens y hy (m + k + l)
  rw [hxm] at xm_within
  rw [hxi] at xi_within
  rw [hym] at ym_within
  rw [hyi] at yi_within
  rw [joined, parts, layOut_joined hx.le hxy hy.le (fun z hz => (xm_within z hz).2)
    (fun z hz => (xi_within z hz).2) (fun z hz => (ym_within z hz).1)
    (fun z hz => (yi_within z hz).1),
    List.map_append, List.map_append, ← layOut_renamed, ← layOut_renamed,
    ← tokensIn_map_renamed, ← sortInlays_renamed, ← sortInlays_renamed, List.map_append,
    List.map_append, same, xm_eq, yi_eq]

/-- A keyword with a word and a dedent behind them. -/
def seamLeft : Match := .mk 0 2 none [(2, .dedent)] [.token 0 "keyword" none]

/-- An indent and a keyword behind it. -/
def seamRight : Match := .mk 2 3 none [(2, .indent)] [.token 2 "keyword" none]

/-- Three words. -/
def seamTokens : Array Segment := (Parser.wordTokens 0 1 ["a", "b", "c"]).toArray

/-- Both markers are put in at the third word, that of the first match first. All markers are made
before the keywords, so the identities are others than those of the parts. -/
theorem apply_append_seam :
    seamLeft.IsNeat ∧ seamRight.IsNeat ∧ seamLeft.isMatch = true ∧ seamRight.isMatch = true ∧
      seamLeft.stop ≤ seamRight.start ∧ (∀ t ∈ seamTokens, t.DrawnBefore 4) ∧
      ((((seamLeft.append seamRight).apply seamTokens).run 4).1.map fun s => (s.type, s.id)) =
        [("keyword", 6), ("word", 2), ("dedent", 4), ("indent", 5), ("keyword", 7)] ∧
      ∃ ρ : Renaming, (∀ i < 4, ρ.image i = i) ∧
        ((do return (← seamLeft.apply seamTokens) ++
            tokensIn seamTokens seamLeft.stop seamRight.start ++ (← seamRight.apply seamTokens) :
          Fresh (List Segment)).run 4) =
          ((((seamLeft.append seamRight).apply seamTokens).run 4).1.map (Segment.renamed ρ),
            (((seamLeft.append seamRight).apply seamTokens).run 4).2) := by
  have left : seamLeft.IsNeat := ⟨by decide, by simp [seamLeft, class?],
    by simp [MarkersInside, seamLeft, inserts, start, stop],
    by simp [seamLeft, Match.children, token, start, stop]⟩
  have right : seamRight.IsNeat := ⟨by decide, by simp [seamRight, class?],
    by simp [MarkersInside, seamRight, inserts, start, stop],
    by simp [seamRight, Match.children, token, start, stop]⟩
  have drawn : ∀ t ∈ seamTokens, t.DrawnBefore 4 := by
    intro t ht
    refine forall_drawnBefore_of_ids (Parser.wordTokens 0 1 ["a", "b", "c"]) (by decide) t ?_
    exact List.mem_toArray.1 ht
  exact ⟨left, right, rfl, rfl, Nat.le_refl 2, drawn, by decide +kernel,
    apply_append left right rfl rfl (Nat.le_refl 2) drawn⟩

end Match

end QueryLint
