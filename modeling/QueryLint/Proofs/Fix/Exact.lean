import QueryLint.Proofs.Fix.Remade

/-!
QueryLint.Proofs.Fix.Exact — fixes do what they ask for, and nothing else.

Every node is rebuilt from what the groups of its segments leave of them, so the tokens of a tree
follow by induction on the levels. White space at the edges of a node moves out of it, but keeps its
place among the tokens.

* `FixPlan.Ready` — a segment that a plan can be made in.
* `Segment.runs_applyWithin_edited` — the tokens that a plan leaves of a segment are those it asks
  for.
* `applyFixes_words` — the same of a file, where nothing is left over.
-/

namespace QueryLint

open Segment

/-! ## 1. Edges of a node -/

theorem words_filter_not_isMarker (ss : List Segment) :
    words (ss.filter (!·.isMarker)) = words ss := by
  induction ss with
  | nil => rfl
  | cons s ss ih =>
    rw [List.filter_cons]
    cases hs : s.isMarker with
    | true =>
      rw [words_cons s ss, words_of_isMarker hs]
      simpa using ih
    | false =>
      rw [words_cons s ss, ← ih]
      exact words_cons s _

theorem words_filter_isMarker (ss : List Segment) : words (ss.filter (·.isMarker)) = [] := by
  induction ss with
  | nil => exact words_nil
  | cons s ss ih =>
    rw [List.filter_cons]
    split
    · next hs => rw [words_cons, words_of_isMarker hs, ih]; rfl
    · exact ih

/-- Moving what is not code out of a node keeps the tokens in their order. -/
theorem words_splitEdges {cs before kept after : List Segment}
    (h : (before, kept, after) = splitEdges cs) :
    words before ++ words kept ++ words after = words cs := by
  have front : cs.takeWhile (!·.isCode) ++ cs.dropWhile (!·.isCode) = cs :=
    List.takeWhile_append_dropWhile
  generalize hrest : cs.dropWhile (!·.isCode) = rest at front
  have back : (rest.reverse.dropWhile (!·.isCode)).reverse ++
      (rest.reverse.takeWhile (!·.isCode)).reverse = rest := by
    rw [← List.reverse_append, List.takeWhile_append_dropWhile, List.reverse_reverse]
  simp only [splitEdges, Prod.mk.injEq, hrest] at h
  obtain ⟨rfl, rfl, rfl⟩ := h
  rw [words_append, words_append, words_filter_not_isMarker, words_filter_not_isMarker,
    words_filter_isMarker, words_filter_isMarker, List.nil_append, List.append_nil,
    List.append_assoc, ← words_append, back, ← words_append, front]

namespace Segment

/-- A rebuilt node, with what moved out of it, has the tokens that its fixes left. -/
theorem IsRebuilt.words_eq {s : Segment} {cs : List Segment} {a : Applied} (h : IsRebuilt s cs a)
    (hs : s.isLeaf = false) : words a.all = words cs := by
  obtain ⟨kept, halike, hedges⟩ := h.edges
  have inner : a.segment.isLeaf = false := by
    unfold isLeaf kind at hs ⊢
    rw [h.info_eq]
    exact hs
  have parts : words a.all = words a.before ++ words kept ++ words a.after := by
    rw [Applied.all, words_append, words_cons, words_of_not_isLeaf inner, halike.words_eq,
      List.append_assoc]
  rw [parts]
  split at hedges
  · simp only [Prod.mk.injEq] at hedges
    obtain ⟨hbefore, hkept, hafter⟩ := hedges
    rw [hbefore, hkept, hafter]
    simp
  · exact words_splitEdges hedges

/-- Nothing moves out of a node that may have loose ends. -/
theorem IsRebuilt.edges_eq_nil {s : Segment} {cs : List Segment} {a : Applied}
    (h : IsRebuilt s cs a) (hs : s.mayHaveLooseEnds = true) : a.before = [] ∧ a.after = [] := by
  obtain ⟨kept, -, hedges⟩ := h.edges
  rw [if_pos hs, Prod.mk.injEq, Prod.mk.injEq] at hedges
  exact ⟨hedges.1, hedges.2.2⟩

end Segment

/-! ## 2. Segments that a plan can be made in -/

namespace FixPlan

variable {plan : FixPlan} {fuel : Nat} {s : Segment}

/-- A tree that loses no anchor inside of another, with no more levels than fixes are made in, or
without anchors. -/
structure Ready (plan : FixPlan) (fuel : Nat) (s : Segment) : Prop where
  isTree : s.isTree = true
  spares : plan.spares s = true
  within : s.depth ≤ fuel ∨ ∀ k ∈ idsAll s.children, plan.lookup k = none

namespace Ready

theorem unplaced_iff : plan.Ready fuel s.unplaced ↔ plan.Ready fuel s := by
  constructor
  · rintro ⟨isTree, spares, within⟩
    rw [isTree_unplaced] at isTree
    rw [spares_unplaced] at spares
    rw [depth_unplaced, idsAll_children_unplaced] at within
    exact ⟨isTree, spares, within⟩
  · rintro ⟨isTree, spares, within⟩
    rw [← isTree_unplaced] at isTree
    rw [← spares_unplaced] at spares
    rw [← depth_unplaced, ← idsAll_children_unplaced] at within
    exact ⟨isTree, spares, within⟩

theorem without (h : plan.Ready fuel s) (ids : List Nat) : (plan.without ids).Ready fuel s where
  isTree := h.isTree
  spares := spares_without ids s h.spares
  within := h.within.imp id fun hnone k hk => lookup_without_of_none (hnone k hk)

/-- What a plan brings in is ready for it. -/
theorem of_new (h : plan.IsExact) (hs : s ∈ plan.new) : plan.Ready fuel s where
  isTree := allTrees_iff.1 h.trees s hs
  spares := spares_of_none (h.fresh_inside hs)
  within := .inr (h.fresh_inside hs)

theorem sparesEach (h : plan.Ready fuel s) : plan.SparesEach s.children :=
  fun c hc => (spares_iff.1 h.spares c hc).2

theorem child (h : plan.Ready (fuel + 1) s) {c : Segment} (hc : c ∈ s.children) :
    plan.Ready fuel c where
  isTree := (isTree_iff.1 h.isTree).2 c hc
  spares := (spares_iff.1 h.spares c hc).1
  within := by
    rcases h.within with hdepth | hnone
    · left
      have := depth_le_of_mem hc
      rw [depth_eq] at hdepth
      omega
    · right
      intro k hk
      refine hnone k (mem_idsAll.2 (.inr ?_))
      exact List.mem_flatMap.2 ⟨c, hc, hk⟩

/-- What a plan leaves of the segments inside is ready for what is left of the plan. -/
theorem spots (h : plan.IsExact) (hs : plan.Ready (fuel + 1) s) (ids : List Nat) :
    ∀ t ∈ s.children.flatMap plan.spotOf, (plan.without ids).Ready fuel t := by
  intro t ht
  obtain ⟨c, hc, ht⟩ := List.mem_flatMap.1 ht
  rcases mem_spotOf ht with rfl | hnew
  · exact (hs.child hc).without ids
  · exact (of_new h hnew).without ids

end Ready

end FixPlan

/-! ## 3. The levels of a tree -/

namespace Segment

open FixPlan

variable {p : Parser} {fuel : Nat} {plan : FixPlan}

/-- A rebuilt segment has the tokens that the plan asks for, and the groups of all anchors inside
are taken out. Nothing moves out of a segment that may have loose ends, and if nothing has to move
anywhere in it, every anchor is exchanged in its row. -/
structure Makes (plan : FixPlan) (s : Segment) (a : Applied) (left : FixPlan) : Prop where
  words_all : words a.all = plan.edited s
  left_eq : left = plan.without (idsAll s.children)
  edges : s.mayHaveLooseEnds = true → a.before = [] ∧ a.after = []
  stays : Tight (plan.remade s) → Alike a.all [plan.remade s]

/-- A segment without anchors inside is left as it is. -/
theorem makes_of_none {s : Segment} (h : ∀ k ∈ idsAll s.children, plan.lookup k = none) :
    Makes plan s { segment := s } plan where
  words_all := (edited_of_none h).symm
  left_eq := (without_of_none h).symm
  edges _ := ⟨rfl, rfl⟩
  stays _ := by
    rw [remade_of_none s h]
    rfl

/-- A node over tight rows is rebuilt over them as they are. -/
theorem IsRebuilt.stays {s : Segment} {cs us : List Segment} {a : Applied} (h : IsRebuilt s cs a)
    (hcs : Alike cs us) (hus : s.mayHaveLooseEnds = false → IsTight us) :
    Alike a.all [.mk s.info us] := by
  obtain ⟨info, kept, children, edges⟩ := h
  have whole : a.before = [] ∧ kept = cs ∧ a.after = [] := by
    split at edges
    · simpa using edges
    · next hs =>
      rw [splitEdges_of_isTight (hcs.isTight_iff.2 (hus (by simpa using hs)))] at edges
      simpa using edges
  obtain ⟨hbefore, rfl, hafter⟩ := whole
  obtain ⟨⟨i, ds⟩, before, after, validated⟩ := a
  dsimp only at hbefore hafter
  obtain rfl : i = s.info := info
  have inner : ds.map unplaced = us.map unplaced := children.trans hcs
  simp [Alike, Applied.all, hbefore, hafter, unplaced, inner]

/-- Segments that are rebuilt one after the other. -/
theorem runs_mapM_edited
    (step : ∀ (plan : FixPlan) (s : Segment), plan.IsExact → plan.Ready fuel s →
      (plan.anchorsIn (idsAll s.children)).Nodup →
      Runs (applyWithin p fuel s) plan (Makes plan s))
    (ss : List Segment) (hplan : plan.IsExact) (hready : ∀ s ∈ ss, plan.Ready fuel s)
    (hnodup : (plan.anchorsIn (innerIds ss)).Nodup) :
    Runs (ss.mapM (applyWithin p fuel)) plan fun inner left =>
      words (inner.flatMap (·.all)) = ss.flatMap plan.edited ∧
        ((∀ s ∈ ss, Tight (plan.remade s)) →
          Alike (inner.flatMap (·.all)) (ss.map plan.remade)) ∧
        left = plan.without (innerIds ss) := by
  induction ss generalizing plan with
  | nil => exact .pure ⟨words_nil, fun _ => rfl, (without_nil plan).symm⟩
  | cons s ss ih =>
    have hnodup' : (plan.anchorsIn (idsAll s.children ++ innerIds ss)).Nodup := hnodup
    have parts := hnodup'
    rw [anchorsIn_append, List.nodup_append] at parts
    rw [List.mapM_cons]
    refine (step plan s hplan (hready s (List.mem_cons_self ..)) parts.1).bind fun a left ha => ?_
    obtain ⟨hwords, rfl, -, hstays⟩ := ha
    have rest := ih (hplan.without (idsAll s.children))
      (fun t ht => (hready t (List.mem_cons_of_mem _ ht)).without _)
      (parts.2.1.sublist (anchorsIn_without_sublist _ _))
    refine rest.bind fun inner last hinner => .pure ?_
    obtain ⟨hinner, hinnerStays, rfl⟩ := hinner
    -- The groups taken inside the first segment are of no use to the others.
    have same : ∀ t ∈ ss, ∀ k ∈ idsAll t.children,
        (plan.without (idsAll s.children)).lookup k = plan.lookup k :=
      fun t ht k hk => lookup_without_of_nodup hnodup' (List.mem_flatMap.2 ⟨t, ht, hk⟩)
    refine ⟨?_, fun htight => ?_, without_without ..⟩
    · rw [List.flatMap_cons, words_append, hwords, hinner, List.flatMap_cons,
        List.flatMap_congr fun t ht => edited_congr t (same t ht)]
    · obtain ⟨first, others⟩ := List.forall_mem_cons.1 htight
      have remades : ss.map (plan.without (idsAll s.children)).remade = ss.map plan.remade :=
        List.map_congr_left fun t ht => remade_congr t (same t ht)
      rw [remades] at hinnerStays
      have alike := hinnerStays fun t ht => by
        rw [remade_congr t (same t ht)]
        exact others t ht
      rw [List.flatMap_cons, List.map_cons]
      exact (List.map_append ..).trans (congrArg₂ (· ++ ·) (hstays first) alike)

/-- Fixes in a segment and all inside it leave the tokens that the plan asks for. -/
theorem runs_applyWithin_edited (p : Parser) (fuel : Nat) (plan : FixPlan) (s : Segment)
    (hplan : plan.IsExact) (hs : plan.Ready fuel s)
    (hnodup : (plan.anchorsIn (idsAll s.children)).Nodup) :
    Runs (applyWithin p fuel s) plan (Makes plan s) := by
  -- On the levels; new segments may have more of them, but no anchors.
  induction fuel generalizing plan s with
  | zero =>
    rcases hs.within with hdepth | hnone
    · rw [depth_eq] at hdepth
      omega
    · exact .pure (makes_of_none hnone)
  | succ fuel ih =>
    refine runs_applyWithin (fun hidle => ?_) fun hchildren placed hplaced => ?_
    · refine makes_of_none fun k hk => ?_
      rcases hidle with rfl | hempty
      · rfl
      · rw [hempty, idsAll] at hk
        cases hk
    · have hleaf : s.isLeaf = false :=
        Bool.eq_false_iff.2 fun hleaf => hchildren ((isTree_iff.1 hs.isTree).1 hleaf)
      -- First the groups of the segments inside are taken, each by its own segment.
      have distinct := anchorsIn_siblings_nodup hplan hs.sparesEach hnodup
      rw [anchorsIn_append, List.nodup_append] at distinct
      have taken := takeAll_eq hplan.nodup distinct.1
      rw [taken] at hplaced ⊢
      have hspots : Alike placed (s.children.flatMap plan.spotOf) :=
        hplaced.trans (alike_piecesOf hplan s.children)
      have ready : ∀ t ∈ placed, (plan.without (s.children.map (·.id))).Ready fuel t :=
        hspots.forall (fun _ => Ready.unplaced_iff) (hs.spots hplan _)
      have inside := distinct.2.1.sublist
        (anchorsIn_without_sublist (s.children.map (·.id)) _)
      rw [← hspots.innerIds_eq] at inside
      -- Then what they leave is rebuilt with the rest of the plan.
      refine (runs_mapM_edited ih placed (hplan.without _) ready inside).mono
        fun inner left hinner a ha => ?_
      obtain ⟨hwords, hstays, rfl⟩ := hinner
      have rows := map_remade_spots hplan hs.sparesEach hnodup
      constructor
      · rw [ha.words_eq hleaf, hwords, edited_of_not_isLeaf hleaf,
          ← flatMap_edited_spots hplan hs.sparesEach hnodup]
        exact hspots.flatMap_eq fun t => edited_unplaced _ t
      · rw [hspots.innerIds_eq]
        exact without_siblings hplan hs.sparesEach
      · exact ha.edges_eq_nil
      · intro htight
        have tight : ∀ t ∈ placed, Tight ((plan.without (s.children.map (·.id))).remade t) := by
          refine hspots.forall (fun _ => tight_remade_unplaced) fun t ht => ?_
          refine htight.inside _ ?_
          rw [children_remade, ← rows]
          exact List.mem_map_of_mem ht
        have alike := (hstays tight).trans (alike_map_remade hspots)
        rw [rows] at alike
        have made := ha.stays alike fun hends => by
          have row := htight.row (by rwa [mayHaveLooseEnds_remade])
          rwa [children_remade] at row
        cases s with
        | mk i cs =>
          rw [remade]
          exact made

end Segment

/-! ## 4. Files -/

/-- The levels that fixes are made in are those of the tree, at least. -/
theorem Segment.depth_le_levels (s : Segment) (plan : FixPlan) : s.depth ≤ s.levels plan := by
  have grows (fixes : List Fix) : ∀ n, n ≤ fixes.foldl (fun n x => n + depthAll x.new) n := by
    induction fixes with
    | nil => exact fun n => Nat.le_refl n
    | cons x fixes ih => exact fun n => Nat.le_trans (Nat.le_add_right ..) (ih _)
  exact Nat.le_trans (Nat.le_succ _) (grows _ _)

/-- Fixes with anchors of their own make of a tree what the plan asks for. -/
theorem makes_applyFixes (p : Parser) (fixes : List Fix) (m n : Nat) {plan : FixPlan}
    (hplan : plan = ((FixPlan.ofFixes fixes).run m).1) {tree : Segment}
    (htree : tree.isTree = true) (hids : tree.ids.Nodup) (hvalid : plan.isValid = true)
    (hspares : plan.spares tree = true) (htrees : allTrees plan.new = true)
    (hfresh : ∀ k ∈ idsAll plan.new, plan.lookup k = none) :
    Makes plan tree ((tree.applyFixes p plan).run n).1.1 ((tree.applyFixes p plan).run n).1.2 := by
  have exact_ : plan.IsExact :=
    { toIsKeyed := hplan ▸ FixPlan.isKeyed_ofFixes fixes m
      valid := hvalid
      trees := htrees
      fresh := hfresh }
  have ready : plan.Ready (tree.levels plan) tree :=
    ⟨htree, hspares, .inl (tree.depth_le_levels plan)⟩
  have distinct : (idsAll tree.children).Nodup := by
    rw [ids_eq, List.nodup_cons] at hids
    exact hids.2
  exact runs_applyWithin_edited p _ plan tree exact_ ready (distinct.sublist List.filter_sublist) n

/-- In a file with all the anchors in it, nothing moves out and nothing is left over. -/
theorem Segment.Makes.whole {plan left : FixPlan} {tree : Segment} {a : Applied}
    (made : Makes plan tree a left) (hfile : tree.isFile = true)
    (hanchors : ∀ g ∈ plan, g.1 ∈ idsAll tree.children) :
    words [a.segment] = plan.edited tree ∧ a.before = [] ∧ a.after = [] ∧ left = [] := by
  have ends : tree.mayHaveLooseEnds = true := by
    rw [mayHaveLooseEnds, hfile, Bool.true_or]
  obtain ⟨hbefore, hafter⟩ := made.edges ends
  refine ⟨?_, hbefore, hafter, ?_⟩
  · rw [← made.words_all, Applied.all, hbefore, hafter, List.nil_append]
  · rw [made.left_eq, FixPlan.without, List.filter_eq_nil_iff]
    intro g hg
    simp [hanchors g hg]

/-- Fixes in a file leave the tokens of the file in their order, with what the fixes of every anchor
ask for in place of those of the anchor. All other tokens are kept with their identities. No anchor
is left over, and nothing moves out of the file. -/
theorem applyFixes_words (p : Parser) (fixes : List Fix) (m n : Nat) {plan : FixPlan}
    (hplan : plan = ((FixPlan.ofFixes fixes).run m).1) {tree : Segment}
    (hfile : tree.isFile = true) (htree : tree.isTree = true) (hids : tree.ids.Nodup)
    (hvalid : plan.isValid = true) (hanchors : ∀ g ∈ plan, g.1 ∈ idsAll tree.children)
    (hspares : plan.spares tree = true) (htrees : allTrees plan.new = true)
    (hfresh : ∀ k ∈ idsAll plan.new, plan.lookup k = none) {r : Applied × FixPlan}
    (hr : r = ((tree.applyFixes p plan).run n).1) :
    words [r.1.segment] = plan.edited tree ∧ r.1.before = [] ∧ r.1.after = [] ∧ r.2 = [] := by
  have made : Makes plan tree r.1 r.2 := by
    rw [hr]
    exact makes_applyFixes p fixes m n hplan htree hids hvalid hspares htrees hfresh
  exact made.whole hfile hanchors

/-- A word of one letter, which has not been placed. -/
def letter (id : Nat) (text : String) : Segment :=
  .mk ⟨.token text .ofCode none, "word", ["word"], id, none, []⟩ []

/-- Two letters with a space between them, in a node of a file. -/
def spacedFile : Segment :=
  .mk ⟨.file, "file", ["file"], 0, none, []⟩
    [.mk ⟨.node none, "pair", ["pair"], 1, none, []⟩
      [letter 2 "a", .mk ⟨.token " " .ofBlank none, "whitespace", ["whitespace"], 3, none, []⟩ [],
        letter 4 "b"]]

/-- A letter less, and one on either side of another. -/
def spacedFixes : List Fix :=
  [.insertAfter (letter 4 "b") [letter 6 "y"], .delete (letter 2 "a"),
    .insertBefore (letter 4 "b") [letter 5 "x"]]

/-- The space moves out of the node, and keeps its place. -/
theorem applyFixes_words_spaced :
    let plan := ((FixPlan.ofFixes spacedFixes).run 7).1
    let r := ((spacedFile.applyFixes { dialect := ⟨"", {}, [], [], []⟩ } plan).run 7).1
    (words [r.1.segment]).map (fun w => (w.id, w.raw)) =
      [(3, " "), (5, "x"), (4, "b"), (6, "y")] ∧ r.2 = [] := by
  intro plan r
  have made := applyFixes_words _ spacedFixes 7 7 (rfl : plan = _) (rfl : spacedFile.isFile = true)
    (by decide) (by decide) (by decide +kernel) (by decide +kernel) (by decide +kernel)
    (by decide +kernel) (by decide +kernel) (rfl : r = _)
  refine ⟨?_, made.2.2.2⟩
  rw [made.1]
  decide +kernel

end QueryLint
