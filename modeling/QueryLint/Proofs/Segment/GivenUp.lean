import Mathlib.Data.List.Forall2
import QueryLint.Parse
import QueryLint.Proofs.Segment.Region

/-!
QueryLint.Proofs.Segment.GivenUp — the tokens of a tree that are given up.

What the grammar of a file cannot place is put into an unparsable segment, and then all tokens inside
it are given up. Of the tokens of a tree this says which are, in the order of the tokens; the others
have to be accounted for by whoever made the tree.

* `Segment.judgedLeaves` — the leaves of a segment, each with whether it is given up.
* `Segment.Spans` — segments for a range of tokens, all of them given up or accounted for.
* `Segment.not_givenUp_of_unparsableErrors` — in a tree without errors no token is given up.
-/

namespace QueryLint

namespace Segment

/-! ## 1. Judged leaves -/

mutual

/-- Tokens and markers in order, each with whether it is inside something unparsable. -/
def judgedLeaves : Segment → List (Segment × Bool)
  | mk i cs =>
    if i.kind.isLeaf then [(mk i cs, false)]
    else (judgedLeavesAll cs).map fun x => (x.1, (mk i cs).isUnparsable || x.2)

/-- The same of several segments. -/
def judgedLeavesAll : List Segment → List (Segment × Bool)
  | [] => []
  | s :: rest => s.judgedLeaves ++ judgedLeavesAll rest

end

/-- Judged leaves without the markers that were made since the counter stood at `n`. -/
def keptJudged (n : Nat) (ss : List Segment) : List (Segment × Bool) :=
  (judgedLeavesAll ss).filter fun x => !isInserted n x.1

/-- Which of the tokens of some segments are given up. -/
def givenUp (n : Nat) (ss : List Segment) : List Bool := (keptJudged n ss).map (·.2)

@[simp] theorem judgedLeavesAll_nil : judgedLeavesAll [] = [] := by rw [judgedLeavesAll]

@[simp] theorem judgedLeavesAll_cons (s : Segment) (ss : List Segment) :
    judgedLeavesAll (s :: ss) = s.judgedLeaves ++ judgedLeavesAll ss := by rw [judgedLeavesAll]

@[simp] theorem judgedLeavesAll_append (xs ys : List Segment) :
    judgedLeavesAll (xs ++ ys) = judgedLeavesAll xs ++ judgedLeavesAll ys := by
  induction xs with
  | nil => simp
  | cons x xs ih => simp [ih]

theorem judgedLeaves_of_isLeaf {s : Segment} (h : s.isLeaf = true) :
    s.judgedLeaves = [(s, false)] := by
  obtain ⟨i, cs⟩ := s
  rw [judgedLeaves]
  exact if_pos h

theorem judgedLeaves_of_not_isLeaf {s : Segment} (h : s.isLeaf = false) :
    s.judgedLeaves = (judgedLeavesAll s.children).map fun x => (x.1, s.isUnparsable || x.2) := by
  obtain ⟨i, cs⟩ := s
  rw [judgedLeaves]
  refine if_neg ?_
  change ¬ (mk i cs).isLeaf = true
  simp [h]

mutual

/-- They are the leaves. -/
theorem map_fst_judgedLeaves : ∀ s : Segment, s.judgedLeaves.map (·.1) = s.leaves
  | mk i cs => by
    cases h : (mk i cs).isLeaf with
    | true => rw [judgedLeaves_of_isLeaf h, leaves_of_isLeaf h]; rfl
    | false =>
      rw [judgedLeaves_of_not_isLeaf h, leaves_of_not_isLeaf h, List.map_map]
      exact map_fst_judgedLeavesAll cs

theorem map_fst_judgedLeavesAll :
    ∀ ss : List Segment, (judgedLeavesAll ss).map (·.1) = leavesAll ss
  | [] => by simp
  | s :: ss => by
    rw [judgedLeavesAll_cons, leavesAll_cons, List.map_append, map_fst_judgedLeaves s,
      map_fst_judgedLeavesAll ss]

end

/-! ## 2. Which tokens are given up -/

section GivenUp

variable {n : Nat} {s : Segment}

theorem givenUp_append (n : Nat) (xs ys : List Segment) :
    givenUp n (xs ++ ys) = givenUp n xs ++ givenUp n ys := by
  simp [givenUp, keptJudged]

theorem givenUp_cons (n : Nat) (s : Segment) (ss : List Segment) :
    givenUp n (s :: ss) = givenUp n [s] ++ givenUp n ss := givenUp_append n [s] ss

/-- A leaf on its own is not given up. -/
theorem givenUp_of_isLeaf (h : s.isLeaf = true) :
    givenUp n [s] = if isInserted n s then [] else [false] := by
  unfold givenUp keptJudged
  rw [judgedLeavesAll_cons, judgedLeaves_of_isLeaf h, judgedLeavesAll_nil]
  cases hs : isInserted n s <;> simp [hs]

/-- What is unparsable gives up all that is inside it. -/
theorem givenUp_of_not_isLeaf (h : s.isLeaf = false) :
    givenUp n [s] = (givenUp n s.children).map (s.isUnparsable || ·) := by
  unfold givenUp keptJudged
  rw [judgedLeavesAll_cons, judgedLeaves_of_not_isLeaf h, judgedLeavesAll_nil, List.append_nil,
    List.filter_map, List.map_map, List.map_map]
  rfl

/-- Tokens that stand on their own are not given up. -/
theorem IsLexed.givenUp {ts : List Segment} (h : IsLexed n ts) :
    givenUp n ts = List.replicate ts.length false := by
  induction ts with
  | nil => rfl
  | cons t ts ih =>
    rw [givenUp_cons, givenUp_of_isLeaf (h.isLeaf t (by simp)), h.not_isInserted (by simp),
      ih (h.sublist (List.sublist_cons_self t ts))]
    rfl

theorem givenUp_withPosition (s : Segment) (p : Option Position) :
    givenUp n [s.withPosition p] = givenUp n [s] := by
  cases h : s.isLeaf with
  | true => rw [givenUp_of_isLeaf h, givenUp_of_isLeaf (by simpa using h)]; rfl
  | false => rw [givenUp_of_not_isLeaf h, givenUp_of_not_isLeaf (by simpa using h)]; rfl

/-- Nothing is given up because it gets a position. -/
theorem givenUp_fillPositions (before : Option Segment) (ss : List Segment) :
    givenUp n (fillPositions before ss) = givenUp n ss := by
  induction ss generalizing before with
  | nil => rfl
  | cons s ss ih =>
    obtain ⟨placed, hfill, hplaced⟩ := fillPositions_cons before s ss
    rw [hfill, givenUp_cons, givenUp_cons n s, ih (some placed)]
    rcases hplaced with rfl | ⟨-, p, rfl, -⟩
    · rfl
    · rw [givenUp_withPosition]

end GivenUp

/-! ## 3. What is unparsable is reported -/

/-- Whatever is unparsable in it counts as that and has a position, so an error is reported. -/
inductive Reported : Segment → Prop where
  | leaf {s : Segment} (h : s.isLeaf = true) : Reported s
  | node {i : SegmentInfo} {cs : List Segment}
      (own : (mk i cs).isUnparsable = true →
        i.classTypes.contains "unparsable" = true ∧ i.position.isSome = true)
      (inside : ∀ s ∈ cs, Reported s) : Reported (mk i cs)

theorem Reported.withPosition {s : Segment} (h : Reported s) (p : Position) :
    Reported (s.withPosition (some p)) := by
  cases h with
  | leaf h => exact .leaf (by simpa using h)
  | node own inside => exact .node (fun hs => ⟨(own hs).1, rfl⟩) inside

theorem Reported.fillPositions {ss : List Segment} (h : ∀ s ∈ ss, Reported s)
    (before : Option Segment) : ∀ s ∈ fillPositions before ss, Reported s := by
  induction ss generalizing before with
  | nil => exact h
  | cons s ss ih =>
    obtain ⟨placed, hfill, hplaced⟩ := fillPositions_cons before s ss
    rw [hfill]
    intro x hx
    rcases List.mem_cons.1 hx with rfl | hx
    · rcases hplaced with rfl | ⟨-, p, rfl, -⟩
      · exact h _ (by simp)
      · exact (h s (by simp)).withPosition p
    · exact ih (fun x hx => h x (by simp [hx])) (some placed) x hx

theorem mem_crawlAll {types : List String} {deep : Bool} {ss : List Segment} {x : Segment} :
    x ∈ crawlAll types deep ss ↔ ∃ s ∈ ss, x ∈ s.crawl types deep := by
  induction ss with
  | nil => simp [crawlAll]
  | cons s ss ih => simp [crawlAll, ih]

theorem mem_judgedLeavesAll {ss : List Segment} {x : Segment × Bool} :
    x ∈ judgedLeavesAll ss ↔ ∃ s ∈ ss, x ∈ s.judgedLeaves := by
  induction ss with
  | nil => simp
  | cons s ss ih => simp [ih]

/-- What stands in a segment is found with the segment. -/
theorem mem_crawl_of_children {types : List String} {i : SegmentInfo} {cs : List Segment}
    {x : Segment} (h : x ∈ crawlAll types true cs) : x ∈ (mk i cs).crawl types true := by
  rw [crawl]
  split
  · exact List.mem_cons_of_mem _ h
  · exact h

/-- If a token is given up, something unparsable with a position is found. -/
theorem Reported.exists_of_givenUp {s : Segment} (h : Reported s) {x : Segment}
    (hx : (x, true) ∈ s.judgedLeaves) :
    ∃ u ∈ s.crawl ["unparsable"] true, u.position.isSome = true := by
  induction h with
  | leaf hleaf =>
    rw [judgedLeaves_of_isLeaf hleaf] at hx
    simp at hx
  | @node i cs own inside ih =>
    cases hleaf : (mk i cs).isLeaf with
    | true =>
      rw [judgedLeaves_of_isLeaf hleaf] at hx
      simp at hx
    | false =>
      rw [judgedLeaves_of_not_isLeaf hleaf, List.mem_map] at hx
      obtain ⟨y, hy, hyx⟩ := hx
      rw [Prod.mk.injEq, Bool.or_eq_true] at hyx
      obtain ⟨rfl, hself | hinside⟩ := hyx
      · obtain ⟨htype, hposition⟩ := own hself
        refine ⟨mk i cs, ?_, hposition⟩
        rw [crawl, if_pos (by simpa using htype)]
        exact List.mem_cons_self ..
      · obtain ⟨s, hs, hys⟩ := mem_judgedLeavesAll.1 hy
        have hmarked : (y.1, true) ∈ s.judgedLeaves := by rw [← hinside]; exact hys
        obtain ⟨u, hu, hposition⟩ := ih s hs hmarked
        exact ⟨u, mem_crawl_of_children (mem_crawlAll.2 ⟨s, hs, hu⟩), hposition⟩

/-- In a tree without errors no token is given up. -/
theorem not_givenUp_of_unparsableErrors {tree : Segment} (h : Reported tree)
    (hnone : unparsableErrors tree = []) {x : Segment × Bool} (hx : x ∈ tree.judgedLeaves) :
    x.2 = false := by
  obtain ⟨leaf, given⟩ := x
  cases given with
  | false => rfl
  | true =>
    obtain ⟨u, hu, hposition⟩ := h.exists_of_givenUp hx
    obtain ⟨p, hp⟩ := Option.isSome_iff_exists.1 hposition
    have herror := List.filterMap_eq_nil_iff.1 hnone u hu
    simp [unparsableError?, hp] at herror

/-! ## 4. Segments in place of others -/

/-- The same tokens are given up in other segments, which have the same positions. -/
structure Replaces (n : Nat) (ss us : List Segment) : Prop where
  givenUp : givenUp n us = givenUp n ss
  position : us.map (·.position) = ss.map (·.position)
  reported : (∀ s ∈ ss, Reported s) → ∀ u ∈ us, Reported u

namespace Replaces

variable {n : Nat} {s u : Segment} {ss us : List Segment}

theorem refl (n : Nat) (ss : List Segment) : Replaces n ss ss := ⟨rfl, rfl, fun h => h⟩

theorem cons (h : Replaces n [s] [u]) (h' : Replaces n ss us) :
    Replaces n (s :: ss) (u :: us) where
  givenUp := by rw [givenUp_cons, givenUp_cons n s, h.givenUp, h'.givenUp]
  position := by
    have first := h.position
    rw [List.map_cons, List.map_cons, List.cons.injEq] at first
    rw [List.map_cons, List.map_cons, first.1, h'.position]
  reported hall x hx := by
    rcases List.mem_cons.1 hx with rfl | hx
    · exact h.reported (fun y hy => hall y (by simp_all)) x (by simp)
    · exact h'.reported (fun y hy => hall y (by simp [hy])) x hx

/-- A token in place of one that only differs in what a grammar may change. -/
theorem of_bare (hs : s.isLeaf = true) (hm : s.isMarker = false) (h : u.bare = s.bare) :
    Replaces n [s] [u] := by
  have hleaf : u.isLeaf = true := by rw [← isLeaf_bare, h, isLeaf_bare, hs]
  have hmarker : u.isMarker = false := by rw [← isMarker_bare, h, isMarker_bare, hm]
  refine ⟨?_, ?_, fun _ x hx => ?_⟩
  · rw [givenUp_of_isLeaf hs, givenUp_of_isLeaf hleaf]
    simp [isInserted, hm, hmarker]
  · rw [List.map_singleton, List.map_singleton, ← position_bare, h, position_bare]
  · rw [List.mem_singleton.1 hx]
    exact .leaf hleaf

end Replaces

/-! ## 5. Segments for a range of tokens -/

/-- Segments for the tokens from `a` up to `b`. Each token is given up, or it is accounted for. -/
structure Spans (n : Nat) (Accounted : Nat → Prop) (a b : Nat) (ss : List Segment) : Prop where
  judged : List.Forall₂ (fun given k => given = true ∨ Accounted k) (givenUp n ss)
    (List.range' a (b - a))
  reported : ∀ s ∈ ss, Reported s
  placed : a < b → ∃ s ∈ ss, s.position.isSome = true

/-- Each code of a tree is inside something unparsable, or as is asked of it by its place among the
tokens. Markers made since the counter stood at `n` are no tokens. -/
def AccountsForCode (n : Nat) (Asked : Nat → Prop) (tree : Segment) : Prop :=
  ∀ k leaf given, (tree.judgedLeaves.filter fun x => !isInserted n x.1)[k]? = some (leaf, given) →
    leaf.isCode = true → given = true ∨ Asked k

namespace Spans

variable {n a b d : Nat} {Accounted : Nat → Prop} {ss us : List Segment}

theorem append (hab : a ≤ b) (hbd : b ≤ d) (h : Spans n Accounted a b ss)
    (h' : Spans n Accounted b d us) : Spans n Accounted a d (ss ++ us) where
  judged := by
    have whole : List.range' a (d - a) = List.range' a (b - a) ++ List.range' b (d - b) := by
      rw [show d - a = (b - a) + (d - b) by omega, ← List.range'_append_1,
        Nat.add_sub_cancel' hab]
    rw [whole, givenUp_append]
    exact List.rel_append h.judged h'.judged
  reported s hs := (List.mem_append.1 hs).elim (h.reported s) (h'.reported s)
  placed had := by
    by_cases hlt : a < b
    · obtain ⟨s, hs, hp⟩ := h.placed hlt
      exact ⟨s, by simp [hs], hp⟩
    · obtain ⟨s, hs, hp⟩ := h'.placed (by omega)
      exact ⟨s, by simp [hs], hp⟩

/-- Segments that hold no token can stand anywhere. -/
theorem point (h : Spans n Accounted a a ss) (b : Nat) : Spans n Accounted b b ss where
  judged := by
    have none := h.judged
    rw [Nat.sub_self, List.range'_zero] at none ⊢
    exact none
  reported := h.reported
  placed hb := absurd hb (Nat.lt_irrefl b)

theorem replace (h : Spans n Accounted a b ss) (hus : Replaces n ss us) :
    Spans n Accounted a b us where
  judged := by rw [hus.givenUp]; exact h.judged
  reported := hus.reported h.reported
  placed hab := by
    obtain ⟨s, hs, hp⟩ := h.placed hab
    have known : s.position ∈ us.map (·.position) := by
      rw [hus.position]
      exact List.mem_map_of_mem hs
    obtain ⟨u, hu, hposition⟩ := List.mem_map.1 known
    exact ⟨u, hu, by rw [hposition]; exact hp⟩

/-- Tokens that are all accounted for. -/
theorem tokens {ts : List Segment} (h : IsLexed n ts) (hlength : ts.length = b - a)
    (hall : ∀ k, a ≤ k → k < b → Accounted k) : Spans n Accounted a b ts where
  judged := by
    rw [h.givenUp, hlength, List.forall₂_iff_get]
    refine ⟨by simp, fun j hj hj' => .inr ?_⟩
    simp only [List.get_eq_getElem, List.getElem_range', Nat.one_mul]
    rw [List.length_replicate] at hj
    exact hall _ (by omega) (by omega)
  reported t ht := .leaf (h.isLeaf t ht)
  placed hab := by
    cases ts with
    | nil => simp at hlength; omega
    | cons t ts => exact ⟨t, by simp, h.placed t (by simp)⟩

/-- Tokens that something unparsable is made of need not be accounted for. -/
theorem tokensGivenUp {ts : List Segment} (h : IsLexed n ts) (hlength : ts.length = b - a) :
    Spans n (fun _ => True) a b ts := tokens h hlength fun _ _ _ => True.intro

/-- Each token is given up or accounted for, by its place. -/
theorem given_or_accounted (h : Spans n Accounted a b ss) {j : Nat} {given : Bool}
    (hj : (givenUp n ss)[j]? = some given) : given = true ∨ Accounted (a + j) := by
  obtain ⟨hlt, rfl⟩ := List.getElem?_eq_some_iff.1 hj
  have judged := h.judged.get hlt (by rw [← h.judged.length_eq]; exact hlt)
  simpa using judged

theorem length_givenUp (h : Spans n Accounted a b ss) : (givenUp n ss).length = b - a := by
  rw [h.judged.length_eq, List.length_range']

/-- In a tree without errors every token is accounted for. -/
theorem accounted {tree : Segment} (h : Spans n Accounted a b [tree])
    (hnone : unparsableErrors tree = []) (k : Nat) (ha : a ≤ k) (hb : k < b) : Accounted k := by
  obtain ⟨j, rfl⟩ := Nat.exists_eq_add_of_le ha
  have hj : j < (givenUp n [tree]).length := by
    rw [h.length_givenUp]
    omega
  refine (h.given_or_accounted (List.getElem?_eq_getElem hj)).resolve_left fun given => ?_
  obtain ⟨x, hx, hgiven⟩ := List.mem_map.1 (List.getElem_mem hj)
  have hmem : x ∈ tree.judgedLeaves := by
    have := (List.mem_filter.1 hx).1
    rwa [judgedLeavesAll_cons, judgedLeavesAll_nil, List.append_nil] at this
  have kept := not_givenUp_of_unparsableErrors (h.reported tree (by simp)) hnone hmem
  rw [← hgiven, kept] at given
  cases given

/-- If the tree keeps all tokens, then each code of it is given up or as is asked of it, where that
is how codes are accounted for. -/
theorem accountsForCode {tree : Segment} {ts : List Segment} {Asked : Nat → Prop}
    (h : Spans n Accounted 0 ts.length [tree]) (kept : tree.KeepsTokens n ts) (hlex : IsLexed n ts)
    (hasked : ∀ k t, ts[k]? = some t → t.isCode = true → Accounted k → Asked k) :
    tree.AccountsForCode n Asked := by
  intro k leaf given hk hcode
  have hleaf : (tree.leaves.filter (!isInserted n ·))[k]? = some leaf := by
    have := congrArg (Option.map (·.1)) hk
    rw [← List.getElem?_map] at this
    rwa [← map_fst_judgedLeaves, List.filter_map]
  have hgiven : (givenUp n [tree])[k]? = some given := by
    have := congrArg (Option.map (·.2)) hk
    rw [← List.getElem?_map] at this
    rwa [givenUp, keptJudged, judgedLeavesAll_cons, judgedLeavesAll_nil, List.append_nil]
  have hsame : some leaf.bare = (ts[k]?).map bare := by
    have := congrArg (·[k]?) kept.leaves
    simpa only [List.getElem?_map, hleaf, Option.map_some] using this
  obtain ⟨t, ht, hbare⟩ := Option.map_eq_some_iff.1 hsame.symm
  have htleaf := hlex.isLeaf t (List.mem_of_getElem? ht)
  have hleaf' : leaf.isLeaf = true := by rw [← isLeaf_bare, ← hbare, isLeaf_bare, htleaf]
  have htcode : t.isCode = true := by rw [← isCode_bare htleaf, hbare, isCode_bare hleaf', hcode]
  have judged := h.given_or_accounted hgiven
  rw [Nat.zero_add] at judged
  exact judged.imp_right (hasked k t ht htcode)

/-- Some of the segments have a position, so that what is made of them has one. -/
theorem isSome_cover? (h : Spans n Accounted a b ss) (hab : a < b) :
    (Position.cover? ((fillPositions none ss).filterMap (·.position))).isSome = true := by
  obtain ⟨c, hc⟩ := exists_cover?_fillPositions (h.placed hab)
  rw [hc]
  rfl

end Spans

section Making

variable {n a b : Nat} {Accounted : Nat → Prop} {cs : List Segment} {i : SegmentInfo}

theorem givenUp_mk_fillPositions (hleaf : i.kind.isLeaf = false) :
    givenUp n [mk i (fillPositions none cs)] =
      (givenUp n cs).map ((mk i cs).isUnparsable || ·) := by
  rw [givenUp_of_not_isLeaf (s := mk i (fillPositions none cs)) hleaf]
  show (givenUp n (fillPositions none cs)).map _ = _
  rw [givenUp_fillPositions]
  rfl

/-- A node spans what it is made of. -/
theorem meets_branch_spans {k : SegmentKind} (type : String) (hleaf : k.isLeaf = false)
    (hparsed : ∀ expected, k ≠ .unparsable expected) (h : Spans n Accounted a b cs) :
    Meets (n ≤ ·) (branch k type cs) fun s => Spans n Accounted a b [s] := by
  have parsed (i : SegmentInfo) (hi : i.kind = k) (ds : List Segment) :
      (mk i ds).isUnparsable = false := by
    have hkind : (mk i ds).kind = k := hi
    rw [isUnparsable, hkind]
    cases k with
    | unparsable expected => exact absurd rfl (hparsed expected)
    | _ => rfl
  refine meets_freshId.bind fun id _ => .pure ⟨?_, ?_, fun hab => ?_⟩
  · rw [givenUp_mk_fillPositions hleaf, parsed _ rfl]
    simpa using h.judged
  · intro s hs
    rw [List.mem_singleton.1 hs]
    refine .node (fun hunparsable => ?_) (.fillPositions h.reported none)
    rw [parsed _ rfl] at hunparsable
    cases hunparsable
  · exact ⟨_, List.mem_singleton.2 rfl, h.isSome_cover? hab⟩

/-- Something unparsable gives up all that it is made of. -/
theorem meets_unparsable_spans (hab : a < b) (h : Spans n (fun _ => True) a b cs)
    (expected : Option String) :
    Meets (n ≤ ·) (unparsable cs expected) fun s => Spans n Accounted a b [s] := by
  refine meets_freshId.bind fun id _ => .pure ⟨?_, ?_, fun hab => ?_⟩
  · rw [givenUp_mk_fillPositions rfl, List.forall₂_map_left_iff]
    exact h.judged.imp fun given k _ => .inl rfl
  · intro s hs
    rw [List.mem_singleton.1 hs]
    exact .node (fun _ => ⟨by simp, h.isSome_cover? hab⟩) (.fillPositions h.reported none)
  · exact ⟨_, List.mem_singleton.2 rfl, h.isSome_cover? hab⟩

/-- A marker that is made spans no token. -/
theorem meets_marker_spans (k : MarkerKind) (p : Option Position) :
    Meets (n ≤ ·) (marker k p) fun s => Spans n Accounted a a [s] := by
  refine (meets_marker_isInserted k p).mono fun s hs => ⟨?_, fun x hx => ?_, fun h => ?_⟩
  · rw [givenUp_of_isLeaf hs.1, if_pos hs.2, Nat.sub_self]
    exact .nil
  · rw [List.mem_singleton.1 hx]
    exact .leaf hs.1
  · exact absurd h (Nat.lt_irrefl a)

end Making

end Segment

end QueryLint
