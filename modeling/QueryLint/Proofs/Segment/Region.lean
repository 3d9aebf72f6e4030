import QueryLint.Proofs.Segment.Leaves

/-!
QueryLint.Proofs.Segment.Region — where segments lie.

Making segments out of others adds markers and nodes. These have no source fixes of their own, and
the positions that they get are points or hulls of positions that are there already. So segments
never leave a region, which is a set of positions that holds the points and hulls of its members;
and what a token covers is covered by whatever the token is put into.

* `Segment.Every` — a property of a segment and of all inside it.
* `Position.IsRegion` — a set of positions with their points and hulls.
* `Segment.LiesIn` — without source fixes, and in a region if it has a position.
* `Segment.Covers` — every token of a list lies within a segment of another.
-/

namespace QueryLint

/-! ## 1. Regions -/

namespace Position

/-- The smallest position that holds two; its place is the first one's. -/
def join (p q : Position) : Position :=
  { p with
    source := p.source.cover q.source
    templated := p.templated.cover q.templated
    isLiteral := p.isLiteral && q.isLiteral }

theorem cover?_cons (p : Position) (ps : List Position) :
    cover? (p :: ps) = some (ps.foldl join p) := rfl

/-- A set of positions that holds the points and hulls of its members. -/
structure IsRegion (R : Position → Prop) : Prop where
  startPoint : ∀ {p : Position}, R p → R p.startPoint
  endPoint : ∀ {p : Position} (place : Place), R p →
    R { p.endPoint with place := place, working := place }
  join : ∀ {p q : Position}, R p → R q → R (p.join q)

variable {R : Position → Prop}

/-- Any positions at all. -/
theorem isRegion_true : IsRegion fun _ => True := ⟨id, fun _ => id, fun _ => id⟩

/-- One position lies within another in the templated text. -/
def Holds (p q : Position) : Prop :=
  p.templated.start ≤ q.templated.start ∧ q.templated.stop ≤ p.templated.stop

theorem Holds.refl (p : Position) : p.Holds p := ⟨Nat.le_refl _, Nat.le_refl _⟩

theorem Holds.trans {p q r : Position} (h : p.Holds q) (h' : q.Holds r) : p.Holds r :=
  ⟨Nat.le_trans h.1 h'.1, Nat.le_trans h'.2 h.2⟩

theorem holds_join_left (p q : Position) : (p.join q).Holds p :=
  ⟨Nat.min_le_left _ _, Nat.le_max_left _ _⟩

theorem holds_join_right (p q : Position) : (p.join q).Holds q :=
  ⟨Nat.min_le_right _ _, Nat.le_max_right _ _⟩

theorem foldl_join_mem (hR : IsRegion R) {p : Position} {qs : List Position} (hp : R p)
    (hqs : ∀ q ∈ qs, R q) : R (qs.foldl join p) := by
  induction qs generalizing p with
  | nil => exact hp
  | cons q qs ih => exact ih (hR.join hp (hqs q (by simp))) fun r hr => hqs r (by simp [hr])

theorem foldl_join_holds (p : Position) (qs : List Position) :
    ∀ q ∈ p :: qs, (qs.foldl join p).Holds q := by
  induction qs generalizing p with
  | nil =>
    intro q hq
    rw [List.mem_singleton.1 hq]
    exact .refl p
  | cons r qs ih =>
    intro q hq
    have whole := ih (p.join r) _ (List.mem_cons_self ..)
    rcases List.mem_cons.1 hq with rfl | hq
    · exact whole.trans (holds_join_left _ r)
    · rcases List.mem_cons.1 hq with rfl | hq
      · exact whole.trans (holds_join_right p _)
      · exact ih (p.join r) q (List.mem_cons_of_mem _ hq)

/-- The hull of some positions lies in their region. -/
theorem cover?_mem (hR : IsRegion R) {ps : List Position} (h : ∀ p ∈ ps, R p) {c : Position}
    (hc : cover? ps = some c) : R c := by
  cases ps with
  | nil => cases hc
  | cons p ps =>
    rw [cover?_cons, Option.some.injEq] at hc
    rw [← hc]
    exact foldl_join_mem hR (h p (by simp)) fun q hq => h q (by simp [hq])

/-- Some positions have a hull, and it holds each of them. -/
theorem exists_cover?_of_mem {ps : List Position} {p : Position} (hp : p ∈ ps) :
    ∃ c, cover? ps = some c ∧ c.Holds p := by
  cases ps with
  | nil => cases hp
  | cons q ps => exact ⟨_, cover?_cons q ps, foldl_join_holds q ps p hp⟩

end Position

namespace Segment

/-! ## 2. Everything in a segment -/

/-- A property of a segment and of all inside it. -/
inductive Every (P : SegmentInfo → Prop) : Segment → Prop where
  | mk {i : SegmentInfo} {cs : List Segment} (own : P i) (inside : ∀ s ∈ cs, Every P s) :
      Every P (.mk i cs)

namespace Every

variable {P : SegmentInfo → Prop} {s : Segment}

theorem own (h : Every P s) : P s.info := by
  cases h with
  | mk own _ => exact own

theorem inside (h : Every P s) : ∀ c ∈ s.children, Every P c := by
  cases h with
  | mk _ inside => exact inside

theorem of_children (own : P s.info) (inside : ∀ c ∈ s.children, Every P c) : Every P s := by
  cases s with
  | mk i cs => exact .mk own inside

end Every

/-- Where a segment is does not matter for a property. -/
def IsPlaceless (P : SegmentInfo → Prop) : Prop := ∀ i p, P { i with position := p } ↔ P i

theorem mem_leavesAll {ss : List Segment} {x : Segment} :
    x ∈ leavesAll ss ↔ ∃ s ∈ ss, x ∈ s.leaves := by
  induction ss with
  | nil => simp
  | cons s ss ih => simp [ih]

theorem Every.leaves {P : SegmentInfo → Prop} {s : Segment} (h : Every P s) :
    ∀ x ∈ s.leaves, Every P x := by
  induction h with
  | @mk i cs own inside ih =>
    intro x hx
    unfold Segment.leaves at hx
    split at hx
    · rw [List.mem_singleton.1 hx]
      exact .mk own inside
    · obtain ⟨s, hs, hx⟩ := mem_leavesAll.1 hx
      exact ih s hs x hx

theorem sourceFixesAll_eq_nil {ss : List Segment} (h : ∀ s ∈ ss, s.sourceFixes = []) :
    sourceFixesAll ss = [] := by
  induction ss with
  | nil => rw [sourceFixesAll]
  | cons s ss ih =>
    rw [sourceFixesAll, h s (by simp), ih fun x hx => h x (by simp [hx])]
    rfl

theorem sourceFixes_eq_nil_of_all {ss : List Segment} (h : sourceFixesAll ss = []) :
    ∀ s ∈ ss, s.sourceFixes = [] := by
  induction ss with
  | nil => simp
  | cons s ss ih =>
    rw [sourceFixesAll, List.append_eq_nil_iff] at h
    intro x hx
    rcases List.mem_cons.1 hx with rfl | hx
    · exact h.1
    · exact ih h.2 x hx

/-! ## 3. Segments in a region -/

/-- It has no source fixes of its own, and if it has a position, that lies in a region. -/
def LiesIn (R : Position → Prop) (i : SegmentInfo) : Prop :=
  i.sourceFixes = [] ∧ ∀ p, i.position = some p → R p

/-- Some segments lie in a region with all inside them. -/
def AllIn (R : Position → Prop) (ss : List Segment) : Prop := ∀ s ∈ ss, Every (LiesIn R) s

variable {R : Position → Prop}

namespace AllIn

variable {ss us : List Segment}

theorem nil : AllIn R [] := by simp [AllIn]

theorem single {s : Segment} (h : Every (LiesIn R) s) : AllIn R [s] := by simpa [AllIn] using h

theorem append (h : AllIn R ss) (h' : AllIn R us) : AllIn R (ss ++ us) := by
  intro s hs
  exact (List.mem_append.1 hs).elim (h s) (h' s)

theorem head {s : Segment} (h : AllIn R (s :: ss)) : Every (LiesIn R) s := h s (by simp)

theorem tail {s : Segment} (h : AllIn R (s :: ss)) : AllIn R ss := fun x hx => h x (by simp [hx])

end AllIn

/-- What lies in a region has no source fixes. -/
theorem Every.sourceFixes {s : Segment} (h : Every (LiesIn R) s) : s.sourceFixes = [] := by
  induction h with
  | @mk i cs own _ ih =>
    rw [Segment.sourceFixes, own.1, sourceFixesAll_eq_nil ih]
    rfl

theorem Every.withPosition {s : Segment} (h : Every (LiesIn R) s) {p : Option Position}
    (hp : ∀ q, p = some q → R q) : Every (LiesIn R) (s.withPosition p) :=
  .mk ⟨h.own.1, hp⟩ h.inside

/-- The start of what comes next lies in the region. -/
theorem nextStartPoint_mem (hR : Position.IsRegion R) {ss : List Segment} (h : AllIn R ss)
    {p : Position} (hp : nextStartPoint ss = some p) : R p := by
  induction ss with
  | nil => cases hp
  | cons s ss ih =>
    rw [nextStartPoint] at hp
    split at hp
    · next q hq =>
      rw [Option.some.injEq] at hp
      subst hp
      refine hR.startPoint ?_
      rw [Option.or_eq_some_iff] at hq
      rcases hq with hq | ⟨-, hq⟩
      · obtain ⟨x, hx, hxq⟩ := List.exists_of_findSome?_eq_some hq
        exact (h.head.leaves x hx).own.2 q hxq
      · exact h.head.own.2 q hq
    · exact ih h.tail hp

/-- Positions are filled in from the region. -/
theorem allIn_fillPositions (hR : Position.IsRegion R) {ss : List Segment} (h : AllIn R ss)
    (before : Option Segment) (hbefore : ∀ b, before = some b → LiesIn R b.info) :
    AllIn R (fillPositions before ss) := by
  induction ss generalizing before with
  | nil => exact .nil
  | cons s ss ih =>
    obtain ⟨s', hfill, hs'⟩ := fillPositions_cons before s ss
    rw [hfill]
    have placed : Every (LiesIn R) s' := by
      rcases hs' with rfl | ⟨-, p, rfl, hp⟩
      · exact h.head
      · refine h.head.withPosition fun q hq => ?_
        rw [Option.some.injEq] at hq
        subst hq
        rw [Option.or_eq_some_iff] at hp
        rcases hp with hp | ⟨-, hp⟩
        · obtain ⟨b, hb, hbp⟩ := Option.bind_eq_some_iff.1 hp
          obtain ⟨q, hq, rfl⟩ := Option.map_eq_some_iff.1 hbp
          exact hR.endPoint _ ((hbefore b hb).2 q hq)
        · exact nextStartPoint_mem hR h.tail hp
    have rest := ih h.tail (some s') fun b hb => by
      cases hb
      exact placed.own
    intro x hx
    rcases List.mem_cons.1 hx with rfl | hx
    · exact placed
    · exact rest x hx

/-! ## 4. Covering tokens -/

/-- Every token of a list lies within one of some segments. -/
def Covers (ss ts : List Segment) : Prop :=
  ∀ t ∈ ts, ∃ s ∈ ss, ∃ p q, s.position = some p ∧ t.position = some q ∧ p.Holds q

namespace Covers

variable {ss ts us vs : List Segment}

/-- Tokens that have a position lie within themselves. -/
theorem refl (h : ∀ t ∈ ts, t.position.isSome = true) : Covers ts ts := by
  intro t ht
  obtain ⟨q, hq⟩ := Option.isSome_iff_exists.1 (h t ht)
  exact ⟨t, ht, q, q, hq, hq, .refl q⟩

theorem append (h : Covers ss ts) (h' : Covers us vs) : Covers (ss ++ us) (ts ++ vs) := by
  intro t ht
  rcases List.mem_append.1 ht with ht | ht
  · obtain ⟨s, hs, rest⟩ := h t ht
    exact ⟨s, by simp [hs], rest⟩
  · obtain ⟨s, hs, rest⟩ := h' t ht
    exact ⟨s, by simp [hs], rest⟩

theorem mono (h : Covers ss ts) (hts : ∀ t ∈ vs, t ∈ ts) : Covers ss vs :=
  fun t ht => h t (hts t ht)

/-- Segments in place of others with the same positions cover the same. -/
theorem of_position (h : Covers ss ts)
    (hpos : ∀ s ∈ ss, s.position.isSome = true → ∃ u ∈ us, u.position = s.position) :
    Covers us ts := by
  intro t ht
  obtain ⟨s, hs, p, q, hp, hq, holds⟩ := h t ht
  obtain ⟨u, hu, hup⟩ := hpos s hs (by rw [hp]; rfl)
  exact ⟨u, hu, p, q, hup.trans hp, hq, holds⟩

end Covers

/-- Filling in positions changes no segment that has one. -/
theorem mem_fillPositions {ss : List Segment} {s : Segment} (hs : s ∈ ss)
    (hp : s.position.isSome = true) (before : Option Segment) : s ∈ fillPositions before ss := by
  induction ss generalizing before with
  | nil => cases hs
  | cons x ss ih =>
    obtain ⟨x', hfill, hx'⟩ := fillPositions_cons before x ss
    rw [hfill]
    rcases List.mem_cons.1 hs with rfl | hs
    · rcases hx' with rfl | ⟨hnone, -⟩
      · exact List.mem_cons_self ..
      · rw [hnone] at hp
        cases hp
    · exact List.mem_cons_of_mem _ (ih hs (some x'))

/-- Segments of which one has a position have a hull. -/
theorem exists_cover?_fillPositions {ss : List Segment}
    (h : ∃ s ∈ ss, s.position.isSome = true) :
    ∃ c, Position.cover? ((fillPositions none ss).filterMap (·.position)) = some c := by
  obtain ⟨s, hs, hplaced⟩ := h
  obtain ⟨p, hp⟩ := Option.isSome_iff_exists.1 hplaced
  obtain ⟨c, hc, -⟩ := Position.exists_cover?_of_mem
    (List.mem_filterMap.2 ⟨s, mem_fillPositions hs hplaced none, hp⟩)
  exact ⟨c, hc⟩

/-! ## 5. Making segments -/

/-- Segments that lie in a region and cover some tokens. -/
structure Occupies (R : Position → Prop) (ss ts : List Segment) : Prop where
  allIn : AllIn R ss
  covers : Covers ss ts

namespace Occupies

variable {ss ts us vs : List Segment}

theorem append (h : Occupies R ss ts) (h' : Occupies R us vs) :
    Occupies R (ss ++ us) (ts ++ vs) :=
  ⟨h.allIn.append h'.allIn, h.covers.append h'.covers⟩

theorem mono (h : Occupies R ss ts) (hts : ∀ t ∈ vs, t ∈ ts) : Occupies R ss vs :=
  ⟨h.allIn, h.covers.mono hts⟩

end Occupies

/-- A node lies where the segments lie that it is made of. -/
theorem meets_branch_occupies (hR : Position.IsRegion R) {n : Nat} (k : SegmentKind)
    (type : String) {cs ts : List Segment} (h : Occupies R cs ts) :
    Meets (n ≤ ·) (branch k type cs) fun s => Occupies R [s] ts := by
  refine meets_freshId.bind fun id _ => .pure ?_
  have inside := allIn_fillPositions hR h.allIn none (by simp)
  have known : ∀ p ∈ (fillPositions none cs).filterMap (·.position), R p := by
    intro p hp
    obtain ⟨s, hs, hsp⟩ := List.mem_filterMap.1 hp
    exact (inside s hs).own.2 p hsp
  refine ⟨.single (.mk ⟨rfl, fun p hp => Position.cover?_mem hR known hp⟩ inside), ?_⟩
  intro t ht
  obtain ⟨s, hs, p, q, hp, hq, holds⟩ := h.covers t ht
  obtain ⟨c, hc, hcp⟩ := Position.exists_cover?_of_mem
    (List.mem_filterMap.2 ⟨s, mem_fillPositions hs (by rw [hp]; rfl) none, hp⟩)
  exact ⟨_, List.mem_singleton.2 rfl, c, q, hc, hq, hcp.trans holds⟩

/-- A marker that is made has no position. -/
theorem meets_marker_allIn {n : Nat} (k : MarkerKind) :
    Meets (n ≤ ·) (marker k none) fun s => AllIn R [s] :=
  meets_freshId.bind fun _ _ => .pure (.single (.mk ⟨rfl, by simp⟩ (by simp)))

end Segment

end QueryLint
