import QueryLint.Proofs.Match.Apply
import QueryLint.Proofs.Place
import QueryLint.Proofs.Segment.Region
import QueryLint.Proofs.Token.Laid

/-!
QueryLint.Proofs.Segment.Seated — segments where their text stands.

A segment is seated if its position is that of its own text: a span of the templated text with this
text, at the line and column where the span starts. The tokens of a file are. What is made of them
is seated too, if no token is left out between them and none comes twice. A node reaches from its
first child to its last. A marker that a grammar puts in has no text, so it sits where the segment
before it stops, and if there is none, where the next one starts; both are told from a segment that
is seated itself, and both say the same line and column.

Next to each other are segments of which one starts where the other stops. At the root of a file
that may be too much to ask, so what it is to be next is left open.

* `Segment.Row` — segments with positions, each next to the one before it.
* `Segment.Seated` — a segment where its text stands, with all inside it.
* `Segment.Lined` — seated segments in a row, with markers among them that have no position yet.
* `Segment.row_fillPositions` — filling in positions makes a row of them.
* `Segment.lined_branch` — so a node over them is seated.
-/

namespace QueryLint

open Text

/-- A segment has a position at its own text in the templated text of a file. -/
structure TemplatedFile.Sits (f : TemplatedFile) (p : Position) (s : Segment) : Prop where
  position : s.position = some p
  text : p.templated.text? f.templated = some s.raw
  place : p.place = f.place p.templated.start
  working : p.working = f.place p.templated.start

theorem TemplatedFile.Seats.sits {f : TemplatedFile} {p : Position} {s : Segment}
    (h : f.Seats p s) : f.Sits p s := ⟨h.position, h.text, h.place, h.working⟩

/-- What it may be for a segment to be next: to start where another stops, or behind that. -/
structure IsNext (next : Nat → Nat → Prop) : Prop where
  refl : ∀ a, next a a
  le : ∀ {a b}, next a b → a ≤ b

theorem isNext_eq : IsNext Eq := ⟨fun _ => rfl, Nat.le_of_eq⟩

theorem isNext_le : IsNext (· ≤ ·) := ⟨Nat.le_refl, id⟩

theorem Span.eq_of_ends {s t : Span} (hstart : s.start = t.start) (hstop : s.stop = t.stop) :
    s = t := by
  cases s
  cases t
  simp_all

/-- Where a span of a text starts there is a cut of it. -/
theorem text?_start {text raw : String} {s : Span} (h : s.text? text = some raw) :
    (Span.point s.start).text? text = some "" := by
  obtain ⟨front, back, htext, hfront, -⟩ := slice?_eq_some_iff.1 h
  exact slice?_eq_some_iff.2 ⟨front, raw.toList ++ back, by simpa using htext, hfront, by simp⟩

/-- Where it stops there is another. -/
theorem text?_stop {text raw : String} {s : Span} (h : s.text? text = some raw) :
    (Span.point s.stop).text? text = some "" := by
  obtain ⟨front, back, htext, hfront, hstop⟩ := slice?_eq_some_iff.1 h
  refine slice?_eq_some_iff.2 ⟨front ++ raw.toList, back, by simpa using htext, ?_, by simp⟩
  rw [byteCount_append, byteCount_toList, hfront, hstop]
  rfl

namespace Segment

variable {f : TemplatedFile} {next : Nat → Nat → Prop} {a b d : Nat} {s : Segment}
  {ss us : List Segment} {p : Position}

/-! ## 1. Segments in a row -/

/-- Segments with positions, each next to where the one before it stops. -/
inductive Row (next : Nat → Nat → Prop) : Nat → List Segment → Nat → Prop where
  | nil (n : Nat) : Row next n [] n
  | cons {a b : Nat} {p : Position} {s : Segment} {ss : List Segment}
      (position : s.position = some p) (near : next a p.templated.start)
      (rest : Row next p.templated.stop ss b) : Row next a (s :: ss) b

namespace Row

theorem append (h : Row next a ss b) (h' : Row next b us d) : Row next a (ss ++ us) d := by
  induction h with
  | nil n => exact h'
  | cons position near _ ih => exact .cons position near (ih h')

theorem mono {wide : Nat → Nat → Prop} (hwide : ∀ a b, next a b → wide a b)
    (h : Row next a ss b) : Row wide a ss b := by
  induction h with
  | nil n => exact .nil n
  | cons position near _ ih => exact .cons position (hwide _ _ near) ih

/-- Segments in a row without gaps may come next to another place. -/
theorem next_of_eq (hnext : IsNext next) (h : Row Eq b ss d) (hss : ss ≠ []) (hab : next a b) :
    Row next a ss d := by
  cases h with
  | nil n => exact absurd rfl hss
  | cons position near rest =>
    subst near
    exact .cons position hab (rest.mono fun a b h => by rw [h]; exact hnext.refl b)

/-- The hull of a position and of what comes in a row after it. -/
theorem foldl_join (hnext : IsNext next) (h : Row next a ss b) (hp : p.templated.stop = a) :
    ((ss.filterMap (·.position)).foldl Position.join p).templated.start = p.templated.start ∧
      ((ss.filterMap (·.position)).foldl Position.join p).templated.stop = b ∧
      ((ss.filterMap (·.position)).foldl Position.join p).place = p.place ∧
      ((ss.filterMap (·.position)).foldl Position.join p).working = p.working := by
  induction h generalizing p with
  | nil n => exact ⟨rfl, hp, rfl, rfl⟩
  | @cons a b q s ss position near _ ih =>
    have := hnext.le near
    have := p.templated.start_le_stop
    have := q.templated.start_le_stop
    have start : (p.join q).templated.start = p.templated.start := by
      show min p.templated.start q.templated.start = _
      omega
    have stop : (p.join q).templated.stop = q.templated.stop := by
      show max p.templated.stop q.templated.stop = _
      omega
    rw [List.filterMap_cons_some position, List.foldl_cons]
    obtain ⟨hstart, hrest⟩ := ih stop
    exact ⟨hstart.trans start, hrest⟩

/-- The hull of segments in a row: it has the place of the first and goes on to the last. -/
theorem cover? (hnext : IsNext next) (h : Row next a (s :: ss) b) (hs : s.position = some p) :
    ∃ P, Position.cover? ((s :: ss).filterMap (·.position)) = some P ∧
      P.templated.start = p.templated.start ∧ P.templated.stop = b ∧ P.place = p.place ∧
      P.working = p.working := by
  cases h with
  | cons position near rest =>
    rw [hs, Option.some.injEq] at position
    subst position
    rw [List.filterMap_cons_some hs, Position.cover?_cons]
    exact ⟨_, rfl, rest.foldl_join hnext rfl⟩

/-- The leaves of segments in a row are in a row, if those of each reach from where it starts to
where it stops. -/
theorem leavesAll (hnext : IsNext next) (h : Row next a ss b)
    (each : ∀ s ∈ ss, s.leaves ≠ [] ∧
      ∀ p, s.position = some p → Row Eq p.templated.start s.leaves p.templated.stop) :
    Row next a (Segment.leavesAll ss) b := by
  induction h with
  | nil n => exact .nil n
  | cons position near _ ih =>
    rw [leavesAll_cons]
    obtain ⟨⟨nonempty, first⟩, each⟩ := List.forall_mem_cons.1 each
    exact ((first _ position).next_of_eq hnext nonempty near).append (ih each)

end Row

/-! ## 2. Segments where their text stands -/

/-- A segment where its text stands, and all inside it: the children of a node are in a row from
where it starts to where it stops. -/
inductive Seated (f : TemplatedFile) : Segment → Prop where
  | leaf {s : Segment} {p : Position} (isLeaf : s.isLeaf = true) (children : s.children = [])
    (sits : f.Sits p s) : Seated f s
  | node {s : Segment} {p : Position} (isLeaf : s.isLeaf = false) (nonempty : s.children ≠ [])
    (sits : f.Sits p s) (row : Row Eq p.templated.start s.children p.templated.stop)
    (inside : ∀ c ∈ s.children, Seated f c) : Seated f s

namespace Seated

theorem sits (h : Seated f s) : ∃ p, f.Sits p s := by
  cases h with
  | leaf _ _ sits => exact ⟨_, sits⟩
  | node _ _ sits => exact ⟨_, sits⟩

theorem inside (h : Seated f s) : ∀ c ∈ s.children, Seated f c := by
  cases h with
  | leaf _ children => simp [children]
  | node _ _ _ _ inside => exact inside

/-- The leaves of a seated segment are in a row from where it starts to where it stops, and there is
one at least. -/
theorem leaves (h : Seated f s) : s.leaves ≠ [] ∧ (∀ x ∈ s.leaves, Seated f x) ∧
    ∀ p, s.position = some p → Row Eq p.templated.start s.leaves p.templated.stop := by
  induction h with
  | @leaf s p isLeaf children sits =>
    rw [leaves_of_isLeaf isLeaf]
    refine ⟨by simp, ?_, fun q hq => .cons hq rfl (.nil _)⟩
    simpa using Seated.leaf isLeaf children sits
  | @node s p isLeaf nonempty sits row inside ih =>
    rw [leaves_of_not_isLeaf isLeaf]
    refine ⟨?_, fun x hx => ?_, fun q hq => ?_⟩
    · obtain ⟨c, cs, hcs⟩ := List.exists_cons_of_ne_nil nonempty
      rw [hcs, leavesAll_cons]
      intro hnone
      exact (ih c (by simp [hcs])).1 (List.append_eq_nil_iff.1 hnone).1
    · obtain ⟨c, hc, hx⟩ := mem_leavesAll.1 hx
      exact (ih c hc).2.1 x hx
    · rw [sits.position, Option.some.injEq] at hq
      exact hq ▸ row.leavesAll isNext_eq fun c hc => ⟨(ih c hc).1, (ih c hc).2.2⟩

/-- The first leaf of a seated segment starts where it does. -/
theorem first_leaf (h : Seated f s) (hp : s.position = some p) :
    ∃ x xs q, s.leaves = x :: xs ∧ f.Sits q x ∧ q.templated.start = p.templated.start := by
  obtain ⟨nonempty, all, row⟩ := h.leaves
  obtain ⟨x, xs, hxs⟩ := List.exists_cons_of_ne_nil nonempty
  have row := row p hp
  rw [hxs] at row all
  obtain ⟨q, sits⟩ := (all x (by simp)).sits
  cases row with
  | cons hx near _ =>
    obtain rfl := Option.some.inj (sits.position.symm.trans hx)
    exact ⟨x, xs, q, hxs, sits, near.symm⟩

/-- A leaf with the text, the position and the inside of a seated one. -/
theorem of_bare {u : Segment} (h : Seated f s) (hs : s.isLeaf = true) (hu : u.bare = s.bare) :
    Seated f u := by
  have position : u.position = s.position := by rw [← position_bare, hu, position_bare]
  have raw : u.raw = s.raw := by rw [← raw_bare, hu, raw_bare]
  have children : u.children = s.children := (congrArg Segment.children hu :)
  cases h with
  | leaf isLeaf none sits =>
    exact .leaf (by rw [← isLeaf_bare, hu, isLeaf_bare, hs]) (children.trans none)
      { sits with position := position.trans sits.position, text := raw ▸ sits.text }
  | node isLeaf => rw [hs] at isLeaf; cases isLeaf

end Seated

/-! ## 3. Markers among them -/

/-- A marker that a grammar put in, and that has no position yet. -/
structure IsLoose (s : Segment) : Prop where
  isMarker : s.isMarker = true
  children : s.children = []
  position : s.position = none

theorem IsLoose.isLeaf (h : IsLoose s) : s.isLeaf = true := by
  have marker : s.marker?.isSome = true := h.isMarker
  unfold marker? at marker
  unfold Segment.isLeaf
  split at marker
  · next hkind =>
    rw [hkind]
    rfl
  · cases marker

theorem IsLoose.raw (h : IsLoose s) : s.raw = "" :=
  raw_of_isInserted (n := 0) (by simp [isInserted, h.isMarker])

/-- At a place of the text, a marker is seated. -/
theorem IsLoose.seated (h : IsLoose s) {c : Nat} (hp : p.templated = .point c)
    (cut : (Span.point c).text? f.templated = some "") (place : p.place = f.place c)
    (working : p.working = f.place c) : Seated f (s.withPosition (some p)) := by
  refine .leaf (p := p) h.isLeaf h.children ⟨rfl, ?_, ?_, ?_⟩
  · have raw : (s.withPosition (some p)).raw = "" :=
      raw_of_isInserted (n := 0) (by
        have marker : (s.withPosition (some p)).isMarker = true := h.isMarker
        simp [isInserted, marker])
    rw [hp, cut, raw]
  · rw [hp]
    exact place
  · rw [hp]
    exact working

/-- Seated segments, each next to the one before it, and markers without a position among them. -/
inductive Lined (f : TemplatedFile) (next : Nat → Nat → Prop) :
    Nat → List Segment → Nat → Prop where
  | nil (n : Nat) : Lined f next n [] n
  | loose {a b : Nat} {s : Segment} {ss : List Segment} (loose : IsLoose s)
      (rest : Lined f next a ss b) : Lined f next a (s :: ss) b
  | seat {a b : Nat} {p : Position} {s : Segment} {ss : List Segment} (seated : Seated f s)
      (position : s.position = some p) (near : next a p.templated.start)
      (rest : Lined f next p.templated.stop ss b) : Lined f next a (s :: ss) b

namespace Lined

theorem append (h : Lined f next a ss b) (h' : Lined f next b us d) :
    Lined f next a (ss ++ us) d := by
  induction h with
  | nil n => exact h'
  | loose loose _ ih => exact .loose loose (ih h')
  | seat seated position near _ ih => exact .seat seated position near (ih h')

theorem split (h : Lined f next a (ss ++ us) b) :
    ∃ d, Lined f next a ss d ∧ Lined f next d us b := by
  induction ss generalizing a with
  | nil => exact ⟨a, .nil a, h⟩
  | cons s ss ih =>
    cases h with
    | loose loose rest =>
      obtain ⟨d, hss, hus⟩ := ih rest
      exact ⟨d, .loose loose hss, hus⟩
    | seat seated position near rest =>
      obtain ⟨d, hss, hus⟩ := ih rest
      exact ⟨d, .seat seated position near hss, hus⟩

theorem le (hnext : IsNext next) (h : Lined f next a ss b) : a ≤ b := by
  induction h with
  | nil n => exact Nat.le_refl n
  | loose _ _ ih => exact ih
  | @seat a b p s ss _ _ near _ ih =>
    have := hnext.le near
    have := p.templated.start_le_stop
    omega

theorem mono {wide : Nat → Nat → Prop} (hwide : ∀ a b, next a b → wide a b)
    (h : Lined f next a ss b) : Lined f wide a ss b := by
  induction h with
  | nil n => exact .nil n
  | loose loose _ ih => exact .loose loose ih
  | seat seated position near _ ih => exact .seat seated position (hwide _ _ near) ih

/-- Segments without gaps may come next to another place, if one of them has a position. -/
theorem next_of_eq (hnext : IsNext next) (h : Lined f Eq b ss d)
    (hss : ∃ s ∈ ss, s.position.isSome = true) (hab : next a b) : Lined f next a ss d := by
  induction h with
  | nil n => simp at hss
  | loose loose _ ih =>
    refine .loose loose (ih ?_ hab)
    simpa [loose.position] using hss
  | seat seated position near rest =>
    subst near
    exact .seat seated position hab (rest.mono fun _ _ h => by rw [h]; exact hnext.refl _)

/-- The next place of segments: where the first of those with a position starts. -/
theorem nextStartPoint (hnext : IsNext next) (h : Lined f next a ss b)
    (hss : ∃ s ∈ ss, s.position.isSome = true) :
    ∃ c p, Segment.nextStartPoint ss = some p ∧ next a c ∧ Lined f next c ss b ∧
      p.templated = .point c ∧ (Span.point c).text? f.templated = some "" ∧
      p.place = f.place c ∧ p.working = f.place c := by
  induction h with
  | nil n => simp at hss
  | @loose a b s ss loose _ ih =>
    obtain ⟨c, p, hp, near, lined, hplace⟩ := ih (by simpa [loose.position] using hss)
    refine ⟨c, p, ?_, near, .loose loose lined, hplace⟩
    rw [Segment.nextStartPoint, leaves_of_isLeaf loose.isLeaf]
    simpa [loose.position] using hp
  | @seat a b p s ss seated position near rest _ =>
    obtain ⟨x, xs, q, hxs, sits, hstart⟩ := seated.first_leaf position
    refine ⟨p.templated.start, q.startPoint, ?_, near, .seat seated position (hnext.refl _) rest,
      ?_, ?_, ?_, ?_⟩
    · rw [Segment.nextStartPoint, hxs]
      simp [sits.position]
    all_goals rw [← hstart]
    · rfl
    · exact text?_start sits.text
    · exact sits.place
    · exact sits.working

end Lined

/-! ## 4. Filling in positions -/

theorem fillPositions_of_position (before : Option Segment) (hs : s.position = some p) :
    fillPositions before (s :: ss) = s :: fillPositions (some s) ss := by
  rw [fillPositions, hs]

theorem fillPositions_of_point {before : Option Segment} (hs : s.position = none)
    (hp : (before.bind endPointAfter).or (nextStartPoint ss) = some p) :
    fillPositions before (s :: ss) =
      s.withPosition (some p) :: fillPositions (some (s.withPosition (some p))) ss := by
  rw [fillPositions, hs]
  simp only [hp]

/-- Behind a seated segment: where it stops, the line and column that its text leads to. -/
theorem Seated.endPointAfter (h : Seated f s) (hp : s.position = some p) :
    ∃ q, Segment.endPointAfter s = some q ∧ q.templated = .point p.templated.stop ∧
      (Span.point p.templated.stop).text? f.templated = some "" ∧
      q.place = f.place p.templated.stop ∧ q.working = f.place p.templated.stop := by
  obtain ⟨p', sits⟩ := h.sits
  obtain rfl := Option.some.inj (sits.position.symm.trans hp)
  have stop : p'.working.after s.raw = f.place p'.templated.stop := by
    rw [sits.working]
    exact f.after_place sits.text
  exact ⟨_, by rw [Segment.endPointAfter, hp]; rfl, rfl, text?_stop sits.text, stop, stop⟩

/-- What is lined up behind a seated segment is in a row once it has positions. -/
theorem row_fillPositions_some (hnext : IsNext next) (h : Lined f next a ss b) (hs : Seated f s)
    (hp : s.position = some p) (hstop : p.templated.stop = a) :
    Row next a (fillPositions (some s) ss) b ∧ ∀ u ∈ fillPositions (some s) ss, Seated f u := by
  induction h generalizing s p with
  | nil n => exact ⟨.nil n, by simp [fillPositions]⟩
  | loose loose _ ih =>
    obtain ⟨q, hq, htemplated, cut, place, working⟩ := hs.endPointAfter hp
    rw [hstop] at htemplated cut place working
    rw [fillPositions_of_point (p := q) loose.position (by simp [hq])]
    have seated := loose.seated htemplated cut place working
    obtain ⟨row, all⟩ := ih seated rfl (by rw [htemplated]; rfl)
    refine ⟨.cons (p := q) rfl ?_ ?_, List.forall_mem_cons.2 ⟨seated, all⟩⟩
    · rw [htemplated]
      exact hnext.refl _
    · rw [htemplated]
      exact row
  | seat seated position near _ ih =>
    rw [fillPositions_of_position _ position]
    obtain ⟨row, all⟩ := ih seated position rfl
    exact ⟨.cons position near row, List.forall_mem_cons.2 ⟨seated, all⟩⟩

/-- What is lined up is in a row once it has positions, if one of it had: then the markers before
that one get the place where it starts. -/
theorem row_fillPositions (hnext : IsNext next) (h : Lined f next a ss b)
    (hss : ∃ s ∈ ss, s.position.isSome = true) :
    Row next a (fillPositions none ss) b ∧ ∀ s ∈ fillPositions none ss, Seated f s := by
  cases h with
  | nil n => simp at hss
  | loose loose rest =>
    obtain ⟨c, q, hq, near, lined, htemplated, cut, place, working⟩ :=
      rest.nextStartPoint hnext (by simpa [loose.position] using hss)
    rw [fillPositions_of_point (p := q) loose.position (by simp [hq])]
    have seated := loose.seated htemplated cut place working
    obtain ⟨row, all⟩ := row_fillPositions_some hnext lined seated rfl (by rw [htemplated]; rfl)
    refine ⟨.cons (p := q) rfl ?_ ?_, List.forall_mem_cons.2 ⟨seated, all⟩⟩
    · rw [htemplated]
      exact near
    · rw [htemplated]
      exact row
  | seat seated position near rest =>
    rw [fillPositions_of_position _ position]
    obtain ⟨row, all⟩ := row_fillPositions_some hnext rest seated position rfl
    exact ⟨.cons position near row, List.forall_mem_cons.2 ⟨seated, all⟩⟩

/-! ## 5. Nodes -/

/-- A text goes on with that of seated segments in a row. -/
theorem slice?_append_row (h : Row Eq a ss b) (hss : ∀ s ∈ ss, Seated f s) {start : Nat}
    {before : String} (hbefore : slice? f.templated start a = some before) :
    slice? f.templated start b = some (before ++ rawAll ss) := by
  induction h generalizing before with
  | nil n => rw [rawAll, String.append_empty]; exact hbefore
  | @cons a b p s ss position near _ ih =>
    subst near
    obtain ⟨q, sits⟩ := (hss s (by simp)).sits
    obtain rfl : q = p := Option.some.inj (sits.position.symm.trans position)
    rw [rawAll, ← String.append_assoc]
    exact ih (fun u hu => hss u (by simp [hu])) (slice?_append hbefore sits.text)

/-- The text of seated segments in a row is the text from where they start to where they stop. -/
theorem slice?_of_row (h : Row Eq a ss b) (hss : ∀ s ∈ ss, Seated f s) (nonempty : ss ≠ []) :
    slice? f.templated a b = some (rawAll ss) := by
  have cut : slice? f.templated a a = some "" := by
    cases h with
    | nil n => exact absurd rfl nonempty
    | @cons a b p s ss position near _ =>
      obtain ⟨q, sits⟩ := (hss s (by simp)).sits
      obtain rfl : q = p := Option.some.inj (sits.position.symm.trans position)
      rw [near]
      exact text?_start sits.text
  have text := slice?_append_row h hss cut
  rwa [String.empty_append] at text

/-- The hull of seated segments in a row: it starts where the first does, at the same line and
column, and stops where the last does. That is how far their leaves reach. -/
theorem cover?_of_row (hnext : IsNext next) (h : Row next a ss b) (hss : ∀ s ∈ ss, Seated f s)
    (nonempty : ss ≠ []) :
    ∃ p, Position.cover? (ss.filterMap (·.position)) = some p ∧ next a p.templated.start ∧
      p.templated.stop = b ∧ p.place = f.place p.templated.start ∧
      p.working = f.place p.templated.start ∧
      (Span.point p.templated.start).text? f.templated = some "" ∧
      (Position.cover? ((leavesAll ss).filterMap (·.position))).map (·.templated) =
        some p.templated := by
  obtain ⟨s, ss, rfl⟩ := List.exists_cons_of_ne_nil nonempty
  obtain ⟨q, sits⟩ := (hss s (by simp)).sits
  obtain ⟨p, hp, hstart, hstop, place, working⟩ := h.cover? hnext sits.position
  have near : next a q.templated.start := by
    cases h with
    | cons position near _ =>
      obtain rfl := Option.some.inj (sits.position.symm.trans position)
      exact near
  refine ⟨p, hp, hstart ▸ near, hstop, ?_, ?_, hstart ▸ text?_start sits.text, ?_⟩
  · rw [place, sits.place, hstart]
  · rw [working, sits.working, hstart]
  · obtain ⟨x, xs, r, hxs, first, hr⟩ := (hss s (by simp)).first_leaf sits.position
    have row := h.leavesAll hnext fun u hu => ⟨(hss u hu).leaves.1, (hss u hu).leaves.2.2⟩
    rw [leavesAll_cons, hxs, List.cons_append] at row ⊢
    obtain ⟨l, hl, hlstart, hlstop, -, -⟩ := row.cover? hnext first.position
    have same : l.templated = p.templated :=
      Span.eq_of_ends (hlstart.trans (hr.trans hstart.symm)) (hlstop.trans hstop.symm)
    rw [hl, ← same]
    rfl

/-- A node has the text of its children. -/
theorem raw_of_not_isLeaf (hs : s.isLeaf = false) : s.raw = rawAll s.children := by
  rw [← rawAll_leaves, leaves_of_not_isLeaf hs, rawAll_leavesAll]

theorem fillPositions_ne_nil {before : Option Segment} (h : ss ≠ []) :
    fillPositions before ss ≠ [] := by
  obtain ⟨s, ss, rfl⟩ := List.exists_cons_of_ne_nil h
  rw [fillPositions]
  exact List.cons_ne_nil _ _

/-- A node over what is lined up without gaps is seated, if one of it had a position. -/
theorem lined_branch {k : SegmentKind} (type : String) (id : Nat) (hk : k.isLeaf = false)
    (h : Lined f Eq a ss b) (hss : ∃ s ∈ ss, s.position.isSome = true) :
    Lined f Eq a [mk ⟨k, type, [type], id,
      Position.cover? ((fillPositions none ss).filterMap (·.position)), []⟩
      (fillPositions none ss)] b := by
  obtain ⟨row, all⟩ := row_fillPositions isNext_eq h hss
  have nonempty : fillPositions none ss ≠ [] := fillPositions_ne_nil (by rintro rfl; simp at hss)
  obtain ⟨p, hp, start, stop, place, working, -, -⟩ := cover?_of_row isNext_eq row all nonempty
  generalize hs : mk ⟨k, type, [type], id,
    Position.cover? ((fillPositions none ss).filterMap (·.position)), []⟩
    (fillPositions none ss) = s
  have children : s.children = fillPositions none ss := by rw [← hs]; rfl
  have isLeaf : s.isLeaf = false := by rw [← hs]; exact hk
  have position : s.position = some p := by rw [← hs]; exact hp
  have text : p.templated.text? f.templated = some s.raw := by
    rw [Span.text?, ← start, stop, raw_of_not_isLeaf isLeaf, children]
    exact slice?_of_row row all nonempty
  have seated : Seated f s := by
    refine .node isLeaf ?_ ⟨position, text, place, working⟩ ?_ ?_ <;> rw [children]
    · exact nonempty
    · rwa [← start, stop]
    · exact all
  have lined := Lined.seat seated position start (.nil _)
  rwa [stop] at lined

end Segment

end QueryLint
