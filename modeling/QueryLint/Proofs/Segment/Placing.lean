import QueryLint.Proofs.Place
import QueryLint.Proofs.Segment.Leaves

/-!
QueryLint.Proofs.Segment.Placing — what placing segments among their neighbours leaves as it is.

Placing goes through a list from left to right and carries two things along: the working place that
the text so far leads to, and the segment before, behind which a new segment begins. `Placed` tells
such a run without the segments that are looked at on the way. All laws are read off it: every
segment gets a position, those that had one keep what it covers, and one segment follows the other.
Segments that follow one another are placed where they are, so placing twice does what placing once
does, although the second time the first segment is the one to tell where to start.

* `Segment.Follow` — segments of which each has the working place that those before it lead to.
* `Segment.Placed` — segments, and what placing makes of them.
* `Segment.Keep` — what placing keeps of the spans, at every depth.
* `positionAll_lossless` — placing keeps all but positions, and is done once for all.
-/

namespace QueryLint.Segment

variable {n : Nat} {place : Place} {q : Position} {s t : Segment} {ss ts : List Segment}

/-! ## 1. A segment and all inside it -/

/-- What is handed on from the segments directly inside to a segment holds of all segments. -/
theorem induction {P : Segment → Prop} (mk : ∀ i cs, (∀ c ∈ cs, P c) → P (.mk i cs)) :
    ∀ s, P s := by
  have cons (c : Segment) (cs : List Segment) (hc : P c) (hcs : ∀ c ∈ cs, P c) :
      ∀ d ∈ c :: cs, P d := List.forall_mem_cons.2 ⟨hc, hcs⟩
  exact @Segment.rec P (fun cs => ∀ c ∈ cs, P c) mk (by simp) cons

/-- Placing a segment with all inside it. -/
theorem placeAt_eq (p : Position) (s : Segment) :
    placeAt p s = if s.position = some p then s
      else s.withChildren (positionAll s.children (some p)) (some p) := by
  obtain ⟨i, cs⟩ := s
  cases cs with
  | nil =>
    rw [placeAt]
    rfl
  | cons c cs =>
    rw [placeAt]
    rfl

@[simp] theorem position_placeAt (p : Position) (s : Segment) :
    (placeAt p s).position = some p := by
  rw [placeAt_eq]
  split
  · assumption
  · rfl

@[simp] theorem raw_placeAt (p : Position) (s : Segment) : (placeAt p s).raw = s.raw := by
  rw [← raw_unplaced, unplaced_placeAt, raw_unplaced]

theorem placeAt_of_position {p : Position} (h : s.position = some p) : placeAt p s = s := by
  rw [placeAt_eq, if_pos h]

/-! ## 2. Segments that follow one another -/

/-- Segments of which the first has a working place, and each next one the place that those before
it lead to. -/
inductive Follow : Place → List Segment → Prop where
  | nil (place : Place) : Follow place []
  | cons {p : Position} {s : Segment} {ss : List Segment} (position : s.position = some p)
      (rest : Follow (p.working.after s.raw) ss) : Follow p.working (s :: ss)

/-- Segments that follow one another are placed where they are. -/
theorem Follow.positionFrom_eq (h : Follow place ss) (parent : Option Position)
    (before : Option Segment) : positionFrom parent place before ss = ss := by
  induction h generalizing before with
  | nil => rw [positionFrom]
  | @cons p s ss position rest ih =>
    have stays : placeAt (p.moved p.working) s = s := placeAt_of_position position
    rw [positionFrom, position, Option.some_or]
    dsimp only
    rw [stays, ih]

theorem Follow.startPlace_eq (h : Follow place (s :: ss)) (parent : Option Position) :
    startPlace (s :: ss) parent = place := by
  cases h with
  | cons position rest => simp [startPlace, position]

/-- So all of them are, whatever is around them. -/
theorem Follow.positionAll_eq (h : Follow place ss) (parent : Option Position) :
    positionAll ss parent = ss := by
  cases ss with
  | nil => rw [positionAll, positionFrom]
  | cons s ss => rw [positionAll, h.startPlace_eq, h.positionFrom_eq]

/-! ## 3. A run over a list -/

/-- Segments and what placing makes of them, from a working place and an offset of the templated
text on. A segment without a position gets one that starts at the offset. -/
inductive Placed : Place → Nat → List Segment → List Segment → Prop where
  | nil (place : Place) (n : Nat) : Placed place n [] []
  | cons {place : Place} {n : Nat} {p : Position} {s : Segment} {ss ts : List Segment}
      (kept : ∀ r, s.position = some r → p = r)
      (new : s.position = none → p.templated.start = n)
      (rest : Placed (place.after s.raw) p.templated.stop ss ts) :
      Placed place n (s :: ss) (placeAt (p.moved place) s :: ts)

/-- The point behind a segment, or where a parent at `q` starts. -/
def pointAfter (q : Position) : Option Segment → Option Position
  | none => some q.startPoint
  | some b => b.position.map (·.endPoint)

/-- The gap from a point to the next segment that has a position. -/
def gapFrom (a : Position) : Option Position → Position
  | none => a
  | some b =>
    if a.source ≠ b.source ∨ a.templated ≠ b.templated then a.betweenStarts b else a

@[simp] theorem start_gapFrom (a : Position) (b : Option Position) :
    (gapFrom a b).templated.start = a.templated.start := by
  cases b with
  | none => rfl
  | some b =>
    rw [gapFrom]
    split
    · simp [Position.betweenStarts]
    · rfl

/-- Behind a segment with a position, or under a parent with one, there is always a gap. -/
theorem gapPosition_eq {before : Option Segment} {a : Position} (h : pointAfter q before = some a)
    (rest : List Segment) :
    gapPosition before (some q) rest = some (gapFrom a (nextStartPoint rest)) := by
  cases before with
  | none =>
    obtain rfl := Option.some.inj h
    rw [gapPosition, Option.map_some]
    cases nextStartPoint rest with
    | none => rfl
    | some b => exact (apply_ite some _ _ _).symm
  | some b =>
    rw [pointAfter] at h
    rw [gapPosition]
    simp only [h]
    cases nextStartPoint rest with
    | none => rfl
    | some b => exact (apply_ite some _ _ _).symm

theorem placed_positionFrom {before : Option Segment} {a : Position}
    (h : pointAfter q before = some a) (place : Place) (ss : List Segment) :
    Placed place a.templated.start ss (positionFrom (some q) place before ss) := by
  induction ss generalizing before a place with
  | nil =>
    rw [positionFrom]
    exact .nil place _
  | cons s ss ih =>
    have next (p : Position) :
        pointAfter q (some (placeAt (p.moved place) s)) = some (p.moved place).endPoint := by
      simp [pointAfter]
    rw [positionFrom]
    cases hs : s.position with
    | some p =>
      rw [Option.some_or]
      exact .cons (by simp [hs]) (by simp [hs]) (ih (next p) _)
    | none =>
      rw [Option.none_or, gapPosition_eq h]
      exact .cons (by simp [hs]) (by simp) (ih (next _) _)

/-- Placing under a parent starts where the parent does. -/
theorem placed_positionAll (ss : List Segment) (q : Position) :
    Placed (startPlace ss (some q)) q.templated.start ss (positionAll ss (some q)) := by
  have start : pointAfter q none = some q.startPoint := rfl
  exact placed_positionFrom start _ ss

namespace Placed

theorem follow (h : Placed place n ss ts) : Follow place ts := by
  induction h with
  | nil place n => exact .nil place
  | @cons place n p s ss ts _ _ _ ih =>
    refine .cons (p := p.moved place) (position_placeAt _ s) ?_
    rw [raw_placeAt]
    exact ih

/-- A segment of the list is placed where the text before it leads to. -/
theorem getElem?_eq (h : Placed place n ss ts) {before after : List Segment}
    (hss : ss = before ++ s :: after) : ∃ p : Position, p.working = place.after (rawAll before) ∧
      (∀ r, s.position = some r → p = r.moved p.working) ∧
      ts[before.length]? = some (placeAt p s) := by
  induction h generalizing before with
  | nil => simp at hss
  | @cons place n p u ss ts kept _ _ ih =>
    cases before with
    | nil =>
      obtain ⟨rfl, rfl⟩ := List.cons.inj hss
      exact ⟨p.moved place, by simp [rawAll, Position.moved],
        fun r hr => by rw [kept r hr]; rfl, rfl⟩
    | cons b before =>
      obtain ⟨rfl, hrest⟩ := List.cons.inj hss
      obtain ⟨p, working, kept, found⟩ := ih hrest
      exact ⟨p, by rw [working, rawAll, Place.after_append], kept, by simpa using found⟩

/-- What holds of all segments of a list wherever they are placed holds of what placing makes of
them. -/
theorem forall_of {P : Segment → Prop} (h : Placed place n ss ts)
    (each : ∀ s ∈ ss, ∀ p, P (placeAt p s)) : ∀ t ∈ ts, P t := by
  induction h with
  | nil => simp
  | cons _ _ _ ih =>
    obtain ⟨own, each⟩ := List.forall_mem_cons.1 each
    exact List.forall_mem_cons.2 ⟨own _, ih each⟩

theorem length_eq (h : Placed place n ss ts) : ts.length = ss.length := by
  induction h with
  | nil => rfl
  | cons _ _ _ ih => rw [List.length_cons, List.length_cons, ih]

end Placed

theorem Follow.isSome_position (h : Follow place ss) : ∀ s ∈ ss, s.position.isSome = true := by
  induction h with
  | nil => simp
  | cons position _ ih => simpa [position] using ih

/-! ## 4. Spans -/

mutual

/-- A segment before and after it was placed where offset `n` was reached. It keeps the spans that
it covered; if it covered none, it starts at the offset. Inside nothing has changed, or all of it
was placed in the same way. -/
def Keeps (n : Nat) (t : Segment) : Segment → Prop
  | .mk i cs => ∃ p, t.position = some p ∧
      (∀ r, i.position = some r → p.source = r.source ∧ p.templated = r.templated) ∧
      (i.position = none → p.templated.start = n) ∧
      (t.children = cs ∨ Keep p.templated.start t.children cs)

/-- Segments before and after they were placed one after the other from offset `n` on. -/
def Keep (n : Nat) (ts : List Segment) : List Segment → Prop
  | [] => ts = []
  | s :: ss => ∃ t p rest, ts = t :: rest ∧ t.position = some p ∧ Keeps n t s ∧
      Keep p.templated.stop rest ss

end

theorem Placed.keep (each : ∀ s ∈ ss, ∀ (n : Nat) (p : Position),
      (s.position = none → p.templated.start = n) →
      (∀ r, s.position = some r → p.source = r.source ∧ p.templated = r.templated) →
      Keeps n (placeAt p s) s) (h : Placed place n ss ts) : Keep n ts ss := by
  induction h with
  | nil => rfl
  | @cons place n p s ss ts kept new _ ih =>
    obtain ⟨own, each⟩ := List.forall_mem_cons.1 each
    refine ⟨_, p.moved place, ts, rfl, position_placeAt _ s, ?_, ih each⟩
    refine own n _ new fun r hr => ?_
    rw [kept r hr]
    exact ⟨rfl, rfl⟩

/-- A segment keeps its spans at every depth, wherever it is placed over them. -/
theorem keeps_placeAt (s : Segment) : ∀ (n : Nat) (p : Position),
    (s.position = none → p.templated.start = n) →
    (∀ r, s.position = some r → p.source = r.source ∧ p.templated = r.templated) →
    Keeps n (placeAt p s) s := by
  induction s using Segment.induction with
  | mk i cs ih =>
    intro n p new kept
    refine ⟨p, position_placeAt p _, kept, new, ?_⟩
    rw [placeAt_eq]
    split
    · exact .inl rfl
    · exact .inr ((placed_positionAll cs p).keep ih)

/-! ## 5. Placing -/

/-- Placing segments under a parent keeps them all, and at every depth what they are: without
positions they are the same, so they have the same identities, types and texts in the same order.
Each gets a position. Where there was one its spans are kept, and a new one starts where the segment
before it stops, or where the parent starts. Placing again under the same parent changes nothing. -/
theorem positionAll_lossless (ss : List Segment) (q : Position) :
    (positionAll ss (some q)).length = ss.length ∧
      (positionAll ss (some q)).map unplaced = ss.map unplaced ∧
      (∀ t ∈ positionAll ss (some q), t.position.isSome = true) ∧
      Keep q.templated.start (positionAll ss (some q)) ss ∧
      positionAll (positionAll ss (some q)) (some q) = positionAll ss (some q) := by
  have placed := placed_positionAll ss q
  refine ⟨placed.length_eq, map_unplaced_positionAll ss _, placed.follow.isSome_position, ?_,
    placed.follow.positionAll_eq _⟩
  exact placed.keep fun s _ => keeps_placeAt s

end QueryLint.Segment
