import QueryLint.Proofs.Segment.Placing

/-!
QueryLint.Proofs.Segment.LaidOut — how far a move reaches.

A segment is laid out if its first child has its working place, each next child has the place that
the text before it leads to, and all children are laid out. Fixes take segments out of a list and
put new ones in, and placing moves what comes behind. It moves a segment itself, but not what is
inside: there it starts with the first child that has a position, and this one says that all is
where it was. So siblings follow one another at every depth, but the children of a segment that was
moved do not follow from its place.

* `Segment.LaidOut` — a segment of which all inside follows from its own place.
* `Segment.Aligned` — siblings follow one another at every depth, from wherever.
* `Segment.Sound` — segments as fixes leave them: laid out, or new.
* `Segment.Stays` — a segment that is laid out where it is placed.
* `positionAll_laidOut_unless_moved` — placing lays out what does not move, and what has no child.
-/

namespace QueryLint.Segment

variable {n : Nat} {place : Place} {p q : Position} {s t : Segment} {ss ts : List Segment}

/-! ## 1. Segments that are laid out -/

/-- A segment with a position from which its children follow, at every depth. -/
inductive LaidOut : Segment → Prop where
  | mk {i : SegmentInfo} {cs : List Segment} {p : Position} (position : i.position = some p)
      (follow : Follow p.working cs) (inside : ∀ c ∈ cs, LaidOut c) : LaidOut (.mk i cs)

theorem laidOut_iff_of_position (h : s.position = some p) :
    s.LaidOut ↔ Follow p.working s.children ∧ ∀ c ∈ s.children, c.LaidOut := by
  constructor
  · intro hs
    cases hs with
    | mk position follow inside =>
      obtain rfl := Option.some.inj (position.symm.trans h)
      exact ⟨follow, inside⟩
  · intro hs
    cases s with
    | mk i cs => exact .mk h hs.1 hs.2

/-- The first child of a laid out segment with children is where the segment is. -/
theorem LaidOut.startPlace_eq (h : s.LaidOut) (hp : s.position = some p) :
    startPlace s.children (some p) = p.working := by
  have follow := ((laidOut_iff_of_position hp).1 h).1
  cases hcs : s.children with
  | nil => rfl
  | cons c cs =>
    rw [hcs] at follow
    exact follow.startPlace_eq _

/-- A segment in which siblings follow one another at every depth, from some place. -/
inductive Aligned : Segment → Prop where
  | mk {i : SegmentInfo} {cs : List Segment} {place : Place} (follow : Follow place cs)
      (inside : ∀ c ∈ cs, Aligned c) : Aligned (.mk i cs)

theorem LaidOut.aligned (h : s.LaidOut) : s.Aligned := by
  induction h with
  | mk _ follow _ ih => exact .mk follow ih

/-- A segment as fixes leave it: laid out, or without a position, and then with such segments
inside. -/
inductive Sound : Segment → Prop where
  | laidOut {s : Segment} (h : s.LaidOut) : Sound s
  | new {i : SegmentInfo} {cs : List Segment} (position : i.position = none)
      (inside : ∀ c ∈ cs, Sound c) : Sound (.mk i cs)

mutual

/-- A segment is laid out where it is placed: it is there and laid out already, or else the first of
its children with a position is there, and all children are laid out where the text before them
leads to. -/
def Stays (place : Place) : Segment → Prop
  | .mk i cs =>
    if i.position.map (·.working) = some place then LaidOut (.mk i cs)
    else (∀ p, cs.findSome? (·.position) = some p → p.working = place) ∧ Stay place cs

/-- Segments are laid out where the text before them leads to, from a place on. -/
def Stay (place : Place) : List Segment → Prop
  | [] => True
  | s :: ss => s.Stays place ∧ Stay (place.after s.raw) ss

end

/-! ## 2. From which place segments follow -/

/-- A list follows from one place, if there is anything in it. -/
theorem Follow.iff_eq {place' : Place} (h : Follow place ss) :
    Follow place' ss ↔ ss = [] ∨ place = place' := by
  constructor
  · intro h'
    cases h with
    | nil => exact .inl rfl
    | cons position _ =>
      cases h' with
      | cons position' _ =>
        rw [Option.some.inj (position.symm.trans position')]
        exact .inr rfl
  · rintro (rfl | rfl)
    · exact .nil _
    · exact h

theorem startPlace_eq_iff (ss : List Segment) (q : Position) :
    startPlace ss (some q) = q.working ↔
      ∀ p, ss.findSome? (·.position) = some p → p.working = q.working := by
  unfold startPlace
  cases ss.findSome? (·.position) with
  | none => simp
  | some p => simp

/-- Under a parent, segments follow from its place if the first that had a position had it there. -/
theorem follow_positionAll_iff (ss : List Segment) (q : Position) :
    Follow q.working (positionAll ss (some q)) ↔
      ∀ p, ss.findSome? (·.position) = some p → p.working = q.working := by
  have placed := placed_positionAll ss q
  rw [← startPlace_eq_iff, placed.follow.iff_eq]
  constructor
  · rintro (none | start)
    · obtain rfl : ss = [] := by simpa [none] using placed.length_eq.symm
      rfl
    · exact start
  · exact .inr

/-! ## 3. Segments that are placed -/

theorem Placed.laidOut_iff (h : Placed place n ss ts)
    (each : ∀ s ∈ ss, ∀ p, (∀ r, s.position = some r → p = r.moved p.working) →
      ((placeAt p s).LaidOut ↔ s.Stays p.working)) :
    (∀ t ∈ ts, t.LaidOut) ↔ Stay place ss := by
  induction h with
  | nil => simp [Stay]
  | @cons place n p s ss ts kept _ _ ih =>
    obtain ⟨own, each⟩ := List.forall_mem_cons.1 each
    have moved : ∀ r, s.position = some r → p.moved place = r.moved place :=
      fun r hr => by rw [kept r hr]
    rw [List.forall_mem_cons, Stay, own _ moved, ih each]
    rfl

/-- Where a segment is laid out once it is placed, whatever it was before. -/
theorem laidOut_placeAt_iff (s : Segment) : ∀ p : Position,
    (∀ r, s.position = some r → p = r.moved p.working) →
    ((placeAt p s).LaidOut ↔ s.Stays p.working) := by
  induction s using Segment.induction with
  | mk i cs ih =>
    intro p kept
    rw [Stays]
    by_cases same : i.position.map (·.working) = some p.working
    · obtain ⟨r, hr, working⟩ := Option.map_eq_some_iff.1 same
      have hp : (Segment.mk i cs).position = some p := by
        rw [kept r hr, ← working]
        exact hr
      rw [if_pos same, placeAt_of_position hp]
    · have hp : (Segment.mk i cs).position ≠ some p := by
        intro hp
        exact same (congrArg (Option.map (·.working)) hp)
      have children : (placeAt p (.mk i cs)).children = positionAll cs (some p) := by
        rw [placeAt_eq, if_neg hp]
        rfl
      rw [if_neg same, laidOut_iff_of_position (position_placeAt p _), children,
        follow_positionAll_iff, (placed_positionAll cs p).laidOut_iff ih]
      refine and_congr_right fun start => ?_
      rw [(startPlace_eq_iff cs p).2 start]

/-- A laid out segment is moved without its children. -/
theorem children_placeAt_of_laidOut (h : s.LaidOut) (p : Position) :
    (placeAt p s).children = s.children := by
  rw [placeAt_eq]
  split
  · rfl
  · cases h with
    | mk _ follow _ => exact follow.positionAll_eq _

/-- So it is laid out only if it did not move, or has none. -/
theorem LaidOut.placeAt_iff (h : s.LaidOut) (p : Position)
    (kept : ∀ r, s.position = some r → p = r.moved p.working) :
    (placeAt p s).LaidOut ↔ s.children = [] ∨ s.position = some p := by
  rw [laidOut_iff_of_position (position_placeAt p s), children_placeAt_of_laidOut h]
  cases h with
  | @mk i cs q position follow inside =>
    change (Follow p.working cs ∧ ∀ c ∈ cs, c.LaidOut) ↔ cs = [] ∨ i.position = some p
    rw [and_iff_left inside, follow.iff_eq, position, Option.some_inj]
    refine or_congr_right ⟨fun working => ?_, fun same => by rw [same]⟩
    rw [kept q position, ← working]
    rfl

/-- Siblings follow one another at every depth of a segment that was placed. -/
theorem Sound.aligned_placeAt (h : s.Sound) (p : Position) : (placeAt p s).Aligned := by
  induction h generalizing p with
  | @laidOut s h =>
    have children := children_placeAt_of_laidOut h p
    cases h with
    | @mk i cs q position follow inside =>
      generalize placeAt p (.mk i cs) = t at children
      cases t with
      | mk j ds =>
        obtain rfl : ds = cs := children
        exact .mk follow fun c hc => (inside c hc).aligned
  | @new i cs position inside ih =>
    have moved : (Segment.mk i cs).position ≠ some p := by
      intro hp
      rw [show (Segment.mk i cs).position = none from position] at hp
      cases hp
    rw [placeAt_eq, if_neg moved]
    have placed := placed_positionAll cs p
    exact .mk placed.follow (placed.forall_of ih)

/-! ## 4. Placing -/

/-- Placed segments follow one another, and if the first that had a position had it where the parent
is, they follow from there. In a laid out or new segment siblings do so at every depth. A segment
that was laid out still is, if it has no children or was not moved, and else is not; in general, it
is where it stays. -/
theorem positionAll_laidOut_unless_moved (ss : List Segment) (q : Position) :
    Follow (startPlace ss (some q)) (positionAll ss (some q)) ∧
      (Follow q.working (positionAll ss (some q)) ↔
        ∀ p, ss.findSome? (·.position) = some p → p.working = q.working) ∧
      ∀ before s after, ss = before ++ s :: after →
        ∃ t p, (positionAll ss (some q))[before.length]? = some t ∧ t.position = some p ∧
          p.working = (startPlace ss (some q)).after (rawAll before) ∧
          (s.Sound → t.Aligned) ∧ (t.LaidOut ↔ s.Stays p.working) ∧
          (s.LaidOut → (t.LaidOut ↔ s.children = [] ∨ s.position = some p)) := by
  have placed := placed_positionAll ss q
  refine ⟨placed.follow, follow_positionAll_iff ss q, ?_⟩
  intro before s after hss
  obtain ⟨p, working, kept, found⟩ := placed.getElem?_eq hss
  refine ⟨_, p, found, position_placeAt p s, working, ?_, ?_, ?_⟩
  · intro sound
    exact sound.aligned_placeAt p
  · exact laidOut_placeAt_iff s p kept
  · intro laidOut
    exact laidOut.placeAt_iff p kept

/-- The position of literal text in the first line. -/
def onLine (start stop : Nat) : Position :=
  .ofSpans (.between start stop) (.between start stop) ⟨1, start + 1⟩ true

/-- A word with a position, or a new one. -/
def word (id : Nat) (text : String) (p : Option Position) : Segment :=
  .mk ⟨.token text .ofCode none, "word", ["word"], id, p, []⟩ []

/-- A node over the second letter of a line. -/
def secondLetter : Segment :=
  .mk ⟨.node none, "letter", ["letter"], 1, some (onLine 1 2), []⟩ [word 2 "b" (some (onLine 1 2))]

theorem laidOut_word (id : Nat) (text : String) (p : Position) :
    (word id text (some p)).LaidOut :=
  .mk rfl (.nil _) (by simp)

theorem laidOut_secondLetter : secondLetter.LaidOut := by
  refine .mk rfl (.cons rfl (.nil _)) ?_
  intro c hc
  rw [List.mem_singleton.1 hc]
  exact laidOut_word 2 "b" _

/-- New text that is empty moves nothing. -/
theorem positionAll_laidOut_unless_moved_empty :
    ∃ t, (positionAll [word 0 "a" (some (onLine 0 1)), word 3 "" none, secondLetter]
      (some (onLine 0 2)))[2]? = some t ∧ t.Aligned ∧ t.LaidOut := by
  have placed := positionAll_laidOut_unless_moved
    [word 0 "a" (some (onLine 0 1)), word 3 "" none, secondLetter] (onLine 0 2)
  obtain ⟨t, p, found, position, -, aligned, -, laidOut⟩ := placed.2.2
    [word 0 "a" (some (onLine 0 1)), word 3 "" none] secondLetter [] rfl
  have stays : (positionAll [word 0 "a" (some (onLine 0 1)), word 3 "" none, secondLetter]
      (some (onLine 0 2)))[2]?.bind (·.position) = secondLetter.position := by decide +kernel
  refine ⟨t, found, aligned (.laidOut laidOut_secondLetter), ?_⟩
  refine (laidOut laidOut_secondLetter).2 (.inr ?_)
  rw [← stays, ← position]
  exact congrArg (Option.bind · _) found

/-- New text between two letters moves the node of the second, and not what is inside. -/
theorem positionAll_leaves_children :
    Follow ⟨1, 1⟩ [word 0 "a" (some (onLine 0 1)), secondLetter] ∧
      (∀ s ∈ [word 0 "a" (some (onLine 0 1)), secondLetter], s.LaidOut) ∧
      ¬ ∀ t ∈ positionAll [word 0 "a" (some (onLine 0 1)), word 3 "x" none, secondLetter]
        (some (onLine 0 2)), t.LaidOut := by
  have follow : Follow ⟨1, 1⟩ [word 0 "a" (some (onLine 0 1)), secondLetter] :=
    .cons (p := onLine 0 1) rfl (.cons (p := onLine 1 2) rfl (.nil _))
  refine ⟨follow, by simp [laidOut_word, laidOut_secondLetter], ?_⟩
  intro all
  have starts : ∀ t ∈ positionAll [word 0 "a" (some (onLine 0 1)), word 3 "x" none, secondLetter]
      (some (onLine 0 2)), ∀ p ∈ t.position, startPlace t.children (some p) = p.working :=
    fun t ht p hp => (all t ht).startPlace_eq hp
  revert starts
  decide +kernel

end QueryLint.Segment
