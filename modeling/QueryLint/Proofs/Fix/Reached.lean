import QueryLint.Proofs.Fix.Words
import QueryLint.Proofs.Parse
import QueryLint.Proofs.Token.Placed

/-!
QueryLint.Proofs.Fix.Reached — trees that fixes lead to.

Fixes are made in a tree again and again, each time with another plan. The root of a tree stays
what it is, and where it is. Every segment of the tree that is reached comes from the tree or from a
plan, and only its position may be new. So if neither the tree nor the plans bring in source fixes,
there are none in any tree that is reached.

* `Segment.every_applyWithin` — what holds of all segments of a tree and of a plan still holds when
  the fixes are made.
* `Segment.FixedFrom` — the trees that plans without source fixes lead to.
* `Segment.FixedFrom.info_eq` — the root of a tree stays as it is.
* `Segment.FixedFrom.sourceFixes` — no source fixes come up.
-/

namespace QueryLint

open Segment

variable {P : SegmentInfo → Prop}

/-! ## 1. Plans -/

/-- The segments that a plan brings in, and all inside them, have a property. -/
def FixPlan.Brings (P : SegmentInfo → Prop) (plan : FixPlan) : Prop :=
  ∀ g ∈ plan, ∀ x ∈ g.2.fixes, ∀ s ∈ x.new, Every P s

namespace FixPlan

theorem take_subset (id : Nat) (plan : FixPlan) :
    (∀ h ∈ (plan.take id).2, h ∈ plan) ∧
      ∀ g, (plan.take id).1 = some g → ∃ k, (k, g) ∈ plan := by
  induction plan with
  | nil => exact ⟨by simp [take], by simp [take]⟩
  | cons h plan ih =>
    obtain ⟨k, g⟩ := h
    rw [take]
    split
    · refine ⟨fun h hh => List.mem_cons_of_mem _ hh, fun g' hg' => ⟨k, ?_⟩⟩
      rw [Option.some.inj hg']
      exact List.mem_cons_self ..
    · refine ⟨fun h hh => ?_, fun g' hg' => ?_⟩
      · rcases List.mem_cons.1 hh with rfl | hh
        · exact List.mem_cons_self ..
        · exact List.mem_cons_of_mem _ (ih.1 h hh)
      · obtain ⟨k', hk'⟩ := ih.2 g' hg'
        exact ⟨k', List.mem_cons_of_mem _ hk'⟩

end FixPlan

theorem takeAll_subset (plan : FixPlan) (ss : List Segment) :
    (∀ h ∈ (takeAll plan ss).2, h ∈ plan) ∧
      ∀ f ∈ (takeAll plan ss).1, f.2 ∈ ss ∧ ∀ g, f.1 = some g → ∃ k, (k, g) ∈ plan := by
  induction ss generalizing plan with
  | nil => exact ⟨fun h hh => hh, by simp [takeAll]⟩
  | cons s ss ih =>
    obtain ⟨hleft, hgroup⟩ := plan.take_subset s.id
    obtain ⟨hlast, hfound⟩ := ih (plan.take s.id).2
    rw [takeAll]
    refine ⟨fun h hh => hleft h (hlast h hh), fun f hf => ?_⟩
    rcases List.mem_cons.1 hf with rfl | hf
    · exact ⟨List.mem_cons_self .., hgroup⟩
    · obtain ⟨hmem, hf'⟩ := hfound f hf
      refine ⟨List.mem_cons_of_mem _ hmem, fun g hg => ?_⟩
      obtain ⟨k, hk⟩ := hf' g hg
      exact ⟨k, hleft _ hk⟩

/-! ## 2. What becomes of an anchor -/

theorem map_unplaced_placeFirst (anchor : Segment) (new : List Segment) :
    (placeFirst anchor new).map unplaced = new.map unplaced := by
  induction new with
  | nil => rfl
  | cons s new ih =>
    rw [placeFirst]
    split
    · rw [List.map_cons, List.map_cons, unplaced_withPosition]
    · rw [List.map_cons, List.map_cons, ih]

namespace Segment

mutual

theorem every_unplaced (hP : IsPlaceless P) (s : Segment) : Every P s.unplaced ↔ Every P s := by
  match s with
  | mk i cs =>
    have inside := forall_every_unplacedAll hP cs
    rw [unplaced]
    constructor
    · intro h
      exact .mk ((hP i none).1 h.own) (inside.1 h.inside)
    · intro h
      exact .mk ((hP i none).2 h.own) (inside.2 h.inside)

theorem forall_every_unplacedAll (hP : IsPlaceless P) (ss : List Segment) :
    (∀ s ∈ unplacedAll ss, Every P s) ↔ ∀ s ∈ ss, Every P s := by
  match ss with
  | [] => rw [unplacedAll]
  | s :: rest =>
    rw [unplacedAll, List.forall_mem_cons, List.forall_mem_cons, every_unplaced hP s,
      forall_every_unplacedAll hP rest]

end

/-- What holds of segments regardless of positions holds of others that are like them. -/
theorem Alike.forall {ss us : List Segment} (h : Alike ss us) {P : Segment → Prop}
    (hP : ∀ s : Segment, P s.unplaced ↔ P s) (hus : ∀ u ∈ us, P u) : ∀ s ∈ ss, P s := by
  intro s hs
  have member : s.unplaced ∈ us.map unplaced := h ▸ List.mem_map_of_mem hs
  obtain ⟨u, hu, heq⟩ := List.mem_map.1 member
  rw [← hP, ← heq, hP]
  exact hus u hu

end Segment

/-- An anchor is replaced by itself and by what fixes bring in. -/
theorem Fix.every_inPlaceOf (hP : IsPlaceless P) {anchor : Segment} (ha : Every P anchor) {x : Fix}
    (new : ∀ s ∈ x.new, Every P s) (alone : Bool) :
    ∀ s ∈ x.inPlaceOf anchor alone, Every P s := by
  unfold Fix.new at new
  unfold Fix.inPlaceOf
  cases hedit : x.edit with
  | delete => simp
  | replace ss =>
    rw [hedit] at new
    have alike : Alike (placeFirst anchor ss) ss := map_unplaced_placeFirst anchor ss
    exact alike.forall (every_unplaced hP) new
  | insertBefore ss =>
    rw [hedit] at new
    intro s hs
    rcases List.mem_append.1 hs with hs | hs
    · exact new s hs
    · rw [List.mem_singleton.1 hs]
      exact ha
  | insertAfter ss =>
    rw [hedit] at new
    intro s hs
    rcases List.mem_append.1 hs with hs | hs
    · split at hs
      · rw [List.mem_singleton.1 hs]
        exact ha
      · cases hs
    · exact new s hs

theorem FixGroup.mem_ordered {g : FixGroup} {x : Fix} : x ∈ g.ordered ↔ x ∈ g.fixes := by
  unfold FixGroup.ordered
  split
  · next x y h =>
    rw [h]
    split
    · simp [or_comm]
    · rfl
  · rfl

theorem every_piecesOf (hP : IsPlaceless P) {plan : FixPlan} (hplan : plan.Brings P)
    {ss : List Segment} (hss : ∀ s ∈ ss, Every P s) :
    ∀ s ∈ piecesOf (takeAll plan ss).1, Every P s := by
  intro s hs
  obtain ⟨⟨group, c⟩, hf, hs⟩ := List.mem_flatMap.1 hs
  obtain ⟨hc, hgroup⟩ := (takeAll_subset plan ss).2 _ hf
  cases group with
  | none =>
    rw [List.mem_singleton.1 hs]
    exact hss c hc
  | some g =>
    obtain ⟨k, hk⟩ := hgroup g rfl
    obtain ⟨x, hx, hs⟩ := List.mem_flatMap.1 hs
    exact x.every_inPlaceOf hP (hss c hc) (hplan _ hk x (FixGroup.mem_ordered.1 hx)) _ s hs

/-! ## 3. One node -/

/-- What is at the edges of a node and what is between them are its segments. -/
theorem mem_of_splitEdges {cs before kept after : List Segment}
    (h : (before, kept, after) = splitEdges cs) :
    ∀ s ∈ before ++ kept ++ after, s ∈ cs := by
  have front := List.takeWhile_sublist (l := cs) (!·.isCode)
  have rest := List.dropWhile_sublist (l := cs) (!·.isCode)
  have back := (List.takeWhile_sublist (l := (cs.dropWhile (!·.isCode)).reverse) (!·.isCode))
  have middle := (List.dropWhile_sublist (l := (cs.dropWhile (!·.isCode)).reverse) (!·.isCode))
  simp only [splitEdges, Prod.mk.injEq] at h
  obtain ⟨rfl, rfl, rfl⟩ := h
  intro s hs
  simp only [List.mem_append, List.mem_filter, List.mem_reverse] at hs
  have inRest (hs : s ∈ (cs.dropWhile (!·.isCode)).reverse) : s ∈ cs :=
    rest.subset (List.mem_reverse.1 hs)
  rcases hs with (hs | (hs | hs) | hs) | hs
  · exact front.subset hs.1
  · exact front.subset hs.1
  · exact inRest (middle.subset hs)
  · exact inRest (back.subset hs.1)
  · exact inRest (back.subset hs.1)

namespace Segment

theorem IsRebuilt.every {s : Segment} {cs : List Segment} {a : Applied} (h : IsRebuilt s cs a)
    (hP : IsPlaceless P) (hs : P s.info) (hcs : ∀ c ∈ cs, Every P c) :
    ∀ x ∈ a.all, Every P x := by
  obtain ⟨kept, halike, hedges⟩ := h.edges
  have parts : ∀ x ∈ a.before ++ kept ++ a.after, x ∈ cs := by
    split at hedges
    · simp only [Prod.mk.injEq] at hedges
      obtain ⟨hb, hk, ha⟩ := hedges
      rw [hb, hk, ha]
      simp
    · exact mem_of_splitEdges hedges
  have inside := halike.forall (every_unplaced hP) fun c hc => hcs c (parts c (by simp [hc]))
  intro x hx
  rcases List.mem_append.1 hx with hx | hx
  · exact hcs x (parts x (by simp [hx]))
  · rcases List.mem_cons.1 hx with rfl | hx
    · exact .of_children (by rwa [h.info_eq]) inside
    · exact hcs x (parts x (by simp [hx]))

/-! ## 4. Whole trees -/

/-- The root of a tree stays as it is. -/
theorem info_applyWithin (p : Parser) (fuel : Nat) (s : Segment) (plan : FixPlan) :
    Runs (applyWithin p fuel s) plan fun a _ => a.segment.info = s.info := by
  cases fuel with
  | zero => exact .pure rfl
  | succ fuel => exact runs_applyWithin (fun _ => rfl) fun _ _ _ _ _ ha => ha.info_eq

/-- What holds of all segments of a tree and of a plan, wherever they are, holds of all that making
the fixes leaves. -/
theorem every_applyWithin (hP : IsPlaceless P) (p : Parser) (fuel : Nat) {s : Segment}
    (hs : Every P s) {plan : FixPlan} (hplan : plan.Brings P) :
    Runs (applyWithin p fuel s) plan fun a left =>
      (∀ x ∈ a.all, Every P x) ∧ left.Brings P := by
  have same : ∀ x ∈ ({ segment := s } : Applied).all, Every P x := by
    simpa [Applied.all] using hs
  induction fuel generalizing s plan with
  | zero => exact .pure ⟨same, hplan⟩
  | succ fuel ih =>
    refine runs_applyWithin (fun _ => ⟨same, hplan⟩) fun _ placed halike => ?_
    have pieces := halike.forall (every_unplaced hP) (every_piecesOf hP hplan hs.inside)
    have left : (takeAll plan s.children).2.Brings P :=
      fun g hg => hplan g ((takeAll_subset plan s.children).1 g hg)
    have below : ∀ x ∈ placed, ∀ plan : FixPlan, plan.Brings P → Runs (applyWithin p fuel x) plan
        fun a left => (∀ y ∈ a.all, Every P y) ∧ left.Brings P := fun x hx plan hplan =>
      ih (pieces x hx) hplan (by simpa [Applied.all] using pieces x hx)
    refine (Runs.mapM below left).mono fun inner left hinner a ha => ⟨?_, hinner.2⟩
    refine ha.every hP hs.own fun c hc => ?_
    obtain ⟨b, hb, hc⟩ := List.mem_flatMap.1 hc
    exact hinner.1 b hb c hc

/-- What holds of all segments of a tree and of a plan holds of the fixed tree. -/
theorem every_applyFixes (hP : IsPlaceless P) (p : Parser) {s : Segment} (hs : Every P s)
    {plan : FixPlan} (hplan : plan.Brings P) (n : Nat) :
    Every P ((s.applyFixes p plan).run n).1.1.segment :=
  (every_applyWithin hP p _ hs hplan n).1 _ (List.mem_append_right _ (List.mem_cons_self ..))

/-! ## 5. Source fixes -/

/-- It has no source fixes, and nothing inside it has. -/
def IsPlain (s : Segment) : Prop := s.sourceFixes = []

theorem isPlain_iff (s : Segment) :
    s.IsPlain ↔ s.info.sourceFixes = [] ∧ ∀ c ∈ s.children, c.IsPlain := by
  cases s with
  | mk i cs =>
    rw [IsPlain, sourceFixes, List.append_eq_nil_iff]
    exact and_congr_right' ⟨sourceFixes_eq_nil_of_all, sourceFixesAll_eq_nil⟩

mutual

theorem every_of_isPlain (s : Segment) (h : s.IsPlain) : Every (·.sourceFixes = []) s := by
  match s with
  | mk i cs =>
    exact .mk ((isPlain_iff _).1 h).1 (forall_every_of_isPlain cs ((isPlain_iff _).1 h).2)

theorem forall_every_of_isPlain (ss : List Segment) (h : ∀ s ∈ ss, s.IsPlain) :
    ∀ s ∈ ss, Every (·.sourceFixes = []) s := by
  match ss with
  | [] => exact fun s hs => by cases hs
  | s :: rest =>
    obtain ⟨hs, hrest⟩ := List.forall_mem_cons.1 h
    exact List.forall_mem_cons.2 ⟨every_of_isPlain s hs, forall_every_of_isPlain rest hrest⟩

end

theorem isPlain_of_every {s : Segment} (h : Every (·.sourceFixes = []) s) : s.IsPlain := by
  induction h with
  | mk own _ ih => exact (isPlain_iff _).2 ⟨own, ih⟩

end Segment

/-- The segments that a plan brings in carry no source fixes. -/
def FixPlan.IsPlain (plan : FixPlan) : Prop := ∀ g ∈ plan, ∀ x ∈ g.2.fixes, x.sourceFixes = []

theorem FixPlan.IsPlain.brings {plan : FixPlan} (h : plan.IsPlain) :
    plan.Brings (·.sourceFixes = []) :=
  fun g hg x hx => forall_every_of_isPlain _ (sourceFixes_eq_nil_of_all (h g hg x hx))

namespace Segment

/-- The trees that a tree is led to by plans without source fixes, one after the other. -/
inductive FixedFrom (p : Parser) (tree : Segment) : Segment → Prop where
  | refl : FixedFrom p tree tree
  | step {s : Segment} (plan : FixPlan) (n : Nat) (h : FixedFrom p tree s)
      (hplan : plan.IsPlain) :
      FixedFrom p tree ((s.applyFixes p plan).run n).1.1.segment

namespace FixedFrom

variable {p : Parser} {tree s : Segment}

/-- The root stays what it is and where it is. -/
theorem info_eq (h : FixedFrom p tree s) : s.info = tree.info := by
  induction h with
  | refl => rfl
  | step plan n _ _ ih => exact (info_applyWithin p _ _ plan n).trans ih

/-- A tree without source fixes is led to trees without any. -/
theorem isPlain (h : FixedFrom p tree s) (htree : tree.IsPlain) : s.IsPlain := by
  induction h with
  | refl => exact htree
  | step plan n _ hplan ih =>
    exact isPlain_of_every
      (every_applyFixes (fun _ _ => Iff.rfl) p (every_of_isPlain _ ih) hplan.brings n)

end FixedFrom

/-- The tree that a file is parsed to has no source fixes. -/
theorem isPlain_parse (p : Parser) (rules : List LexRule) (blocks : BlocksIndent)
    (f : TemplatedFile) (n m : Nat) :
    ((p.parse ((lex rules blocks f).run n).1.segments).run m).1.tree.IsPlain := by
  have tokens : Match.PlacedIn (fun _ => True) ((lex rules blocks f).run n).1.segments :=
    (meets_lex rules blocks f n (Nat.le_refl n)).1
  generalize ((lex rules blocks f).run n).1.segments = ts at tokens ⊢
  have taken : Match.PlacedIn (fun _ => True) (p.taken ts) :=
    tokens.mono fun t ht => (List.mem_append.1 ht).elim List.mem_of_mem_take List.mem_of_mem_drop
  have tree := (Parser.meets_parse_occupies p ts Position.isRegion_true taken m (Nat.le_refl m)).1.1
  exact (tree.allIn _ (List.mem_singleton.2 rfl)).sourceFixes

end Segment

end QueryLint
