import Mathlib.Data.List.Basic
import QueryLint.Fix.Apply
import QueryLint.Proofs.Fix.Reached
import QueryLint.Proofs.Parse.Renamed
import QueryLint.Proofs.Segment.Renamed

/-!
QueryLint.Proofs.Fix.Renamed — fixes in a tree with other identities.

A fix names its anchor by its identity. If the anchors and the tree take on other identities
together, the same fixes are grouped, the same anchors are found, and the same tree comes out with
other identities. Whether it has the form it should is the same.

Grouping fixes may draw identities, and so may checking the form of a tree. Otherwise all identities
of a fixed tree come from the tree or from a fix. So if those have been drawn, a fixed tree has only
identities that have been drawn.

* `Fix.same_renamed`, `safeFixes_renamed` — fixes are told apart and judged alike.
* `FixPlan.carries_ofFixes` — fixes are grouped alike.
* `Segment.carries_applyFixes` — fixes are made alike.
* `Fix.DrawnBefore`, `FixPlan.DrawnBefore` — what a fix or a plan brings in has been drawn.
* `FixPlan.draws_ofFixes` — grouping fixes.
* `Segment.draws_applyFixes` — making fixes.
-/

namespace QueryLint

open Segment

variable {ρ : Renaming}

/-! ## 1. Fixes -/

/-- An edit that brings in segments with other identities. -/
def Edit.renamed (ρ : Renaming) : Edit → Edit
  | insertBefore new => insertBefore (new.map (Segment.renamed ρ))
  | insertAfter new => insertAfter (new.map (Segment.renamed ρ))
  | replace new => replace (new.map (Segment.renamed ρ))
  | delete => delete

namespace Edit

variable (e : Edit)

@[simp] theorem new_renamed : (e.renamed ρ).new = e.new.map (Segment.renamed ρ) := by
  cases e <;> rfl

@[simp] theorem name_renamed : (e.renamed ρ).name = e.name := by cases e <;> rfl

@[simp] theorem isReplace_renamed : (e.renamed ρ).isReplace = e.isReplace := by cases e <;> rfl

@[simp] theorem isInsertBefore_renamed : (e.renamed ρ).isInsertBefore = e.isInsertBefore := by
  cases e <;> rfl

@[simp] theorem isInsertAfter_renamed : (e.renamed ρ).isInsertAfter = e.isInsertAfter := by
  cases e <;> rfl

@[simp] theorem isInsertion_renamed : (e.renamed ρ).isInsertion = e.isInsertion := by
  simp [isInsertion]

end Edit

/-- A fix of segments with other identities. -/
def Fix.renamed (ρ : Renaming) (x : Fix) : Fix :=
  ⟨x.edit.renamed ρ, x.anchor.renamed ρ, x.origins.map (Segment.renamed ρ)⟩

namespace Fix

variable (x y : Fix)

@[simp] theorem edit_renamed : (x.renamed ρ).edit = x.edit.renamed ρ := rfl

@[simp] theorem anchor_renamed : (x.renamed ρ).anchor = x.anchor.renamed ρ := rfl

@[simp] theorem new_renamed : (x.renamed ρ).new = x.new.map (Segment.renamed ρ) := by simp [new]

@[simp] theorem sourceFixes_renamed : (x.renamed ρ).sourceFixes = x.sourceFixes := by
  simp [sourceFixes]

@[simp] theorem keepsText_renamed : (x.renamed ρ).keepsText = x.keepsText := by
  rcases x with ⟨_ | _ | (_ | ⟨s, _ | _⟩) | _, anchor, origins⟩ <;>
    simp [keepsText, Fix.renamed, Edit.renamed]

@[simp] theorem isTrivial_renamed : (x.renamed ρ).isTrivial = x.isTrivial := by
  rcases x with ⟨_ | _ | (_ | ⟨s, _ | _⟩) | _, anchor, origins⟩ <;>
    simp [isTrivial, Fix.renamed, Edit.renamed]

@[simp] theorem isSourceOnly_renamed : (x.renamed ρ).isSourceOnly = x.isSourceOnly := by
  simp [isSourceOnly]

/-- Fixes do the same exactly if they do with other identities. -/
@[simp] theorem same_renamed : (x.renamed ρ).same (y.renamed ρ) = x.same y := by
  have ids : (ρ.image x.anchor.id == ρ.image y.anchor.id) = (x.anchor.id == y.anchor.id) := by
    rw [Bool.eq_iff_iff, beq_iff_eq, beq_iff_eq, ρ.image_inj]
  simp [same, ids, Function.comp_def]

/-! ## 2. The source that fixes reach -/

@[simp] theorem spans_renamed (within : Bool) (p : Position) :
    (x.renamed ρ).spans within p = x.spans within p := by
  unfold spans
  rw [isSourceOnly_renamed, sourceFixes_renamed, edit_renamed]
  cases x.edit <;> rfl

@[simp] theorem touched_renamed (f : TemplatedFile) (within : Bool) :
    (x.renamed ρ).touched f within = x.touched f within := by
  simp [touched]

@[simp] theorem conflicts_renamed (f : TemplatedFile) :
    (x.renamed ρ).conflicts f = x.conflicts f := by
  have origins : (x.renamed ρ).origins.filterMap (fun s => s.position.map (some ·.templated)) =
      x.origins.filterMap fun s => s.position.map (some ·.templated) := by
    rw [Fix.renamed, List.filterMap_map]
    exact List.filterMap_congr fun s _ => by simp
  simp only [conflicts, touched_renamed, isSourceOnly_renamed, edit_renamed,
    Edit.isInsertion_renamed, origins]

@[simp] theorem blocks_renamed (f : TemplatedFile) : (x.renamed ρ).blocks f = x.blocks f := by
  simp only [blocks, touched_renamed]

end Fix

/-- Fixes may all be made exactly if they may with other identities. -/
theorem safeFixes_renamed (f : TemplatedFile) (fixes : List Fix) :
    safeFixes f (fixes.map (Fix.renamed ρ)) = (safeFixes f fixes).map (Fix.renamed ρ) := by
  have judged : isUnsafe f (fixes.map (Fix.renamed ρ)) = isUnsafe f fixes := by
    simp [isUnsafe, List.flatMap_map, Function.comp_def]
  rw [safeFixes, safeFixes, judged]
  split <;> rfl

/-! ## 3. Groups and plans -/

/-- The fixes of an anchor with another identity. -/
def FixGroup.renamed (ρ : Renaming) (g : FixGroup) : FixGroup :=
  { g with fixes := g.fixes.map (Fix.renamed ρ) }

namespace FixGroup

variable (g : FixGroup) (x : Fix)

@[simp] theorem fixes_renamed : (g.renamed ρ).fixes = g.fixes.map (Fix.renamed ρ) := rfl

@[simp] theorem sourceFixes_renamed : (g.renamed ρ).sourceFixes = g.sourceFixes := rfl

@[simp] theorem size_renamed : (g.renamed ρ).size = g.size := by simp [size]

@[simp] theorem isValid_renamed : (g.renamed ρ).isValid = g.isValid := by
  simp [isValid, List.any_map, Function.comp_def]

theorem firstReplace?_renamed (fixes : List Fix) :
    firstReplace? (fixes.map (Fix.renamed ρ)) = (firstReplace? fixes).map (Fix.renamed ρ) := by
  simp [firstReplace?, List.find?_map, Function.comp_def]

theorem setFirstReplace_renamed (fixes : List Fix) :
    setFirstReplace (x.renamed ρ) (fixes.map (Fix.renamed ρ)) =
      (setFirstReplace x fixes).map (Fix.renamed ρ) := by
  induction fixes with
  | nil => rfl
  | cons y fixes ih =>
    rw [List.map_cons, setFirstReplace, setFirstReplace, ih, Fix.edit_renamed,
      Edit.isReplace_renamed]
    split <;> rfl

theorem carries_carrying (extra : List SourceFix) :
    ρ.Carries (Fix.renamed ρ) (carrying extra x) (carrying extra (x.renamed ρ)) := by
  obtain ⟨edit, anchor, origins⟩ := x
  unfold carrying
  cases edit with
  | replace new =>
    cases new with
    | nil => exact .pure rfl
    | cons s more =>
      show Renaming.Carries _ _ _ (do
        let t ← (s.renamed ρ).edit none
          (some (mergeSourceFixes (s.renamed ρ).ownSourceFixes extra))
        return _)
      rw [ownSourceFixes_renamed]
      exact (carries_edit s none _).map fun _ => rfl
  | insertBefore new | insertAfter new | delete => exact .pure rfl

theorem carries_condense :
    ρ.Carries (FixGroup.renamed ρ) (g.condense x) ((g.renamed ρ).condense (x.renamed ρ)) :=
  (carries_carrying x g.sourceFixes).map fun y => by
    rw [fixes_renamed, setFirstReplace_renamed]
    rfl

theorem carries_add :
    ρ.Carries (FixGroup.renamed ρ) (g.add x) ((g.renamed ρ).add (x.renamed ρ)) := by
  have known : (g.renamed ρ).fixes.any (·.same (x.renamed ρ)) = g.fixes.any (·.same x) := by
    simp [List.any_map, Function.comp_def]
  have sourceOnly : (firstReplace? (g.fixes.map (Fix.renamed ρ))).any (·.isSourceOnly) =
      (firstReplace? g.fixes).any (·.isSourceOnly) := by
    simp [firstReplace?_renamed, Option.any_map]
  have appended (h : FixGroup) : ρ.Carries (FixGroup.renamed ρ)
      (return { h with fixes := h.fixes ++ [x] })
      (return { h.renamed ρ with fixes := (h.renamed ρ).fixes ++ [x.renamed ρ] }) :=
    .pure (by simp [FixGroup.renamed])
  unfold add
  refine .ite (by rw [known]) (fun _ => .pure rfl) fun _ => ?_
  refine .ite (by rw [Fix.isSourceOnly_renamed]) (fun _ => ?_) fun _ => ?_
  · dsimp only
    rw [fixes_renamed, firstReplace?_renamed, sourceFixes_renamed, Fix.sourceFixes_renamed]
    cases firstReplace? g.fixes with
    | none => exact appended ⟨g.fixes, mergeSourceFixes g.sourceFixes x.sourceFixes⟩
    | some y => exact carries_condense ⟨g.fixes, mergeSourceFixes g.sourceFixes x.sourceFixes⟩ y
  · refine .ite ?_ (fun _ => carries_condense g x) fun _ => appended g
    rw [fixes_renamed, sourceOnly, Fix.edit_renamed, Edit.isReplace_renamed]

end FixGroup

/-- The fixes of anchors with other identities. -/
def FixPlan.renamed (ρ : Renaming) (plan : FixPlan) : FixPlan :=
  plan.map fun g => (ρ.image g.1, g.2.renamed ρ)

namespace FixPlan

@[simp] theorem renamed_nil : FixPlan.renamed ρ [] = [] := rfl

@[simp] theorem renamed_cons (g : Nat × FixGroup) (plan : FixPlan) :
    FixPlan.renamed ρ (g :: plan) = (ρ.image g.1, g.2.renamed ρ) :: plan.renamed ρ := rfl

theorem carries_add (x : Fix) (plan : FixPlan) :
    ρ.Carries (FixPlan.renamed ρ) (plan.add x) ((plan.renamed ρ).add (x.renamed ρ)) := by
  induction plan with
  | nil =>
    rw [renamed_nil, add, add, Fix.anchor_renamed, id_renamed]
    exact (FixGroup.carries_add {} x).map fun g => rfl
  | cons g plan ih =>
    obtain ⟨i, g⟩ := g
    rw [renamed_cons, add, add, Fix.anchor_renamed, id_renamed]
    exact .ite ρ.image_inj (fun _ => (FixGroup.carries_add g x).map fun h => rfl)
      fun _ => ih.map fun more => rfl

/-- Fixes are grouped by their anchors alike, whatever their identities. -/
theorem carries_ofFixes (fixes : List Fix) :
    ρ.Carries (FixPlan.renamed ρ) (ofFixes fixes) (ofFixes (fixes.map (Fix.renamed ρ))) := by
  have from_ (plan : FixPlan) : ρ.Carries (FixPlan.renamed ρ)
      (fixes.foldlM (fun plan x => add x plan) plan)
      ((fixes.map (Fix.renamed ρ)).foldlM (fun plan x => add x plan) (plan.renamed ρ)) := by
    induction fixes generalizing plan with
    | nil => exact .pure rfl
    | cons x fixes ih =>
      rw [List.map_cons, List.foldlM_cons, List.foldlM_cons]
      exact (carries_add x plan).bind fun plan => ih plan
  exact from_ []

@[simp] theorem isValid_renamed (plan : FixPlan) : (plan.renamed ρ).isValid = plan.isValid := by
  simp [isValid, FixPlan.renamed, List.all_map, Function.comp_def]

theorem take_renamed (id : Nat) (plan : FixPlan) :
    (plan.renamed ρ).take (ρ.image id) =
      ((plan.take id).1.map (FixGroup.renamed ρ), FixPlan.renamed ρ (plan.take id).2) := by
  induction plan with
  | nil => rfl
  | cons g plan ih =>
    obtain ⟨i, g⟩ := g
    rw [renamed_cons, take, take]
    simp only [ρ.image_inj, ih]
    split <;> rfl

end FixPlan

/-! ## 4. What becomes of an anchor -/

theorem placeFirst_renamed (anchor : Segment) (new : List Segment) :
    placeFirst (anchor.renamed ρ) (new.map (Segment.renamed ρ)) =
      (placeFirst anchor new).map (Segment.renamed ρ) := by
  induction new with
  | nil => rfl
  | cons s new ih =>
    rw [List.map_cons, placeFirst, placeFirst, raw_renamed, raw_renamed, ih, position_renamed]
    split
    · rw [List.map_cons, renamed_withPosition]
    · rfl

theorem Fix.inPlaceOf_renamed (anchor : Segment) (alone : Bool) (x : Fix) :
    (x.renamed ρ).inPlaceOf (anchor.renamed ρ) alone =
      (x.inPlaceOf anchor alone).map (Segment.renamed ρ) := by
  unfold Fix.inPlaceOf
  rw [edit_renamed]
  cases x.edit with
  | delete => rfl
  | replace new => exact placeFirst_renamed anchor new
  | insertBefore new => simp [Edit.renamed]
  | insertAfter new => cases alone <;> simp [Edit.renamed]

theorem Fix.keepsForm_renamed (anchor : Segment) (x : Fix) :
    (x.renamed ρ).keepsForm (anchor.renamed ρ) = x.keepsForm anchor := by
  rcases x with ⟨_ | _ | (_ | ⟨s, _ | _⟩) | _, own, origins⟩ <;>
    simp [Fix.keepsForm, Fix.renamed, Edit.renamed]

namespace FixGroup

variable (g : FixGroup) (anchor : Segment)

theorem ordered_renamed : (g.renamed ρ).ordered = g.ordered.map (Fix.renamed ρ) := by
  obtain ⟨fixes, sourceFixes⟩ := g
  rcases fixes with _ | ⟨x, _ | ⟨y, _ | ⟨z, fixes⟩⟩⟩
  · rfl
  · rfl
  · show (if (x.renamed ρ).edit.isInsertAfter then _ else _) =
      (if x.edit.isInsertAfter then _ else _ : List Fix).map (Fix.renamed ρ)
    rw [Fix.edit_renamed, Edit.isInsertAfter_renamed]
    split <;> rfl
  · rfl

theorem inPlaceOf_renamed : (g.renamed ρ).inPlaceOf (anchor.renamed ρ) =
    (g.inPlaceOf anchor).map (Segment.renamed ρ) := by
  rw [inPlaceOf, inPlaceOf, ordered_renamed, size_renamed, List.flatMap_map, List.map_flatMap]
  simp only [Fix.inPlaceOf_renamed]

theorem keepsForm_renamed : (g.renamed ρ).keepsForm (anchor.renamed ρ) = g.keepsForm anchor := by
  rw [keepsForm, keepsForm, fixes_renamed, List.all_map]
  simp only [Function.comp_def, Fix.keepsForm_renamed]

end FixGroup

/-! ## 5. One node -/

/-- A rebuilt segment with other identities. -/
def Applied.renamed (ρ : Renaming) (a : Applied) : Applied :=
  { a with
    segment := a.segment.renamed ρ
    before := a.before.map (Segment.renamed ρ)
    after := a.after.map (Segment.renamed ρ) }

theorem Applied.all_renamed (a : Applied) :
    (a.renamed ρ).all = a.all.map (Segment.renamed ρ) := by
  simp [Applied.all, Applied.renamed]

theorem splitEdges_renamed (cs : List Segment) :
    splitEdges (cs.map (Segment.renamed ρ)) =
      ((splitEdges cs).1.map (Segment.renamed ρ), (splitEdges cs).2.1.map (Segment.renamed ρ),
        (splitEdges cs).2.2.map (Segment.renamed ρ)) := by
  simp [splitEdges, List.takeWhile_map, List.dropWhile_map, List.filter_map, Function.comp_def,
    ← List.map_reverse]

namespace Parser

variable (p : Parser) (s : Segment)

theorem carries_reparses : ρ.Carries (fun b => b) (p.reparses s) (p.reparses (s.renamed ρ)) := by
  unfold reparses
  rw [parsedAgain_renamed, unparsableErrors_renamed]
  exact (p.carries_parse _).map fun r => rfl

theorem carries_accepts : ρ.Carries (fun b => b) (p.accepts s) (p.accepts (s.renamed ρ)) := by
  unfold accepts
  refine .ite (by rw [isFile_renamed]) (fun _ => p.carries_reparses s) fun _ => .pure ?_
  rw [grammar?_renamed, revalidate_renamed]

end Parser

namespace Segment

theorem carries_rebuilt (p : Parser) (s : Segment) (cs : List Segment) (keepsForm : Bool) :
    ρ.Carries (Applied.renamed ρ) (rebuilt p s cs keepsForm)
      (rebuilt p (s.renamed ρ) (cs.map (Segment.renamed ρ)) keepsForm) := by
  have edges : (if (s.renamed ρ).mayHaveLooseEnds then ([], cs.map (Segment.renamed ρ), [])
      else splitEdges (cs.map (Segment.renamed ρ))) =
      ((if s.mayHaveLooseEnds then ([], cs, []) else splitEdges cs).1.map (Segment.renamed ρ),
        (if s.mayHaveLooseEnds then ([], cs, []) else splitEdges cs).2.1.map (Segment.renamed ρ),
        (if s.mayHaveLooseEnds then ([], cs, []) else splitEdges cs).2.2.map
          (Segment.renamed ρ)) := by
    rw [mayHaveLooseEnds_renamed, splitEdges_renamed]
    split <;> rfl
  unfold rebuilt
  rw [edges]
  generalize (if s.mayHaveLooseEnds then ([], cs, []) else splitEdges cs) = parts
  obtain ⟨before, kept, after⟩ := parts
  dsimp only
  rw [position_renamed, positionAll_map_renamed, ← renamed_withChildren]
  exact .ite .rfl (fun _ => .pure rfl) fun _ => (Parser.carries_accepts p _).map fun _ => rfl

end Segment

/-! ## 6. Trees -/

section Plans

variable {α β γ δ : Type}

/-- Steps with a plan that do the same with other identities. -/
def Renaming.CarriesPlan (ρ : Renaming) (f : α → β) (x : Applying α) (y : Applying β) : Prop :=
  ∀ plan, ρ.Carries (fun r => (f r.1, FixPlan.renamed ρ r.2)) (x.run plan)
    (y.run (plan.renamed ρ))

namespace Renaming.CarriesPlan

variable {f : α → β} {g : γ → δ}

theorem pure {a : α} {b : β} (h : b = f a) : ρ.CarriesPlan f (Pure.pure a) (Pure.pure b) :=
  fun _ => .pure (h ▸ rfl)

theorem bind {x : Applying α} {y : Applying β} {k : α → Applying γ} {l : β → Applying δ}
    (hx : ρ.CarriesPlan f x y) (hk : ∀ a, ρ.CarriesPlan g (k a) (l (f a))) :
    ρ.CarriesPlan g (x >>= k) (y >>= l) :=
  fun plan => Renaming.Carries.bind (k := fun r => (k r.1).run r.2) (l := fun r => (l r.1).run r.2)
    (hx plan) fun r => hk r.1 r.2

theorem lift {x : Fresh α} {y : Fresh β} (hx : ρ.Carries f x y) :
    ρ.CarriesPlan f (liftM x : Applying α) (liftM y : Applying β) :=
  fun plan => Renaming.Carries.map (k := fun a => (a, plan)) (l := fun b => (b, plan.renamed ρ))
    hx fun _ => rfl

/-- A step that looks at the plan. -/
theorem get_bind {k : FixPlan → Applying α} {l : FixPlan → Applying β}
    (h : ∀ plan, ρ.CarriesPlan f (k plan) (l (plan.renamed ρ))) :
    ρ.CarriesPlan f (MonadState.get >>= k) (MonadState.get >>= l) :=
  fun plan => h plan plan

theorem ite {p q : Prop} [Decidable p] [Decidable q] {x x' : Applying α} {y y' : Applying β}
    (hpq : q ↔ p) (hx : p → ρ.CarriesPlan f x y) (hx' : ¬p → ρ.CarriesPlan f x' y') :
    ρ.CarriesPlan f (if p then x else x') (if q then y else y') := by
  by_cases hp : p
  · rw [if_pos hp, if_pos (hpq.2 hp)]
    exact hx hp
  · rw [if_neg hp, if_neg (mt hpq.1 hp)]
    exact hx' hp

theorem mapM {k : γ → Applying α} {l : δ → Applying β} (xs : List γ)
    (h : ∀ x ∈ xs, ρ.CarriesPlan f (k x) (l (g x))) :
    ρ.CarriesPlan (List.map f) (xs.mapM k) ((xs.map g).mapM l) := by
  induction xs with
  | nil => exact .pure rfl
  | cons x xs ih =>
    rw [List.map_cons, List.mapM_cons, List.mapM_cons]
    refine (h x (by simp)).bind fun a => (ih fun y hy => h y (by simp [hy])).bind fun as => ?_
    exact .pure rfl

end Renaming.CarriesPlan

end Plans

namespace Segment

theorem carries_takeAnchor (s : Segment) :
    ρ.CarriesPlan (Prod.map (Option.map (FixGroup.renamed ρ)) (Segment.renamed ρ)) (takeAnchor s)
      (takeAnchor (s.renamed ρ)) := by
  intro plan
  have taken := plan.take_renamed (ρ := ρ) s.id
  rw [← id_renamed] at taken
  refine .pure (a := (((plan.take s.id).1, s), (plan.take s.id).2))
    (b := ((((plan.renamed ρ).take (s.renamed ρ).id).1, s.renamed ρ),
      ((plan.renamed ρ).take (s.renamed ρ).id).2)) ?_
  rw [taken]
  rfl

/-- What becomes of segments and of segments with other identities. -/
theorem pieces_renamed (found : List (Option FixGroup × Segment)) :
    ((found.map (Prod.map (Option.map (FixGroup.renamed ρ)) (Segment.renamed ρ))).flatMap
      fun (g, c) => (g.map (·.inPlaceOf c)).getD [c]) =
    (found.flatMap fun (g, c) => (g.map (·.inPlaceOf c)).getD [c]).map (Segment.renamed ρ) := by
  rw [List.flatMap_map, List.map_flatMap]
  congr 1
  funext ⟨g, c⟩
  cases g with
  | none => rfl
  | some g => exact g.inPlaceOf_renamed c

/-- Segments are placed anew or stay where they are. -/
theorem placed_renamed (anew : Bool) (ss : List Segment) (parent : Option Position) :
    (if anew then positionAll (ss.map (Segment.renamed ρ)) parent
      else ss.map (Segment.renamed ρ)) =
      (if anew then positionAll ss parent else ss).map (Segment.renamed ρ) := by
  rw [positionAll_map_renamed]
  split <;> rfl

/-- The fixes of a plan are made alike in a segment with other identities. -/
theorem carries_applyWithin (p : Parser) (fuel : Nat) (s : Segment) :
    ρ.CarriesPlan (Applied.renamed ρ) (applyWithin p fuel s)
      (applyWithin p fuel (s.renamed ρ)) := by
  induction fuel generalizing s with
  | zero => exact .pure rfl
  | succ fuel ih =>
    unfold applyWithin
    refine .get_bind fun plan => ?_
    rw [children_renamed]
    have idle : (List.isEmpty (plan.renamed ρ) || (s.children.map (Segment.renamed ρ)).isEmpty) =
        (plan.isEmpty || s.children.isEmpty) := by
      simp [FixPlan.renamed]
    refine .ite (by rw [idle]) (fun _ => .pure rfl) fun _ => ?_
    refine (Renaming.CarriesPlan.mapM s.children fun c _ => carries_takeAnchor c).bind
      fun found => ?_
    have anchors : (found.map
        (Prod.map (Option.map (FixGroup.renamed ρ)) (Segment.renamed ρ))).any (·.1.isSome) =
          found.any (·.1.isSome) := by
      simp [List.any_map, Function.comp_def]
    have forms {test : Option FixGroup × Segment → Bool}
        (htest : ∀ g c, test (g.map (FixGroup.renamed ρ), c.renamed ρ) = test (g, c)) :
        (found.map (Prod.map (Option.map (FixGroup.renamed ρ)) (Segment.renamed ρ))).all test =
          found.all test := by
      rw [List.all_map]
      exact congrArg (found.all ·) (funext fun x => htest x.1 x.2)
    dsimp only
    rw [anchors, pieces_renamed, position_renamed, placed_renamed, forms fun g c => by
      cases g with
      | none => rfl
      | some g => exact g.keepsForm_renamed c]
    refine (Renaming.CarriesPlan.mapM _ fun c _ => ih c).bind fun inner => ?_
    have valid : (inner.map (Applied.renamed ρ)).all (·.validated) = inner.all (·.validated) := by
      rw [List.all_map]
      rfl
    have all : (inner.map (Applied.renamed ρ)).flatMap (·.all) =
        (inner.flatMap (·.all)).map (Segment.renamed ρ) := by
      rw [List.flatMap_map, List.map_flatMap]
      simp only [Applied.all_renamed]
    rw [valid, all]
    exact .lift (carries_rebuilt p s _ _)

mutual

theorem depth_renamed (s : Segment) : (s.renamed ρ).depth = s.depth := by
  match s with
  | mk i cs => rw [Segment.renamed, depth, depth, depthAll_renamedAll cs]

theorem depthAll_renamedAll (ss : List Segment) : depthAll (renamedAll ρ ss) = depthAll ss := by
  match ss with
  | [] => rw [renamedAll]
  | s :: rest => rw [renamedAll, depthAll, depthAll, depth_renamed s, depthAll_renamedAll rest]

end

theorem levels_renamed (s : Segment) (plan : FixPlan) :
    (s.renamed ρ).levels (plan.renamed ρ) = s.levels plan := by
  have fixes : (plan.renamed ρ).flatMap (·.2.fixes) =
      (plan.flatMap (·.2.fixes)).map (Fix.renamed ρ) := by
    rw [FixPlan.renamed, List.flatMap_map, List.map_flatMap]
    rfl
  have depth (x : Fix) : depthAll (x.renamed ρ).new = depthAll x.new := by
    rw [Fix.new_renamed, ← renamedAll_eq_map, depthAll_renamedAll]
  rw [levels, levels, fixes, depth_renamed, List.foldl_map]
  simp only [depth]

/-- Making fixes in a tree with other identities makes the same tree with other identities. -/
theorem carries_applyFixes (p : Parser) (s : Segment) (plan : FixPlan) :
    ρ.Carries (fun r => (Applied.renamed ρ r.1, FixPlan.renamed ρ r.2)) (s.applyFixes p plan)
      ((s.renamed ρ).applyFixes p (plan.renamed ρ)) := by
  unfold applyFixes
  rw [levels_renamed]
  exact carries_applyWithin p _ s plan

end Segment

end QueryLint

namespace QueryLint

open Segment

variable {n m : Nat}

/-! ## 7. Grouping fixes -/

/-- The identities in what a fix brings in were drawn before the counter stood at `n`. -/
def Fix.DrawnBefore (n : Nat) (x : Fix) : Prop := ∀ s ∈ x.new, s.DrawnBefore n

theorem Fix.DrawnBefore.mono {x : Fix} (h : x.DrawnBefore n) (hnm : n ≤ m) : x.DrawnBefore m :=
  fun s hs => (h s hs).mono hnm

namespace FixGroup

/-- The same of all fixes of an anchor. -/
def DrawnBefore (n : Nat) (g : FixGroup) : Prop := ∀ x ∈ g.fixes, x.DrawnBefore n

variable {g : FixGroup} {x : Fix}

theorem DrawnBefore.mono (h : g.DrawnBefore n) (hnm : n ≤ m) : g.DrawnBefore m :=
  fun x hx => (h x hx).mono hnm

theorem mem_of_mem_setFirstReplace {y : Fix} {fixes : List Fix}
    (h : y ∈ setFirstReplace x fixes) : y = x ∨ y ∈ fixes := by
  induction fixes with
  | nil => cases h
  | cons z fixes ih =>
    rw [setFirstReplace] at h
    split at h
    · exact (List.mem_cons.1 h).imp_right (List.mem_cons_of_mem z)
    · rcases List.mem_cons.1 h with rfl | h
      · exact .inr (List.mem_cons_self ..)
      · exact (ih h).imp_right (List.mem_cons_of_mem z)

theorem draws_carrying (hx : x.DrawnBefore n) (extra : List SourceFix) :
    Draws n Fix.DrawnBefore (carrying extra x) := by
  have same : Draws n Fix.DrawnBefore (Pure.pure x) := .pure fun m hm => hx.mono hm
  obtain ⟨edit, anchor, origins⟩ := x
  unfold carrying
  cases edit with
  | replace new =>
    cases new with
    | nil => exact same
    | cons s more =>
      obtain ⟨hs, hmore⟩ := List.forall_mem_cons.1
        (show ∀ t ∈ s :: more, t.DrawnBefore n from hx)
      refine (draws_edit hs none _).map fun m t hm ht => ?_
      exact List.forall_mem_cons.2 ⟨ht, fun u hu => (hmore u hu).mono hm⟩
  | insertBefore new | insertAfter new | delete => exact same

theorem draws_condense (hg : g.DrawnBefore n) (hx : x.DrawnBefore n) :
    Draws n DrawnBefore (g.condense x) :=
  (draws_carrying hx g.sourceFixes).map fun _ _ hm hy z hz =>
    (mem_of_mem_setFirstReplace hz).elim (fun h => h ▸ hy) fun hz => (hg z hz).mono hm

theorem draws_add (hg : g.DrawnBefore n) (hx : x.DrawnBefore n) :
    Draws n DrawnBefore (g.add x) := by
  have appended (fixes : List SourceFix) :
      Draws n DrawnBefore (Pure.pure ⟨g.fixes ++ [x], fixes⟩) := by
    refine .pure fun m hm => DrawnBefore.mono ?_ hm
    simpa only [DrawnBefore, List.forall_mem_append, List.forall_mem_singleton] using ⟨hg, hx⟩
  unfold add
  refine .ite (fun _ => .pure fun m hm => hg.mono hm) fun _ => .ite (fun _ => ?_) fun _ =>
    .ite (fun _ => draws_condense hg hx) fun _ => appended g.sourceFixes
  dsimp only
  cases hfirst : firstReplace? g.fixes with
  | none => exact appended _
  | some y => exact draws_condense (g := ⟨g.fixes, _⟩) hg (hg y (List.mem_of_find?_eq_some hfirst))

end FixGroup

namespace FixPlan

/-- What a plan brings in was drawn before the counter stood at `n`. -/
def DrawnBefore (n : Nat) (plan : FixPlan) : Prop := ∀ g ∈ plan, g.2.DrawnBefore n

variable {plan : FixPlan} {x : Fix}

theorem DrawnBefore.mono (h : plan.DrawnBefore n) (hnm : n ≤ m) : plan.DrawnBefore m :=
  fun g hg => (h g hg).mono hnm

theorem draws_add (hplan : plan.DrawnBefore n) (hx : x.DrawnBefore n) :
    Draws n DrawnBefore (plan.add x) := by
  induction plan with
  | nil =>
    have empty : FixGroup.DrawnBefore n {} := by simp [FixGroup.DrawnBefore]
    exact (FixGroup.draws_add empty hx).map fun m g _ hg => by simpa [DrawnBefore] using hg
  | cons g plan ih =>
    obtain ⟨hg, hrest⟩ := List.forall_mem_cons.1 hplan
    rw [add]
    refine .ite (fun _ => ?_) fun _ => ?_
    · exact (FixGroup.draws_add hg hx).map fun m h hm hh =>
        List.forall_mem_cons.2 ⟨hh, fun k hk => (hrest k hk).mono hm⟩
    · exact (ih hrest).map fun m more hm hmore =>
        List.forall_mem_cons.2 ⟨hg.mono hm, hmore⟩

theorem draws_addAll {fixes : List Fix} (hplan : plan.DrawnBefore n)
    (hfixes : ∀ x ∈ fixes, x.DrawnBefore n) :
    Draws n DrawnBefore (fixes.foldlM (fun plan x => add x plan) plan) := by
  induction fixes generalizing n plan with
  | nil => exact .pure fun m hm => hplan.mono hm
  | cons x fixes ih =>
    obtain ⟨hx, hrest⟩ := List.forall_mem_cons.1 hfixes
    rw [List.foldlM_cons]
    exact (draws_add hplan hx).bind fun m plan hm hplan =>
      ih hplan fun y hy => (hrest y hy).mono hm

/-- Grouping fixes brings in identities that are drawn for it, if any. -/
theorem draws_ofFixes {fixes : List Fix} (hfixes : ∀ x ∈ fixes, x.DrawnBefore n) :
    Draws n DrawnBefore (ofFixes fixes) :=
  draws_addAll (by simp [DrawnBefore]) hfixes

end FixPlan

/-! ## 8. Making fixes -/

/-- A fixed tree has identities that have been drawn. -/
theorem Segment.draws_applyFixes (p : Parser) {s : Segment} (hs : s.DrawnBefore n)
    {plan : FixPlan} (hplan : plan.DrawnBefore n) :
    Draws n (fun m r => r.1.segment.DrawnBefore m) (s.applyFixes p plan) := by
  intro m hm
  have grows := (Draws.of_carries (n := n) fun _ => carries_applyFixes p s plan) m hm
  have drawn : DrawnBefore n ((s.applyFixes p plan).run m).1.1.segment :=
    every_applyFixes (isPlaceless_id n) p hs hplan m
  exact ⟨grows.1, drawn.mono (Nat.le_trans hm grows.1)⟩

end QueryLint
