import QueryLint.Fix.Apply
import QueryLint.Proofs.Segment.Leaves

/-!
QueryLint.Proofs.Fix.Words — the tokens and identities of a tree.

Making fixes threads a plan through the tree: every anchor that is found takes its group out. The
counter of identities does not matter for where a segment goes, so it stays out of sight here. One
law says all that making fixes does in a node; what holds of whole trees follows from it by
induction on the levels.

Making fixes places segments anew and moves markers. What it must not lose are the tokens, in their
order; it finds its way by the identities of segments.

* `Runs` — what a step makes of a plan.
* `takeAll` — the groups of the segments of a list, and what is left of the plan.
* `Segment.IsRebuilt` — a node over what its fixes left.
* `Segment.runs_applyWithin` — the law of one node.
* `Segment.isTree` — a tree whose leaves have nothing inside.
* `Segment.words` — the tokens of some segments, without their positions.
* `Segment.innerIds` — the identities inside of some segments.
-/

namespace QueryLint

open Segment

/-! ## 1. Steps with a plan -/

section Steps

variable {α β : Type}

/-- From a plan, the step ends with a result and a plan as promised, whatever the counter. -/
def Runs (x : Applying α) (plan : FixPlan) (Q : α → FixPlan → Prop) : Prop :=
  ∀ n, Q ((x.run plan).run n).1.1 ((x.run plan).run n).1.2

namespace Runs

variable {plan : FixPlan} {Q : α → FixPlan → Prop}

theorem pure {a : α} (h : Q a plan) : Runs (Pure.pure a) plan Q := fun _ => h

theorem bind {R : β → FixPlan → Prop} {x : Applying α} {f : α → Applying β} (hx : Runs x plan Q)
    (hf : ∀ a plan', Q a plan' → Runs (f a) plan' R) : Runs (x >>= f) plan R :=
  fun n => hf _ _ (hx n) _

theorem mono {R : α → FixPlan → Prop} {x : Applying α} (hx : Runs x plan Q)
    (h : ∀ a plan', Q a plan' → R a plan') : Runs x plan R :=
  fun n => h _ _ (hx n)

/-- A step that looks at the plan. -/
theorem get_bind {R : β → FixPlan → Prop} {f : FixPlan → Applying β} (h : Runs (f plan) plan R) :
    Runs (MonadState.get >>= f) plan R := h

/-- A step that draws identities only leaves the plan. -/
theorem lift {x : Fresh α} {P : α → Prop} (hx : ∀ n, P (x.run n).1)
    (h : ∀ a, P a → Q a plan) : Runs (liftM x : Applying α) plan Q :=
  fun n => h _ (hx n)

/-- Steps over a list that keep an invariant of the plan. -/
theorem mapM {I : FixPlan → Prop} {P : β → Prop} {f : α → Applying β} {xs : List α}
    (h : ∀ x ∈ xs, ∀ plan, I plan → Runs (f x) plan fun b plan' => P b ∧ I plan')
    {plan : FixPlan} (hplan : I plan) :
    Runs (xs.mapM f) plan fun bs plan' => (∀ b ∈ bs, P b) ∧ I plan' := by
  induction xs generalizing plan with
  | nil => exact .pure ⟨by simp, hplan⟩
  | cons x xs ih =>
    rw [List.mapM_cons]
    refine (h x (by simp) plan hplan).bind fun b plan' hb =>
      (ih (fun y hy => h y (by simp [hy])) hb.2).bind fun bs plan'' hbs => .pure ⟨?_, hbs.2⟩
    intro c hc
    rcases List.mem_cons.1 hc with rfl | hc
    · exact hb.1
    · exact hbs.1 c hc

end Runs

end Steps

/-! ## 2. Taking anchors -/

/-- The groups of the segments of a list, each with its segment, and what is left of the plan. -/
def takeAll (plan : FixPlan) : List Segment → List (Option FixGroup × Segment) × FixPlan
  | [] => ([], plan)
  | s :: rest =>
    (((plan.take s.id).1, s) :: (takeAll (plan.take s.id).2 rest).1,
      (takeAll (plan.take s.id).2 rest).2)

theorem runs_takeAnchors (ss : List Segment) (plan : FixPlan) :
    Runs (ss.mapM takeAnchor) plan fun found left => (found, left) = takeAll plan ss := by
  induction ss generalizing plan with
  | nil => exact .pure rfl
  | cons s ss ih =>
    rw [List.mapM_cons]
    have first : Runs (takeAnchor s) plan fun r left =>
        r = ((plan.take s.id).1, s) ∧ left = (plan.take s.id).2 := fun _ => ⟨rfl, rfl⟩
    refine first.bind fun r left hr => (ih left).bind fun found last hfound => .pure ?_
    obtain ⟨rfl, rfl⟩ := hr
    rw [takeAll, ← hfound]

/-- What becomes of the segments of a list. -/
def piecesOf (found : List (Option FixGroup × Segment)) : List Segment :=
  found.flatMap fun (g, c) => (g.map (·.inPlaceOf c)).getD [c]

namespace Segment

/-! ## 3. One node -/

/-- A segment is one of others, positions aside. -/
def Alike (ss us : List Segment) : Prop := ss.map unplaced = us.map unplaced

/-- A node over segments, with what moved out of it. -/
structure IsRebuilt (s : Segment) (cs : List Segment) (a : Applied) : Prop where
  info_eq : a.segment.info = s.info
  edges : ∃ kept, Alike a.segment.children kept ∧
    (a.before, kept, a.after) = if s.mayHaveLooseEnds then ([], cs, []) else splitEdges cs

theorem isRebuilt_rebuilt (p : Parser) (s : Segment) (cs : List Segment) (keepsForm : Bool)
    (n : Nat) : IsRebuilt s cs ((rebuilt p s cs keepsForm).run n).1 := by
  unfold rebuilt
  generalize hedges : (if s.mayHaveLooseEnds then ([], cs, []) else splitEdges cs) = edges
  obtain ⟨before, kept, after⟩ := edges
  dsimp only
  have built (validated : Bool) : IsRebuilt s cs
      ⟨s.withChildren (positionAll kept s.position) s.position, before, after, validated⟩ :=
    ⟨rfl, kept, map_unplaced_positionAll _ _, hedges.symm⟩
  split
  · exact built true
  · exact built _

variable {p : Parser} {fuel : Nat} {s : Segment} {plan : FixPlan} {Q : Applied → FixPlan → Prop}

/-- All that making fixes does in a node. A node without segments inside, and every node once the
plan is empty, is left as it is. -/
theorem runs_applyWithin (idle : plan = [] ∨ s.children = [] → Q { segment := s } plan)
    (node : s.children ≠ [] → ∀ placed, Alike placed (piecesOf (takeAll plan s.children).1) →
      Runs (placed.mapM (applyWithin p fuel)) (takeAll plan s.children).2 fun inner left =>
        ∀ a, IsRebuilt s (inner.flatMap (·.all)) a → Q a left) :
    Runs (applyWithin p (fuel + 1) s) plan Q := by
  unfold applyWithin
  refine Runs.get_bind ?_
  split
  · next h =>
    refine .pure (idle ?_)
    simpa using h
  · next h =>
    simp only [Bool.or_eq_true, List.isEmpty_iff, not_or] at h
    refine (runs_takeAnchors s.children plan).bind fun found left hfound => ?_
    have hnode := node h.2
    rw [← hfound] at hnode
    refine (hnode _ ?_).bind fun inner left' hinner =>
      Runs.lift (isRebuilt_rebuilt p s _ _) fun a ha => hinner a ha
    unfold Alike
    split
    · exact map_unplaced_positionAll _ _
    · rfl

end Segment

end QueryLint

namespace QueryLint

namespace Segment

/-! ## 4. Trees and their tokens -/

mutual

/-- Tokens and markers in it have nothing inside. -/
def isTree : Segment → Bool
  | mk i cs => (!i.kind.isLeaf || cs.isEmpty) && allTrees cs

/-- The same of several segments. -/
def allTrees : List Segment → Bool
  | [] => true
  | s :: rest => s.isTree && allTrees rest

end

theorem allTrees_iff {ss : List Segment} : allTrees ss = true ↔ ∀ s ∈ ss, s.isTree = true := by
  induction ss with
  | nil => simp [allTrees]
  | cons s ss ih => simp [allTrees, ih]

theorem isTree_iff {s : Segment} :
    s.isTree = true ↔ (s.isLeaf = true → s.children = []) ∧ ∀ c ∈ s.children, c.isTree = true := by
  cases s with
  | mk i cs =>
    rw [isTree, Bool.and_eq_true, allTrees_iff, Bool.or_eq_true, Bool.not_eq_true',
      List.isEmpty_iff]
    refine and_congr ⟨fun h hleaf => ?_, fun h => ?_⟩ Iff.rfl
    · rcases h with h | h
      · rw [show i.kind.isLeaf = true from hleaf] at h
        cases h
      · exact h
    · cases hleaf : i.kind.isLeaf with
      | false => exact .inl rfl
      | true => exact .inr (h hleaf)

mutual

theorem isTree_unplaced (s : Segment) : s.unplaced.isTree = s.isTree := by
  match s with
  | mk i cs =>
    rw [unplaced, isTree, isTree, allTrees_unplacedAll cs, unplacedAll_eq_map]
    simp

theorem allTrees_unplacedAll (ss : List Segment) : allTrees (unplacedAll ss) = allTrees ss := by
  match ss with
  | [] => rw [unplacedAll]
  | s :: rest => rw [unplacedAll, allTrees, allTrees, isTree_unplaced s, allTrees_unplacedAll rest]

end

mutual

theorem depth_unplaced (s : Segment) : s.unplaced.depth = s.depth := by
  match s with
  | mk i cs => rw [unplaced, depth, depth, depthAll_unplacedAll cs]

theorem depthAll_unplacedAll (ss : List Segment) : depthAll (unplacedAll ss) = depthAll ss := by
  match ss with
  | [] => rw [unplacedAll]
  | s :: rest => rw [unplacedAll, depthAll, depthAll, depth_unplaced s, depthAll_unplacedAll rest]

end

theorem depth_eq (s : Segment) : s.depth = depthAll s.children + 1 := by
  cases s with
  | mk i cs => rw [depth]; rfl

theorem depth_le_of_mem {ss : List Segment} {s : Segment} (h : s ∈ ss) : s.depth ≤ depthAll ss := by
  induction ss with
  | nil => cases h
  | cons t ss ih =>
    rw [depthAll]
    rcases List.mem_cons.1 h with rfl | h
    · exact Nat.le_max_left _ _
    · exact Nat.le_trans (ih h) (Nat.le_max_right _ _)

/-- The tokens of some segments in order, without their positions. -/
def words (ss : List Segment) : List Segment :=
  ((leavesAll ss).filter (!·.isMarker)).map unplaced

@[simp] theorem words_nil : words [] = [] := by simp [words]

@[simp] theorem words_append (ss us : List Segment) : words (ss ++ us) = words ss ++ words us := by
  simp [words]

theorem words_cons (s : Segment) (ss : List Segment) : words (s :: ss) = words [s] ++ words ss :=
  words_append [s] ss

theorem words_eq_of_unplaced (ss : List Segment) :
    words ss = (leavesAll (ss.map unplaced)).filter (!·.isMarker) := by
  rw [words, ← unplacedAll_eq_map ss, leavesAll_unplacedAll, List.filter_map]
  congr 2
  funext s
  simp

/-- Segments that differ in their positions only have the same tokens. -/
theorem Alike.words_eq {ss us : List Segment} (h : Alike ss us) : words ss = words us := by
  rw [words_eq_of_unplaced, h, ← words_eq_of_unplaced]

theorem Alike.flatMap_eq {α : Type} {ss us : List Segment} (h : Alike ss us)
    {f : Segment → List α} (hf : ∀ s : Segment, f s.unplaced = f s) :
    ss.flatMap f = us.flatMap f := by
  have erase (vs : List Segment) : (vs.map unplaced).flatMap f = vs.flatMap f := by
    rw [List.flatMap_map]
    simp only [hf]
  rw [← erase ss, h, erase us]

theorem words_of_not_isLeaf {s : Segment} (h : s.isLeaf = false) :
    words [s] = words s.children := by
  rw [words, words, leavesAll_cons, leavesAll_nil, List.append_nil, leaves_of_not_isLeaf h]

/-- A marker has no tokens. -/
theorem words_of_isMarker {s : Segment} (h : s.isMarker = true) : words [s] = [] := by
  have leaf : s.isLeaf = true := by
    cases s with
    | mk i cs =>
      have hmarker : (marker? (mk i cs)).isSome = true := h
      unfold marker? at hmarker
      split at hmarker
      · next hk =>
        show (mk i cs).kind.isLeaf = true
        rw [hk]
        rfl
      · cases hmarker
  rw [words, leavesAll_cons, leavesAll_nil, leaves_of_isLeaf leaf]
  simp [h]

/-! ## 5. Identities in a tree -/

theorem ids_eq (s : Segment) : s.ids = s.id :: idsAll s.children := by
  cases s with
  | mk i cs => rw [ids]; rfl

/-- The identities inside of some segments, without their own. -/
def innerIds (ss : List Segment) : List Nat := ss.flatMap fun s => idsAll s.children

theorem innerIds_append (ss us : List Segment) : innerIds (ss ++ us) = innerIds ss ++ innerIds us :=
  List.flatMap_append

/-- The identities in some segments are their own and those inside of them. -/
theorem idsAll_perm (ss : List Segment) : (idsAll ss).Perm (ss.map (·.id) ++ innerIds ss) := by
  induction ss with
  | nil => simp [innerIds, idsAll]
  | cons s ss ih =>
    rw [idsAll, ids_eq, innerIds, List.flatMap_cons, List.map_cons, List.cons_append,
      List.cons_append]
    refine ((ih.append_left _).trans ?_).cons s.id
    exact List.perm_append_comm_assoc _ _ _

theorem mem_idsAll {ss : List Segment} {k : Nat} :
    k ∈ idsAll ss ↔ k ∈ ss.map (·.id) ∨ k ∈ innerIds ss := by
  rw [(idsAll_perm ss).mem_iff, List.mem_append]

theorem idsAll_children_unplaced (s : Segment) :
    idsAll s.unplaced.children = idsAll s.children := by
  rw [children_unplaced, ← unplacedAll_eq_map, idsAll_unplacedAll]

theorem Alike.innerIds_eq {ss us : List Segment} (h : Alike ss us) : innerIds ss = innerIds us :=
  h.flatMap_eq idsAll_children_unplaced

end Segment

end QueryLint
