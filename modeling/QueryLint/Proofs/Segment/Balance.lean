import Mathlib.Algebra.Ring.Int.Defs
import Mathlib.Data.List.Infix
import QueryLint.Proofs.Segment.Leaves

/-!
QueryLint.Proofs.Segment.Balance — indentation in trees.

The markers that a grammar inserts among tokens are steps of the indentation. They are balanced if
they sum to zero and no first few of them sum to less. A tree is as it should be if that is so in
every node of it. Nothing is asked of a tree that holds something unparsable, since matching may
have stopped there between two markers.

* `Balanced` — steps of the indentation that are taken back.
* `Segment.steps` — the steps that inserted markers make.
* `Segment.Even` — balanced in every node, or with something unparsable.
-/

namespace QueryLint

/-! ## 1. Steps of the indentation -/

/-- Steps of the indentation that are taken back, each after it was made: they sum to zero, and no
first few of them sum to less. -/
structure Balanced (steps : List Int) : Prop where
  sum_eq : steps.sum = 0
  nonneg : ∀ l, l <+: steps → 0 ≤ l.sum

/-- A prefix of two lists is a prefix of the first, or goes on into the second. -/
theorem prefix_append_cases {α : Type} {l xs ys : List α} (h : l <+: xs ++ ys) :
    l <+: xs ∨ ∃ l', l' <+: ys ∧ l = xs ++ l' := by
  obtain ⟨r, hr⟩ := h
  rcases List.append_eq_append_iff.1 hr with ⟨z, hz, -⟩ | ⟨z, hz, hz'⟩
  · exact .inl ⟨z, hz.symm⟩
  · exact .inr ⟨z, ⟨r, hz'.symm⟩, hz⟩

/-- A prefix of lists put together is some of the lists and a prefix of the next. -/
theorem prefix_flatten_cases {α : Type} {l : List α} {ls : List (List α)} (h : l <+: ls.flatten) :
    l = ls.flatten ∨ ∃ ps x l', ps ++ [x] <+: ls ∧ l' <+: x ∧ l = ps.flatten ++ l' := by
  induction ls generalizing l with
  | nil => exact .inl (List.prefix_nil.1 h)
  | cons x ls ih =>
    rcases prefix_append_cases h with hx | ⟨l', hl', rfl⟩
    · exact .inr ⟨[], x, l, by simp, hx, rfl⟩
    · rcases ih hl' with rfl | ⟨ps, y, l'', hps, hl'', rfl⟩
      · exact .inl rfl
      · refine .inr ⟨x :: ps, y, l'', ?_, hl'', by simp⟩
        rw [List.cons_append]
        exact (List.prefix_cons_inj x).2 hps

/-- A sum up to a key is that of all before the key and that of all at it. -/
theorem sum_map_filter_of_le {α : Type} {key : α → Nat} (weight : α → Int) {xs : List α} {k : Nat}
    (h : ∀ x ∈ xs, key x ≤ k) :
    ((xs.filter (key · < k)).map weight).sum + ((xs.filter (key · = k)).map weight).sum =
      (xs.map weight).sum := by
  induction xs with
  | nil => rfl
  | cons x xs ih =>
    obtain ⟨hx, hxs⟩ := List.forall_mem_cons.1 h
    have rest := ih hxs
    rcases Nat.lt_or_eq_of_le hx with hlt | heq
    · rw [List.filter_cons_of_pos (by simpa using hlt),
        List.filter_cons_of_neg (by simp; omega), List.map_cons, List.map_cons, List.sum_cons,
        List.sum_cons]
      omega
    · rw [List.filter_cons_of_neg (by simp; omega),
        List.filter_cons_of_pos (by simpa using heq), List.map_cons, List.map_cons, List.sum_cons,
        List.sum_cons]
      omega

namespace Balanced

variable {xs ys : List Int}

theorem nil : Balanced [] := ⟨rfl, fun l hl => by simp [List.prefix_nil.1 hl]⟩

theorem append (hx : Balanced xs) (hy : Balanced ys) : Balanced (xs ++ ys) where
  sum_eq := by rw [List.sum_append, hx.sum_eq, hy.sum_eq, Int.add_zero]
  nonneg l hl := by
    rcases prefix_append_cases hl with hl | ⟨l', hl', rfl⟩
    · exact hx.nonneg l hl
    · have := hy.nonneg l' hl'
      rw [List.sum_append, hx.sum_eq]
      omega

/-- A step that changes nothing is balanced. -/
theorem zero : Balanced [0] where
  sum_eq := rfl
  nonneg l hl := by
    rcases List.prefix_cons_iff.1 hl with rfl | ⟨l', rfl, hl'⟩
    · exact Int.le_refl 0
    · rw [List.prefix_nil.1 hl']
      exact Int.le_refl 0

/-- Balanced steps stay balanced a level further in. -/
theorem indent (h : Balanced xs) : Balanced (1 :: (xs ++ [-1])) where
  sum_eq := by
    rw [List.sum_cons, List.sum_append, h.sum_eq]
    rfl
  nonneg l hl := by
    rcases List.prefix_cons_iff.1 hl with rfl | ⟨l', rfl, hl'⟩
    · exact Int.le_refl 0
    rw [List.sum_cons]
    rcases prefix_append_cases hl' with inside | ⟨l'', hl'', rfl⟩
    · have := h.nonneg l' inside
      omega
    · rw [List.sum_append, h.sum_eq]
      rcases List.prefix_cons_iff.1 hl'' with rfl | ⟨l₃, rfl, hl₃⟩
      · decide
      · rw [List.prefix_nil.1 hl₃]
        decide

/-- Single steps with balanced ones between them are balanced if the sums after each of them say
so. -/
theorem flatten {ls : List (List Int)} (each : ∀ l ∈ ls, Balanced l ∨ ∃ x, l = [x])
    (sum_eq : ls.flatten.sum = 0) (nonneg : ∀ ps, ps <+: ls → 0 ≤ ps.flatten.sum) :
    Balanced ls.flatten where
  sum_eq := sum_eq
  nonneg l hl := by
    rcases prefix_flatten_cases hl with rfl | ⟨ps, x, l', hps, hl', rfl⟩
    · omega
    have before := nonneg ps ((List.prefix_append ps [x]).trans hps)
    rw [List.sum_append]
    rcases each x (hps.subset (by simp)) with balanced | ⟨step, rfl⟩
    · have := balanced.nonneg l' hl'
      omega
    · rcases List.prefix_cons_iff.1 hl' with rfl | ⟨l'', rfl, hl''⟩
      · simpa using before
      · obtain rfl := List.prefix_nil.1 hl''
        simpa using nonneg _ hps

end Balanced

namespace Segment

/-! ## 2. Nodes -/

mutual

/-- The nodes of a tree, each before those inside it. -/
def nodes : Segment → List Segment
  | mk i cs => if i.kind.isLeaf then [] else mk i cs :: nodesAll cs

/-- The nodes of several trees. -/
def nodesAll : List Segment → List Segment
  | [] => []
  | s :: rest => s.nodes ++ nodesAll rest

end

@[simp] theorem nodesAll_nil : nodesAll [] = [] := by rw [nodesAll]

@[simp] theorem nodesAll_cons (s : Segment) (ss : List Segment) :
    nodesAll (s :: ss) = s.nodes ++ nodesAll ss := by rw [nodesAll]

@[simp] theorem nodesAll_append (xs ys : List Segment) :
    nodesAll (xs ++ ys) = nodesAll xs ++ nodesAll ys := by
  induction xs with
  | nil => simp
  | cons x xs ih => simp [ih]

theorem nodes_of_isLeaf {s : Segment} (h : s.isLeaf = true) : s.nodes = [] := by
  cases s with
  | mk i cs => rw [nodes, if_pos (show i.kind.isLeaf = true from h)]

theorem nodes_of_not_isLeaf {s : Segment} (h : s.isLeaf = false) :
    s.nodes = s :: nodesAll s.children := by
  cases s with
  | mk i cs =>
    rw [nodes, if_neg (by rw [show i.kind.isLeaf = false from h]; simp)]
    rfl

/-- Tokens and markers hold no node. -/
theorem nodesAll_of_isLeaf {ss : List Segment} (h : ∀ s ∈ ss, s.isLeaf = true) :
    nodesAll ss = [] := by
  induction ss with
  | nil => exact nodesAll_nil
  | cons s ss ih =>
    obtain ⟨hs, hss⟩ := List.forall_mem_cons.1 h
    rw [nodesAll_cons, nodes_of_isLeaf hs, ih hss, List.append_nil]

/-- The steps of the indentation that the markers made since the counter stood at `n` make. -/
def steps (n : Nat) (ss : List Segment) : List Int :=
  ((leavesAll ss).filter (isInserted n ·)).map (·.indentation)

variable {n : Nat}

@[simp] theorem steps_nil : steps n [] = [] := by simp [steps]

theorem steps_append (xs ys : List Segment) : steps n (xs ++ ys) = steps n xs ++ steps n ys := by
  simp [steps]

/-- A node makes the steps that are made inside it. -/
theorem steps_of_not_isLeaf {s : Segment} (h : s.isLeaf = false) :
    steps n [s] = steps n s.children := by
  simp [steps, leaves_of_not_isLeaf h]

/-- Tokens that were there before make no steps. -/
theorem IsLexed.steps_eq {ts : List Segment} (h : IsLexed n ts) : steps n ts = [] := by
  rw [steps, leavesAll_of_isLeaf h.isLeaf, List.filter_eq_nil_iff.2, List.map_nil]
  intro t ht
  simp [h.not_isInserted ht]

/-- Something in some trees is unparsable. -/
def HasUnparsable (ss : List Segment) : Prop := ∃ x ∈ nodesAll ss, x.isUnparsable = true

/-- Something in some trees is unparsable, or the inserted markers are balanced, in all of them
together and in every node. -/
def Even (n : Nat) (ss : List Segment) : Prop :=
  HasUnparsable ss ∨ Balanced (steps n ss) ∧ ∀ x ∈ nodesAll ss, Balanced (steps n [x])

theorem HasUnparsable.mono {ss us : List Segment} (h : HasUnparsable ss)
    (hsub : ∀ x ∈ nodesAll ss, x ∈ nodesAll us) : HasUnparsable us := by
  obtain ⟨x, hx, hun⟩ := h
  exact ⟨x, hsub x hx, hun⟩

namespace Even

variable {ss us : List Segment}

theorem nil (n : Nat) : Even n [] := .inr ⟨by simpa using Balanced.nil, by simp⟩

theorem append (h : Even n ss) (h' : Even n us) : Even n (ss ++ us) := by
  rcases h with hun | ⟨balanced, inside⟩
  · exact .inl (hun.mono (by simp +contextual))
  rcases h' with hun | ⟨balanced', inside'⟩
  · exact .inl (hun.mono (by simp +contextual))
  · refine .inr ⟨steps_append ss us ▸ balanced.append balanced', ?_⟩
    rw [nodesAll_append]
    exact List.forall_mem_append.2 ⟨inside, inside'⟩

/-- Tokens that were there before hold no node and make no steps. -/
theorem of_isLexed (h : IsLexed n ss) : Even n ss :=
  .inr ⟨by rw [h.steps_eq]; exact .nil, by simp [nodesAll_of_isLeaf h.isLeaf]⟩

/-- The same steps and the same nodes. -/
theorem of_eq (h : Even n ss) (hsteps : steps n us = steps n ss)
    (hnodes : nodesAll us = nodesAll ss) : Even n us := by
  rwa [Even, HasUnparsable, hsteps, hnodes]

end Even

/-! ## 3. Positions do not matter -/

@[simp] theorem indentation_unplaced (s : Segment) : s.unplaced.indentation = s.indentation := by
  simp [indentation, marker?]

@[simp] theorem isUnparsable_unplaced (s : Segment) :
    s.unplaced.isUnparsable = s.isUnparsable := by
  simp [isUnparsable]

@[simp] theorem isInserted_unplaced (s : Segment) : isInserted n s.unplaced = isInserted n s := by
  simp [isInserted]

mutual

theorem nodes_unplaced (s : Segment) : s.unplaced.nodes = s.nodes.map unplaced := by
  match s with
  | mk i cs =>
    rw [unplaced, nodes, nodes, nodesAll_unplacedAll cs]
    split
    · rfl
    · rw [List.map_cons, unplaced]

theorem nodesAll_unplacedAll (ss : List Segment) :
    nodesAll (unplacedAll ss) = (nodesAll ss).map unplaced := by
  match ss with
  | [] => rw [unplacedAll, nodesAll]; rfl
  | s :: rest =>
    rw [unplacedAll, nodesAll, nodesAll, nodes_unplaced s, nodesAll_unplacedAll rest,
      List.map_append]

end

theorem steps_map_unplaced (ss : List Segment) : steps n (ss.map unplaced) = steps n ss := by
  rw [steps, ← unplacedAll_eq_map, leavesAll_unplacedAll, List.filter_map, List.map_map]
  simp [steps, Function.comp_def]

theorem hasUnparsable_map_unplaced (ss : List Segment) :
    HasUnparsable (ss.map unplaced) ↔ HasUnparsable ss := by
  rw [HasUnparsable, ← unplacedAll_eq_map, nodesAll_unplacedAll]
  simp [HasUnparsable]

theorem even_map_unplaced (ss : List Segment) : Even n (ss.map unplaced) ↔ Even n ss := by
  have single (x : Segment) : steps n [x.unplaced] = steps n [x] := steps_map_unplaced [x]
  rw [Even, hasUnparsable_map_unplaced, steps_map_unplaced, ← unplacedAll_eq_map,
    nodesAll_unplacedAll]
  simp [Even, single]

/-- Filling in positions changes positions only. -/
theorem map_unplaced_fillPositions (before : Option Segment) (ss : List Segment) :
    (fillPositions before ss).map unplaced = ss.map unplaced := by
  induction ss generalizing before with
  | nil => rw [fillPositions]
  | cons s ss ih =>
    obtain ⟨placed, hfill, hplaced⟩ := fillPositions_cons before s ss
    rw [hfill, List.map_cons, List.map_cons, ih]
    rcases hplaced with rfl | ⟨-, p, rfl, -⟩
    · rfl
    · rw [unplaced_withPosition]

/-! ## 4. Making nodes -/

/-- A node over some segments: these are inside it, placed. -/
structure NodeOver (k : SegmentKind) (cs : List Segment) (s : Segment) : Prop where
  kind_eq : s.kind = k
  children_eq : s.children.map unplaced = cs.map unplaced

theorem meets_branch_nodeOver (k : SegmentKind) (type : String) (cs : List Segment) :
    Meets (n ≤ ·) (branch k type cs) (NodeOver k cs) :=
  meets_freshId.bind fun _ _ => .pure ⟨rfl, map_unplaced_fillPositions none cs⟩

namespace NodeOver

variable {k : SegmentKind} {cs : List Segment} {s : Segment}

theorem nodes_eq (h : NodeOver k cs s) (hk : k.isLeaf = false) :
    s.nodes = s :: nodesAll s.children :=
  nodes_of_not_isLeaf (by rw [isLeaf, h.kind_eq]; exact hk)

/-- What is unparsable inside a node is unparsable in it. -/
theorem hasUnparsable (h : NodeOver k cs s) (hk : k.isLeaf = false) (hcs : HasUnparsable cs) :
    HasUnparsable [s] := by
  rw [← hasUnparsable_map_unplaced, ← h.children_eq, hasUnparsable_map_unplaced] at hcs
  exact hcs.mono (by simp +contextual [h.nodes_eq hk])

theorem hasUnparsable_self {expected : Option String} (h : NodeOver (.unparsable expected) cs s) :
    HasUnparsable [s] :=
  ⟨s, by simp [h.nodes_eq rfl], by rw [isUnparsable, h.kind_eq]⟩

/-- A node over segments with balanced markers has balanced markers. -/
theorem even (h : NodeOver k cs s) (hk : k.isLeaf = false) (hcs : Even n cs) : Even n [s] := by
  have hcs' := hcs
  rw [← even_map_unplaced, ← h.children_eq, even_map_unplaced] at hcs'
  rcases hcs' with hun | ⟨balanced, inside⟩
  · exact .inl (hun.mono (by simp +contextual [h.nodes_eq hk]))
  · rw [← steps_of_not_isLeaf (by rw [isLeaf, h.kind_eq]; exact hk)] at balanced
    refine .inr ⟨balanced, ?_⟩
    rw [nodesAll_cons, nodesAll_nil, List.append_nil, h.nodes_eq hk]
    exact List.forall_mem_cons.2 ⟨balanced, inside⟩

end NodeOver

end Segment

end QueryLint
