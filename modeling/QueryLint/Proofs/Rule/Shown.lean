import Mathlib.Data.List.Pairwise
import QueryLint.Proofs.Fix.Apart
import QueryLint.Rule.Crawl

/-!
QueryLint.Proofs.Rule.Shown — what rules are shown of a tree.

A rule that looks at tokens is shown leaves with the leaves before them, and a rule that looks at
neighbours is shown segments with those after them in their row. What is inside of an unparsable
segment is not shown, but its leaves still stand before those that follow. Both can be listed
without the sites, and then they can be told of a tree that fixes leave: every anchor is exchanged
for what its fix leaves of it, and all else is shown as before.

* `Segment.exhibits` — the leaves of a tree, each with whether it is shown.
* `Segment.visits`, `Segment.visits_exhibits` — those that are shown, with the leaves before them.
* `Segment.sites_of_root` — what a rule is shown that looks at the root.
* `Segment.seats`, `Segment.map_seat_sitesIn` — segments with those after them in their row.
* `FixPlan.exhibits_remade`, `FixPlan.mem_seatsAll_remadeAll` — the same after fixes.
-/

namespace QueryLint

namespace Segment

variable {s t : Segment} {ss : List Segment}

/-! ## 1. Leaves that are shown -/

mutual

/-- The leaves of a segment, each with whether it is shown. Those in unparsable segments are not. -/
def exhibits (shown : Bool) : Segment → List (Segment × Bool)
  | mk i cs =>
    if i.kind.isLeaf then [(mk i cs, shown)]
    else exhibitsAll (shown && !(mk i cs).isUnparsable) cs

/-- The same of several segments. -/
def exhibitsAll (shown : Bool) : List Segment → List (Segment × Bool)
  | [] => []
  | s :: rest => s.exhibits shown ++ exhibitsAll shown rest

end

theorem exhibits_of_isLeaf (h : s.isLeaf = true) (shown : Bool) :
    s.exhibits shown = [(s, shown)] := by
  cases s with
  | mk i cs =>
    have leaf : i.kind.isLeaf = true := h
    rw [exhibits, if_pos leaf]

theorem exhibits_of_not_isLeaf (h : s.isLeaf = false) (shown : Bool) :
    s.exhibits shown = exhibitsAll (shown && !s.isUnparsable) s.children := by
  cases s with
  | mk i cs =>
    have leaf : i.kind.isLeaf = false := h
    rw [exhibits, leaf]
    rfl

theorem exhibitsAll_append (shown : Bool) (us : List Segment) :
    exhibitsAll shown (ss ++ us) = exhibitsAll shown ss ++ exhibitsAll shown us := by
  induction ss with
  | nil => rfl
  | cons s ss ih => rw [List.cons_append, exhibitsAll, exhibitsAll, ih, List.append_assoc]

mutual

theorem map_fst_exhibits (shown : Bool) (s : Segment) :
    (s.exhibits shown).map (·.1) = s.leaves := by
  match s with
  | mk i cs =>
    rw [exhibits, leaves]
    split
    · rfl
    · exact map_fst_exhibitsAll _ cs

theorem map_fst_exhibitsAll (shown : Bool) (ss : List Segment) :
    (exhibitsAll shown ss).map (·.1) = leavesAll ss := by
  match ss with
  | [] => rfl
  | s :: rest =>
    rw [exhibitsAll, leavesAll, List.map_append, map_fst_exhibits shown s,
      map_fst_exhibitsAll shown rest]

end

theorem mem_leaves_of_mem_exhibits {shown : Bool} {s : Segment} {e : Segment × Bool}
    (he : e ∈ s.exhibits shown) : e.1 ∈ s.leaves :=
  map_fst_exhibits shown s ▸ List.mem_map_of_mem he

mutual

/-- Nothing is shown of what is not shown. -/
theorem snd_exhibits_false (s : Segment) : ∀ e ∈ s.exhibits false, e.2 = false := by
  match s with
  | mk i cs =>
    rw [exhibits]
    split
    · simp
    · exact snd_exhibitsAll_false cs

theorem snd_exhibitsAll_false (ss : List Segment) : ∀ e ∈ exhibitsAll false ss, e.2 = false := by
  match ss with
  | [] => exact List.forall_mem_nil _
  | s :: rest =>
    rw [exhibitsAll]
    exact List.forall_mem_append.2 ⟨snd_exhibits_false s, snd_exhibitsAll_false rest⟩

end

mutual

theorem exhibits_unplaced (shown : Bool) (s : Segment) :
    s.unplaced.exhibits shown = (s.exhibits shown).map (fun e => (e.1.unplaced, e.2)) := by
  match s with
  | mk i cs =>
    have ih := exhibitsAll_unplacedAll (shown && !(mk i cs).isUnparsable) cs
    rw [unplaced, exhibits, exhibits]
    dsimp only
    split
    · rw [List.map_singleton, unplaced]
    · exact ih

theorem exhibitsAll_unplacedAll (shown : Bool) (ss : List Segment) :
    exhibitsAll shown (unplacedAll ss) =
      (exhibitsAll shown ss).map (fun e => (e.1.unplaced, e.2)) := by
  match ss with
  | [] => rw [unplacedAll]; rfl
  | s :: rest =>
    rw [unplacedAll, exhibitsAll, exhibitsAll, exhibits_unplaced shown s,
      exhibitsAll_unplacedAll shown rest, List.map_append]

end

/-- Leaves that are shown, each with the leaves before it, the nearest first. -/
def visits (before : List Segment) : List (Segment × Bool) → List (Segment × List Segment)
  | [] => []
  | (x, shown) :: rest => (if shown then [(x, before)] else []) ++ visits (x :: before) rest

theorem visits_append (before : List Segment) (es es' : List (Segment × Bool)) :
    visits before (es ++ es') =
      visits before es ++ visits ((es.map (·.1)).reverse ++ before) es' := by
  induction es generalizing before with
  | nil => rfl
  | cons e es ih =>
    obtain ⟨x, shown⟩ := e
    rw [List.cons_append, visits, visits, ih, List.append_assoc]
    simp

theorem visits_of_hidden (before : List Segment) {es : List (Segment × Bool)}
    (h : ∀ e ∈ es, e.2 = false) : visits before es = [] := by
  induction es generalizing before with
  | nil => rfl
  | cons e es ih =>
    obtain ⟨x, shown⟩ := e
    obtain ⟨hx, hes⟩ := List.forall_mem_cons.1 h
    obtain rfl : shown = false := hx
    rw [visits, ih _ hes]
    rfl

/-- What is visited are the leaves that are shown. -/
theorem map_fst_visits (before : List Segment) (es : List (Segment × Bool)) :
    (visits before es).map (·.1) = (es.filter (·.2)).map (·.1) := by
  induction es generalizing before with
  | nil => rfl
  | cons e es ih =>
    obtain ⟨x, shown⟩ := e
    rw [visits, List.map_append, ih, List.filter_cons]
    cases shown <;> rfl

mutual

/-- The sites at leaves are the leaves that are shown, with those before them. -/
theorem visits_exhibits (parents before after leaves : List Segment) (s : Segment)
    (hs : s.isTree = true) :
    ((sitesIn false parents before after leaves s).filter (·.segment.isLeaf)).map
      (fun x => (x.segment, x.leavesBefore)) = visits leaves (s.exhibits true) := by
  match s with
  | mk i cs =>
    have tree := isTree_iff.1 hs
    have inside := visits_exhibitsAll (parents ++ [mk i cs]) [] leaves cs tree.2
    rw [sitesIn]
    cases hleaf : (mk i cs).isLeaf with
    | true =>
      obtain rfl : cs = [] := tree.1 hleaf
      have parsed : (mk i []).isUnparsable = false := by
        have leaf : i.kind.isLeaf = true := hleaf
        unfold isUnparsable kind info
        cases hk : i.kind <;> simp_all [SegmentKind.isLeaf]
      rw [exhibits_of_isLeaf hleaf, parsed]
      simp [sitesInAll, visits, hleaf]
    | false =>
      rw [exhibits_of_not_isLeaf hleaf, Bool.true_and]
      cases hself : (mk i cs).isUnparsable with
      | true =>
        exact (visits_of_hidden leaves (snd_exhibitsAll_false cs)).symm
      | false =>
        simp only [Bool.not_false, Bool.and_true, Bool.false_eq_true, if_false]
        rw [List.filter_cons_of_neg (by simp [hleaf])]
        exact inside
termination_by structural s

theorem visits_exhibitsAll (parents before leaves : List Segment) (ss : List Segment)
    (hss : ∀ s ∈ ss, s.isTree = true) :
    ((sitesInAll false parents before leaves ss).filter (·.segment.isLeaf)).map
      (fun x => (x.segment, x.leavesBefore)) = visits leaves (exhibitsAll true ss) := by
  match ss with
  | [] => rw [sitesInAll]; rfl
  | s :: rest =>
    obtain ⟨hs, hrest⟩ := List.forall_mem_cons.1 hss
    rw [sitesInAll, exhibitsAll, List.filter_append, List.map_append,
      visits_exhibits parents before rest leaves s hs, visits_append, map_fst_exhibits]
    exact congrArg _
      (visits_exhibitsAll parents (s :: before) (s.leaves.reverse ++ leaves) rest hrest)
termination_by structural ss

end

/-! ## 2. The root -/

mutual

theorem parents_ne_nil_of_mem_sitesIn {whole : Bool} {parents before after leaves : List Segment}
    (hparents : parents ≠ []) {x : Site} (s : Segment)
    (hx : x ∈ sitesIn whole parents before after leaves s) : x.parents ≠ [] := by
  match s with
  | mk i cs =>
    rw [sitesIn] at hx
    split at hx
    · cases hx
    · rcases List.mem_cons.1 hx with rfl | hx
      · exact hparents
      · exact parents_ne_nil_of_mem_sitesInAll (by simp) cs hx
termination_by structural s

/-- Only the root is inside of nothing. -/
theorem parents_ne_nil_of_mem_sitesInAll {whole : Bool} {parents before leaves : List Segment}
    (hparents : parents ≠ []) {x : Site} (ss : List Segment)
    (hx : x ∈ sitesInAll whole parents before leaves ss) : x.parents ≠ [] := by
  match ss with
  | [] => simp [sitesInAll] at hx
  | s :: rest =>
    rw [sitesInAll] at hx
    rcases List.mem_append.1 hx with hx | hx
    · exact parents_ne_nil_of_mem_sitesIn hparents s hx
    · exact parents_ne_nil_of_mem_sitesInAll hparents rest hx
termination_by structural ss

end

/-- A rule that looks at the root only is shown the tree. -/
theorem sites_of_root {r : Rule} (hr : r.target = .root) {tree : Segment}
    (htree : tree.isUnparsable = false) : r.sites tree = [⟨tree, [], [], [], []⟩] := by
  obtain ⟨i, cs⟩ := tree
  have wants (x : Site) : r.wants x = x.parents.isEmpty := by rw [Rule.wants, hr]
  have inner (parents : List Segment) (hparents : parents ≠ []) :
      (sitesInAll r.worksOnUnparsable parents [] [] cs).filter r.wants = [] := by
    refine List.filter_eq_nil_iff.2 fun x hx => ?_
    have := parents_ne_nil_of_mem_sitesInAll hparents cs hx
    simpa [wants] using this
  rw [Rule.sites, sites, sitesIn, htree, Bool.false_and, if_neg Bool.false_ne_true,
    List.filter_cons_of_pos (by simp [wants]), inner _ (by simp)]

/-! ## 3. Segments in their rows -/

mutual

/-- The segments of a tree that are shown, each with those after it in its row. -/
def seats (after : List Segment) : Segment → List (Segment × List Segment)
  | mk i cs => if (mk i cs).isUnparsable then [] else (mk i cs, after) :: seatsAll cs

/-- The same of the segments of a row. -/
def seatsAll : List Segment → List (Segment × List Segment)
  | [] => []
  | s :: rest => s.seats rest ++ seatsAll rest

end

theorem seats_eq (after : List Segment) (s : Segment) :
    s.seats after = if s.isUnparsable then [] else (s, after) :: seatsAll s.children := by
  cases s with
  | mk i cs => rw [seats]; rfl

mutual

theorem map_seat_sitesIn (parents before after leaves : List Segment) (s : Segment) :
    (sitesIn false parents before after leaves s).map (fun x => (x.segment, x.siblingsAfter)) =
      s.seats after := by
  match s with
  | mk i cs =>
    have ih := map_seat_sitesInAll (parents ++ [mk i cs]) [] leaves cs
    rw [sitesIn, seats]
    cases (mk i cs).isUnparsable with
    | true => rfl
    | false => exact congrArg _ ih
termination_by structural s

theorem map_seat_sitesInAll (parents before leaves : List Segment) (ss : List Segment) :
    (sitesInAll false parents before leaves ss).map (fun x => (x.segment, x.siblingsAfter)) =
      seatsAll ss := by
  match ss with
  | [] => rw [sitesInAll]; rfl
  | s :: rest =>
    rw [sitesInAll, seatsAll, List.map_append, map_seat_sitesIn parents before rest leaves s,
      map_seat_sitesInAll parents (s :: before) (s.leaves.reverse ++ leaves) rest]
termination_by structural ss

end

mutual

theorem seats_unplaced (after : List Segment) (s : Segment) :
    s.unplaced.seats (after.map unplaced) =
      (s.seats after).map (Prod.map unplaced (List.map unplaced)) := by
  match s with
  | mk i cs =>
    have ih := seatsAll_unplacedAll cs
    have parsed : (mk i cs).unplaced.isUnparsable = (mk i cs).isUnparsable := by
      simp [isUnparsable]
    rw [seats_eq, seats_eq, parsed]
    split
    · rfl
    · rw [unplacedAll_eq_map] at ih
      rw [List.map_cons, children_unplaced]
      exact congrArg (List.cons ((mk i cs).unplaced, after.map unplaced)) ih

theorem seatsAll_unplacedAll (ss : List Segment) :
    seatsAll (unplacedAll ss) = (seatsAll ss).map (Prod.map unplaced (List.map unplaced)) := by
  match ss with
  | [] => rw [unplacedAll]; rfl
  | s :: rest =>
    have own := seats_unplaced rest s
    rw [unplacedAll, seatsAll, seatsAll, List.map_append, ← own, seatsAll_unplacedAll rest,
      unplacedAll_eq_map]

end

mutual

/-- A segment that is shown and all after it in its row are in the tree. -/
theorem mem_members_of_mem_seats {after : List Segment} {e : Segment × List Segment} (s : Segment)
    (he : e ∈ s.seats after) : e = (s, after) ∨ e.1 ∈ membersAll s.children ∧
      ∀ t ∈ e.2, t ∈ membersAll s.children := by
  match s with
  | mk i cs =>
    rw [seats] at he
    split at he
    · cases he
    · exact (List.mem_cons.1 he).imp_right (mem_membersAll_of_mem_seatsAll cs)

theorem mem_membersAll_of_mem_seatsAll {e : Segment × List Segment} (ss : List Segment)
    (he : e ∈ seatsAll ss) : e.1 ∈ membersAll ss ∧ ∀ t ∈ e.2, t ∈ membersAll ss := by
  match ss with
  | [] => cases he
  | s :: rest =>
    rw [membersAll, members_eq]
    rcases List.mem_append.1 he with he | he
    · rcases mem_members_of_mem_seats s he with rfl | ⟨own, after⟩
      · exact ⟨by simp, fun t ht => by simp [mem_membersAll_of_mem ht]⟩
      · exact ⟨by simp [own], fun t ht => by simp [after t ht]⟩
    · obtain ⟨own, after⟩ := mem_membersAll_of_mem_seatsAll rest he
      exact ⟨by simp [own], fun t ht => by simp [after t ht]⟩

end

mutual

/-- What comes after a segment that is shown is what comes after it in its row. -/
theorem exists_row_of_mem_seats {after : List Segment} {e : Segment × List Segment} (s : Segment)
    (he : e ∈ s.seats after) :
    e = (s, after) ∨ ∃ u ∈ s.members, ∃ lead, u.children = lead ++ e.1 :: e.2 := by
  match s with
  | mk i cs =>
    rw [seats] at he
    split at he
    · cases he
    · refine (List.mem_cons.1 he).imp_right fun he => ?_
      rcases exists_row_of_mem_seatsAll cs he with ⟨lead, heq⟩ | ⟨c, hc, u, hu, row⟩
      · exact ⟨_, mem_members_self _, lead, heq⟩
      · refine ⟨u, ?_, row⟩
        rw [members]
        exact List.mem_cons_of_mem _ (mem_membersAll.2 ⟨c, hc, hu⟩)

theorem exists_row_of_mem_seatsAll {e : Segment × List Segment} (ss : List Segment)
    (he : e ∈ seatsAll ss) : (∃ lead, ss = lead ++ e.1 :: e.2) ∨
      ∃ c ∈ ss, ∃ u ∈ c.members, ∃ lead, u.children = lead ++ e.1 :: e.2 := by
  match ss with
  | [] => cases he
  | s :: rest =>
    rcases List.mem_append.1 he with he | he
    · rcases exists_row_of_mem_seats s he with rfl | row
      · exact .inl ⟨[], rfl⟩
      · exact .inr ⟨s, List.mem_cons_self .., row⟩
    · rcases exists_row_of_mem_seatsAll rest he with ⟨lead, heq⟩ | ⟨c, hc, row⟩
      · exact .inl ⟨s :: lead, by rw [heq, List.cons_append]⟩
      · exact .inr ⟨c, List.mem_cons_of_mem _ hc, row⟩

end

/-- The children of the segments of a tree are all that is inside of it. -/
theorem perm_children (s : Segment) :
    (s.members.flatMap (·.children)).Perm (membersAll s.children) := by
  have row (us : List Segment)
      (hus : ∀ u ∈ us, (u.members.flatMap (·.children)).Perm (membersAll u.children)) :
      (us ++ (membersAll us).flatMap (·.children)).Perm (membersAll us) := by
    induction us with
    | nil => exact List.Perm.refl _
    | cons u us ih =>
      obtain ⟨hu, hrest⟩ := List.forall_mem_cons.1 hus
      rw [membersAll, List.flatMap_append, List.cons_append, members_eq u, List.cons_append,
        ← members_eq u]
      exact .cons u ((List.perm_append_comm_assoc ..).trans (hu.append (ih hrest)))
  induction s using Segment.induction with
  | mk i cs ih =>
    rw [members, List.flatMap_cons]
    exact row cs ih

/-- Where identities are different, no segment is in two rows. -/
theorem eq_of_mem_children {u u' : Segment} (hids : (idsAll s.children).Nodup)
    (hu : u ∈ s.members) (hu' : u' ∈ s.members) (ht : t ∈ u.children) (ht' : t ∈ u'.children) :
    u = u' := by
  rw [← map_id_membersAll] at hids
  have nodup := (perm_children s).nodup_iff.2 (List.Nodup.of_map _ hids)
  have apart := (List.nodup_flatMap.1 nodup).2
  by_contra hne
  have symm : Std.Symm (Function.onFun List.Disjoint fun u : Segment => u.children) :=
    ⟨fun _ _ h _ hx hy => h hy hx⟩
  exact apart.forall hu hu' hne ht ht'

end Segment

namespace FixPlan

open Segment

variable {plan : FixPlan}

/-! ## 4. After fixes -/

mutual

/-- If all anchors are leaves, and leaves are put there, the leaves that are shown are exchanged for
what the plan leaves of them. -/
theorem exhibits_remade {s : Segment} (hs : s.isTree = true)
    (node : ∀ c ∈ membersAll s.children, c.isLeaf = false →
      plan.spotOf (plan.remade c) = [plan.remade c])
    (leaf : ∀ c ∈ membersAll s.children, c.isLeaf = true → ∀ t ∈ plan.spotOf c, t.isLeaf = true)
    (hself : s.isLeaf = false) (shown : Bool) :
    (plan.remade s).exhibits shown =
      (s.exhibits shown).flatMap fun e => (plan.spotOf e.1).map (·, e.2) := by
  match s with
  | .mk i cs =>
    rw [exhibits_of_not_isLeaf (by simpa using hself), exhibits_of_not_isLeaf hself,
      children_remade, isUnparsable_remade]
    exact exhibitsAll_remadeAll (isTree_iff.1 hs).2 node leaf _

theorem exhibitsAll_remadeAll {ss : List Segment} (hss : ∀ s ∈ ss, s.isTree = true)
    (node : ∀ c ∈ membersAll ss, c.isLeaf = false →
      plan.spotOf (plan.remade c) = [plan.remade c])
    (leaf : ∀ c ∈ membersAll ss, c.isLeaf = true → ∀ t ∈ plan.spotOf c, t.isLeaf = true)
    (shown : Bool) :
    exhibitsAll shown (plan.remadeAll ss) =
      (exhibitsAll shown ss).flatMap fun e => (plan.spotOf e.1).map (·, e.2) := by
  match ss with
  | [] => rfl
  | s :: rest =>
    obtain ⟨hs, hrest⟩ := List.forall_mem_cons.1 hss
    rw [membersAll, List.forall_mem_append, members_eq, List.forall_mem_cons] at node leaf
    have own : exhibitsAll shown (plan.spotOf (plan.remade s)) =
        (s.exhibits shown).flatMap fun e => (plan.spotOf e.1).map (·, e.2) := by
      cases hself : s.isLeaf with
      | true =>
        have plain : plan.remade s = s := by
          have children : s.children = [] := (isTree_iff.1 hs).1 hself
          exact remade_of_none s (by simp [children, idsAll])
        have leaves := leaf.1.1 hself
        rw [plain, exhibits_of_isLeaf hself, List.flatMap_singleton]
        generalize plan.spotOf s = us at leaves
        induction us with
        | nil => rfl
        | cons u us ih =>
          obtain ⟨hu, hus⟩ := List.forall_mem_cons.1 leaves
          rw [exhibitsAll, exhibits_of_isLeaf hu, ih hus]
          rfl
      | false =>
        rw [node.1.1 hself, exhibitsAll, exhibitsAll, List.append_nil]
        exact exhibits_remade hs node.1.2 leaf.1.2 hself shown
    rw [remadeAll, exhibitsAll_append, own, exhibitsAll, List.flatMap_append,
      exhibitsAll_remadeAll hrest node.2 leaf.2 shown]

end

/-- Among childless segments in front of a row, the row is shown as it is. -/
theorem mem_seatsAll_append {front us : List Segment} (hfront : ∀ t ∈ front, t.children = [])
    {e : Segment × List Segment} (he : e ∈ seatsAll (front ++ us)) :
    e.1 ∈ front ∨ e ∈ seatsAll us := by
  induction front with
  | nil => exact .inr he
  | cons t front ih =>
    obtain ⟨ht, hrest⟩ := List.forall_mem_cons.1 hfront
    rw [List.cons_append, seatsAll, seats_eq, ht, List.mem_append] at he
    rcases he with he | he
    · split at he
      · cases he
      · obtain rfl := List.mem_singleton.1 he
        exact .inl (List.mem_cons_self ..)
    · exact (ih hrest he).imp_left (List.mem_cons_of_mem _)

variable {new : Segment → Prop}

mutual

/-- If every anchor is taken away or keeps its place behind what is put in front of it, a segment
that is shown in the tree that is left is new, or it is shown in the old tree with what was after it
there. -/
theorem mem_seats_remade {s : Segment}
    (spots : ∀ c ∈ membersAll s.children, ∃ front, (∀ t ∈ front, new t ∧ t.children = []) ∧
      (plan.spotOf (plan.remade c) = front ∨
        plan.spotOf (plan.remade c) = front ++ [plan.remade c]))
    {after : List Segment} {e : Segment × List Segment}
    (he : e ∈ (plan.remade s).seats (plan.remadeAll after)) :
    new e.1 ∨ ∃ e' ∈ s.seats after, e.1 = plan.remade e'.1 ∧ e.2 = plan.remadeAll e'.2 := by
  match s with
  | .mk i cs =>
    rw [seats_eq, isUnparsable_remade, children_remade] at he
    rw [seats]
    split at he
    · cases he
    · next hself =>
      rw [if_neg hself]
      rcases List.mem_cons.1 he with rfl | he
      · exact .inr ⟨_, List.mem_cons_self .., rfl, rfl⟩
      · refine (mem_seatsAll_remadeAll spots he).imp_right ?_
        rintro ⟨e', he', same⟩
        exact ⟨e', List.mem_cons_of_mem _ he', same⟩

theorem mem_seatsAll_remadeAll {ss : List Segment}
    (spots : ∀ c ∈ membersAll ss, ∃ front, (∀ t ∈ front, new t ∧ t.children = []) ∧
      (plan.spotOf (plan.remade c) = front ∨
        plan.spotOf (plan.remade c) = front ++ [plan.remade c]))
    {e : Segment × List Segment} (he : e ∈ seatsAll (plan.remadeAll ss)) :
    new e.1 ∨ ∃ e' ∈ seatsAll ss, e.1 = plan.remade e'.1 ∧ e.2 = plan.remadeAll e'.2 := by
  match ss with
  | [] => cases he
  | s :: rest =>
    rw [membersAll, List.forall_mem_append, members_eq, List.forall_mem_cons] at spots
    obtain ⟨⟨⟨front, hfront, own⟩, inside⟩, others⟩ := spots
    have childless : ∀ t ∈ front, t.children = [] := fun t ht => (hfront t ht).2
    have later (he : e ∈ seatsAll (plan.remadeAll rest)) : new e.1 ∨
        ∃ e' ∈ seatsAll (s :: rest), e.1 = plan.remade e'.1 ∧ e.2 = plan.remadeAll e'.2 := by
      refine (mem_seatsAll_remadeAll others he).imp_right ?_
      rintro ⟨e', he', same⟩
      exact ⟨e', List.mem_append_right _ he', same⟩
    rw [remadeAll] at he
    rcases own with own | own
    · rw [own] at he
      rcases mem_seatsAll_append childless he with he | he
      · exact .inl (hfront _ he).1
      · exact later he
    · rw [own, List.append_assoc] at he
      rcases mem_seatsAll_append childless he with he | he
      · exact .inl (hfront _ he).1
      · rcases List.mem_append.1 he with he | he
        · refine (mem_seats_remade inside he).imp_right ?_
          rintro ⟨e', he', same⟩
          exact ⟨e', List.mem_append_left _ he', same⟩
        · exact later he

end

end FixPlan

end QueryLint
