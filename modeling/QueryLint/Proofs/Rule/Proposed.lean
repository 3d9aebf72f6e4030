import QueryLint.Proofs.Fix.Apart
import QueryLint.Proofs.Rule.Proposal

/-!
QueryLint.Proofs.Rule.Proposed — trees in which proposals are made.

Proposals to different segments of a tree, of which nothing but leaves is taken away, are made all
together: each leaves in the row of its segment what it says, and all other segments stay where they
are. That holds as long as the rows keep code at their edges, for else white space would move. They
do if no code is lost, and if white space is only put where code stands before and after it.

* `Segment.Admits` — proposals that can be made in a tree.
* `Segment.Made` — a plan that makes them, told by what it leaves of every segment.
* `Rule.Tells.applyFixes` — what a rule proposes is made.
* `Segment.KeepsCode`, `Segment.tight_remade` — rows that keep code at their edges.
-/

namespace QueryLint

open Segment

/-! ## 1. What a proposal leaves -/

namespace Proposal

/-- It takes its segment away, or puts another in its place. -/
def takes : Proposal → Bool
  | drop _ | respell _ _ => true
  | spaceBefore _ | newlineAfter _ => false

/-- What is left of its segment, however that was changed inside, when the counter of identities
stood at `k`. -/
def leaves (k : Nat) (u : Segment) : Proposal → List Segment
  | drop _ => []
  | respell s text => [((s.edit (some text) none).run k).1]
  | spaceBefore _ => [((Segment.whitespace " ").run k).1, u]
  | newlineAfter _ => [u, ((Segment.newline "\n").run k).1]

theorem around_fixAt (k : Nat) (u : Segment) (p : Proposal) :
    (p.fixAt k).edit.around u = p.leaves k u := by
  cases p <;> rfl

theorem isInsertion_fixAt (k : Nat) (p : Proposal) :
    (p.fixAt k).edit.isInsertion = !p.takes := by
  cases p <;> rfl

/-- What is brought in is a leaf with the identity that was drawn for it. -/
theorem brings_fixAt {k : Nat} {p : Proposal} (hleaf : p.takes = true → p.anchor.isLeaf = true)
    (htree : p.takes = true → p.anchor.children = []) :
    ∀ t ∈ (p.fixAt k).new, t.isLeaf = true ∧ t.children = [] ∧ t.id = k := by
  intro t ht
  cases p with
  | drop s => cases ht
  | respell s text =>
    obtain rfl := List.mem_singleton.1 ht
    have leaf : s.isLeaf = true := hleaf rfl
    refine ⟨?_, htree rfl, rfl⟩
    obtain ⟨⟨kind, type, types, id, position, fixes⟩, cs⟩ := s
    cases kind with
    | token | marker => rfl
    | node | bracketed | unparsable | file => cases leaf
  | spaceBefore | newlineAfter =>
    obtain rfl := List.mem_singleton.1 ht
    exact ⟨rfl, rfl, rfl⟩

end Proposal

namespace Segment

/-! ## 2. Making proposals -/

/-- Proposals that can all be made in a tree. Each is to another segment, and nothing but leaves is
taken away. -/
structure Admits (tree : Segment) (ps : List Proposal) : Prop where
  apart : (ps.map (·.anchor.id)).Nodup
  anchors : ∀ p ∈ ps, p.anchor ∈ membersAll tree.children
  takes : ∀ p ∈ ps, p.takes = true → p.anchor.isLeaf = true

/-- A plan that makes proposals in a tree, with identities drawn after the counter stood at `n`. -/
structure Made (n : Nat) (tree : Segment) (ps : List Proposal) (plan : FixPlan) : Prop where
  spot : ∀ s ∈ membersAll tree.children,
    (∃ p ∈ ps, p.anchor = s ∧ ∃ k, n ≤ k ∧ ∀ u : Segment, u.id = s.id →
      plan.spotOf u = p.leaves k u) ∨
    (∀ p ∈ ps, p.anchor ≠ s) ∧ ∀ u : Segment, u.id = s.id → plan.spotOf u = [u]

variable {tree : Segment} {ps : List Proposal} {fixes : List Fix} {n : Nat}

/-- A segment inside a tree is a tree. -/
theorem isTree_of_mem_membersAll {s : Segment} (htree : tree.isTree = true)
    (hs : s ∈ membersAll tree.children) : s.isTree = true := by
  refine isTree_of_mem_members htree s ?_
  rw [members_eq]
  exact List.mem_cons_of_mem _ hs

theorem map_anchor_of_becomes (h : List.Forall₂ (Proposal.Becomes n) ps fixes) :
    fixes.map (·.anchor) = ps.map (·.anchor) := by
  induction h with
  | nil => rfl
  | @cons p x ps fixes hx _ ih =>
    obtain ⟨k, -, rfl⟩ := hx
    rw [List.map_cons, List.map_cons, ih, p.anchor_fixAt]

theorem exists_proposal_of_mem (h : List.Forall₂ (Proposal.Becomes n) ps fixes) :
    ∀ x ∈ fixes, ∃ p ∈ ps, p.Becomes n x := by
  induction h with
  | nil => exact List.forall_mem_nil _
  | cons hx _ ih =>
    refine List.forall_mem_cons.2 ⟨⟨_, List.mem_cons_self .., hx⟩, fun y hy => ?_⟩
    obtain ⟨p, hp, becomes⟩ := ih y hy
    exact ⟨p, List.mem_cons_of_mem _ hp, becomes⟩

namespace Admits

variable (h : tree.Admits ps) (htree : tree.isTree = true)
  (hbefore : ∀ k ∈ idsAll tree.children, k < n)
  (hfixes : List.Forall₂ (Proposal.Becomes n) ps fixes)

include h htree hbefore hfixes

/-- The fixes that proposals become can all be made. -/
theorem suits : tree.Suits fixes where
  apart := by
    have anchors := congrArg (List.map (·.id)) (map_anchor_of_becomes hfixes)
    rw [List.map_map, List.map_map] at anchors
    exact anchors ▸ h.apart
  anchors x hx := by
    obtain ⟨p, hp, k, -, rfl⟩ := exists_proposal_of_mem hfixes x hx
    rw [p.anchor_fixAt]
    exact h.anchors p hp
  takes x hx := by
    obtain ⟨p, hp, k, -, rfl⟩ := exists_proposal_of_mem hfixes x hx
    rw [p.anchor_fixAt, p.isInsertion_fixAt]
    cases htakes : p.takes with
    | true => exact .inr (h.takes p hp htakes)
    | false => exact .inl rfl
  brings x hx t ht := by
    obtain ⟨p, hp, k, hk, rfl⟩ := exists_proposal_of_mem hfixes x hx
    have leaf := h.takes p hp
    have tree' := isTree_of_mem_membersAll htree (h.anchors p hp)
    obtain ⟨isLeaf, children, rfl⟩ := Proposal.brings_fixAt leaf
      (fun htakes => (isTree_iff.1 tree').1 (leaf htakes)) t ht
    refine ⟨isLeaf, children, fun hmem => ?_⟩
    have := hbefore _ hmem
    omega

/-- A plan of these fixes makes the proposals. -/
theorem made (hids : (idsAll tree.children).Nodup) {plan : FixPlan} (hplan : plan.IsApart fixes) :
    tree.Made n ps plan where
  spot s hs := by
    have suits := h.suits htree hbefore hfixes
    rcases suits.spotOf_cases hplan hids hs with ⟨x, hx, hanchor, hspot⟩ | ⟨hnone, hspot⟩
    · obtain ⟨p, hp, k, hk, rfl⟩ := exists_proposal_of_mem hfixes x hx
      rw [p.anchor_fixAt] at hanchor
      refine .inl ⟨p, hp, hanchor, k, hk, fun u hu => ?_⟩
      rw [hspot u hu, p.around_fixAt]
    · refine .inr ⟨fun p hp heq => ?_, hspot⟩
      have member : p.anchor ∈ fixes.map (·.anchor) := by
        rw [map_anchor_of_becomes hfixes]
        exact List.mem_map_of_mem hp
      obtain ⟨x, hx, hanchor⟩ := List.mem_map.1 member
      exact hnone x hx (hanchor.trans heq)

end Admits

end Segment

/-- What a rule proposes in a file without markup is made: the plan is valid, no anchor is left
over, and the tokens are those of the tree with every proposal made in its row. So is the whole
tree, if its rows have code at their edges. -/
theorem Rule.Tells.applyFixes {r : Rule} {tells : Site → Memory → List Proposal × Memory}
    (h : r.Tells tells) {tree : Segment} (hfile : tree.isFile = true) (htree : tree.isTree = true)
    (hids : tree.ids.Nodup) {n : Nat} (hbefore : ∀ k ∈ tree.ids, k < n)
    (hsites : ∀ s ∈ r.sites tree, s.view.blankIsToken = true)
    (hadmits : tree.Admits (proposalsFrom tells .empty (r.sites tree)))
    (p : Parser) (source name : String) (m k : Nat) :
    let found := ((r.crawl p.dialect (.ofString source name) tree).run n).1
    let plan := ((FixPlan.ofFixes (found.violations.flatMap (·.fixes))).run m).1
    let fixed := ((tree.applyFixes p plan).run k).1
    found.failure = none ∧ plan.isValid = true ∧ fixed.2 = [] ∧
      tree.Made n (proposalsFrom tells .empty (r.sites tree)) plan ∧ plan.IsExact ∧
      words [fixed.1.segment] = words [plan.remade tree] ∧
      (Tight (plan.remade tree) → fixed.1.segment.unplaced = (plan.remade tree).unplaced) := by
  intro found plan fixed
  obtain ⟨failure, hfixes⟩ : found.failure = none ∧
      List.Forall₂ (Proposal.Becomes n) (proposalsFrom tells .empty (r.sites tree))
        (found.violations.flatMap (·.fixes)) := h.crawl hsites n
  have ids := hids
  rw [ids_eq, List.nodup_cons] at ids
  have inner : ∀ k ∈ idsAll tree.children, k < n := fun k hk => hbefore k (by
    rw [ids_eq]
    exact List.mem_cons_of_mem _ hk)
  have suits := hadmits.suits htree inner hfixes
  have apart : plan.IsApart (found.violations.flatMap (·.fixes)) :=
    FixPlan.isApart_ofFixes suits.apart m
  obtain ⟨valid, left, words, whole⟩ := suits.applyFixes p hfile htree hids m k
  exact ⟨failure, valid, left, hadmits.made htree inner hfixes ids.2 apart, suits.isExact apart,
    words, whole⟩

namespace Segment

variable {plan : FixPlan} {s : Segment} {ss : List Segment}

/-! ## 3. Rows that keep code at their edges -/

/-- A plan takes no code away from some segments and all inside them: code leaves leave code, and
nodes stay. -/
structure KeepsCode (plan : FixPlan) (ss : List Segment) : Prop where
  leaf : ∀ c ∈ membersAll ss, c.isLeaf = true → c.isCode = true →
    ∃ x ∈ plan.spotOf c, x.isCode = true
  node : ∀ c ∈ membersAll ss, c.isLeaf = false → ∀ u : Segment, u.id = c.id → u ∈ plan.spotOf u

namespace KeepsCode

theorem inside (h : KeepsCode plan ss) (hs : s ∈ membersAll ss) : KeepsCode plan s.children where
  leaf c hc := h.leaf c (membersAll_children_subset hs hc)
  node c hc := h.node c (membersAll_children_subset hs hc)

/-- A segment that is code stays so. -/
theorem isCode_remade (htree : s.isTree = true) (h : KeepsCode plan s.children)
    (hs : s.isCode = true) : (plan.remade s).isCode = true := by
  induction s using Segment.induction with
  | mk i cs ih =>
    rw [FixPlan.remade]
    cases hleaf : i.kind.isLeaf with
    | true =>
      obtain rfl : cs = [] := (isTree_iff.1 htree).1 hleaf
      rw [FixPlan.remadeAll]
      exact hs
    | false =>
      have any (us : List Segment) : (Segment.mk i us).isCode = anyCode us := by
        rw [Segment.isCode]
        cases hk : i.kind <;> simp_all [SegmentKind.isLeaf]
      have anyOf (us : List Segment) : anyCode us = us.any (·.isCode) := by
        induction us with
        | nil => rfl
        | cons u us ih => rw [anyCode, ih, List.any_cons]
      rw [any, anyOf, List.any_eq_true] at hs ⊢
      obtain ⟨c, hc, code⟩ := hs
      have member : c ∈ membersAll cs := mem_membersAll_of_mem hc
      have tree := (isTree_iff.1 htree).2 c hc
      obtain ⟨x, hx, hcode⟩ : ∃ x ∈ plan.spotOf (plan.remade c), x.isCode = true := by
        cases hc' : c.isLeaf with
        | true =>
          rw [FixPlan.remade_of_none c (by simp [(isTree_iff.1 tree).1 hc', idsAll])]
          exact h.leaf c member hc' code
        | false =>
          exact ⟨_, h.node c member hc' _ (FixPlan.id_remade c),
            ih c hc tree (h.inside member) code⟩
      refine ⟨x, ?_, hcode⟩
      rw [FixPlan.remadeAll_eq_flatMap]
      exact List.mem_flatMap.2 ⟨c, hc, hx⟩

/-- What is left of code holds code. -/
theorem exists_code (h : KeepsCode plan ss) (htrees : ∀ s ∈ ss, s.isTree = true) {c : Segment}
    (hc : c ∈ ss) (hcode : c.isCode = true) :
    ∃ x ∈ plan.spotOf (plan.remade c), x.isCode = true := by
  have member := mem_membersAll_of_mem hc
  cases hleaf : c.isLeaf with
  | true =>
    rw [FixPlan.remade_of_none c (by simp [(isTree_iff.1 (htrees c hc)).1 hleaf, idsAll])]
    exact h.leaf c member hleaf hcode
  | false =>
    exact ⟨_, h.node c member hleaf _ (FixPlan.id_remade c),
      isCode_remade (htrees c hc) (h.inside member) hcode⟩

end KeepsCode

/-- Where white space is put, or left, there is code before and after it. -/
def StaysBetween (plan : FixPlan) (row : List Segment) : Prop :=
  ∀ front c back, row = front ++ c :: back →
    ∀ before t after, plan.spotOf (plan.remade c) = before ++ t :: after →
      t.isCode = false → t.isMarker = false →
        (∃ x ∈ front, x.isCode = true) ∧
          ((∃ x ∈ after, x.isCode = true) ∨ ∃ x ∈ back, x.isCode = true)

/-- A row that keeps its code, and has white space only between code, is tight. -/
theorem isTight_remadeAll (hcode : KeepsCode plan ss) (htrees : ∀ s ∈ ss, s.isTree = true)
    (hstays : StaysBetween plan ss) : IsTight (plan.remadeAll ss) := by
  intro front t back heq plain token
  -- the segment that it is left of
  obtain ⟨pre, c, post, before, after, rfl, spot, rfl, rfl⟩ : ∃ pre c post before after,
      ss = pre ++ c :: post ∧ plan.spotOf (plan.remade c) = before ++ t :: after ∧
        front = plan.remadeAll pre ++ before ∧ back = after ++ plan.remadeAll post := by
    clear hcode htrees hstays
    induction ss generalizing front with
    | nil => simp [FixPlan.remadeAll] at heq
    | cons c ss ih =>
      rw [FixPlan.remadeAll, List.append_eq_append_iff] at heq
      rcases heq with ⟨rest, rfl, heq⟩ | ⟨rest, hspot, hback⟩
      · obtain ⟨pre, c', post, before, after, rfl, spot, rfl, rfl⟩ := ih rest heq
        exact ⟨c :: pre, c', post, before, after, rfl, spot, by rw [FixPlan.remadeAll,
          List.append_assoc], rfl⟩
      · cases rest with
        | nil =>
          obtain ⟨pre, c', post, before, after, rfl, spot, hfront, rfl⟩ := ih [] hback.symm
          refine ⟨c :: pre, c', post, before, after, rfl, spot, ?_, rfl⟩
          rw [FixPlan.remadeAll, hspot, List.append_assoc, ← hfront, List.append_nil, List.append_nil]
        | cons u rest =>
          rw [List.cons_append, List.cons.injEq] at hback
          obtain ⟨rfl, rfl⟩ := hback
          exact ⟨[], c, ss, front, rest, rfl, hspot, rfl, rfl⟩
  obtain ⟨⟨x, hx, hxcode⟩, behind⟩ := hstays pre c post rfl before t after spot plain token
  have kept {us : List Segment} (hus : ∀ u ∈ us, u ∈ pre ++ c :: post) {u : Segment} (hu : u ∈ us)
      (hucode : u.isCode = true) : ∃ y ∈ plan.remadeAll us, y.isCode = true := by
    obtain ⟨y, hy, hycode⟩ := hcode.exists_code htrees (hus u hu) hucode
    refine ⟨y, ?_, hycode⟩
    rw [FixPlan.remadeAll_eq_flatMap]
    exact List.mem_flatMap.2 ⟨u, hu, hy⟩
  constructor
  · obtain ⟨y, hy, hycode⟩ := kept (fun u hu => List.mem_append_left _ hu) hx hxcode
    exact ⟨y, List.mem_append_left _ hy, hycode⟩
  · rcases behind with ⟨y, hy, hycode⟩ | ⟨u, hu, hucode⟩
    · exact ⟨y, List.mem_append_left _ hy, hycode⟩
    · obtain ⟨y, hy, hycode⟩ := kept
        (fun u hu => List.mem_append_right _ (List.mem_cons_of_mem _ hu)) hu hucode
      exact ⟨y, List.mem_append_right _ hy, hycode⟩

/-- A leaf with nothing inside is tight. -/
theorem tight_of_childless (h : s.children = []) : Tight s :=
  .of_children (fun _ => h ▸ isTight_nil) (by simp [h])

/-- A tree whose rows keep code at their edges is remade into such a tree. -/
theorem tight_remade (htree : s.isTree = true) (hcode : KeepsCode plan s.children)
    (hnew : ∀ c ∈ membersAll s.children, ∀ t ∈ plan.spotOf (plan.remade c),
      t = plan.remade c ∨ t.children = [])
    (hrows : ∀ c ∈ s.members, c.mayHaveLooseEnds = false → StaysBetween plan c.children) :
    Tight (plan.remade s) := by
  induction s using Segment.induction with
  | mk i cs ih =>
    have trees := (isTree_iff.1 htree).2
    refine .of_children (fun hends => ?_) fun t ht => ?_
    · rw [FixPlan.children_remade]
      rw [FixPlan.mayHaveLooseEnds_remade] at hends
      exact isTight_remadeAll hcode trees (hrows _ (mem_members_self _) hends)
    · rw [FixPlan.children_remade, FixPlan.remadeAll_eq_flatMap] at ht
      obtain ⟨c, hc, ht⟩ := List.mem_flatMap.1 ht
      have member : c ∈ membersAll cs := mem_membersAll_of_mem hc
      rcases hnew c member t ht with rfl | childless
      · refine ih c hc (trees c hc) (hcode.inside member)
          (fun u hu => hnew u (membersAll_children_subset member hu)) fun u hu => hrows u ?_
        rw [members]
        exact List.mem_cons_of_mem _ (mem_membersAll.2 ⟨c, hc, hu⟩)
      · exact tight_of_childless childless

end Segment

end QueryLint
