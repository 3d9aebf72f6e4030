import QueryLint.Proofs.Fix.Reached
import QueryLint.Proofs.Rule.Proposed
import QueryLint.Proofs.Rule.Shown

/-!
QueryLint.Proofs.Rule.Ordinary — trees in which one round of a rule is enough.

The rules of the library take some things for granted: that white space, line ends and commas are
tokens, that two pieces of white space never follow each other, that nodes hold code and have it at
their edges. In such a tree what a rule proposes is made as it stands, so it can be said of the
remade tree that the rule proposes nothing there. Where segments come to stand in the source does
not matter for that.

* `SegmentInfo.IsFrank` — a segment counts as white space, line end or comma if it is one.
* `Segment.Ordinary` — trees that give a rule what it takes for granted.
* `Segment.Made.tight` — making proposals leaves code at the edges of nodes.
* `Rule.SettlesIn`, `Rule.Tells.settlesIn` — one round of a rule is enough.
-/

namespace QueryLint

open Segment

/-! ## 1. Segments that are what they count as -/

/-- What counts as white space, line end or comma is a token of that kind, and code is no
comment. -/
structure SegmentInfo.IsFrank (i : SegmentInfo) : Prop where
  blank : i.classTypes.contains "whitespace" = true ∨ i.classTypes.contains "newline" = true →
    ∃ text norm, i.kind = .token text .ofBlank norm
  comma : i.classTypes.contains "comma" = true → ∃ text norm, i.kind = .token text .ofCode norm
  code : ∀ text flags norm, i.kind = .token text flags norm → flags.code = true →
    flags.comment = false

namespace SegmentInfo

theorem isPlaceless_isFrank : IsPlaceless IsFrank := by
  intro i p
  constructor <;> rintro ⟨blank, comma, code⟩ <;> exact ⟨blank, comma, code⟩

namespace IsFrank

variable {s : Segment}

/-- White space and line ends are tokens that are no code. -/
theorem of_blank (h : s.info.IsFrank)
    (hs : s.isType "whitespace" = true ∨ s.isType "newline" = true) :
    s.isLeaf = true ∧ s.isMarker = false ∧ s.isCode = false ∧ s.isBlank = true ∧
      s.isComment = false := by
  obtain ⟨text, norm, hkind⟩ := h.blank hs
  obtain ⟨i, cs⟩ := s
  have kind : i.kind = .token text .ofBlank norm := hkind
  simp [isLeaf, isMarker, marker?, Segment.kind, info, isCode, isBlank, isComment, kind,
    SegmentKind.isLeaf, TokenFlags.ofBlank]

/-- Commas are code tokens. -/
theorem of_comma (h : s.info.IsFrank) (hs : s.isType "comma" = true) :
    s.isLeaf = true ∧ s.isMarker = false ∧ s.isCode = true := by
  obtain ⟨text, norm, hkind⟩ := h.comma hs
  obtain ⟨i, cs⟩ := s
  have kind : i.kind = .token text .ofCode norm := hkind
  simp [isLeaf, isMarker, marker?, Segment.kind, info, isCode, kind, SegmentKind.isLeaf,
    TokenFlags.ofCode]

end IsFrank

end SegmentInfo

namespace Segment

variable {s t : Segment} {ss : List Segment}

theorem allComments_eq_all (ss : List Segment) : allComments ss = ss.all (·.isComment) := by
  induction ss with
  | nil => rfl
  | cons s ss ih => rw [allComments, ih, List.all_cons]

theorem anyCode_eq_any_isCode (ss : List Segment) : anyCode ss = ss.any (·.isCode) := by
  induction ss with
  | nil => rfl
  | cons s ss ih => rw [anyCode, ih, List.any_cons]

/-- What holds code is no comment. -/
theorem isComment_of_isCode (h : Every SegmentInfo.IsFrank s) (hs : s.isCode = true) :
    s.isComment = false := by
  induction h with
  | @mk i cs own _ ih =>
    rw [isCode] at hs
    rw [isComment]
    cases hkind : i.kind with
    | token text flags norm => exact own.code text flags norm hkind (by simpa [hkind] using hs)
    | marker m => simp [hkind] at hs
    | node | bracketed | unparsable | file =>
      rw [hkind] at hs
      dsimp only at hs ⊢
      rw [anyCode_eq_any_isCode, List.any_eq_true] at hs
      obtain ⟨c, hc, code⟩ := hs
      rw [allComments_eq_all, Bool.and_eq_false_iff]
      exact .inr (List.all_eq_false.2 ⟨c, hc, by simp [ih c hc code]⟩)

@[simp] theorem marker?_unplaced (s : Segment) : s.unplaced.marker? = s.marker? := by
  simp [marker?]

@[simp] theorem isType_unplaced (s : Segment) (type : String) :
    s.unplaced.isType type = s.isType type := by
  simp [isType, classTypes]

mutual

@[simp] theorem isComment_unplaced (s : Segment) : s.unplaced.isComment = s.isComment := by
  match s with
  | mk i cs =>
    have ih := allComments_unplacedAll cs
    rw [unplaced, isComment, isComment, unplacedAll_eq_map, List.isEmpty_map, ← unplacedAll_eq_map]
    split <;> simp_all

theorem allComments_unplacedAll (ss : List Segment) :
    allComments (unplacedAll ss) = allComments ss := by
  match ss with
  | [] => rw [unplacedAll]
  | s :: rest =>
    rw [unplacedAll, allComments, allComments, isComment_unplaced s, allComments_unplacedAll rest]

end

/-- What does not ask for positions finds the same segments without any. -/
theorem map_unplaced_filter {p : Segment → Bool} (hp : ∀ s : Segment, p s.unplaced = p s)
    (ss : List Segment) : (ss.filter p).map unplaced = (ss.map unplaced).filter p := by
  rw [List.filter_map]
  exact congrArg _ (List.filter_congr fun s _ => (hp s).symm)

theorem map_unplaced_tokens (ss : List Segment) :
    (ss.filter (!·.isMarker)).map unplaced = (ss.map unplaced).filter (!·.isMarker) :=
  map_unplaced_filter (fun s => by simp) ss

theorem isLeaf_of_isMarker (h : s.isMarker = true) : s.isLeaf = true := by
  obtain ⟨⟨kind, type, types, id, position, fixes⟩, cs⟩ := s
  cases kind with
  | token | marker => rfl
  | node | bracketed | unparsable | file => cases h

theorem isLeaf_of_mem_leaves {x : Segment} (s : Segment) (hx : x ∈ s.leaves) :
    x.isLeaf = true := by
  induction s using Segment.induction with
  | mk i cs ih =>
    rw [leaves] at hx
    split at hx
    · next hleaf =>
      rw [List.mem_singleton.1 hx]
      exact hleaf
    · obtain ⟨c, hc, hx⟩ := mem_leavesAll.1 hx
      exact ih c hc hx

/-! ## 2. Ordinary trees -/

/-- A tree that gives the rules what they take for granted, at a time when the counter of identities
stands at `n`. -/
structure Ordinary (n : Nat) (tree : Segment) : Prop where
  isFile : tree.isFile = true
  isTree : tree.isTree = true
  ids : tree.ids.Nodup
  before : ∀ k ∈ tree.ids, k < n
  tight : Tight tree
  frank : Every SegmentInfo.IsFrank tree
  /-- Nodes hold code. -/
  nodes : ∀ c ∈ membersAll tree.children, c.isLeaf = false → c.isCode = true
  /-- Tokens stand in the source as they are. -/
  literal : ∀ x ∈ tree.leaves, x.isMarker = false → x.position.any (·.isLiteral) = true
  /-- White space is never followed by more of it. -/
  blanks : (tree.leaves.filter (!·.isMarker)).IsChain fun x y =>
    x.isType "whitespace" = true → y.isType "whitespace" = false

namespace Ordinary

variable {n : Nat} {tree : Segment} (h : Ordinary n tree)

include h

theorem isLeaf_eq : tree.isLeaf = false := by
  have file : tree.kind = .file := by simpa [Segment.isFile] using h.isFile
  simp [isLeaf, file, SegmentKind.isLeaf]

theorem isUnparsable_eq : tree.isUnparsable = false := by
  have file : tree.kind = .file := by simpa [Segment.isFile] using h.isFile
  simp [isUnparsable, file]

theorem leaves_eq : tree.leaves = leavesAll tree.children := leaves_of_not_isLeaf h.isLeaf_eq

theorem nodup_idsAll : (idsAll tree.children).Nodup := by
  have ids := h.ids
  rw [ids_eq, List.nodup_cons] at ids
  exact ids.2

theorem isFrank {c : Segment} (hc : c ∈ membersAll tree.children) : c.info.IsFrank :=
  (h.frank.of_mem_membersAll c hc).own

theorem leaves_sublist : tree.leaves.Sublist (membersAll tree.children) := by
  rw [h.leaves_eq]
  exact leavesAll_sublist_membersAll _

/-- Segments in the order of the tree are told apart by their identities. -/
theorem nodup_map_id {D : List Segment} (hD : D.Sublist (membersAll tree.children)) :
    (D.map (·.id)).Nodup := by
  refine List.Nodup.sublist (hD.map _) ?_
  rw [map_id_membersAll]
  exact h.nodup_idsAll

theorem isTree_of_mem {c : Segment} (hc : c ∈ membersAll tree.children) : c.isTree = true :=
  isTree_of_mem_membersAll h.isTree hc

/-- In a leaf there is nothing to change. -/
theorem remade_of_isLeaf {plan : FixPlan} {c : Segment} (hc : c ∈ membersAll tree.children)
    (hleaf : c.isLeaf = true) : plan.remade c = c :=
  FixPlan.remade_of_none _ (by simp [(isTree_iff.1 (h.isTree_of_mem hc)).1 hleaf, idsAll])

end Ordinary

/-- In a segment that is frank throughout, white space that comes next is a token. -/
theorem blankIsToken_of_frank {tree : Segment} (h : Every SegmentInfo.IsFrank tree) {r : Rule}
    (hr : r.worksOnUnparsable = false) : ∀ s ∈ r.sites tree, s.view.blankIsToken = true := by
  intro s hs
  rw [Rule.sites, hr] at hs
  have seat : (s.segment, s.siblingsAfter) ∈ tree.seats [] := by
    rw [← map_seat_sitesIn [] [] [] []]
    exact List.mem_map_of_mem (List.mem_filter.1 hs).1
  have after : ∀ t ∈ s.siblingsAfter, t.info.IsFrank := by
    rcases mem_members_of_mem_seats tree seat with heq | ⟨-, hafter⟩
    · simp [(Prod.mk.inj heq).2]
    · exact fun t ht => (h.of_mem_membersAll t (hafter t ht)).own
  have view : s.view.after = (s.nextSiblings.take 2).map look := rfl
  rw [View.blankIsToken, view]
  cases hnext : s.nextSiblings with
  | nil => rfl
  | cons t rest =>
    have member : t ∈ s.nextSiblings := by simp [hnext]
    have frank := after t (List.mem_filter.1 member).1
    rw [List.take_succ_cons, List.map_cons, List.head?_cons, Option.all_some]
    cases hblank : t.isType "whitespace" with
    | false =>
      have types : t.look.types.contains "whitespace" = false := hblank
      rw [types]
      rfl
    | true =>
      have leaf : t.look.isLeaf = true := (frank.of_blank (.inl hblank)).1
      simp [leaf]

/-! ## 3. After proposals -/

variable {plan : FixPlan}

/-- What a plan brings, and what it leaves where it is. -/
theorem every_remade {P : SegmentInfo → Prop} (hs : Every P s)
    (hnew : ∀ c ∈ membersAll s.children, ∀ t ∈ plan.spotOf (plan.remade c),
      t = plan.remade c ∨ Every P t) : Every P (plan.remade s) := by
  induction s using Segment.induction with
  | mk i cs ih =>
    refine .of_children (by simpa using hs.own) fun t ht => ?_
    rw [FixPlan.children_remade, FixPlan.remadeAll_eq_flatMap] at ht
    obtain ⟨c, hc, ht⟩ := List.mem_flatMap.1 ht
    have member : c ∈ membersAll cs := mem_membersAll_of_mem hc
    rcases hnew c member t ht with rfl | new
    · exact ih c hc (hs.inside c hc) fun u hu => hnew u (membersAll_children_subset member hu)
    · exact new

/-- What is put into the rows of a tree has nothing inside, so a tree is left. -/
theorem isTree_remade (htree : s.isTree = true)
    (hnew : ∀ c ∈ membersAll s.children, ∀ t ∈ plan.spotOf (plan.remade c),
      t = plan.remade c ∨ t.children = []) : (plan.remade s).isTree = true := by
  induction s using Segment.induction with
  | mk i cs ih =>
    obtain ⟨hleaf, htrees⟩ := isTree_iff.1 htree
    refine isTree_iff.2 ⟨fun hself => ?_, fun t ht => ?_⟩
    · obtain rfl : cs = [] := hleaf (by simpa using hself)
      rw [FixPlan.children_remade, children, FixPlan.remadeAll]
    · rw [FixPlan.children_remade, FixPlan.remadeAll_eq_flatMap] at ht
      obtain ⟨c, hc, ht⟩ := List.mem_flatMap.1 ht
      have member : c ∈ membersAll cs := mem_membersAll_of_mem hc
      rcases hnew c member t ht with rfl | new
      · exact ih c hc (htrees c hc) fun u hu => hnew u (membersAll_children_subset member hu)
      · exact isTree_iff.2 ⟨fun _ => new, by simp [new]⟩

/-- Tokens of one sort are those of the tree if every segment leaves as many of them as it had. -/
theorem words_filter_remade {keep : Segment → Bool} (htree : s.isTree = true)
    (h : ∀ c ∈ membersAll s.children, (words (plan.spotOf (plan.remade c))).filter keep =
      (words [plan.remade c]).filter keep) :
    (words [plan.remade s]).filter keep = (words [s]).filter keep := by
  induction s using Segment.induction with
  | mk i cs ih =>
    have tree := isTree_iff.1 htree
    cases hleaf : (mk i cs).isLeaf with
    | true =>
      obtain rfl : cs = [] := tree.1 hleaf
      rw [FixPlan.remade, FixPlan.remadeAll]
    | false =>
      rw [words_of_not_isLeaf (by simpa using hleaf), words_of_not_isLeaf hleaf,
        FixPlan.children_remade]
      have row (us : List Segment) (hus : ∀ u ∈ us, u ∈ cs) :
          (words (plan.remadeAll us)).filter keep = (words us).filter keep := by
        induction us with
        | nil => rw [FixPlan.remadeAll]
        | cons u us ihus =>
          obtain ⟨hu, hrest⟩ := List.forall_mem_cons.1 hus
          have member : u ∈ membersAll cs := mem_membersAll_of_mem hu
          have own := ih u hu (tree.2 u hu) fun c hc => h c (membersAll_children_subset member hc)
          rw [FixPlan.remadeAll, words_append, words_cons u us, List.filter_append,
            List.filter_append, ihus hrest, h u member, own]
      exact row cs fun _ hu => hu

end Segment

namespace Proposal

/-- New white space is frank. -/
theorem every_isFrank_blank (text : String) {type : String} (htype : type ≠ "comma") (k : Nat) :
    Every SegmentInfo.IsFrank ((Segment.token text type .ofBlank none).run k).1 := by
  have own : SegmentInfo.IsFrank ⟨.token text .ofBlank none, type, [type], k, none, []⟩ :=
    { blank := fun _ => ⟨_, _, rfl⟩
      comma := fun h => absurd (by simpa using h) (Ne.symm htype)
      code := fun _ _ _ heq hcode => by
        cases heq
        cases hcode }
  exact .mk own (List.forall_mem_nil _)

/-- Of a segment stays what was there, or a token that is as frank comes in. -/
theorem frank_of_mem_leaves {k : Nat} {u t : Segment} {p : Proposal}
    (hleaf : p.takes = true → p.anchor.children = [])
    (hp : p.anchor.info.IsFrank) (ht : t ∈ p.leaves k u) :
    t = u ∨ t.children = [] ∧ Every SegmentInfo.IsFrank t := by
  cases p with
  | drop s => cases ht
  | respell s text =>
    obtain rfl := List.mem_singleton.1 ht
    have frank : s.info.IsFrank := hp
    have childless : s.children = [] := hleaf rfl
    have edited : ((s.edit (some text) none).run k).1.info.IsFrank := by
      obtain ⟨⟨kind, type, types, id, position, fixes⟩, cs⟩ := s
      obtain ⟨blank, comma, code⟩ := frank
      cases kind with
      | token old flags norm =>
        refine ⟨fun hs => ?_, fun hs => ?_, fun text' flags' norm' heq hcode => ?_⟩
        · obtain ⟨_, _, heq⟩ := blank hs
          cases heq
          exact ⟨_, _, rfl⟩
        · obtain ⟨_, _, heq⟩ := comma hs
          cases heq
          exact ⟨_, _, rfl⟩
        · cases heq
          exact code old flags norm rfl hcode
      | marker | node | bracketed | unparsable | file => exact ⟨blank, comma, code⟩
    refine .inr ⟨childless, .of_children edited fun c hc => ?_⟩
    have hc : c ∈ s.children := hc
    simp [childless] at hc
  | spaceBefore s =>
    rcases List.mem_cons.1 ht with rfl | ht
    · exact .inr ⟨rfl, every_isFrank_blank " " (by decide) k⟩
    · exact .inl (List.mem_singleton.1 ht)
  | newlineAfter s =>
    rcases List.mem_cons.1 ht with rfl | ht
    · exact .inl rfl
    · obtain rfl := List.mem_singleton.1 ht
      exact .inr ⟨rfl, every_isFrank_blank "\n" (by decide) k⟩

end Proposal

namespace Segment

@[simp] theorem isCode_edit (s : Segment) (text : String) (k : Nat) :
    ((s.edit (some text) none).run k).1.isCode = s.isCode := by
  obtain ⟨⟨kind, type, types, id, position, fixes⟩, cs⟩ := s
  cases kind <;> rfl

@[simp] theorem isMarker_edit (s : Segment) (text : String) (k : Nat) :
    ((s.edit (some text) none).run k).1.isMarker = s.isMarker := by
  obtain ⟨⟨kind, type, types, id, position, fixes⟩, cs⟩ := s
  cases kind <;> rfl

@[simp] theorem isBlank_edit (s : Segment) (text : String) (k : Nat) :
    ((s.edit (some text) none).run k).1.isBlank = s.isBlank := by
  obtain ⟨⟨kind, type, types, id, position, fixes⟩, cs⟩ := s
  cases kind <;> rfl

@[simp] theorem isType_edit (s : Segment) (text : String) (k : Nat) (type : String) :
    ((s.edit (some text) none).run k).1.isType type = s.isType type := rfl

@[simp] theorem isLeaf_edit (s : Segment) (text : String) (k : Nat) :
    ((s.edit (some text) none).run k).1.isLeaf = s.isLeaf := by
  obtain ⟨⟨kind, type, types, id, position, fixes⟩, cs⟩ := s
  cases kind <;> rfl

/-- A leaf of white space is no token of another sort. -/
theorem words_filter_blank {s : Segment} (hleaf : s.isLeaf = true) (hs : s.isBlank = true) :
    (words [s]).filter (!·.isBlank) = [] := by
  have blank : s.unplaced.isBlank = true := by
    obtain ⟨⟨kind, type, types, id, position, fixes⟩, cs⟩ := s
    rw [unplaced]
    cases kind with
    | token | marker => exact hs
    | node | bracketed | unparsable | file => cases hleaf
  rw [words, leavesAll_cons, leavesAll_nil, List.append_nil, leaves_of_isLeaf hleaf,
    List.filter_eq_nil_iff]
  intro x hx
  obtain ⟨y, hy, rfl⟩ := List.mem_map.1 hx
  obtain rfl := List.mem_singleton.1 (List.mem_filter.1 hy).1
  simp [blank]

/-- What is left of markers does not matter to tokens if it is no token. -/
theorem filter_flatMap_tokens {f : Segment → List Segment} {ss : List Segment}
    (hf : ∀ s ∈ ss, (f s).filter (!·.isMarker) = if s.isMarker then [] else f s) :
    (ss.flatMap f).filter (!·.isMarker) = (ss.filter (!·.isMarker)).flatMap f := by
  induction ss with
  | nil => rfl
  | cons s ss ih =>
    obtain ⟨hs, hrest⟩ := List.forall_mem_cons.1 hf
    rw [List.flatMap_cons, List.filter_append, ih hrest, hs, List.filter_cons]
    cases s.isMarker <;> rfl

/-- Proposals that leave the rows of a tree with code at their edges: no code is dropped, and what
is put into a row comes between code. -/
structure Respects (tree : Segment) (ps : List Proposal) : Prop where
  drop : ∀ s, .drop s ∈ ps → s.isCode = false
  space : ∀ s, .spaceBefore s ∈ ps → s.isMarker = false ∧
    ∀ u ∈ tree.members, ∀ front back, u.children = front ++ s :: back →
      ∃ x ∈ front, x.isCode = true
  newline : ∀ s, .newlineAfter s ∉ ps

namespace Made

variable {n : Nat} {tree : Segment} {ps : List Proposal} {plan : FixPlan}
  (hmade : tree.Made n ps plan) (h : Ordinary n tree) (hadmits : tree.Admits ps)

include hmade h hadmits

/-- Of every segment stays what was there, or new tokens that are frank. -/
theorem frank_spot {c : Segment} (hc : c ∈ membersAll tree.children) :
    ∀ t ∈ plan.spotOf (plan.remade c),
      t = plan.remade c ∨ t.children = [] ∧ Every SegmentInfo.IsFrank t := by
  rcases hmade.spot c hc with ⟨p, hp, rfl, k, -, hspot⟩ | ⟨-, hspot⟩
  · intro t ht
    rw [hspot _ (FixPlan.id_remade _)] at ht
    refine p.frank_of_mem_leaves (fun htakes => ?_) (h.isFrank hc) ht
    exact (isTree_iff.1 (h.isTree_of_mem hc)).1 (hadmits.takes p hp htakes)
  · intro t ht
    rw [hspot _ (FixPlan.id_remade _)] at ht
    exact .inl (List.mem_singleton.1 ht)

theorem isTree_remade : (plan.remade tree).isTree = true :=
  Segment.isTree_remade h.isTree fun _ hc t ht =>
    (hmade.frank_spot h hadmits hc t ht).imp_right (·.1)

theorem frank_remade : Every SegmentInfo.IsFrank (plan.remade tree) :=
  every_remade h.frank fun _ hc t ht => (hmade.frank_spot h hadmits hc t ht).imp_right (·.2)

omit hadmits in
/-- If proposals are to leaves only, the leaves that are shown are exchanged for what they leave. -/
theorem exhibits_remade (hleaves : ∀ p ∈ ps, p.anchor.isLeaf = true) :
    (plan.remade tree).exhibits true =
      (tree.exhibits true).flatMap fun e => (plan.spotOf e.1).map (·, e.2) := by
  refine FixPlan.exhibits_remade h.isTree (fun c hc hleaf => ?_) (fun c hc hleaf t ht => ?_)
    h.isLeaf_eq true
  · rcases hmade.spot c hc with ⟨p, hp, rfl, -⟩ | ⟨-, hspot⟩
    · simp [hleaves p hp] at hleaf
    · exact hspot _ (FixPlan.id_remade c)
  · rcases hmade.spot c hc with ⟨p, hp, rfl, k, -, hspot⟩ | ⟨-, hspot⟩
    · rw [hspot _ rfl] at ht
      cases p with
      | drop s => cases ht
      | respell s text =>
        rw [List.mem_singleton.1 ht]
        exact (isLeaf_edit s text k).trans hleaf
      | spaceBefore s | newlineAfter s =>
        simp only [Proposal.leaves, List.mem_cons, List.not_mem_nil, or_false] at ht
        rcases ht with rfl | rfl
        · first | exact hleaf | rfl
        · first | exact hleaf | rfl
    · rw [hspot c rfl] at ht
      rw [List.mem_singleton.1 ht]
      exact hleaf

omit hadmits in
theorem leaves_remade (hleaves : ∀ p ∈ ps, p.anchor.isLeaf = true) :
    (plan.remade tree).leaves = tree.leaves.flatMap plan.spotOf := by
  rw [← map_fst_exhibits true, hmade.exhibits_remade h hleaves,
    ← map_fst_exhibits true tree, List.map_flatMap, List.flatMap_map]
  refine List.flatMap_congr fun e _ => ?_
  rw [List.map_map]
  exact List.map_id' _

omit h hadmits in
/-- Where proposals are to tokens only, of a token only tokens are left. -/
theorem filter_spotOf (htokens : ∀ p ∈ ps, p.anchor.isMarker = false) {c : Segment}
    (hc : c ∈ membersAll tree.children) {u : Segment} (hid : u.id = c.id)
    (hmarker : u.isMarker = c.isMarker) :
    (plan.spotOf u).filter (!·.isMarker) = if c.isMarker then [] else plan.spotOf u := by
  rcases hmade.spot c hc with ⟨p, hp, rfl, k, -, hspot⟩ | ⟨-, hspot⟩
  · have token := htokens p hp
    rw [hspot u hid, token, if_neg Bool.false_ne_true]
    rw [token] at hmarker
    refine List.filter_eq_self.2 fun t ht => ?_
    cases p with
    | drop s => cases ht
    | respell s text =>
      rw [List.mem_singleton.1 ht, isMarker_edit]
      exact congrArg (!·) token
    | spaceBefore s | newlineAfter s =>
      simp only [Proposal.leaves, List.mem_cons, List.not_mem_nil, or_false] at ht
      rcases ht with rfl | rfl
      · first | exact congrArg (!·) hmarker | rfl
      · first | exact congrArg (!·) hmarker | rfl
  · rw [hspot u hid, ← hmarker]
    cases hmarker : u.isMarker <;> simp [hmarker]

omit hadmits in
/-- If proposals are to tokens only, the tokens are exchanged for what they leave. -/
theorem tokens_remade (hleaves : ∀ p ∈ ps, p.anchor.isLeaf = true)
    (htokens : ∀ p ∈ ps, p.anchor.isMarker = false) :
    (plan.remade tree).leaves.filter (!·.isMarker) =
      (tree.leaves.filter (!·.isMarker)).flatMap plan.spotOf := by
  rw [hmade.leaves_remade h hleaves]
  exact filter_flatMap_tokens fun c hc =>
    hmade.filter_spotOf htokens (h.leaves_sublist.subset hc) rfl rfl

omit h hadmits in
/-- The same of a row. -/
theorem filter_remadeAll {ss : List Segment} (hss : ∀ s ∈ ss, s ∈ membersAll tree.children)
    (htokens : ∀ p ∈ ps, p.anchor.isMarker = false) :
    (plan.remadeAll ss).filter (!·.isMarker) =
      (ss.filter (!·.isMarker)).flatMap fun t => plan.spotOf (plan.remade t) := by
  rw [FixPlan.remadeAll_eq_flatMap]
  exact filter_flatMap_tokens fun c hc =>
    hmade.filter_spotOf htokens (hss c hc) (FixPlan.id_remade c) (FixPlan.isMarker_remade c)

/-- If nothing but white space is taken away, all other tokens stay as they are. -/
theorem words_filter (hblank : ∀ p ∈ ps, p.takes = true → p.anchor.isBlank = true) :
    (words [plan.remade tree]).filter (!·.isBlank) = (words [tree]).filter (!·.isBlank) := by
  refine words_filter_remade h.isTree fun c hc => ?_
  rcases hmade.spot c hc with ⟨p, hp, rfl, k, -, hspot⟩ | ⟨-, hspot⟩
  · rw [hspot _ (FixPlan.id_remade _)]
    have childless : _ → plan.remade _ = _ := h.remade_of_isLeaf hc
    have leaf := hadmits.takes p hp
    have blank := hblank p hp
    cases p with
    | drop s =>
      rw [childless (leaf rfl)]
      exact (words_filter_blank (leaf rfl) (blank rfl)).symm
    | respell s text =>
      have edited : (words (Proposal.leaves k (plan.remade s) (.respell s text))).filter
          (!·.isBlank) = [] :=
        words_filter_blank ((isLeaf_edit s text k).trans (leaf rfl))
          ((isBlank_edit s text k).trans (blank rfl))
      refine edited.trans ?_
      rw [childless (leaf rfl)]
      exact (words_filter_blank (leaf rfl) (blank rfl)).symm
    | spaceBefore s =>
      rw [Proposal.leaves, words_cons, List.filter_append, words_filter_blank rfl rfl]
      rfl
    | newlineAfter s =>
      have added : (words [((Segment.newline "\n").run k).1]).filter (!·.isBlank) = [] :=
        words_filter_blank rfl rfl
      rw [Proposal.leaves, words_cons, List.filter_append, added, List.append_nil]
  · rw [hspot _ (FixPlan.id_remade c)]

variable (hrespects : tree.Respects ps)

include hrespects

omit h in
theorem keepsCode : KeepsCode plan tree.children where
  leaf c hc _ hcode := by
    rcases hmade.spot c hc with ⟨p, hp, rfl, k, -, hspot⟩ | ⟨-, hspot⟩
    · rw [hspot _ rfl]
      cases p with
      | drop s => exact absurd hcode (by simp [Proposal.anchor, hrespects.drop s hp])
      | respell s text => exact ⟨_, List.mem_cons_self .., (isCode_edit s text k).trans hcode⟩
      | spaceBefore s => exact ⟨s, by simp [Proposal.leaves, Proposal.anchor], hcode⟩
      | newlineAfter s => exact absurd hp (hrespects.newline s)
    · rw [hspot c rfl]
      exact ⟨c, List.mem_singleton_self c, hcode⟩
  node c hc hleaf u hu := by
    rcases hmade.spot c hc with ⟨p, hp, rfl, k, -, hspot⟩ | ⟨-, hspot⟩
    · rw [hspot u hu]
      have takes := hadmits.takes p hp
      rw [hleaf] at takes
      cases p with
      | drop | respell => exact absurd (takes rfl) (by simp)
      | spaceBefore s => simp [Proposal.leaves]
      | newlineAfter s => exact absurd hp (hrespects.newline s)
    · rw [hspot u hu]
      exact List.mem_singleton_self u

theorem staysBetween {u : Segment} (hu : u ∈ tree.members) (hends : u.mayHaveLooseEnds = false) :
    StaysBetween plan u.children := by
  intro front c back hrow before t after hspot plain token
  have row : IsTight u.children :=
    (forall_mem_members (fun _ h => h.inside) h.tight u hu).row hends
  have hc : c ∈ membersAll tree.children := by
    have inner : c ∈ membersAll u.children := mem_membersAll_of_mem (by simp [hrow])
    rw [members_eq, List.mem_cons] at hu
    rcases hu with rfl | hu
    · exact inner
    · exact membersAll_children_subset hu inner
  -- white space that was there stands between code
  have old (hcode : c.isCode = false) (hmarker : c.isMarker = false) :
      (∃ x ∈ front, x.isCode = true) ∧ ∃ x ∈ back, x.isCode = true :=
    row front c back hrow hcode hmarker
  have stays (hcode : (plan.remade c).isCode = false) : c.isCode = false := by
    have kept := (hmade.keepsCode hadmits hrespects).inside hc
    have remains := KeepsCode.isCode_remade (h.isTree_of_mem hc) kept
    cases hcode' : c.isCode with
    | false => rfl
    | true => simp [remains hcode'] at hcode
  rcases hmade.spot c hc with ⟨p, hp, rfl, k, -, hspot'⟩ | ⟨-, hspot'⟩
  · rw [hspot' _ (FixPlan.id_remade _)] at hspot
    cases p with
    | drop s => simp [Proposal.leaves] at hspot
    | respell s text =>
      obtain ⟨rfl, heq⟩ := List.append_eq_singleton_iff.1 hspot.symm |>.resolve_right (by simp)
      obtain ⟨rfl, rfl⟩ := List.cons.inj heq
      rw [isCode_edit] at plain
      rw [isMarker_edit] at token
      exact (old plain token).imp_right .inr
    | spaceBefore s =>
      obtain ⟨hmarker, led⟩ := hrespects.space s hp
      cases before with
      | nil =>
        obtain ⟨rfl, rfl⟩ := List.cons.inj hspot
        refine ⟨led u hu front back hrow, ?_⟩
        cases hcode : (plan.remade s).isCode with
        | true => exact .inl ⟨_, List.mem_singleton_self _, hcode⟩
        | false => exact .inr (old (stays hcode) hmarker).2
      | cons b before =>
        obtain ⟨-, heq⟩ := List.cons.inj hspot
        obtain ⟨rfl, heq⟩ := List.append_eq_singleton_iff.1 heq.symm |>.resolve_right (by simp)
        obtain ⟨rfl, rfl⟩ := List.cons.inj heq
        exact (old (stays plain) hmarker).imp_right .inr
    | newlineAfter s => exact absurd hp (hrespects.newline s)
  · rw [hspot' _ (FixPlan.id_remade c)] at hspot
    obtain ⟨rfl, heq⟩ := List.append_eq_singleton_iff.1 hspot.symm |>.resolve_right (by simp)
    obtain ⟨rfl, rfl⟩ := List.cons.inj heq
    exact (old (stays plain) (by simpa using token)).imp_right .inr

/-- All rows keep code at their edges. -/
theorem tight : Tight (plan.remade tree) :=
  tight_remade h.isTree (hmade.keepsCode hadmits hrespects)
    (fun _ hc t ht => (hmade.frank_spot h hadmits hc t ht).imp_right (·.1))
    (fun _ hc hends => hmade.staysBetween h hadmits hrespects hc hends)

end Made

end Segment

/-! ## 4. One round -/

/-- One round of a rule is enough in a tree. It does not give up, its fixes can all be made and are
made, and in the tree that they leave it finds nothing. -/
def Rule.SettlesIn (r : Rule) (p : Parser) (f : TemplatedFile) (tree : Segment) (n : Nat)
    (keeps : Segment → Prop) : Prop :=
  ∀ m k,
    let found := ((r.crawl p.dialect f tree).run n).1
    let plan := ((FixPlan.ofFixes (found.violations.flatMap (·.fixes))).run m).1
    let fixed := ((tree.applyFixes p plan).run k).1
    found.failure = none ∧ plan.isValid = true ∧ fixed.2 = [] ∧ keeps fixed.1.segment ∧
      r.FindsNothing p.dialect f fixed.1.segment

/-- Tokens that are no white space are the same in the same order. -/
def Segment.SameInk (tree fixed : Segment) : Prop :=
  (words [fixed]).filter (!·.isBlank) = (words [tree]).filter (!·.isBlank)

/-- A tree that is the remade one but for where its segments stand in the source. -/
structure Segment.Stands (fixed remade : Segment) : Prop where
  unplaced_eq : fixed.unplaced = remade.unplaced
  isTree : fixed.isTree = true
  frank : Every SegmentInfo.IsFrank fixed

namespace Segment.Stands

variable {fixed remade : Segment} (h : fixed.Stands remade)

include h

theorem words_eq : words [fixed] = words [remade] :=
  Alike.words_eq (show [fixed.unplaced] = [remade.unplaced] from congrArg ([·]) h.unplaced_eq)

theorem isUnparsable_eq : fixed.isUnparsable = remade.isUnparsable := by
  have kind := congrArg Segment.kind h.unplaced_eq
  rw [kind_unplaced, kind_unplaced] at kind
  rw [isUnparsable, isUnparsable, kind]

/-- The same leaves are shown of it. -/
theorem exhibits_eq (shown : Bool) :
    (fixed.exhibits shown).map (fun e => (e.1.unplaced, e.2)) =
      (remade.exhibits shown).map (fun e => (e.1.unplaced, e.2)) := by
  rw [← exhibits_unplaced, h.unplaced_eq, exhibits_unplaced]

/-- The same segments are shown of it, with the same after them. -/
theorem exists_seat {e : Segment × List Segment} (he : e ∈ fixed.seats []) :
    ∃ e' ∈ remade.seats [], e'.1.unplaced = e.1.unplaced ∧
      e'.2.map unplaced = e.2.map unplaced := by
  have seats := seats_unplaced [] fixed
  rw [h.unplaced_eq, seats_unplaced [] remade] at seats
  have member := List.mem_map_of_mem (f := Prod.map unplaced (List.map unplaced)) he
  rw [← seats] at member
  obtain ⟨e', he', heq⟩ := List.mem_map.1 member
  exact ⟨e', he', congrArg Prod.fst heq, congrArg Prod.snd heq⟩

end Segment.Stands

/-- In an ordinary tree one round of a rule is enough if it proposes nothing any more once what it
proposed is made. -/
theorem Rule.Tells.settlesIn {r : Rule} {tells : Site → Memory → List Proposal × Memory}
    (htells : r.Tells tells) (hr : r.worksOnUnparsable = false) {n : Nat} {tree : Segment}
    (h : Ordinary n tree) (hadmits : tree.Admits (proposalsFrom tells .empty (r.sites tree)))
    (hrespects : tree.Respects (proposalsFrom tells .empty (r.sites tree)))
    {keeps : Segment → Prop}
    (quiet : ∀ plan fixed, tree.Made n (proposalsFrom tells .empty (r.sites tree)) plan →
      fixed.Stands (plan.remade tree) →
        keeps fixed ∧ proposalsFrom tells .empty (r.sites fixed) = [])
    (p : Parser) (source name : String) :
    r.SettlesIn p (.ofString source name) tree n keeps := by
  intro m k found plan fixed
  obtain ⟨failure, valid, left, made, -, -, whole⟩ :=
    htells.applyFixes h.isFile h.isTree h.ids h.before (blankIsToken_of_frank h.frank hr) hadmits
      p source name m k
  have same := whole (made.tight h hadmits hrespects)
  have stands : fixed.1.segment.Stands (plan.remade tree) :=
    { unplaced_eq := same
      isTree := by
        rw [← isTree_unplaced, same, isTree_unplaced]
        exact made.isTree_remade h hadmits
      frank := by
        rw [← every_unplaced SegmentInfo.isPlaceless_isFrank, same,
          every_unplaced SegmentInfo.isPlaceless_isFrank]
        exact made.frank_remade h hadmits }
  obtain ⟨kept, nothing⟩ := quiet plan fixed.1.segment made stands
  exact ⟨failure, valid, left, kept,
    htells.findsNothing (blankIsToken_of_frank stands.frank hr) nothing⟩

end QueryLint
