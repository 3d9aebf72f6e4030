import Mathlib.Data.List.Chain
import QueryLint.Proofs.Rule.Ordinary

/-!
QueryLint.Proofs.Rule.Blanks — rules that take white space away.

Two rules take away white space that stands at a bad place between two other leaves: at the end of a
line, or before a comma. If taking some away could bring more of it to such a place, then a second
round would be needed. It cannot: what is taken away never stands beside other white space, so what
stays has the neighbours that it had, or neighbours that are not white.

* `exists_split_of_filter` — what follows white space that stays has always followed it.
* `Rule.Tells.settlesIn_drops` — one round of a rule that takes white space away.
* `Rule.settlesIn_trailingWhitespace`, `Rule.settlesIn_spaceBeforeComma` — the two rules.
-/

namespace QueryLint

open Segment

/-! ## 1. White space that stays -/

section Lists

variable {α : Type} {white : α → Prop} {keep : α → Bool} {xs front back : List α} {x y : α}

/-- If white space is never followed by more, and only white space is taken away, then what follows
white space that stays has always followed it. -/
theorem exists_split_of_filter (apart : xs.IsChain fun a b => white a → ¬ white b)
    (taken : ∀ a ∈ xs, keep a = false → white a)
    (h : xs.filter keep = front ++ x :: y :: back) (hx : white x) :
    ∃ front' back', xs = front' ++ x :: y :: back' ∧ front'.filter keep = front := by
  obtain ⟨before, rest, rfl, hbefore, hrest⟩ := List.filter_eq_append_iff.1 h
  obtain ⟨lead, rest, rfl, hlead, -, hrest⟩ := List.filter_eq_cons_iff.1 hrest
  obtain ⟨gap, after, rfl, hgap, -, -⟩ := List.filter_eq_cons_iff.1 hrest
  rw [List.isChain_iff_forall_rel_of_append_cons_cons] at apart
  have gapEmpty : gap = [] := by
    cases gap with
    | nil => rfl
    | cons a gap =>
      have white_a : white a := by
        refine taken a (by simp) ?_
        simpa using hgap a (List.mem_cons_self ..)
      have beside : before ++ (lead ++ x :: (a :: gap ++ y :: after)) =
          before ++ lead ++ x :: a :: (gap ++ y :: after) := by simp
      exact absurd white_a (apart beside hx)
  subst gapEmpty
  refine ⟨before ++ lead, after, by simp, ?_⟩
  rw [List.filter_append, hbefore, List.filter_eq_nil_iff.2 hlead, List.append_nil]

/-- Lists that look the same are split in the same places. -/
theorem exists_split_of_map {β : Type} {f : α → β} {ys : List α} (h : xs.map f = ys.map f)
    (hxs : xs = front ++ x :: y :: back) :
    ∃ front' x' y' back', ys = front' ++ x' :: y' :: back' ∧ front'.map f = front.map f ∧
      f x' = f x ∧ f y' = f y := by
  subst hxs
  rw [List.map_append, List.map_cons, List.map_cons] at h
  obtain ⟨front', rest, rfl, hfront, hrest⟩ := List.map_eq_append_iff.1 h.symm
  obtain ⟨x', rest, rfl, hx, hrest⟩ := List.map_eq_cons_iff.1 hrest
  obtain ⟨y', back', rfl, hy, -⟩ := List.map_eq_cons_iff.1 hrest
  exact ⟨front', x', y', back', rfl, hfront, hx, hy⟩

end Lists

namespace Segment

variable {n : Nat} {tree : Segment} {D : List Segment} {plan : FixPlan}

/-- Taking away tokens that are white space. -/
structure Drops (tree : Segment) (D : List Segment) : Prop where
  sublist : D.Sublist tree.leaves
  white : ∀ d ∈ D, d.isType "whitespace" = true ∨ d.isType "newline" = true

namespace Drops

variable (hD : tree.Drops D) (h : Ordinary n tree)

include hD h

theorem mem_members {d : Segment} (hd : d ∈ D) : d ∈ membersAll tree.children :=
  h.leaves_sublist.subset (hD.sublist.subset hd)

theorem of_mem {d : Segment} (hd : d ∈ D) :
    d.isLeaf = true ∧ d.isMarker = false ∧ d.isCode = false ∧ d.isBlank = true ∧
      d.isComment = false :=
  (h.isFrank (hD.mem_members h hd)).of_blank (hD.white d hd)

theorem admits : tree.Admits (D.map .drop) where
  apart := by
    rw [List.map_map]
    exact h.nodup_map_id (hD.sublist.trans h.leaves_sublist)
  anchors p hp := by
    obtain ⟨d, hd, rfl⟩ := List.mem_map.1 hp
    exact hD.mem_members h hd
  takes p hp _ := by
    obtain ⟨d, hd, rfl⟩ := List.mem_map.1 hp
    exact (hD.of_mem h hd).1

theorem respects : tree.Respects (D.map .drop) where
  drop s hs := by
    obtain ⟨d, hd, heq⟩ := List.mem_map.1 hs
    cases heq
    exact (hD.of_mem h hd).2.2.1
  space s hs := by
    obtain ⟨d, -, heq⟩ := List.mem_map.1 hs
    cases heq
  newline s hs := by
    obtain ⟨d, -, heq⟩ := List.mem_map.1 hs
    cases heq

theorem sameInk (hmade : tree.Made n (D.map .drop) plan) :
    tree.SameInk (plan.remade tree) := by
  refine hmade.words_filter h (hD.admits h) fun p hp _ => ?_
  obtain ⟨d, hd, rfl⟩ := List.mem_map.1 hp
  exact (hD.of_mem h hd).2.2.2.1

omit hD h in
/-- Of a segment nothing is left if it is dropped, and else it stays. -/
theorem spot_eq (hmade : tree.Made n (D.map .drop) plan) {c : Segment}
    (hc : c ∈ membersAll tree.children) :
    (c ∈ D ∧ ∀ u : Segment, u.id = c.id → plan.spotOf u = []) ∨
      (c ∉ D ∧ ∀ u : Segment, u.id = c.id → plan.spotOf u = [u]) := by
  rcases hmade.spot c hc with ⟨p, hp, hanchor, k, -, hspot⟩ | ⟨hnone, hspot⟩
  · obtain ⟨d, hd, rfl⟩ := List.mem_map.1 hp
    obtain rfl : d = c := hanchor
    exact .inl ⟨hd, hspot⟩
  · exact .inr ⟨fun hd => hnone _ (List.mem_map_of_mem hd) rfl, hspot⟩

/-- The leaves that are shown are those that are not dropped. -/
theorem exists_exhibits (hmade : tree.Made n (D.map .drop) plan) :
    ∃ keep : Segment → Bool, (∀ x, keep x = false ↔ x ∈ D) ∧
      (plan.remade tree).exhibits true = (tree.exhibits true).filter (fun e => keep e.1) := by
  classical
  refine ⟨fun x => decide (x ∉ D), by simp, ?_⟩
  have shown : ∀ e ∈ tree.exhibits true, e.1 ∈ membersAll tree.children := fun e he =>
    h.leaves_sublist.subset (mem_leaves_of_mem_exhibits he)
  rw [hmade.exhibits_remade h fun p hp => ?_]
  · generalize tree.exhibits true = es at shown
    induction es with
    | nil => rfl
    | cons e es ih =>
      obtain ⟨he, hes⟩ := List.forall_mem_cons.1 shown
      rw [List.flatMap_cons, List.filter_cons, ih hes]
      rcases spot_eq hmade he with ⟨hd, hspot⟩ | ⟨hd, hspot⟩
      · simp [hspot e.1 rfl, hd]
      · simp [hspot e.1 rfl, hd]
  · obtain ⟨d, hd, rfl⟩ := List.mem_map.1 hp
    exact (hD.of_mem h hd).1

end Drops

end Segment

/-- One round of a rule that takes white space away is enough if nothing stands at a bad place in
what is left of the leaves. -/
theorem Rule.Tells.settlesIn_drops {r : Rule} {tells : Site → Memory → List Proposal × Memory}
    (htells : r.Tells tells) (hr : r.worksOnUnparsable = false) {n : Nat} {tree : Segment}
    (h : Ordinary n tree) {D : List Segment}
    (hps : proposalsFrom tells .empty (r.sites tree) = D.map .drop) (hD : tree.Drops D)
    (quiet : ∀ (keep : Segment → Bool) (fixed : Segment), (∀ x, keep x = false ↔ x ∈ D) →
      fixed.isUnparsable = false → fixed.isTree = true → Every SegmentInfo.IsFrank fixed →
      (fixed.exhibits true).map (fun e => (e.1.unplaced, e.2)) =
        ((tree.exhibits true).filter (fun e => keep e.1)).map (fun e => (e.1.unplaced, e.2)) →
      proposalsFrom tells .empty (r.sites fixed) = [])
    (p : Parser) (source name : String) :
    r.SettlesIn p (.ofString source name) tree n tree.SameInk := by
  refine htells.settlesIn hr h (hps ▸ hD.admits h) (hps ▸ hD.respects h) ?_ p source name
  rw [hps]
  intro plan fixed hmade stands
  obtain ⟨keep, hkeep, exhibits⟩ := hD.exists_exhibits h hmade
  refine ⟨?_, quiet keep fixed hkeep ?_ stands.isTree stands.frank ?_⟩
  · rw [SameInk, stands.words_eq]
    exact hD.sameInk h hmade
  · rw [stands.isUnparsable_eq, FixPlan.isUnparsable_remade, h.isUnparsable_eq]
  · rw [stands.exhibits_eq, exhibits]

/-! ## 2. At the ends of lines -/

namespace Rule

variable {n : Nat} {tree : Segment} {ss : List Segment} {x : Segment}

theorem beforeLineEnds_sublist (ss : List Segment) : (beforeLineEnds ss).Sublist ss := by
  induction ss with
  | nil => exact List.Sublist.slnil
  | cons a ss ih =>
    cases ss with
    | nil => exact List.nil_sublist _
    | cons b ss =>
      rw [beforeLineEnds]
      split
      · exact ih.cons_cons a
      · exact ih.cons a

theorem mem_beforeLineEnds : x ∈ beforeLineEnds ss ↔ ∃ front y back, ss = front ++ x :: y :: back ∧
    isLineEnd y = true ∧ isWrittenBlank x = true := by
  induction ss with
  | nil => simp [beforeLineEnds]
  | cons a ss ih =>
    cases ss with
    | nil =>
      simp only [beforeLineEnds, List.not_mem_nil, false_iff]
      rintro ⟨front, y, back, heq, -⟩
      have := congrArg List.length heq
      simp only [List.length_append, List.length_cons, List.length_nil] at this
      omega
    | cons b ss =>
      have first : x ∈ beforeLineEnds (a :: b :: ss) ↔
          (isLineEnd b = true ∧ isWrittenBlank a = true ∧ x = a) ∨
            x ∈ beforeLineEnds (b :: ss) := by
        rw [beforeLineEnds]
        split
        · next hab => simp_all
        · next hab => simp_all
      rw [first, ih]
      constructor
      · rintro (⟨hb, ha, rfl⟩ | ⟨front, y, back, heq, hy, hx⟩)
        · exact ⟨[], b, ss, rfl, hb, ha⟩
        · exact ⟨a :: front, y, back, by rw [heq, List.cons_append], hy, hx⟩
      · rintro ⟨front, y, back, heq, hy, hx⟩
        cases front with
        | nil =>
          obtain ⟨rfl, rfl, -⟩ : a = x ∧ b = y ∧ ss = back := by simpa using heq
          exact .inl ⟨hy, hx, rfl⟩
        | cons f front =>
          obtain ⟨-, heq⟩ := List.cons.inj heq
          exact .inr ⟨front, y, back, heq, hy, hx⟩

@[simp] theorem isLineEnd_unplaced (s : Segment) : isLineEnd s.unplaced = isLineEnd s := by
  simp [isLineEnd]

@[simp] theorem isVisible_unplaced (s : Segment) : isVisible s.unplaced = isVisible s := by
  simp [isVisible, isTemplateMarker]

/-- White space that is visible is never followed by more. -/
theorem isChain_visible (h : Ordinary n tree) : (tree.leaves.filter isVisible).IsChain fun x y =>
    x.isType "whitespace" = true → ¬ y.isType "whitespace" = true := by
  have blanks := h.blanks
  rw [List.isChain_iff_forall_rel_of_append_cons_cons] at blanks ⊢
  intro x y front back heq hx hy
  have plain {z : Segment} (hz : z ∈ tree.leaves) (hwhite : z.isType "whitespace" = true) :
      z.isMarker = false :=
    ((h.isFrank (h.leaves_sublist.subset hz)).of_blank (.inl hwhite)).2.1
  have member {z : Segment} (hz : z ∈ front ++ x :: y :: back) : z ∈ tree.leaves :=
    (List.mem_filter.1 (heq ▸ hz)).1
  have tokens : tree.leaves.filter (!·.isMarker) =
      (tree.leaves.filter isVisible).filter (!·.isMarker) := by
    rw [List.filter_filter]
    refine List.filter_congr fun z _ => ?_
    rw [isVisible]
    cases z.isMarker <;> rfl
  have hx' : x.isMarker = false := plain (member (by simp)) hx
  have hy' : y.isMarker = false := plain (member (by simp)) hy
  have split : tree.leaves.filter (!·.isMarker) =
      front.filter (!·.isMarker) ++ x :: y :: back.filter (!·.isMarker) := by
    rw [tokens, heq]
    simp [hx', hy']
  simp [blanks split hx] at hy

/-- Once the white space at the ends of lines is taken away, none is left there. -/
theorem no_split_of_filter {keep : Segment → Bool} (h : Ordinary n tree)
    (hkeep : ∀ x, keep x = false ↔ x ∈ beforeLineEnds (tree.leaves.filter isVisible))
    {x y : Segment} {front back : List Segment}
    (split : (tree.leaves.filter isVisible).filter keep = front ++ x :: y :: back)
    (hx : x.isType "whitespace" = true) : isLineEnd y = false := by
  have kept : x ∈ (tree.leaves.filter isVisible).filter keep := by simp [split]
  obtain ⟨visible, kept⟩ := List.mem_filter.1 kept
  have leaf : x ∈ tree.leaves := (List.mem_filter.1 visible).1
  have plain : x.isMarker = false :=
    ((h.isFrank (h.leaves_sublist.subset leaf)).of_blank (.inl hx)).2.1
  obtain ⟨front', back', old, -⟩ := exists_split_of_filter (isChain_visible h)
    (fun a _ ha => by
      obtain ⟨_, _, _, -, -, ha⟩ := mem_beforeLineEnds.1 ((hkeep a).1 ha)
      exact (Bool.and_eq_true_iff.1 ha).1) split hx
  cases ends : isLineEnd y with
  | false => rfl
  | true =>
    have taken : keep x = false := by
      refine (hkeep x).2 (mem_beforeLineEnds.2 ⟨front', y, back', old, ends, ?_⟩)
      rw [isWrittenBlank, hx, h.literal x leaf plain]
      rfl
    simp [taken] at kept

/-- White space is taken away from the ends of lines in one round. -/
theorem settlesIn_trailingWhitespace (h : Ordinary n tree) (p : Parser) (source name : String) :
    trailingWhitespace.SettlesIn p (.ofString source name) tree n tree.SameInk := by
  have proposals (t : Segment) (ht : t.isUnparsable = false) :
      proposalsFrom (fun s m => (trailingProposals s, m)) .empty (trailingWhitespace.sites t) =
        (beforeLineEnds (t.leaves.filter isVisible)).map .drop := by
    rw [sites_of_root rfl ht, proposalsFrom_eq_flatMap, List.flatMap_singleton, trailingProposals]
  refine tells_trailingWhitespace.settlesIn_drops rfl h (proposals tree h.isUnparsable_eq)
    ⟨?_, fun d hd => ?_⟩ (fun keep fixed hkeep hparsed _ _ hshown => ?_) p source name
  · exact (beforeLineEnds_sublist _).trans List.filter_sublist
  · obtain ⟨_, _, _, -, -, hd⟩ := mem_beforeLineEnds.1 hd
    exact .inl (Bool.and_eq_true_iff.1 hd).1
  rw [proposals fixed hparsed, List.map_eq_nil_iff, List.eq_nil_iff_forall_not_mem]
  intro x' hx'
  obtain ⟨_, y', _, split, hy, hx⟩ := mem_beforeLineEnds.1 hx'
  -- the visible leaves are those that were not taken away
  have leaves : fixed.leaves.map unplaced = (tree.leaves.filter keep).map unplaced := by
    have first := congrArg (List.map (·.1)) hshown
    rw [List.map_map, List.map_map] at first
    rw [← map_fst_exhibits true fixed, ← map_fst_exhibits true tree, List.filter_map, List.map_map,
      List.map_map]
    exact first
  have visible : (fixed.leaves.filter isVisible).map unplaced =
      ((tree.leaves.filter isVisible).filter keep).map unplaced := by
    rw [map_unplaced_filter isVisible_unplaced, leaves, ← map_unplaced_filter isVisible_unplaced,
      List.filter_filter, List.filter_filter]
    congr 1
    refine List.filter_congr fun s _ => Bool.and_comm ..
  obtain ⟨front, x, y, back, split, -, hxx, hyy⟩ := exists_split_of_map visible split
  have white : x.isType "whitespace" = true := by
    rw [← isType_unplaced, hxx, isType_unplaced]
    exact (Bool.and_eq_true_iff.1 hx).1
  have other := no_split_of_filter h hkeep split white
  rw [← isLineEnd_unplaced, hyy, isLineEnd_unplaced, hy] at other
  cases other

/-! ## 3. Before commas -/

/-- The spaces before commas that are shown, given the leaves before, the nearest first. -/
def commaBlanks (before : List Segment) : List (Segment × Bool) → List Segment
  | [] => []
  | (c, shown) :: rest =>
    (if shown && c.isType "comma" then lastBlank before else []) ++ commaBlanks (c :: before) rest

variable {es : List (Segment × Bool)} {before : List Segment}

theorem mem_lastBlank : x ∈ lastBlank before ↔ ∃ b rest, before = x :: b :: rest ∧
    x.isType "whitespace" = true ∧ b.isType "newline" = false := by
  match before with
  | [] | [_] => simp [lastBlank]
  | y :: b :: rest =>
    simp only [lastBlank, List.cons.injEq]
    constructor
    · intro hx
      split at hx
      · next hy =>
        obtain rfl := List.mem_singleton.1 hx
        exact ⟨b, rest, ⟨rfl, rfl, rfl⟩, by simpa using hy⟩
      · cases hx
    · rintro ⟨_, _, ⟨rfl, rfl, rfl⟩, hx, hb⟩
      simp [hx, hb]

theorem commaBlanks_sublist (before : List Segment) (es : List (Segment × Bool)) :
    (commaBlanks before es).Sublist (before.take 1 ++ es.map (·.1)) := by
  have last (before : List Segment) : (lastBlank before).Sublist (before.take 1) := by
    match before with
    | [] | [_] => exact List.nil_sublist _
    | y :: b :: rest =>
      rw [lastBlank]
      split
      · exact List.Sublist.refl _
      · exact List.nil_sublist _
  induction es generalizing before with
  | nil => exact List.nil_sublist _
  | cons e es ih =>
    obtain ⟨c, shown⟩ := e
    have own : (if shown && c.isType "comma" then lastBlank before else []).Sublist
        (before.take 1) := by
      split
      · exact last before
      · exact List.nil_sublist _
    exact own.append (ih (c :: before))

theorem mem_commaBlanks : x ∈ commaBlanks before es ↔ ∃ front c back,
    es = front ++ (c, true) :: back ∧ c.isType "comma" = true ∧
      x ∈ lastBlank ((front.map (·.1)).reverse ++ before) := by
  induction es generalizing before with
  | nil => simp [commaBlanks]
  | cons e es ih =>
    obtain ⟨c, shown⟩ := e
    rw [commaBlanks, List.mem_append, ih]
    constructor
    · rintro (hx | ⟨front, d, back, rfl, hd, hx⟩)
      · split at hx
        · next hc =>
          obtain ⟨rfl, comma⟩ := Bool.and_eq_true_iff.1 hc
          exact ⟨[], c, es, rfl, comma, hx⟩
        · cases hx
      · exact ⟨(c, shown) :: front, d, back, rfl, hd, by simpa using hx⟩
    · rintro ⟨front, d, back, heq, hd, hx⟩
      cases front with
      | nil =>
        obtain ⟨⟨rfl, rfl⟩, rfl⟩ : (c = d ∧ shown = true) ∧ es = back := by simpa using heq
        left
        simpa [hd] using hx
      | cons f front =>
        obtain ⟨rfl, rfl⟩ := List.cons.inj heq
        exact .inr ⟨front, d, back, rfl, hd, by simpa using hx⟩

/-- A space that should not be there stands between a leaf of the line and a comma. -/
theorem mem_commaBlanks_nil : x ∈ commaBlanks [] es ↔ ∃ front b u c back,
    es = front ++ b :: (x, u) :: (c, true) :: back ∧ c.isType "comma" = true ∧
      x.isType "whitespace" = true ∧ b.1.isType "newline" = false := by
  rw [mem_commaBlanks]
  constructor
  · rintro ⟨front, c, back, rfl, hc, hx⟩
    obtain ⟨b, rest, heq, white, hb⟩ := mem_lastBlank.1 hx
    rw [List.append_nil] at heq
    have split : front.map (·.1) = rest.reverse ++ [b, x] := by
      rw [← List.reverse_reverse (front.map _), heq]
      simp
    obtain ⟨front, two, rfl, -, htwo⟩ := List.map_eq_append_iff.1 split
    obtain ⟨b', one, rfl, rfl, hone⟩ := List.map_eq_cons_iff.1 htwo
    obtain ⟨x', none, rfl, rfl, hnone⟩ := List.map_eq_cons_iff.1 hone
    obtain rfl := List.map_eq_nil_iff.1 hnone
    exact ⟨front, b', x'.2, c, back, by simp, hc, white, hb⟩
  · rintro ⟨front, b, u, c, back, rfl, hc, hx, hb⟩
    refine ⟨front ++ [b, (x, u)], c, back, by simp, hc, mem_lastBlank.2 ?_⟩
    exact ⟨b.1, (front.map (·.1)).reverse, by simp, hx, hb⟩

/-- What the commas ask for that are visited. -/
theorem flatMap_visits (before : List Segment)
    (hes : ∀ e ∈ es, e.1.isType "comma" = true → e.1.isMarker = false) :
    ((visits before es).filter (·.1.isType "comma")).flatMap
        (fun v => lastBlank (v.2.filter (!·.isMarker))) =
      commaBlanks (before.filter (!·.isMarker)) (es.filter (!·.1.isMarker)) := by
  induction es generalizing before with
  | nil => rfl
  | cons e es ih =>
    obtain ⟨c, shown⟩ := e
    obtain ⟨hc, hes⟩ := List.forall_mem_cons.1 hes
    rw [visits, List.filter_append, List.flatMap_append, ih _ hes, List.filter_cons]
    cases hmarker : c.isMarker with
    | true =>
      have other : c.isType "comma" = false := by
        cases comma : c.isType "comma" with
        | false => rfl
        | true => simp [hc comma] at hmarker
      cases shown <;> simp [hmarker, other]
    | false =>
      cases shown <;> cases hcomma : c.isType "comma" <;> simp [hmarker, hcomma, commaBlanks]

/-- What the rule proposes in a tree. -/
theorem proposals_spaceBeforeComma {t : Segment} (htree : t.isTree = true)
    (hfrank : Every SegmentInfo.IsFrank t) :
    proposalsFrom (fun s m => ((lastBlank s.tokensBefore).map Proposal.drop, m)) .empty
        (spaceBeforeComma.sites t) =
      (commaBlanks [] ((t.exhibits true).filter (!·.1.isMarker))).map .drop := by
  have frank : ∀ s ∈ t.sites false, s.segment.info.IsFrank := fun s hs => by
    have seat : (s.segment, s.siblingsAfter) ∈ t.seats [] := by
      rw [← map_seat_sitesIn [] [] [] []]
      exact List.mem_map_of_mem hs
    rcases mem_members_of_mem_seats t seat with heq | ⟨hself, -⟩
    · rw [(Prod.mk.inj heq).1]
      exact hfrank.own
    · exact (hfrank.of_mem_membersAll _ hself).own
  have shown : ∀ e ∈ t.exhibits true, e.1.isType "comma" = true → e.1.isMarker = false := by
    intro e he hcomma
    have leaf := (leaves_sublist_members t).subset (mem_leaves_of_mem_exhibits he)
    have own := (hfrank.of_mem_members _ leaf).own
    exact (own.of_comma hcomma).2.1
  have wants (s : Site) : spaceBeforeComma.wants s = s.segment.isType "comma" := by
    simp [Rule.wants, spaceBeforeComma, isAnyType]
  have sites : spaceBeforeComma.sites t = ((t.sites false).filter (·.segment.isLeaf)).filter
      (·.segment.isType "comma") := by
    rw [Rule.sites, List.filter_filter]
    refine List.filter_congr fun s hs => ?_
    rw [wants]
    cases hcomma : s.segment.isType "comma" with
    | false => rfl
    | true => simp [((frank s hs).of_comma hcomma).1]
  rw [proposalsFrom_eq_flatMap, ← List.map_flatMap, sites]
  have visited := visits_exhibits [] [] [] [] t htree
  have blanks := flatMap_visits [] shown
  rw [← visited, List.filter_map, List.flatMap_map] at blanks
  exact congrArg _ blanks

/-- Once the spaces before commas are taken away, none is left there. -/
theorem commaBlanks_filter {keep : Segment → Bool}
    (apart : es.IsChain fun a b =>
      a.1.isType "whitespace" = true → ¬ b.1.isType "whitespace" = true)
    (hkeep : ∀ x, keep x = false ↔ x ∈ commaBlanks [] es) :
    commaBlanks [] (es.filter fun e => keep e.1) = [] := by
  refine List.eq_nil_iff_forall_not_mem.2 fun x hx => ?_
  obtain ⟨front, b, u, c, back, split, hc, hx, hb⟩ := mem_commaBlanks_nil.1 hx
  have kept : (x, u) ∈ es.filter fun e => keep e.1 := by simp [split]
  have blank : ∀ e ∈ es, keep e.1 = false → e.1.isType "whitespace" = true := fun e _ he => by
    obtain ⟨_, _, _, _, _, -, -, he, -⟩ := mem_commaBlanks_nil.1 ((hkeep e.1).1 he)
    exact he
  rw [List.append_cons] at split
  obtain ⟨front', back', old, hfront⟩ := exists_split_of_filter apart blank split hx
  -- what stands before the space now stood there before
  obtain ⟨early, rest, rfl, -, hrest⟩ := List.filter_eq_append_iff.1 hfront
  obtain ⟨lead, gap, rfl, -, -, hgap⟩ := List.filter_eq_cons_iff.1 hrest
  obtain rfl : gap = [] := by
    rcases List.eq_nil_or_concat gap with hnil | ⟨gap, z, rfl⟩
    · exact hnil
    · have white : z.1.isType "whitespace" = true := by
        refine blank z (by simp [old]) ?_
        simpa using List.filter_eq_nil_iff.1 hgap z (by simp)
      rw [List.isChain_iff_forall_rel_of_append_cons_cons] at apart
      have beside : es = early ++ (lead ++ b :: gap) ++ z :: (x, u) :: (c, true) :: back' := by
        simp [old]
      exact absurd hx (apart beside white)
  have taken : keep x = false := by
    refine (hkeep x).2 (mem_commaBlanks_nil.2 ?_)
    exact ⟨early ++ lead, b, u, c, back', by simp [old], hc, hx, hb⟩
  simp [taken] at kept

theorem commaBlanks_unplaced (before : List Segment) (es : List (Segment × Bool)) :
    commaBlanks (before.map unplaced) (es.map fun e => (e.1.unplaced, e.2)) =
      (commaBlanks before es).map unplaced := by
  have last (before : List Segment) :
      lastBlank (before.map unplaced) = (lastBlank before).map unplaced := by
    match before with
    | [] | [_] => rfl
    | x :: b :: rest =>
      simp only [List.map_cons, lastBlank, isType_unplaced]
      split <;> rfl
  induction es generalizing before with
  | nil => rfl
  | cons e es ih =>
    obtain ⟨c, shown⟩ := e
    have later := ih (c :: before)
    rw [List.map_cons] at later
    simp only [List.map_cons, commaBlanks, isType_unplaced, List.map_append]
    rw [later, last]
    split <;> rfl

/-- White space is taken away from before commas in one round. -/
theorem settlesIn_spaceBeforeComma (h : Ordinary n tree) (p : Parser) (source name : String) :
    spaceBeforeComma.SettlesIn p (.ofString source name) tree n tree.SameInk := by
  have tokens : ((tree.exhibits true).filter (!·.1.isMarker)).map (·.1) =
      tree.leaves.filter (!·.isMarker) := by
    rw [← map_fst_exhibits true tree, List.filter_map]
    rfl
  have apart : ((tree.exhibits true).filter (!·.1.isMarker)).IsChain fun x y =>
      x.1.isType "whitespace" = true → ¬ y.1.isType "whitespace" = true := by
    have blanks := h.blanks
    rw [← tokens, List.isChain_map] at blanks
    exact blanks.imp fun _ _ hxy hx => by simp [hxy hx]
  refine tells_spaceBeforeComma.settlesIn_drops rfl h
    (proposals_spaceBeforeComma h.isTree h.frank) ⟨?_, fun d hd => ?_⟩
    (fun keep fixed hkeep _ htree hfrank hshown => ?_) p source name
  · have sublist := commaBlanks_sublist [] ((tree.exhibits true).filter (!·.1.isMarker))
    rw [List.take_nil, List.nil_append, tokens] at sublist
    exact sublist.trans List.filter_sublist
  · obtain ⟨_, _, _, _, _, -, -, hd, -⟩ := mem_commaBlanks_nil.1 hd
    exact .inl hd
  -- the tokens are those that were not taken away
  have erase (es : List (Segment × Bool)) :
      (es.filter (!·.1.isMarker)).map (fun e => (e.1.unplaced, e.2)) =
        (es.map (fun e => (e.1.unplaced, e.2))).filter (!·.1.isMarker) := by
    rw [List.filter_map]
    congr 2
    funext e
    simp
  have shown : ((fixed.exhibits true).filter (!·.1.isMarker)).map (fun e => (e.1.unplaced, e.2)) =
      (((tree.exhibits true).filter (!·.1.isMarker)).filter (fun e => keep e.1)).map
        (fun e => (e.1.unplaced, e.2)) := by
    rw [erase, hshown, ← erase, List.filter_filter, List.filter_filter]
    congr 1
    exact List.filter_congr fun e _ => Bool.and_comm ..
  have none : (commaBlanks [] ((fixed.exhibits true).filter (!·.1.isMarker))).map unplaced =
      [] := by
    rw [← commaBlanks_unplaced, shown, commaBlanks_unplaced, commaBlanks_filter apart hkeep]
    rfl
  rw [proposals_spaceBeforeComma htree hfrank, List.map_eq_nil_iff.1 none]
  rfl

end Rule

end QueryLint
