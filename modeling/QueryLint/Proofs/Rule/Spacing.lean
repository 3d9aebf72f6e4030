import QueryLint.Proofs.Rule.Blanks

/-!
QueryLint.Proofs.Rule.Spacing — rules that put white space in.

The end of a file gets one line end, and every comma one space behind it. The line end may land
inside of a node and move out of it again, but the tokens are what was asked for. A space comes
between a comma and what follows it in its row, so code stands before and behind it.

* `Rule.settlesIn_finalNewline` — one round of the rule about line ends.
* `Rule.settlesIn_spaceAfterComma` — one round of the rule about commas.
-/

namespace QueryLint

open Segment

namespace Rule

variable {n : Nat} {tree : Segment} {ss front back : List Segment} {x : Segment}

/-! ## 1. At the end of a file -/

/-- A file with something in it, if it ends with one line end, is as it should be. -/
theorem finalProposals_eq_nil (h : ss.any (fun s => s.isCode || s.isComment) = false ∨
    (finalNewlines ss).length = 1) : finalProposals ss = [] := by
  unfold finalProposals
  rcases h with h | h
  · simp [h]
  · obtain ⟨e, he⟩ := List.length_eq_one_iff.1 h
    rw [he]
    split <;> rfl

theorem finalNewlines_append (hx : x.isType "newline" = false)
    (hback : ∀ y ∈ back, y.isType "newline" = true) :
    finalNewlines (front ++ x :: back) = back := by
  have whole : ∀ y ∈ back.reverse, y.isType "newline" = true := by simpa using hback
  rw [finalNewlines, List.reverse_append, List.reverse_cons, List.append_assoc,
    List.takeWhile_append_of_pos whole]
  simp [hx]

/-- The line ends at the end of a file follow something else, or they are all there is. -/
theorem exists_finalNewlines (ss : List Segment) : ∃ front, ss = front ++ finalNewlines ss ∧
    (∀ y ∈ finalNewlines ss, y.isType "newline" = true) ∧
      (front = [] ∨ ∃ front' x, front = front' ++ [x] ∧ x.isType "newline" = false) := by
  refine ⟨(ss.reverse.dropWhile (·.isType "newline")).reverse, ?_, fun y hy => ?_, ?_⟩
  · rw [finalNewlines, ← List.reverse_append, List.takeWhile_append_dropWhile,
      List.reverse_reverse]
  · have member : y ∈ ss.reverse.takeWhile (·.isType "newline") := List.mem_reverse.1 hy
    exact List.mem_takeWhile_imp (p := fun z : Segment => z.isType "newline") member
  · cases hrest : ss.reverse.dropWhile (·.isType "newline") with
    | nil => exact .inl rfl
    | cons x rest =>
      refine .inr ⟨rest.reverse, x, by simp, ?_⟩
      have := List.head_dropWhile_not (·.isType "newline") (l := ss.reverse) (by simp [hrest])
      simpa [hrest] using this

/-- What is proposed at the end of a file: nothing, one more line end, or to drop all but one. -/
theorem finalProposals_cases (ss : List Segment) :
    (finalProposals ss = [] ∧ (ss.any (fun s => s.isCode || s.isComment) = false ∨
      (finalNewlines ss).length = 1)) ∨
    (∃ front x, ss = front ++ [x] ∧ x.isType "newline" = false ∧
      finalProposals ss = [.newlineAfter x]) ∨
    ∃ front e D, ss = front ++ e :: D ∧ (∀ y ∈ e :: D, y.isType "newline" = true) ∧
      (finalNewlines (front ++ [e])).length = 1 ∧ finalProposals ss = D.map .drop := by
  obtain ⟨front, hss, hends, hfront⟩ := exists_finalNewlines ss
  cases hcontent : ss.any (fun s => s.isCode || s.isComment) with
  | false => exact .inl ⟨finalProposals_eq_nil (.inl hcontent), .inl rfl⟩
  | true =>
    unfold finalProposals
    rw [hcontent, Bool.not_true, if_neg Bool.false_ne_true]
    match hnew : finalNewlines ss with
    | [] =>
      rw [hnew, List.append_nil] at hss
      rcases hfront with rfl | ⟨front, x, rfl, hx⟩
      · simp [hss] at hcontent
      · refine .inr (.inl ⟨front, x, hss, hx, ?_⟩)
        rw [hss, List.getLast?_concat]
    | [e] => exact .inl ⟨rfl, .inr rfl⟩
    | e :: first :: rest =>
      rw [hnew] at hss hends
      refine .inr (.inr ⟨front, e, first :: rest, hss, hends, ?_, rfl⟩)
      have newline := hends e (List.mem_cons_self ..)
      rcases hfront with rfl | ⟨front, x, rfl, hx⟩
      · simp [finalNewlines, newline]
      · rw [List.append_assoc, List.singleton_append, finalNewlines_append hx (by simpa)]
        rfl

theorem finalNewlines_unplaced (ss : List Segment) :
    finalNewlines (ss.map unplaced) = (finalNewlines ss).map unplaced := by
  rw [finalNewlines, finalNewlines, ← List.map_reverse, List.takeWhile_map, List.map_reverse]
  congr 3
  funext s
  simp

/-- What is proposed at the end of a file changes its tokens into some that are as they should
be. -/
theorem finalNewline_made (h : Ordinary n tree) {plan : FixPlan}
    (hmade : tree.Made n (finalProposals (tree.leaves.filter (!·.isMarker))) plan) :
    let made := (tree.leaves.filter (!·.isMarker)).flatMap plan.spotOf
    made.any (fun s => s.isCode || s.isComment) = false ∨ (finalNewlines made).length = 1 := by
  intro made
  have nodup : (tree.leaves.filter (!·.isMarker)).Nodup :=
    List.Nodup.of_map _ (h.nodup_map_id (List.filter_sublist.trans h.leaves_sublist))
  have spots {c : Segment} (hc : c ∈ tree.leaves.filter (!·.isMarker)) :=
    hmade.spot c (h.leaves_sublist.subset (List.mem_filter.1 hc).1)
  have stay {us : List Segment} (hus : ∀ c ∈ us, plan.spotOf c = [c]) :
      us.flatMap plan.spotOf = us := by
    rw [List.flatMap_congr hus, List.flatMap_singleton']
  show made.any _ = false ∨ _
  unfold made
  rcases finalProposals_cases (tree.leaves.filter (!·.isMarker)) with
    ⟨hps, hfine⟩ | ⟨front, x, hss, hx, hps⟩ | ⟨front, e, D, hss, hD, hone, hps⟩
  · rw [stay fun c hc => ?_]
    · exact hfine
    · rcases spots hc with ⟨p, hp, -⟩ | ⟨-, hspot⟩
      · rw [hps] at hp
        cases hp
      · exact hspot c rfl
  · right
    rw [hps, hss] at spots
    rw [hss] at nodup ⊢
    rw [List.flatMap_append, stay fun c hc => ?_, List.flatMap_singleton]
    · rcases spots (List.mem_append_right _ (List.mem_singleton_self x)) with
        ⟨p, hp, -, k, -, hspot⟩ | ⟨hnone, -⟩
      · obtain rfl := List.mem_singleton.1 hp
        rw [hspot x rfl, Proposal.leaves, finalNewlines_append hx (by simp; rfl)]
        rfl
      · exact absurd rfl (hnone _ (List.mem_singleton_self _))
    · rcases spots (List.mem_append_left _ hc) with ⟨p, hp, rfl, -⟩ | ⟨-, hspot⟩
      · obtain rfl := List.mem_singleton.1 hp
        exact absurd rfl ((List.nodup_append.1 nodup).2.2 _ hc _ (List.mem_singleton_self _))
      · exact hspot c rfl
  · right
    rw [hps] at spots
    rw [hss, List.append_cons] at spots nodup ⊢
    rw [List.flatMap_append, stay fun c hc => ?_, List.flatMap_eq_nil_iff.2 fun d hd => ?_,
      List.append_nil]
    · exact hone
    · rcases spots (List.mem_append_right _ hd) with ⟨p, hp, -, k, -, hspot⟩ | ⟨hnone, -⟩
      · obtain ⟨d', -, rfl⟩ := List.mem_map.1 hp
        exact hspot d rfl
      · exact absurd rfl (hnone _ (List.mem_map_of_mem hd))
    · rcases spots (List.mem_append_left _ hc) with ⟨p, hp, rfl, -⟩ | ⟨-, hspot⟩
      · obtain ⟨d, hd, rfl⟩ := List.mem_map.1 hp
        exact absurd rfl ((List.nodup_append.1 nodup).2.2 _ hc _ hd)
      · exact hspot c rfl

/-- What is proposed at the end of a file can be made. -/
theorem admits_finalProposals (h : Ordinary n tree) :
    tree.Admits (finalProposals (tree.leaves.filter (!·.isMarker))) ∧
      ∀ p ∈ finalProposals (tree.leaves.filter (!·.isMarker)), p.anchor.isLeaf = true ∧
        p.anchor.isMarker = false ∧ (p.takes = true → p.anchor.isBlank = true) := by
  have sublist : (tree.leaves.filter (!·.isMarker)).Sublist tree.leaves := List.filter_sublist
  have tokens : ∀ c ∈ tree.leaves.filter (!·.isMarker), c.isLeaf = true ∧ c.isMarker = false ∧
      c ∈ membersAll tree.children := fun c hc => by
    obtain ⟨hc, hmarker⟩ := List.mem_filter.1 hc
    exact ⟨isLeaf_of_mem_leaves tree hc, by simpa using hmarker, h.leaves_sublist.subset hc⟩
  rcases finalProposals_cases (tree.leaves.filter (!·.isMarker)) with
    ⟨hps, -⟩ | ⟨front, x, hss, -, hps⟩ | ⟨front, e, D, hss, hD, -, hps⟩
  · rw [hps]
    exact ⟨⟨List.nodup_nil, by simp, by simp⟩, by simp⟩
  · obtain ⟨leaf, token, member⟩ := tokens x (by simp [hss])
    rw [hps]
    refine ⟨⟨List.nodup_singleton _, ?_, ?_⟩, ?_⟩
    · simpa [Proposal.anchor] using member
    · simp [Proposal.takes]
    · simpa [Proposal.anchor, Proposal.takes] using ⟨leaf, token⟩
  · rw [hss] at sublist
    have drops : tree.Drops D :=
      { sublist := ((List.sublist_cons_self e D).trans
          (List.sublist_append_right front (e :: D))).trans sublist
        white := fun d hd => .inr (hD d (List.mem_cons_of_mem _ hd)) }
    rw [hps]
    refine ⟨drops.admits h, fun p hp => ?_⟩
    obtain ⟨d, hd, rfl⟩ := List.mem_map.1 hp
    obtain ⟨leaf, token, -, blank, -⟩ := drops.of_mem h hd
    exact ⟨leaf, token, fun _ => blank⟩

/-- One line end is put at the end of a file, and others are taken away, in one round. -/
theorem settlesIn_finalNewline (h : Ordinary n tree) (p : Parser) (source name : String) :
    finalNewline.SettlesIn p (.ofString source name) tree n tree.SameInk := by
  intro m k found plan fixed
  have proposals (t : Segment) (ht : t.isUnparsable = false) :
      proposalsFrom (fun s m => (finalProposals (s.segment.leaves.filter (!·.isMarker)), m)) .empty
        (finalNewline.sites t) = finalProposals (t.leaves.filter (!·.isMarker)) := by
    rw [sites_of_root rfl ht, proposalsFrom_eq_flatMap, List.flatMap_singleton]
  have blankIsToken (t : Segment) (ht : t.isUnparsable = false) :
      ∀ s ∈ finalNewline.sites t, s.view.blankIsToken = true := by
    rw [sites_of_root rfl ht]
    simp [Site.view, Site.nextSiblings, View.blankIsToken]
  obtain ⟨admits, tokens⟩ := admits_finalProposals h
  have made := tells_finalNewline.applyFixes h.isFile h.isTree h.ids h.before
    (blankIsToken tree h.isUnparsable_eq) (by rwa [proposals tree h.isUnparsable_eq]) p source name
    m k
  rw [proposals tree h.isUnparsable_eq] at made
  obtain ⟨failure, valid, left, hmade, -, hwords, -⟩ := made
  have parsed : fixed.1.segment.isUnparsable = false := by
    have info : fixed.1.segment.info = tree.info := info_applyWithin p _ tree plan k
    have other := h.isUnparsable_eq
    rw [isUnparsable, kind] at other ⊢
    rwa [info]
  refine ⟨failure, valid, left, ?_, ?_⟩
  · rw [SameInk, hwords]
    exact hmade.words_filter h admits fun p hp => (tokens p hp).2.2
  refine tells_finalNewline.findsNothing (blankIsToken _ parsed) ?_
  rw [proposals _ parsed]
  have same : (fixed.1.segment.leaves.filter (!·.isMarker)).map unplaced =
      ((tree.leaves.filter (!·.isMarker)).flatMap plan.spotOf).map unplaced := by
    rw [← hmade.tokens_remade h (fun p hp => (tokens p hp).1) fun p hp => (tokens p hp).2.1]
    simpa [words] using hwords
  have content (ss : List Segment) : (ss.map unplaced).any (fun s => s.isCode || s.isComment) =
      ss.any fun s => s.isCode || s.isComment := by
    simp [List.any_map, Function.comp_def]
  refine finalProposals_eq_nil ((finalNewline_made h hmade).imp (fun hnone => ?_) fun hone => ?_)
  · rw [← content, same, content, hnone]
  · rw [← List.length_map (f := unplaced), ← finalNewlines_unplaced, same, finalNewlines_unplaced,
      List.length_map, hone]

/-! ## 2. Behind commas -/

/-- What commas ask for, given what comes after each of them in its row. -/
def spacesAsked (seats : List (Segment × List Segment)) : List Proposal :=
  (seats.filter (·.1.isType "comma")).flatMap fun e => spaceProposals (e.2.filter (!·.isMarker))

theorem mem_spacesAsked {seats : List (Segment × List Segment)} {p : Proposal} :
    p ∈ spacesAsked seats ↔ ∃ e ∈ seats, e.1.isType "comma" = true ∧
      p ∈ spaceProposals (e.2.filter (!·.isMarker)) := by
  simp [spacesAsked, List.mem_flatMap, and_assoc]

theorem spacesAsked_append (xs ys : List (Segment × List Segment)) :
    spacesAsked (xs ++ ys) = spacesAsked xs ++ spacesAsked ys := by
  simp [spacesAsked]

/-- What the rule proposes in a tree. -/
theorem proposals_spaceAfterComma (t : Segment) :
    proposalsFrom (fun s m => (spaceProposals s.nextSiblings, m)) .empty
      (spaceAfterComma.sites t) = spacesAsked (t.seats []) := by
  have sites : spaceAfterComma.sites t =
      (sitesIn false [] [] [] [] t).filter (·.segment.isType "comma") := by
    refine List.filter_congr fun s _ => ?_
    simp [Rule.wants, spaceAfterComma, isAnyType]
  rw [proposalsFrom_eq_flatMap, sites, spacesAsked, ← map_seat_sitesIn [] [] [] [], List.filter_map,
    List.flatMap_map]
  rfl

/-- A space is asked for in place of other white space or in front of what is none, where the line
goes on. -/
theorem mem_spaceProposals {p : Proposal} (hp : p ∈ spaceProposals ss) :
    ∃ s rest, ss = s :: rest ∧ endsLine [s] = false ∧
      (p = .respell s " " ∧ s.isType "whitespace" = true ∨
        p = .spaceBefore s ∧ s.isType "whitespace" = false) := by
  cases ss with
  | nil => cases hp
  | cons s rest =>
    rw [spaceProposals] at hp
    refine ⟨s, rest, rfl, ?_⟩
    split at hp
    · cases hp
    next hends =>
    refine ⟨by simpa [endsLine] using hends, ?_⟩
    split at hp
    · next hs =>
      split at hp
      · cases hp
      · exact .inl ⟨List.mem_singleton.1 hp, hs⟩
    · next hs => exact .inr ⟨List.mem_singleton.1 hp, by simpa using hs⟩

/-- Behind one space nothing is asked for. -/
theorem spaceProposals_space (hx : x.isType "whitespace" = true) (hraw : x.raw = " ") :
    spaceProposals (x :: ss) = [] := by
  rw [spaceProposals]
  split
  · rfl
  · simp [hraw]

/-- Nothing is asked for where the line ends. -/
theorem spaceProposals_ends (h : endsLine ss = true) : spaceProposals ss = [] := by
  cases ss with
  | nil => rfl
  | cons s rest => rw [spaceProposals, if_pos h]

theorem endsLine_unplaced (ss : List Segment) : endsLine (ss.map unplaced) = endsLine ss := by
  cases ss <;> simp [endsLine]

theorem spaceProposals_unplaced (ss : List Segment) :
    spaceProposals (ss.map unplaced) = [] ↔ spaceProposals ss = [] := by
  cases ss with
  | nil => exact Iff.rfl
  | cons s rest =>
    have whole := endsLine_unplaced (s :: rest)
    rw [List.map_cons] at whole
    rw [List.map_cons, spaceProposals, spaceProposals, whole, endsLine_unplaced, isType_unplaced,
      raw_unplaced]
    split
    · exact Iff.rfl
    split
    · split
      · exact Iff.rfl
      · simp
    · simp

/-- Behind a comma the first segment is asked for, if any. -/
theorem anchors_spaceProposals (ss : List Segment) :
    ((spaceProposals ss).map (·.anchor)).Sublist (ss.take 1) := by
  cases ss with
  | nil => exact List.Sublist.slnil
  | cons s rest =>
    rw [spaceProposals]
    split
    · exact List.nil_sublist _
    split
    · split
      · exact List.nil_sublist _
      · exact List.Sublist.refl [s]
    · exact List.Sublist.refl [s]

/-- In a row, what is asked for is at different segments if that is so inside of each. The first of
the row that is no marker may be asked for besides, by a comma before it. -/
theorem anchors_row (hss : ∀ s ∈ ss, s.isTree = true ∧ s.info.IsFrank ∧
      ((spacesAsked (seatsAll s.children)).map (·.anchor)).Sublist (membersAll s.children)) :
    ((ss.filter (!·.isMarker)).take 1 ++ (spacesAsked (seatsAll ss)).map (·.anchor)).Sublist
      (membersAll ss) := by
  induction ss with
  | nil => exact List.Sublist.slnil
  | cons s rest ih =>
    obtain ⟨⟨tree, frank, inside⟩, hrest⟩ := List.forall_mem_cons.1 hss
    have later := ih hrest
    have childless := (isTree_iff.1 tree).1
    rw [seatsAll, spacesAsked_append, List.map_append, membersAll, members_eq, seats_eq]
    cases hcomma : s.isType "comma" with
    | true =>
      obtain ⟨leaf, token, -⟩ := frank.of_comma hcomma
      have asked : spacesAsked [(s, rest)] = spaceProposals (rest.filter (!·.isMarker)) := by
        simp [spacesAsked, hcomma]
      rw [List.filter_cons_of_pos (by simp [token]), childless leaf, isUnparsable_of_isLeaf leaf]
      have own : ((spacesAsked [(s, rest)]).map (·.anchor)).Sublist
          ((rest.filter (!·.isMarker)).take 1) := asked ▸ anchors_spaceProposals _
      exact ((own.append_right _).trans later).cons_cons s
    | false =>
      have own : ((spacesAsked (if s.isUnparsable then []
          else (s, rest) :: seatsAll s.children)).map (·.anchor)).Sublist
          (membersAll s.children) := by
        split
        · exact List.nil_sublist _
        · rw [spacesAsked, List.filter_cons_of_neg (by simp [hcomma])]
          exact inside
      cases hmarker : s.isMarker with
      | false =>
        have after := (List.sublist_append_right _ _).trans later
        rw [List.filter_cons_of_pos (by simp [hmarker])]
        exact (own.append after).cons_cons s
      | true =>
        rw [childless (isLeaf_of_isMarker hmarker)] at own ⊢
        rw [List.filter_cons_of_neg (by simp [hmarker]), List.sublist_nil.1 own]
        exact later.cons s

/-- What is asked for is at different segments, in the order of the tree: each is the first after
its comma that is no marker. -/
theorem anchors_sublist {s : Segment} (htree : s.isTree = true)
    (hfrank : Every SegmentInfo.IsFrank s) :
    ((spacesAsked (seatsAll s.children)).map (·.anchor)).Sublist (membersAll s.children) := by
  induction s using Segment.induction with
  | mk i cs ih =>
    refine (List.sublist_append_right _ _).trans (anchors_row fun s hs => ?_)
    have tree := (isTree_iff.1 htree).2 s hs
    have frank := hfrank.inside s hs
    exact ⟨tree, frank.own, ih s hs tree frank⟩

/-- Nothing comes after the root. -/
theorem spacesAsked_root (h : Ordinary n tree) :
    spacesAsked (tree.seats []) = spacesAsked (seatsAll tree.children) := by
  have root (e : Segment × List Segment) (he : e.2 = []) (es : List (Segment × List Segment)) :
      spacesAsked (e :: es) = spacesAsked es := by
    rw [spacesAsked, spacesAsked, List.filter_cons]
    split
    · rw [List.flatMap_cons, he]
      rfl
    · rfl
  rw [seats_eq, h.isUnparsable_eq, if_neg Bool.false_ne_true, root _ rfl]

/-- What is asked for stands in a row behind a comma. -/
theorem exists_comma (h : Ordinary n tree) {p : Proposal} (hp : p ∈ spacesAsked (tree.seats [])) :
    ∃ u ∈ tree.members, ∃ lead c after rest, u.children = lead ++ c :: after ∧
      c.isType "comma" = true ∧ after.filter (!·.isMarker) = p.anchor :: rest ∧
        endsLine [p.anchor] = false ∧
          (p = .respell p.anchor " " ∧ p.anchor.isType "whitespace" = true ∨
            p = .spaceBefore p.anchor ∧ p.anchor.isType "whitespace" = false) := by
  rw [spacesAsked_root h] at hp
  obtain ⟨e, he, hcomma, hp⟩ := mem_spacesAsked.1 hp
  obtain ⟨s, rest, hafter, hends, hshape⟩ := mem_spaceProposals hp
  have anchor : p.anchor = s := by
    rcases hshape with ⟨rfl, -⟩ | ⟨rfl, -⟩ <;> rfl
  subst anchor
  rcases exists_row_of_mem_seatsAll _ he with ⟨lead, row⟩ | ⟨c, hc, u, hu, lead, row⟩
  · exact ⟨tree, mem_members_self _, lead, e.1, e.2, rest, row, hcomma, hafter, hends, hshape⟩
  · refine ⟨u, ?_, lead, e.1, e.2, rest, row, hcomma, hafter, hends, hshape⟩
    rw [members_eq]
    exact List.mem_cons_of_mem _ (mem_membersAll.2 ⟨c, hc, hu⟩)

theorem admits_spacesAsked (h : Ordinary n tree) :
    tree.Admits (spacesAsked (tree.seats [])) where
  apart := by
    rw [spacesAsked_root h]
    have := h.nodup_map_id (anchors_sublist h.isTree h.frank)
    rwa [List.map_map] at this
  anchors p hp := by
    rw [spacesAsked_root h] at hp
    exact (anchors_sublist h.isTree h.frank).subset (List.mem_map_of_mem hp)
  takes p hp htakes := by
    obtain ⟨u, hu, lead, c, after, rest, row, -, hafter, -, ⟨-, hwhite⟩ | ⟨hspace, -⟩⟩ :=
      exists_comma h hp
    · have inRow : p.anchor ∈ u.children := by
        have : p.anchor ∈ after.filter (!·.isMarker) := by simp [hafter]
        simp [row, (List.mem_filter.1 this).1]
      exact (((h.frank.of_mem_members u hu).inside _ inRow).own.of_blank (.inl hwhite)).1
    · rw [hspace] at htakes
      cases htakes

theorem anchor_spacesAsked (h : Ordinary n tree) {p : Proposal}
    (hp : p ∈ spacesAsked (tree.seats [])) : p.anchor.isMarker = false := by
  obtain ⟨u, -, lead, c, after, rest, -, -, hafter, -⟩ := exists_comma h hp
  have member : p.anchor ∈ after.filter (!·.isMarker) := by simp [hafter]
  simpa using (List.mem_filter.1 member).2

/-- A space goes between a comma and what follows it. -/
theorem respects_spacesAsked (h : Ordinary n tree) :
    tree.Respects (spacesAsked (tree.seats [])) where
  drop s hs := by
    obtain ⟨u, hu, lead, c, after, rest, row, -, -, -, ⟨hshape, -⟩ | ⟨hshape, -⟩⟩ :=
      exists_comma h hs <;> cases hshape
  space s hs := by
    obtain ⟨u, hu, lead, c, after, rest, row, hcomma, hafter, -, -⟩ := exists_comma h hs
    have hafter : after.filter (!·.isMarker) = s :: rest := hafter
    have member : s ∈ after.filter (!·.isMarker) := by simp [hafter]
    have code : c.isCode = true :=
      (((h.frank.of_mem_members u hu).inside c (by simp [row])).own.of_comma hcomma).2.2
    refine ⟨by simpa using (List.mem_filter.1 member).2, fun u' hu' front back hrow => ⟨c, ?_, code⟩⟩
    obtain rfl : u = u' := eq_of_mem_children (t := s) h.nodup_idsAll hu hu'
      (by simp [row, (List.mem_filter.1 member).1]) (by simp [hrow])
    -- it stands once in the row
    have nodup : u.children.Nodup := by
      have all := List.Nodup.of_map _ (h.nodup_map_id (List.Sublist.refl _))
      exact (List.nodup_flatMap.1 ((perm_children tree).nodup_iff.2 all)).1 u hu
    obtain ⟨gap, back', rfl, -, -, -⟩ := List.filter_eq_cons_iff.1 hafter
    have split : u.children = (lead ++ c :: gap) ++ s :: back' := by simp [row]
    have once := nodup
    rw [split, List.nodup_middle, List.nodup_cons, List.mem_append, not_or] at once
    rw [split, List.append_cons_inj_of_notMem once.1.1 once.1.2] at hrow
    simp [← hrow.1]
  newline s hs := by
    obtain ⟨u, hu, lead, c, after, rest, row, -, -, -, ⟨hshape, -⟩ | ⟨hshape, -⟩⟩ :=
      exists_comma h hs <;> cases hshape

/-- Of a segment a new space is left, or itself, behind a new space or none. -/
theorem spot_spacesAsked (h : Ordinary n tree) {plan : FixPlan}
    (hmade : tree.Made n (spacesAsked (tree.seats [])) plan) {c : Segment}
    (hc : c ∈ membersAll tree.children) :
    ∃ front, (∀ t ∈ front, t.isType "comma" = false ∧ t.children = []) ∧
      (plan.spotOf (plan.remade c) = front ∨
        plan.spotOf (plan.remade c) = front ++ [plan.remade c]) := by
  rcases hmade.spot c hc with ⟨p, hp, rfl, k, -, hspot⟩ | ⟨-, hspot⟩
  · rw [hspot _ (FixPlan.id_remade _)]
    have takes := (admits_spacesAsked h).takes p hp
    obtain ⟨-, -, -, -, -, -, -, -, -, -, ⟨hshape, white⟩ | ⟨hshape, -⟩⟩ := exists_comma h hp
    · rw [hshape] at takes ⊢
      refine ⟨_, List.forall_mem_singleton.2 ⟨?_, ?_⟩, .inl rfl⟩
      · rw [isType_edit]
        cases comma : p.anchor.isType "comma" with
        | false => rfl
        | true =>
          have code := ((h.isFrank hc).of_comma comma).2.2
          rw [((h.isFrank hc).of_blank (.inl white)).2.2.1] at code
          cases code
      · exact (isTree_iff.1 (h.isTree_of_mem hc)).1 (takes rfl)
    · rw [hshape]
      exact ⟨_, List.forall_mem_singleton.2 ⟨rfl, rfl⟩, .inr rfl⟩
  · exact ⟨[], List.forall_mem_nil _, .inr (hspot _ (FixPlan.id_remade c))⟩

section OneRound

variable (h : Ordinary n tree) {plan : FixPlan}
  (hmade : tree.Made n (spacesAsked (tree.seats [])) plan)

include h hmade

/-- No space is asked for at the end of a line, so it stays and ends the line as before. -/
theorem endsLine_remade (hss : ∀ s ∈ ss, s ∈ membersAll tree.children)
    (hends : endsLine ss = true) :
    endsLine (ss.flatMap fun t => plan.spotOf (plan.remade t)) = true := by
  cases ss with
  | nil => rfl
  | cons s rest =>
    have member := hss s (List.mem_cons_self ..)
    have stays : plan.spotOf (plan.remade s) = [plan.remade s] := by
      rcases hmade.spot s member with ⟨p, hp, rfl, -⟩ | ⟨-, hspot⟩
      · obtain ⟨-, -, -, -, -, -, -, -, -, hgoes, -⟩ := exists_comma h hp
        rw [endsLine] at hends hgoes
        rw [hgoes] at hends
        cases hends
      · exact hspot _ (FixPlan.id_remade s)
    rw [List.flatMap_cons, stays, List.singleton_append, endsLine, FixPlan.isType_remade]
    rw [endsLine, Bool.or_eq_true] at hends
    rw [Bool.or_eq_true]
    refine hends.imp_right fun comment => ?_
    have leaf : s.isLeaf = true := by
      cases hleaf : s.isLeaf with
      | true => rfl
      | false =>
        rw [isComment_of_isCode (h.frank.of_mem_membersAll s member)
          (h.nodes s member hleaf)] at comment
        cases comment
    rwa [h.remade_of_isLeaf member leaf]

/-- Where nothing was asked for, nothing is asked for in the tree that is left. -/
theorem spaceProposals_remade {s : Segment} {rest : List Segment}
    (hss : ∀ u ∈ s :: rest, u ∈ membersAll tree.children)
    (stays : plan.spotOf (plan.remade s) = [plan.remade s])
    (hnone : spaceProposals (s :: rest) = []) :
    spaceProposals ((s :: rest).flatMap fun t => plan.spotOf (plan.remade t)) = [] := by
  obtain ⟨hs, hrest⟩ := List.forall_mem_cons.1 hss
  rw [spaceProposals] at hnone
  split at hnone
  · next hends => exact spaceProposals_ends (endsLine_remade h hmade hss hends)
  rw [List.flatMap_cons, stays, List.singleton_append]
  split at hnone
  · next white =>
    have leaf := ((h.isFrank hs).of_blank (.inl white)).1
    rw [h.remade_of_isLeaf hs leaf]
    split at hnone
    · next hfine =>
      rw [Bool.or_eq_true, beq_iff_eq] at hfine
      rcases hfine with hraw | hends
      · exact spaceProposals_space white hraw
      · have later := endsLine_remade h hmade hrest hends
        rw [spaceProposals]
        split
        · rfl
        · simp [later]
    · cases hnone
  · cases hnone

/-- Where one space is asked for and put, nothing more is asked for; and nothing is asked for where
it was not before. -/
theorem spacesAsked_remade {c : Segment} {after : List Segment}
    (he : (c, after) ∈ tree.seats []) (hcomma : c.isType "comma" = true) :
    spaceProposals ((plan.remadeAll after).filter (!·.isMarker)) = [] := by
  have inTree : ∀ t ∈ after, t ∈ membersAll tree.children := by
    rcases mem_members_of_mem_seats tree he with heq | ⟨-, hafter⟩
    · simp [(Prod.mk.inj heq).2]
    · exact hafter
  rw [hmade.filter_remadeAll inTree fun p hp => anchor_spacesAsked h hp]
  have inTree : ∀ t ∈ after.filter (!·.isMarker), t ∈ membersAll tree.children :=
    fun t ht => inTree t (List.mem_filter.1 ht).1
  have asked {p : Proposal} (hp : p ∈ spaceProposals (after.filter (!·.isMarker))) :
      p ∈ spacesAsked (tree.seats []) := mem_spacesAsked.2 ⟨_, he, hcomma, hp⟩
  generalize after.filter (!·.isMarker) = next at inTree asked
  cases next with
  | nil => rfl
  | cons s rest =>
    have hs := inTree s (List.mem_cons_self ..)
    rcases hmade.spot s hs with ⟨p, hp, rfl, k, -, hspot⟩ | ⟨hnone, hspot⟩
    · -- one space comes first
      rw [List.flatMap_cons, hspot _ (FixPlan.id_remade _)]
      obtain ⟨-, -, -, -, -, -, -, -, -, -, ⟨hshape, white⟩ | ⟨hshape, -⟩⟩ := exists_comma h hp
      · rw [hshape]
        refine spaceProposals_space ((isType_edit _ _ _ _).trans white) ?_
        have frank := (h.isFrank hs).of_blank (.inl white)
        exact raw_edit frank.1 frank.2.1 " " k
      · rw [hshape]
        exact spaceProposals_space rfl rfl
    · refine spaceProposals_remade h hmade inTree (hspot _ (FixPlan.id_remade s)) ?_
      refine List.eq_nil_iff_forall_not_mem.2 fun p hp => hnone p (asked hp) ?_
      obtain ⟨s', rest', heq, -, ⟨rfl, -⟩ | ⟨rfl, -⟩⟩ := mem_spaceProposals hp <;>
        exact (List.cons.inj heq).1.symm

end OneRound

/-- A space is put behind commas in one round. -/
theorem settlesIn_spaceAfterComma (h : Ordinary n tree) (p : Parser) (source name : String) :
    spaceAfterComma.SettlesIn p (.ofString source name) tree n tree.SameInk := by
  have proposals := proposals_spaceAfterComma tree
  refine tells_spaceAfterComma.settlesIn rfl h (proposals ▸ admits_spacesAsked h)
    (proposals ▸ respects_spacesAsked h) ?_ p source name
  rw [proposals]
  intro plan fixed hmade stands
  constructor
  · rw [SameInk, stands.words_eq]
    refine hmade.words_filter h (admits_spacesAsked h) fun p hp htakes => ?_
    obtain ⟨u, hu, lead, c, after, rest, row, -, hafter, -, ⟨-, white⟩ | ⟨hspace, -⟩⟩ :=
      exists_comma h hp
    · have member := (admits_spacesAsked h).anchors p hp
      exact ((h.isFrank member).of_blank (.inl white)).2.2.2.1
    · rw [hspace] at htakes
      cases htakes
  rw [proposals_spaceAfterComma, List.eq_nil_iff_forall_not_mem]
  intro p hp
  obtain ⟨e, he, hcomma, hp⟩ := mem_spacesAsked.1 hp
  -- the comma stands in the remade tree, and so it stood in the tree
  obtain ⟨e', he', hself, hafter⟩ := stands.exists_seat he
  rcases @FixPlan.mem_seats_remade plan (·.isType "comma" = false) tree
      (fun c hc => spot_spacesAsked h hmade hc) [] e' he' with
    hnew | ⟨⟨c, after⟩, hc, hself', hafter'⟩
  · rw [← isType_unplaced, ← hself, isType_unplaced, hnew] at hcomma
    cases hcomma
  · rw [← isType_unplaced, ← hself, isType_unplaced, hself', FixPlan.isType_remade] at hcomma
    have none := spacesAsked_remade h hmade hc hcomma
    rw [← hafter', ← spaceProposals_unplaced, map_unplaced_tokens, hafter,
      ← map_unplaced_tokens, spaceProposals_unplaced] at none
    rw [none] at hp
    cases hp

end Rule

end QueryLint
