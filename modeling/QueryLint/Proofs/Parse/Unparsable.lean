import QueryLint.Proofs.Match.Classed
import QueryLint.Proofs.Match.Transparent
import QueryLint.Proofs.Parse.Seated
import QueryLint.Proofs.Segment.Listing

/-!
QueryLint.Proofs.Parse.Unparsable — each unparsable segment is reported.

The errors of a file are read off its tree: they are those of the segments that count as unparsable
and have a position. If the grammars and the tokens do not use that type for anything else, these
are all unparsable segments. Each of them is made over tokens, since a match is put into something
only where it takes a token. A token has a position, so what is made of it has one too.

Grammars may claim a token twice, and then it stands in the tree twice. That does not matter here.

* `Segment.unparsables` — the unparsable segments of a tree, in order.
* `Segment.Marked` — a tree in which they are marked as such, with a position and a token inside.
* `Segment.Reports` — the error of an unparsable segment.
* `Segment.Marked.reports` — the errors of a marked tree are those of its unparsable segments.
* `Segment.standing_marks` — what a match makes of tokens is marked.
* `Parser.parse_reports` — each unparsable segment of a file holds a token and is reported once.
-/

namespace QueryLint

namespace Segment

variable {n : Nat} {ts ss us vs base : List Segment} {s t u : Segment}

/-! ## 1. Unparsable segments -/

/-- The unparsable segments of a tree, each before those inside it. -/
def unparsables (s : Segment) : List Segment :=
  ((s.listing true).map (·.2)).filter (·.isUnparsable)

/-- A leaf of the segment is one of some tokens, but for what grammars change in tokens. -/
def Wraps (ts : List Segment) (s : Segment) : Prop :=
  ∃ x ∈ s.leaves, ∃ t ∈ ts, x.bare = t.bare

/-- What is unparsable in a tree counts as that, and nothing else does. It has a position and wraps
one of some tokens. -/
inductive Marked (ts : List Segment) : Segment → Prop where
  | mk {i : SegmentInfo} {cs : List Segment}
      (type : (mk i cs).isType "unparsable" = (mk i cs).isUnparsable)
      (own : (mk i cs).isUnparsable = true → i.position.isSome = true ∧ (mk i cs).Wraps ts)
      (inside : ∀ s ∈ cs, Marked ts s) : Marked ts (mk i cs)

/-- An error says where an unparsable segment is, what was expected there, and how its text
starts. -/
structure Reports (s : Segment) (e : ParseError) : Prop where
  position : ∃ p, s.position = some p ∧ e.source = p.source ∧ e.place = p.place
  expected : e.expected = s.expected?
  message : e.message = "Found unparsable section: " ++ Text.quoted (snippet s.raw)

theorem filter_listingFrom (k : Nat) (ss : List Segment) :
    ((listingFrom true k ss).map (·.2)).filter (·.isUnparsable) = ss.flatMap unparsables := by
  induction ss generalizing k with
  | nil => rfl
  | cons s ss ih =>
    rw [listingFrom, List.map_append, List.filter_append, ih, List.map_map, List.flatMap_cons]
    rfl

theorem unparsables_eq (s : Segment) :
    s.unparsables = (if s.isUnparsable then [s] else []) ++ s.children.flatMap unparsables := by
  unfold unparsables
  rw [listing_eq, Bool.not_true, Bool.and_false, if_neg Bool.false_ne_true, List.map_cons,
    List.filter_cons, filter_listingFrom]
  split <;> rfl

theorem crawlAll_eq_flatMap (types : List String) (deep : Bool) (ss : List Segment) :
    crawlAll types deep ss = ss.flatMap (·.crawl types deep) := by
  induction ss with
  | nil => rfl
  | cons s ss ih => rw [crawlAll, ih, List.flatMap_cons]

theorem isUnparsable_iff : s.isUnparsable = true ↔ ∃ expected, s.kind = .unparsable expected := by
  unfold isUnparsable
  cases s.kind <;> simp

/-- What is unparsable is a node. -/
theorem isLeaf_of_isUnparsable (h : s.isUnparsable = true) : s.isLeaf = false := by
  obtain ⟨expected, hk⟩ := isUnparsable_iff.1 h
  rw [isLeaf, hk]
  rfl

namespace Marked

/-- What counts as unparsable is found in the order of the tree. -/
theorem crawl_eq (h : Marked ts s) : s.crawl ["unparsable"] true = s.unparsables := by
  induction h with
  | @mk i cs type own inside ih =>
    have children : crawlAll ["unparsable"] true cs = cs.flatMap unparsables := by
      rw [crawlAll_eq_flatMap]
      exact List.flatMap_congr fun s hs => ih s hs
    have any : ["unparsable"].any i.classTypes.contains = (Segment.mk i cs).isUnparsable := by
      rw [← type]
      exact Bool.or_false _
    rw [unparsables_eq, crawl, any, children]
    cases (Segment.mk i cs).isUnparsable <;> rfl

theorem of_mem_unparsables (h : Marked ts s) :
    ∀ u ∈ s.unparsables, u.position.isSome = true ∧ u.Wraps ts := by
  induction h with
  | @mk i cs type own inside ih =>
    intro u hu
    rw [unparsables_eq, List.mem_append, List.mem_flatMap] at hu
    rcases hu with hu | ⟨c, hc, hu⟩
    · split at hu
      · next hself =>
        obtain rfl := List.mem_singleton.1 hu
        exact own hself
      · cases hu
    · exact ih c hc u hu

/-- The errors of a marked tree are those of its unparsable segments, one for each. -/
theorem reports (h : Marked ts s) :
    List.Forall₂ Reports s.unparsables (unparsableErrors s) := by
  have placed (u : Segment) (hu : u ∈ s.unparsables) : u.position.isSome = true :=
    (h.of_mem_unparsables u hu).1
  rw [unparsableErrors, h.crawl_eq]
  generalize s.unparsables = found at placed
  induction found with
  | nil => exact .nil
  | cons u found ih =>
    obtain ⟨hu, hfound⟩ := List.forall_mem_cons.1 placed
    obtain ⟨p, hp⟩ := Option.isSome_iff_exists.1 hu
    have error : unparsableError? u = some (.ofPosition ("Found unparsable section: " ++
        Text.quoted (snippet u.raw)) u.expected? p) := by rw [unparsableError?, hp]; rfl
    rw [List.filterMap_cons_some error]
    exact .cons ⟨⟨p, hp, rfl, rfl⟩, rfl, rfl⟩ (ih hfound)

theorem withPosition (h : Marked ts s) (p : Position) : Marked ts (s.withPosition (some p)) := by
  cases h with
  | @mk i cs type own inside =>
    refine .mk type (fun hself => ⟨rfl, ?_⟩) inside
    obtain ⟨x, hx, wrapped⟩ := (own hself).2
    have leaves := leaves_withPosition (s := .mk i cs) (isLeaf_of_isUnparsable hself) (some p)
    exact ⟨x, leaves ▸ hx, wrapped⟩

theorem fillPositions (h : ∀ s ∈ ss, Marked ts s) (before : Option Segment) :
    ∀ s ∈ fillPositions before ss, Marked ts s := by
  induction ss generalizing before with
  | nil => exact h
  | cons s ss ih =>
    obtain ⟨hs, hss⟩ := List.forall_mem_cons.1 h
    obtain ⟨placed, hfill, hplaced⟩ := fillPositions_cons before s ss
    rw [hfill]
    refine List.forall_mem_cons.2 ⟨?_, ih hss (some placed)⟩
    rcases hplaced with rfl | ⟨-, p, rfl, -⟩
    · exact hs
    · exact hs.withPosition p

end Marked

/-! ## 2. Making segments -/

/-- Marked segments in place of some tokens: each token is a leaf of one that has a position. -/
structure Marks (base ss ts : List Segment) : Prop where
  marked : ∀ s ∈ ss, Marked base s
  among : ∀ t ∈ ts, t ∈ base
  kept : ∀ t ∈ ts, ∃ s ∈ ss, s.position.isSome = true ∧ ∃ x ∈ s.leaves, x.bare = t.bare

namespace Marks

theorem append (h : Marks base ss ts) (h' : Marks base us vs) :
    Marks base (ss ++ us) (ts ++ vs) where
  marked := List.forall_mem_append.2 ⟨h.marked, h'.marked⟩
  among := List.forall_mem_append.2 ⟨h.among, h'.among⟩
  kept := by
    refine List.forall_mem_append.2 ⟨fun t ht => ?_, fun t ht => ?_⟩
    · obtain ⟨s, hs, rest⟩ := h.kept t ht
      exact ⟨s, List.mem_append_left _ hs, rest⟩
    · obtain ⟨s, hs, rest⟩ := h'.kept t ht
      exact ⟨s, List.mem_append_right _ hs, rest⟩

theorem mono (h : Marks base ss ts) (hus : ∀ t ∈ us, t ∈ ts) : Marks base ss us :=
  ⟨h.marked, fun t ht => h.among t (hus t ht), fun t ht => h.kept t (hus t ht)⟩

end Marks

/-- A node over marked segments is marked, if it has the type of unparsable segments exactly if it
is one, and is over a token then. -/
theorem meets_branch_marks {k : SegmentKind} {type : String} (hk : k.isLeaf = false)
    (htype : type = "unparsable" ↔ ∃ expected, k = .unparsable expected)
    (hts : (∃ expected, k = .unparsable expected) → ts ≠ []) (h : Marks base ss ts) :
    Meets (n ≤ ·) (branch k type ss) fun s => Marks base [s] ts := by
  refine meets_freshId.bind fun id _ => .pure ?_
  have inside := Marked.fillPositions h.marked none
  -- each token is a leaf of the node, and gives it a position
  have kept (t : Segment) (ht : t ∈ ts) :
      (Position.cover? ((Segment.fillPositions none ss).filterMap (·.position))).isSome = true ∧
        ∃ x ∈ leavesAll (Segment.fillPositions none ss), x.bare = t.bare := by
    obtain ⟨s, hs, hplaced, x, hx, hbare⟩ := h.kept t ht
    obtain ⟨c, hc⟩ := exists_cover?_fillPositions ⟨s, hs, hplaced⟩
    exact ⟨by rw [hc]; rfl, x, mem_leavesAll.2 ⟨s, mem_fillPositions hs hplaced none, hx⟩, hbare⟩
  have leaves (i : SegmentInfo) (hi : i.kind = k) (cs : List Segment) :
      (Segment.mk i cs).leaves = leavesAll cs :=
    leaves_of_not_isLeaf (by rw [isLeaf, kind, info, hi]; exact hk)
  refine ⟨List.forall_mem_singleton.2 (.mk ?_ (fun hself => ?_) inside), h.among, fun t ht => ?_⟩
  · rw [Bool.eq_iff_iff, isUnparsable_iff]
    refine .trans ?_ htype
    simp [isType, classTypes, info, eq_comm]
  · obtain ⟨t, hmem⟩ := List.exists_mem_of_ne_nil ts (hts (isUnparsable_iff.1 hself))
    obtain ⟨placed, x, hx, hbare⟩ := kept t hmem
    exact ⟨placed, x, by rwa [leaves _ rfl], t, h.among t hmem, hbare⟩
  · obtain ⟨placed, x, hx, hbare⟩ := kept t ht
    exact ⟨_, List.mem_singleton.2 rfl, placed, x, by rwa [leaves _ rfl], hbare⟩

theorem meets_marker_marks (k : MarkerKind) :
    Meets (n ≤ ·) (marker k none) fun s => Marks base [s] [] := by
  have type : (withOwnType k.name ["meta"]).contains "unparsable" = false := by
    cases k <;> decide
  exact meets_freshId.bind fun id _ => .pure ⟨List.forall_mem_singleton.2
    (.mk type (fun hself => by cases hself) (by simp)), by simp, by simp⟩

end Segment

namespace Match

open Segment

variable {n : Nat} {tokens : Array Segment} {base : List Segment}

/-! ## 3. Segments of a match -/

theorem mem_of_mem_dedupNeighbours {types : List String} {type : String}
    (h : type ∈ dedupNeighbours types) : type ∈ types := by
  fun_induction dedupNeighbours types with
  | case1 a rest ih => exact List.mem_cons_of_mem _ (ih h)
  | case2 a b rest hne ih =>
    rcases List.mem_cons.1 h with rfl | h
    · exact List.mem_cons_self ..
    · exact List.mem_cons_of_mem _ (ih h)
  | case3 => exact h

/-- A token of another type counts as that and what it counted as. -/
theorem meets_retypeToken_isType (type : String) (normalized : Option String) (s : Segment) :
    Meets (n ≤ ·) (retypeToken type normalized s) fun u =>
      ∀ other, u.isType other = true → other = type ∨ s.isType other = true := by
  unfold retypeToken
  split
  · exact .pure fun _ => .inr
  · refine (meets_freshId.bind fun id _ => .pure fun other h => ?_ :
      Meets (n ≤ ·) (s.retyped type []) fun u =>
        ∀ other, u.isType other = true → other = type ∨ s.isType other = true).bind
          fun u hu => .pure ?_
    · have member := mem_of_mem_dedupNeighbours (List.contains_iff_mem.1 h)
      rcases List.mem_cons.1 member with rfl | member
      · exact .inl rfl
      · exact .inr (List.contains_iff_mem.2 member)
    · cases normalized with
      | none => exact hu
      | some text =>
        have types : (u.withNormalized text).classTypes = u.classTypes := by
          unfold withNormalized
          split <;> rfl
        intro other h
        rw [Option.map_some, Option.getD_some, isType, types] at h
        exact hu other h

/-- A token of another type is marked like the token, if the type is not that of what is
unparsable. -/
theorem meets_retypeToken_marked {type : String} (htype : type ≠ "unparsable")
    (normalized : Option String) {s : Segment} (hs : Marked base s) :
    Meets (n ≤ ·) (retypeToken type normalized s) fun u => Marked base u ∧
      u.position = s.position ∧ u.leaves.map bare = s.leaves.map bare := by
  refine ((meets_retypeToken type normalized s).and
    (meets_retypeToken_isType type normalized s)).mono fun u hu => ?_
  rcases hu with ⟨rfl | ⟨hleaf, -, hbare⟩, hcounts⟩
  · exact ⟨hs, rfl, rfl⟩
  have leaf : u.isLeaf = true := by rw [← isLeaf_bare, hbare, isLeaf_bare, hleaf]
  have inside : u.children = s.children := (congrArg Segment.children hbare :)
  have counts : u.isType "unparsable" = false := by
    by_contra hself
    rcases hcounts _ (by simpa using hself) with h | h
    · exact htype h.symm
    · cases hs with
      | mk type _ _ =>
        rw [type, isUnparsable_of_isLeaf hleaf] at h
        cases h
  refine ⟨?_, by rw [← position_bare, hbare, position_bare], ?_⟩
  · cases hs with
    | @mk i cs _ _ children =>
      obtain ⟨j, ds⟩ := u
      obtain rfl : ds = cs := inside
      have parsed := isUnparsable_of_isLeaf leaf
      exact .mk (counts.trans parsed.symm) (fun hself => by rw [parsed] at hself; cases hself)
        children
  · rw [leaves_of_isLeaf leaf, leaves_of_isLeaf hleaf, List.map_singleton, List.map_singleton, hbare]

theorem meets_retypeTokens_marks {type : String} (htype : type ≠ "unparsable")
    (normalized : Option String) {ss ts : List Segment} (h : Marks base ss ts) :
    Meets (n ≤ ·) (ss.mapM (retypeToken type normalized)) fun us => Marks base us ts := by
  have each (ss : List Segment) (hss : ∀ s ∈ ss, Marked base s) :
      Meets (n ≤ ·) (ss.mapM (retypeToken type normalized)) fun us => (∀ u ∈ us, Marked base u) ∧
        ∀ s ∈ ss, ∃ u ∈ us,
          u.position = s.position ∧ u.leaves.map bare = s.leaves.map bare := by
    induction ss with
    | nil => exact .pure ⟨by simp, by simp⟩
    | cons s ss ih =>
      obtain ⟨hs, hss⟩ := List.forall_mem_cons.1 hss
      rw [List.mapM_cons]
      refine (meets_retypeToken_marked htype normalized hs).bind fun u hu =>
        (ih hss).bind fun us hus => .pure ⟨List.forall_mem_cons.2 ⟨hu.1, hus.1⟩, ?_⟩
      refine List.forall_mem_cons.2 ⟨⟨u, List.mem_cons_self .., hu.2⟩, fun x hx => ?_⟩
      obtain ⟨y, hy, same⟩ := hus.2 x hx
      exact ⟨y, List.mem_cons_of_mem _ hy, same⟩
  refine (each ss h.marked).mono fun us hus => ⟨hus.1, h.among, fun t ht => ?_⟩
  obtain ⟨s, hs, hplaced, x, hx, hbare⟩ := h.kept t ht
  obtain ⟨u, hu, hposition, hleaves⟩ := hus.2 s hs
  have member : x.bare ∈ u.leaves.map bare := by
    rw [hleaves]
    exact List.mem_map_of_mem hx
  obtain ⟨y, hy, hyx⟩ := List.mem_map.1 member
  exact ⟨u, hu, by rwa [hposition], y, hy, hyx.trans hbare⟩

/-- What is marked can be asked of segments in place of tokens, where no grammar gives the type of
what is unparsable. -/
theorem standing_marks : Standing n (·.type? ≠ some "unparsable") (Marks base) where
  append := .append
  mono := .mono
  marker := meets_marker_marks
  build {k ss ts} hk hts h := by
    cases k with
    | node type grammar =>
      have htype : type ≠ "unparsable" := fun h => hk (congrArg some h)
      refine .ite (fun _ => .pure h) fun _ => ?_
      exact (meets_branch_marks rfl (by simp [htype]) (by simp) h).bind fun s hs => .pure hs
    | token type normalized =>
      exact meets_retypeTokens_marks (fun h => hk (congrArg some h)) normalized h
    | bracketed =>
      exact (meets_branch_marks rfl (by simp) (by simp) h).bind fun s hs => .pure hs
    | unparsable expected =>
      exact (meets_branch_marks rfl (by simp) (fun _ => hts) h).bind fun s hs => .pure hs

end Match

namespace Segment

/-! ## 4. Tokens -/

/-- A token or marker of a file, which has a position and does not count as unparsable. -/
structure IsPlainToken (t : Segment) : Prop where
  childless : IsChildless t
  placed : t.position.isSome = true
  parsed : t.isType "unparsable" = false

variable {n : Nat} {base ts : List Segment}

theorem IsPlainToken.marked {t : Segment} (h : IsPlainToken t) : Marked base t := by
  obtain ⟨i, cs⟩ := t
  obtain rfl : cs = [] := h.childless.children
  have parsed := isUnparsable_of_isLeaf h.childless.isLeaf
  exact .mk (h.parsed.trans parsed.symm) (fun hself => by rw [parsed] at hself; cases hself)
    (by simp)

/-- Tokens stand for themselves. -/
theorem Marks.refl (h : ∀ t ∈ ts, IsPlainToken t) (hts : ∀ t ∈ ts, t ∈ base) :
    Marks base ts ts where
  marked t ht := (h t ht).marked
  among := hts
  kept t ht := ⟨t, ht, (h t ht).placed, t, by simp [leaves_of_isLeaf (h t ht).childless.isLeaf], rfl⟩

theorem fillPositions_of_placed (h : ∀ t ∈ ts, t.position.isSome = true)
    (before : Option Segment) : fillPositions before ts = ts := by
  induction ts generalizing before with
  | nil => rfl
  | cons t ts ih =>
    obtain ⟨ht, hts⟩ := List.forall_mem_cons.1 h
    obtain ⟨p, hp⟩ := Option.isSome_iff_exists.1 ht
    rw [fillPositions_of_position before hp, ih hts]

/-- In a file of nothing but tokens nothing is unparsable. -/
theorem meets_file_unparsables (h : ∀ t ∈ ts, IsPlainToken t) :
    Meets (n ≤ ·) (Segment.file ts) fun s => s.unparsables = [] := by
  refine meets_freshId.bind fun id _ => .pure ?_
  rw [fillPositions_of_placed fun t ht => (h t ht).placed, unparsables_eq]
  refine List.flatMap_eq_nil_iff.2 fun t ht => ?_
  obtain ⟨isLeaf, children⟩ := (h t ht).childless
  rw [unparsables_eq, isUnparsable_of_isLeaf isLeaf, children]
  rfl

end Segment

namespace Parser

open Segment

variable {p : Parser} {tokens : List Segment} {n : Nat}

theorem follows_marks (h : ∀ t ∈ tokens, IsPlainToken t) : Follows n tokens (Marks tokens) where
  tokens hts := .refl (fun t ht => h t (hts.subset ht)) fun t ht => hts.subset ht
  append := .append
  unparsable _ _ hts := meets_branch_marks rfl (by simp) (by simp) hts

/-- The tree of a file is marked, and its errors are read off it. -/
theorem meets_parse_marked (hgiven : ∀ id, ¬ p.dialect.tables.Gives "unparsable" id)
    (h : ∀ t ∈ tokens, IsPlainToken t) :
    Meets (n ≤ ·) (p.parse tokens) fun r =>
      Marked tokens r.tree ∧ r.errors = unparsableErrors r.tree := by
  have claims : (p.context tokens).Claims False False (p.lastCode tokens) (p.firstCode tokens)
      (p.rootMatch tokens) := claims_rootMatch False.elim False.elim
  have classed : (p.rootMatch tokens).Classed (·.type? ≠ some "unparsable") :=
    (MatchContext.classed_matchGrammar (c := p.context tokens)
      (Tables.classes_of_not_gives hgiven) (p.maxDepth + 1) [] (p.lastCode tokens)
      (p.firstCode tokens) p.dialect.root {} MatchContext.memoClassed_initial).1
  have follows : Follows n tokens (Marks tokens) := follows_marks h
  have file {ss ts : List Segment} (hss : Marks tokens ss ts) :
      Meets (n ≤ ·) (Segment.file ss) (Marked tokens) :=
    (meets_branch_marks rfl (by simp) (by simp) hss).mono fun s hs => hs.marked s (by simp)
  rw [parse_eq]
  refine .ite (fun _ => ?_) fun hcode => ?_
  · refine ((file (follows.tokens (List.Sublist.refl _))).and (meets_file_unparsables h)).bind
      fun tree ⟨marked, nothing⟩ => .pure ⟨marked, ?_⟩
    rw [unparsableErrors, marked.crawl_eq, nothing]
    rfl
  · have hfirst : p.firstCode tokens ≤ p.lastCode tokens := firstCode_le_lastCode
    have hlength : p.lastCode tokens ≤ tokens.length := lastCode_le
    have stop_le := claims.stop_le
    refine (meets_code_of (follows.sublist ((List.drop_sublist _ _).trans
      (List.take_sublist _ _))) claims.le_start claims.start_le_stop (by omega) (by omega)
      (isCodeAt_firstCode_of_ne hcode) fun _ => Match.meets_apply_standing Match.standing_marks claims.tidy classed
        (by rw [List.size_toArray]; omega) fun i j _ _ =>
          follows.tokens (by simpa using Match.tokensIn_sublist i j)).bind fun inner hinner => ?_
    have all := follows.append (follows.append
      (follows.tokens (List.take_sublist (p.firstCode tokens) tokens)) hinner)
      (follows.tokens (List.drop_sublist (p.lastCode tokens) tokens))
    exact (file all).bind fun tree marked => .pure ⟨marked, rfl⟩

/-! ## 5. Errors -/

variable (p tokens n) in
/-- Where no grammar gives the type of what is unparsable, every unparsable segment of a file wraps
one of its tokens. The errors are those of the unparsable segments, one for each, in the order of
the tree. -/
theorem parse_reports (hgiven : ∀ id, ¬ p.dialect.tables.Gives "unparsable" id)
    (htokens : ∀ t ∈ tokens, IsPlainToken t) :
    let r := ((p.parse tokens).run n).1
    (∀ s ∈ r.tree.unparsables, s.Wraps tokens) ∧
      List.Forall₂ Reports r.tree.unparsables r.errors := by
  obtain ⟨marked, errors⟩ := (meets_parse_marked hgiven htokens n (Nat.le_refl n)).1
  refine ⟨fun s hs => (marked.of_mem_unparsables s hs).2, ?_⟩
  rw [errors]
  exact marked.reports

/-- A keyword in round brackets and a keyword after them, both of which may be missing. -/
def groupBook : GrammarBook where
  root := "Root"
  definitions := [
    .grammar "Root" ((Grammar.seq [.ref "Group", .keyword "x"]).mode .greedy),
    .grammar "Group" ((Grammar.bracketed [.keyword "a"]).mode .greedy),
    .grammar "Start" (.string "(" "start_bracket"),
    .grammar "End" (.string ")" "end_bracket")]
  brackets := [⟨"round", "Start", "End", true⟩]

/-- Where both keywords are missing, what is unparsable in the brackets is inside something that is
unparsable itself, and each is reported. -/
theorem parse_reports_nested :
    let tokens := wordTokens 0 0 ["(", "b", ")"]
    let r := (((ofBook groupBook).parse tokens).run 3).1
    groupBook.compile = .ok (ofBook groupBook).dialect.tables ∧
      r.errors.map (·.source.start) = [0, 1] ∧
      (∀ s ∈ r.tree.unparsables, s.Wraps tokens) ∧
      List.Forall₂ Reports r.tree.unparsables r.errors := by
  have compiled : groupBook.compile.isOk = true := by decide +kernel
  have root : (ofBook groupBook).rootMatch (wordTokens 0 0 ["(", "b", ")"]) = _ :=
    MatchContext.run_unmemoized_of_sincere .empty (by decide +kernel)
  have given : ∀ id, ¬ (tablesOf groupBook).Gives "unparsable" id :=
    Tables.not_gives (by decide +kernel) (by decide +kernel)
  refine ⟨compile_eq_ofBook compiled, ?_, parse_reports (ofBook groupBook)
    (wordTokens 0 0 ["(", "b", ")"]) 3 given ?_⟩
  · rw [parse_eq, root]
    decide +kernel
  · intro t ht
    have ht : t ∈ [_, _, _] := ht
    simp only [List.mem_cons, List.not_mem_nil, or_false] at ht
    rcases ht with rfl | rfl | rfl <;> exact ⟨⟨rfl, rfl⟩, rfl, by decide⟩

end Parser

end QueryLint
