import QueryLint.Proofs.Grammar.Trimmed
import QueryLint.Proofs.Parse.Drawn
import QueryLint.Proofs.Parse.Unparsable
import QueryLint.Proofs.Rule.Ordinary

/-!
QueryLint.Proofs.Parse.Ordinary — parsed trees are ordinary.

A grammar whose matches have code at their edges makes nodes that have it there: the segments of a
match stand for its tokens, and the first of these that stands for a token stands for the first one.
So it is either that token, or a node that holds it. No grammar gives a token a type of white space
or gives a node a type of tokens, and white space is given no other type. So what counts as white
space is a token that counted as that before.

* `SegmentInfo.IsLabelled` — what a segment of such a tree says of itself.
* `Segment.Orderly` — a segment that holds code from edge to edge, with all inside it.
* `Segment.AreWords` — tokens of which such a tree can be made.
* `Match.meets_apply_standIn` — what a trimmed match makes of them.
* `Parser.ordinary_parse` — their tree is ordinary.
-/

namespace QueryLint

open Segment

/-! ## 1. Segments that hold code from edge to edge -/

/-- What a segment says of itself: it counts as what it is, a token with the type of words is code
and has the text of one, and a token of white space has no line end in it. -/
structure SegmentInfo.IsLabelled (L : Labelling) (i : SegmentInfo) : Prop where
  frank : i.IsFrank
  word : ∀ text flags norm, i.kind = .token text flags norm →
    (∃ type ∈ L.words, i.classTypes.contains type = true) →
      flags = .ofCode ∧ L.isWord (Text.upper text) = true
  oneLine : i.classTypes.contains "whitespace" = true →
    ∀ text flags norm, i.kind = .token text flags norm → '\n' ∉ text.toList

/-- The types of tokens that rules look for are kept for tokens, and those of white space are given
to none. -/
structure Labelling.KeepsTypes (L : Labelling) : Prop where
  nodes : ∀ type ∈ ["whitespace", "newline", "comma"], L.nodes.contains type = true
  tokens : ∀ type ∈ ["whitespace", "newline"], L.tokens.contains type = true

namespace Segment

variable {L : Labelling} {n : Nat} {s t u : Segment} {ss ts us vs : List Segment}

/-- Nodes hold code, and they have it at their edges if they are neither unparsable nor files. -/
inductive Orderly (L : Labelling) : Segment → Prop where
  | mk {i : SegmentInfo} {cs : List Segment} (own : i.IsLabelled L)
      (leaf : i.kind.isLeaf = true → cs = [])
      (node : i.kind.isLeaf = false → (Segment.mk i cs).isCode = true)
      (row : (Segment.mk i cs).mayHaveLooseEnds = false → IsTight cs)
      (inside : ∀ c ∈ cs, Orderly L c) : Orderly L (.mk i cs)

namespace Orderly

theorem own (h : s.Orderly L) : s.info.IsLabelled L := by
  cases h with
  | mk own => exact own

theorem inside (h : s.Orderly L) : ∀ c ∈ s.children, c.Orderly L := by
  cases h with
  | mk _ _ _ _ inside => exact inside

theorem children_of_isLeaf (h : s.Orderly L) (hs : s.isLeaf = true) : s.children = [] := by
  cases h with
  | mk _ leaf => exact leaf hs

theorem isCode_of_not_isLeaf (h : s.Orderly L) (hs : s.isLeaf = false) : s.isCode = true := by
  cases h with
  | mk _ _ node => exact node hs

theorem frank (h : s.Orderly L) : Every SegmentInfo.IsFrank s := by
  induction h with
  | mk own _ _ _ _ ih => exact .mk own.frank ih

theorem tight (h : s.Orderly L) : Tight s := by
  induction h with
  | mk _ _ _ row _ ih => exact .mk row ih

theorem isTree (h : s.Orderly L) : s.isTree = true := by
  induction h with
  | mk _ leaf _ _ _ ih => exact isTree_iff.2 ⟨leaf, ih⟩

theorem of_mem_members (h : s.Orderly L) : ∀ t ∈ s.members, t.Orderly L :=
  forall_mem_members (fun _ h => h.inside) h

theorem withPosition (h : s.Orderly L) (p : Option Position) : (s.withPosition p).Orderly L := by
  cases h with
  | @mk i cs own leaf node row inside =>
    refine .mk ⟨?_, own.word, own.oneLine⟩ leaf (fun hleaf => ?_) row inside
    · exact (SegmentInfo.isPlaceless_isFrank i p).2 own.frank
    · have code := node hleaf
      rw [isCode] at code ⊢
      exact code

/-- Filling in positions leaves segments orderly. -/
theorem fillPositions (h : ∀ s ∈ ss, s.Orderly L) (before : Option Segment) :
    ∀ s ∈ fillPositions before ss, s.Orderly L := by
  induction ss generalizing before with
  | nil => exact h
  | cons s ss ih =>
    obtain ⟨hs, hrest⟩ := List.forall_mem_cons.1 h
    obtain ⟨placed, hfill, hplaced⟩ := fillPositions_cons before s ss
    rw [hfill]
    refine List.forall_mem_cons.2 ⟨?_, ih hrest (some placed)⟩
    rcases hplaced with rfl | ⟨-, p, rfl, -⟩
    · exact hs
    · exact hs.withPosition (some p)

end Orderly

/-! ## 2. Tokens -/

/-- Tokens of which an ordinary tree can be made, read from a file before the counter stands
at `n`. -/
structure AreWords (L : Labelling) (n : Nat) (ts : List Segment) : Prop extends IsLexed n ts where
  childless : ∀ t ∈ ts, t.children = []
  labelled : ∀ t ∈ ts, t.info.IsLabelled L
  code : ∀ t ∈ ts, t.isCode = true → ∃ text norm, t.kind = .token text .ofCode norm

namespace AreWords

theorem sublist (h : AreWords L n ts) (hs : us.Sublist ts) : AreWords L n us where
  toIsLexed := h.toIsLexed.sublist hs
  childless t ht := h.childless t (hs.subset ht)
  labelled t ht := h.labelled t (hs.subset ht)
  code t ht := h.code t (hs.subset ht)

theorem orderly (h : AreWords L n ts) (ht : t ∈ ts) : t.Orderly L := by
  have leaf := h.isLeaf t ht
  have children := h.childless t ht
  have own := h.labelled t ht
  obtain ⟨i, cs⟩ := t
  obtain rfl : cs = [] := children
  exact .mk own (fun _ => rfl) (fun hleaf => absurd (leaf.symm.trans hleaf) (by simp))
    (fun _ => isTight_nil) (by simp)

theorem drawnBefore (h : AreWords L n ts) : ∀ t ∈ ts, t.DrawnBefore n := by
  intro t ht
  refine .of_children (h.id_lt t ht) fun c hc => ?_
  rw [h.childless t ht] at hc
  cases hc

end AreWords

/-- Orderly segments in place of tokens: they carry them, and of their identities there are none but
those of the tokens and others that were drawn from `n` on. -/
structure StandIn (L : Labelling) (n : Nat) (ss ts : List Segment) : Prop where
  carries : Carries n ss ts
  orderly : ∀ s ∈ ss, s.Orderly L
  ids : ∀ i < n, (idsAll ss).count i ≤ (idsAll ts).count i

namespace StandIn

theorem append (h : StandIn L n ss ts) (h' : StandIn L n us vs) :
    StandIn L n (ss ++ us) (ts ++ vs) where
  carries := h.carries.append h'.carries
  orderly := List.forall_mem_append.2 ⟨h.orderly, h'.orderly⟩
  ids i hi := by
    rw [idsAll_append, idsAll_append, List.count_append, List.count_append]
    exact Nat.add_le_add (h.ids i hi) (h'.ids i hi)

theorem refl (h : AreWords L n ts) : StandIn L n ts ts where
  carries := h.toIsLexed.carries
  orderly _ ht := h.orderly ht
  ids _ _ := Nat.le_refl _

/-- Each token is a leaf of one of the segments. -/
theorem exists_leaf (h : StandIn L n ss ts) (ht : t ∈ ts) :
    ∃ s ∈ ss, ∃ x ∈ s.leaves, x.bare = t.bare := by
  have kept : t.bare ∈ keptLeaves n ss := by
    rw [h.carries.kept]
    exact List.mem_map_of_mem ht
  obtain ⟨x, hx, hbare⟩ := List.mem_map.1 kept
  obtain ⟨s, hs, hx⟩ := mem_leavesAll.1 (List.mem_filter.1 hx).1
  exact ⟨s, hs, x, hx, hbare⟩

end StandIn

/-- Tokens have code at both ends. -/
structure CodeAtEnds (ts : List Segment) : Prop where
  first : ∃ t, ts.head? = some t ∧ t.isCode = true
  last : ∃ t, ts.getLast? = some t ∧ t.isCode = true

theorem isCode_of_mem_keptLeaves {x : Segment} (hss : ∀ s ∈ ss, s.isCode = false)
    (hx : x ∈ keptLeaves n ss) : x.isCode = false := by
  obtain ⟨y, hy, rfl⟩ := List.mem_map.1 hx
  obtain ⟨s, hs, hy⟩ := mem_leavesAll.1 (List.mem_filter.1 hy).1
  rw [isCode_bare (isLeaf_of_mem_leaves s hy)]
  have none := hss s hs
  rw [isCode_eq_any, List.any_eq_false] at none
  simpa using none y hy

namespace StandIn

variable (h : StandIn L n ss ts) (hts : AreWords L n ts)

include h hts

/-- Segments in place of tokens with code at both ends have code at both ends. -/
theorem isTight (hends : CodeAtEnds ts) : IsTight ss := by
  rintro front s back rfl hcode hmarker
  have token : s.isLeaf = true := by
    by_contra hleaf
    have code := (h.orderly s (by simp)).isCode_of_not_isLeaf (by simpa using hleaf)
    rw [hcode] at code
    cases code
  have kept := h.carries.kept
  have here : keptLeaves n [s] = [s.bare] := by
    rw [keptLeaves_of_isLeaf token, isInserted, hmarker]
    rfl
  rw [keptLeaves_append, show s :: back = [s] ++ back from rfl, keptLeaves_append, here] at kept
  have plain : s.bare.isCode = false := by rw [isCode_bare token, hcode]
  have found (us : List Segment) (hus : us.all (!·.isCode) = true) {t x : Segment}
      (ht : t ∈ ts) (htcode : t.isCode = true) (hx : x ∈ keptLeaves n us ∨ x = s.bare)
      (heq : t.bare = x) : False := by
    have code : x.isCode = true := by rw [← heq, isCode_bare (hts.isLeaf t ht), htcode]
    rcases hx with hx | rfl
    · rw [isCode_of_mem_keptLeaves (by simpa using hus) hx] at code
      cases code
    · rw [plain] at code
      cases code
  constructor
  · by_contra hnone
    obtain ⟨t, ht, htcode⟩ := hends.first
    have first := congrArg List.head? kept
    rw [List.head?_map, ht, ← List.append_assoc, List.head?_append_of_ne_nil _ (by simp)] at first
    have member := List.mem_of_head? first
    rw [List.mem_append, List.mem_singleton] at member
    exact found front (by simpa using hnone) (List.mem_of_head? ht) htcode member rfl
  · by_contra hnone
    obtain ⟨t, ht, htcode⟩ := hends.last
    have last := congrArg List.getLast? kept
    rw [List.getLast?_map, ht, List.getLast?_append_of_ne_nil _ (by simp)] at last
    have member := List.mem_of_getLast? last
    rw [List.mem_append, List.mem_singleton] at member
    exact found back (by simpa using hnone) (List.mem_of_getLast? ht) htcode member.symm rfl

/-- Segments in place of code hold it. -/
theorem exists_code (ht : t ∈ ts) (hcode : t.isCode = true) : ∃ s ∈ ss, s.isCode = true := by
  obtain ⟨s, hs, x, hx, hbare⟩ := h.exists_leaf ht
  refine ⟨s, hs, ?_⟩
  rw [isCode_eq_any, List.any_eq_true]
  refine ⟨x, hx, ?_⟩
  rw [← isCode_bare (isLeaf_of_mem_leaves s hx), hbare, isCode_bare (hts.isLeaf t ht), hcode]

end StandIn

/-- A file whose segments are orderly and stand in place of tokens. -/
structure IsOrderlyFile (L : Labelling) (n : Nat) (ts : List Segment) (s : Segment) : Prop where
  kind : s.kind = .file
  own : s.info.IsLabelled L
  inside : ∀ c ∈ s.children, c.Orderly L
  carries : Carries n [s] ts
  ids : ∀ i < n, s.ids.count i ≤ (idsAll ts).count i

/-! ## 3. Making nodes -/

theorem isLabelled_branch {k : SegmentKind} {type : String} {i : Nat} {p : Option Position}
    (hk : k.isLeaf = false) (htype : type ∉ ["whitespace", "newline", "comma"]) :
    SegmentInfo.IsLabelled L ⟨k, type, [type], i, p, []⟩ := by
  simp only [List.mem_cons, List.not_mem_nil, or_false, not_or] at htype
  have token : ∀ text flags norm, k ≠ .token text flags norm := by
    rintro text flags norm rfl
    cases hk
  refine ⟨⟨fun h => ?_, fun h => ?_, fun text flags norm h => absurd h (token text flags norm)⟩,
    fun text flags norm h => absurd h (token text flags norm),
    fun _ text flags norm h => absurd h (token text flags norm)⟩
  · rcases h with h | h
    · exact absurd (by simpa using h : "whitespace" = type).symm htype.1
    · exact absurd (by simpa using h : "newline" = type).symm htype.2.1
  · exact absurd (by simpa using h : "comma" = type).symm htype.2.2

/-- A node over segments in place of tokens, of which one is code. -/
theorem meets_branch_standIn {k : SegmentKind} {type : String} (hk : k.isLeaf = false)
    (htype : type ∉ ["whitespace", "newline", "comma"]) (h : StandIn L n ss ts)
    (hcode : ∃ s ∈ ss, s.isCode = true)
    (hrow : k ≠ .file → (∀ expected, k ≠ .unparsable expected) → IsTight ss) :
    Meets (n ≤ ·) (branch k type ss) fun s => StandIn L n [s] ts := by
  have alike : Alike (fillPositions none ss) ss := map_unplaced_fillPositions none ss
  have whole : Meets (n ≤ ·) (branch k type ss) fun s => s.Orderly L ∧
      ∀ i < n, s.ids.count i ≤ (idsAll ss).count i := by
    intro m hm
    refine ⟨⟨.mk (isLabelled_branch hk htype) ?_ (fun _ => ?_) (fun hends => ?_)
      (Orderly.fillPositions h.orderly none), fun i hi => ?_⟩, Nat.le_succ_of_le hm⟩
    · intro hleaf
      rw [show k.isLeaf = true from hleaf] at hk
      cases hk
    · have code : ((fillPositions none ss).map unplaced).any (·.isCode) = true := by
        rw [alike, List.any_map, List.any_eq_true]
        simpa using hcode
      rw [List.any_map] at code
      rw [isCode]
      cases k with
      | token | marker => cases hk
      | node | bracketed | unparsable | file =>
        rw [anyCode_eq_any_isCode, ← code]
        exact congrArg _ (funext fun s => (isCode_unplaced s).symm)
    · refine alike.isTight_iff.2 (hrow ?_ ?_)
      · rintro rfl
        cases hends
      · rintro expected rfl
        cases hends
    · show ((m :: idsAll (fillPositions none ss)).count i) ≤ _
      rw [idsAll_fillPositions, List.count_cons_of_ne (by omega)]
  refine ((meets_branch type hk h.carries).and whole).mono fun s hs =>
    ⟨hs.1, List.forall_mem_singleton.2 hs.2.1, fun i hi => ?_⟩
  rw [idsAll_singleton]
  exact Nat.le_trans (hs.2.2 i hi) (h.ids i hi)

theorem isLabelled_marker (k : MarkerKind) (m : Marker) (i : Nat) (p : Option Position) :
    SegmentInfo.IsLabelled L ⟨.marker m, k.name, withOwnType k.name ["meta"], i, p, []⟩ := by
  have types : ∀ type ∈ ["whitespace", "newline", "comma"],
      (withOwnType k.name ["meta"]).contains type = false := by
    cases k <;> decide
  refine ⟨⟨fun h => ?_, fun h => ?_, nofun⟩, nofun, nofun⟩
  · rcases h with h | h
    · exact absurd (h.symm.trans (types _ (by simp))) (by decide)
    · exact absurd (h.symm.trans (types _ (by simp))) (by decide)
  · exact absurd (h.symm.trans (types _ (by simp))) (by decide)

/-- A marker in place of nothing. -/
theorem meets_marker_standIn (k : MarkerKind) :
    Meets (n ≤ ·) (marker k none) fun s => StandIn L n [s] [] := by
  have whole : Meets (n ≤ ·) (marker k none) fun s => s.Orderly L ∧ n ≤ s.id ∧ s.children = [] :=
    meets_freshId.bind fun id hid => .pure ⟨.mk (isLabelled_marker k _ id none) (fun _ => rfl)
      (fun hleaf => absurd hleaf (by simp [SegmentKind.isLeaf])) (fun _ => isTight_nil) (by simp),
      hid, rfl⟩
  refine ((meets_marker k none).and whole).mono fun s ⟨carries, orderly, fresh, children⟩ =>
    ⟨carries, List.forall_mem_singleton.2 orderly, fun i hi => ?_⟩
  rw [idsAll_singleton, ids_eq, children, idsAll, List.count_cons_of_ne (by omega)]

/-! ## 4. Tokens of another type -/

/-- What is the same but for what a grammar may change in a token has the same text and flags. -/
theorem exists_kind_of_bare {text : String} {flags : TokenFlags} {norm : Option String}
    (h : u.bare = s.bare) (hs : s.kind = .token text flags norm) :
    ∃ norm', u.kind = .token text flags norm' := by
  have plain : u.kind.plain = s.kind.plain := congrArg Segment.kind h
  rw [hs] at plain
  cases hu : u.kind with
  | token text' flags' norm' =>
    rw [hu] at plain
    cases plain
    exact ⟨norm', rfl⟩
  | marker | node | bracketed | unparsable | file => simp [hu, SegmentKind.plain] at plain

/-- A code token of another type, if the type may be given to it. -/
theorem isLabelled_retyped (hL : L.KeepsTypes) (h : s.info.IsLabelled L) {text : String}
    {norm : Option String} (hkind : s.kind = .token text .ofCode norm) (hbare : u.bare = s.bare)
    {type : String} (htypes : ∀ other, u.isType other = true → other = type ∨ s.isType other = true)
    (htoken : L.tokens.contains type = false)
    (hword : L.words.contains type = true → L.isWord (Text.upper text) = true) :
    u.info.IsLabelled L := by
  obtain ⟨norm', kind⟩ := exists_kind_of_bare hbare hkind
  have solid (other : String) (hother : other ∈ ["whitespace", "newline"]) :
      u.isType other = false := by
    by_contra hcounts
    rcases htypes other (by simpa using hcounts) with rfl | hs
    · rw [hL.tokens other hother] at htoken
      cases htoken
    · have blank : s.isType "whitespace" = true ∨ s.isType "newline" = true := by
        simp only [List.mem_cons, List.not_mem_nil, or_false] at hother
        rcases hother with rfl | rfl
        · exact .inl hs
        · exact .inr hs
      obtain ⟨text', norm', hblank⟩ := h.frank.blank blank
      cases hkind.symm.trans hblank
  refine ⟨⟨fun hcounts => ?_, fun _ => ⟨text, norm', kind⟩,
    fun text' flags norm hother hcode => ?_⟩,
    fun text' flags norm hother hcounts => ?_, fun hcounts => ?_⟩
  · rcases hcounts with hcounts | hcounts
    · exact absurd (hcounts.symm.trans (solid _ (by simp))) (by decide)
    · exact absurd (hcounts.symm.trans (solid _ (by simp))) (by decide)
  · cases kind.symm.trans hother
    rfl
  · cases kind.symm.trans hother
    obtain ⟨other, hwords, hcounts⟩ := hcounts
    rcases htypes other hcounts with rfl | hs
    · exact ⟨rfl, hword (List.contains_iff_mem.2 hwords)⟩
    · exact h.word text .ofCode _ hkind ⟨other, hwords, hs⟩
  · exact absurd (hcounts.symm.trans (solid _ (by simp))) (by decide)

/-- Segments in place of one code token, with another type for the token. -/
theorem meets_retypeTokens_standIn (hL : L.KeepsTypes) (hts : AreWords L n [t])
    (h : StandIn L n ss [t]) (hcode : t.isCode = true) {type : String}
    (htoken : L.tokens.contains type = false)
    (hword : L.words.contains type = true → L.isWord t.rawUpper = true)
    (normalized : Option String) :
    Meets (n ≤ ·) (ss.mapM (Match.retypeToken type normalized)) fun us => StandIn L n us [t] := by
  obtain ⟨text, norm, hkind⟩ := hts.code t (by simp) hcode
  have upper : t.rawUpper = Text.upper text := by
    obtain ⟨i, cs⟩ := t
    have kind : i.kind = .token text .ofCode norm := hkind
    rw [rawUpper, raw, kind]
  have each (s : Segment) (hs : s ∈ ss) :
      Meets (n ≤ ·) (Match.retypeToken type normalized s) (Orderly L) := by
    refine ((Match.meets_retypeToken type normalized s).and
      (Match.meets_retypeToken_isType type normalized s)).mono fun u hu => ?_
    have orderly := h.orderly s hs
    rcases hu with ⟨rfl | ⟨hleaf, hmarker, hbare⟩, htypes⟩
    · exact orderly
    -- it carries the token, so it is code as well
    have member : s.bare ∈ keptLeaves n ss := by
      refine List.mem_map_of_mem (List.mem_filter.2 ⟨mem_leavesAll.2 ⟨s, hs, ?_⟩, ?_⟩)
      · simp [leaves_of_isLeaf hleaf]
      · simp [isInserted, hmarker]
    rw [h.carries.kept, List.map_singleton, List.mem_singleton] at member
    obtain ⟨norm', kind⟩ := exists_kind_of_bare member hkind
    have own := isLabelled_retyped hL orderly.own kind hbare htypes htoken fun hwords =>
      upper ▸ hword hwords
    have leaf : u.isLeaf = true := by rw [← isLeaf_bare, hbare, isLeaf_bare, hleaf]
    have inside : u.children = [] :=
      (congrArg Segment.children hbare :).trans (orderly.children_of_isLeaf hleaf)
    obtain ⟨i, cs⟩ := u
    obtain rfl : cs = [] := inside
    exact .mk own (fun _ => rfl) (fun hnode => absurd (leaf.symm.trans hnode) (by simp))
      (fun _ => isTight_nil) (by simp)
  have ids : Meets (n ≤ ·) (ss.mapM (Match.retypeToken type normalized)) fun us =>
      ∀ i < n, (idsAll us).count i ≤ (idsAll ss).count i := by
    intro m hm
    obtain ⟨hle, recounted⟩ := Match.draws_retypeTokens_recounted ss type normalized m hm
    refine ⟨fun i hi => ?_, Nat.le_trans hm hle⟩
    have count := recounted i
    rwa [if_neg (by omega), Nat.add_zero] at count
  refine (((Match.meets_retypeTokens type normalized ss).and (.mapM ss each)).and ids).mono
    fun us hus => ⟨hus.1.1.carries h.carries, hus.1.2, fun i hi => ?_⟩
  exact Nat.le_trans (hus.2 i hi) (h.ids i hi)

end Segment

namespace Match

variable {L : Labelling} {n : Nat} {tokens : Array Segment} {c : MatchContext}

/-! ## 5. Segments of a match -/

theorem additive_standIn :
    Additive n fun a b ss => StandIn L n ss (tokensIn tokens a b) where
  nil a := by
    rw [tokensIn_of_le (Nat.le_refl a)]
    exact ⟨.nil n, by simp, fun _ _ => Nat.le_refl _⟩
  append hab hbd h h' := by
    rw [← tokensIn_append hab hbd]
    exact h.append h'
  point h b := by
    rw [tokensIn_of_le (Nat.le_refl _)] at h ⊢
    exact h
  marker k a := by
    rw [tokensIn_of_le (Nat.le_refl a)]
    exact meets_marker_standIn k

/-- The context of a match is of its tokens. -/
def Views (c : MatchContext) (tokens : Array Segment) : Prop :=
  ∀ k : Nat, c.tokens[k]? = (tokens[k]?).map TokenView.ofSegment

theorem Views.isCodeAt (h : Views c tokens) {k : Nat} (hk : c.isCodeAt k = true) :
    ∃ t, tokens[k]? = some t ∧ t.isCode = true := by
  rw [MatchContext.isCodeAt, h k, Option.any_map] at hk
  exact (Option.any_eq_true _ _).1 hk

theorem head?_tokensIn {a b : Nat} (hab : a < b) : (tokensIn tokens a b).head? = tokens[a]? := by
  rw [tokensIn, Array.toList_extract, List.head?_take, if_neg (by omega), List.head?_drop,
    Array.getElem?_toList]

theorem getLast?_tokensIn {a b : Nat} (hab : a < b) (hb : b ≤ tokens.size) :
    (tokensIn tokens a b).getLast? = tokens[b - 1]? := by
  rw [List.getLast?_eq_getElem?, length_tokensIn hb, tokensIn, Array.toList_extract,
    List.getElem?_take_of_lt (by omega), List.getElem?_drop, Array.getElem?_toList]
  congr 1
  omega

/-- The tokens of a trimmed match have code at both ends. -/
theorem Trimmed.codeAtEnds {G : MatchClass → Nat → Nat → Prop} {m : Match} (h : m.Trimmed c G)
    (hviews : Views c tokens) (hm : m.start < m.stop) :
    CodeAtEnds (tokensIn tokens m.start m.stop) := by
  obtain ⟨hfirst, hlast⟩ := h.edges hm
  obtain ⟨t, ht, htcode⟩ := hviews.isCodeAt hfirst
  obtain ⟨u, hu, hucode⟩ := hviews.isCodeAt hlast
  have size := (Array.getElem?_eq_some_iff.1 hu).1
  exact ⟨⟨t, (head?_tokensIn hm).trans ht, htcode⟩,
    u, (getLast?_tokensIn hm (by omega)).trans hu, hucode⟩

/-- What a match puts its segments into stands in place of the tokens as they do. -/
theorem meets_build_standIn (hL : L.KeepsTypes) (hviews : Views c tokens)
    (hts : AreWords L n tokens.toList) {ss : List Segment} {a b : Nat} (hab : a < b)
    (hends : CodeAtEnds (tokensIn tokens a b)) (h : StandIn L n ss (tokensIn tokens a b))
    {k : Option MatchClass} (hk : ∀ x, k = some x → L.Allows c x a b) :
    Meets (n ≤ ·) (build ss k) fun us => StandIn L n us (tokensIn tokens a b) := by
  have words := hts.sublist (tokensIn_sublist a b)
  obtain ⟨t, ht, htcode⟩ := hends.first
  have code := h.exists_code words (List.mem_of_head? ht) htcode
  have tight := h.isTight words hends
  have node (kind : SegmentKind) (type : String) (hkind : kind.isLeaf = false)
      (htype : type ∉ ["whitespace", "newline", "comma"]) :
      Meets (n ≤ ·) (do return [← branch kind type ss]) fun us =>
        StandIn L n us (tokensIn tokens a b) :=
    (meets_branch_standIn hkind htype h code fun _ _ => tight).bind fun s hs => .pure hs
  cases k with
  | none => exact .pure h
  | some x =>
    have allowed := hk x rfl
    cases x with
    | node type grammar =>
      refine .ite (fun _ => .pure h) fun _ => node (.node (some grammar)) type rfl fun hmem => ?_
      have kept := hL.nodes type hmem
      rw [show L.nodes.contains type = false from allowed] at kept
      cases kept
    | bracketed => exact node .bracketed "bracketed" rfl (by decide)
    | unparsable expected => exact node (.unparsable (some expected)) "unparsable" rfl (by decide)
    | token type normalized =>
      obtain ⟨rfl, htoken, hword⟩ := allowed
      rw [head?_tokensIn hab] at ht
      have one : tokensIn tokens a (a + 1) = [t] := by
        have size := (Array.getElem?_eq_some_iff.1 ht).1
        have width : (tokensIn tokens a (a + 1)).length = a + 1 - a := length_tokensIn (by omega)
        obtain ⟨x, hx⟩ := List.length_eq_one_iff.1 (width.trans (Nat.add_sub_cancel_left a 1))
        have first : (tokensIn tokens a (a + 1)).head? = tokens[a]? := head?_tokensIn hab
        rw [hx, ht, List.head?_cons, Option.some.injEq] at first
        rw [hx, first]
      rw [one] at h words ⊢
      refine meets_retypeTokens_standIn hL words h htcode htoken (fun hwords => ?_) normalized
      obtain ⟨v, hv, htext⟩ := hword hwords
      rw [hviews a, ht] at hv
      obtain rfl := Option.some.inj hv
      exact htext

/-- The segments of a trimmed match stand in place of its tokens. -/
theorem meets_apply_standIn (hL : L.KeepsTypes) (hviews : Views c tokens)
    (hts : AreWords L n tokens.toList) {m : Match} (h : m.Tidy True)
    (htrimmed : m.Trimmed c (L.Allows c)) :
    Meets (n ≤ ·) (m.apply tokens) fun ss =>
      StandIn L n ss (tokensIn tokens m.start m.stop) := by
  induction h with
  | @mk a b k is cs le inserts bounds children pairwise ih =>
    rw [start_mk, stop_mk]
    by_cases hab : a < b
    · exact meets_apply_of_parts additive_standIn hab inserts ⟨bounds, children, pairwise⟩
        (fun m hm => ih m hm (htrimmed.children m hm))
        (fun i j _ _ _ _ => .refl (hts.sublist (tokensIn_sublist i j)))
        fun ss hss => meets_build_standIn hL hviews hts hab (htrimmed.codeAtEnds hviews hab) hss
          htrimmed.own
    · rw [apply, if_pos (by omega), show a = b by omega]
      exact meets_newMarkers additive_standIn b is

end Match

namespace Parser

/-! ## 6. The tree of a file -/

variable {L : Labelling} {n : Nat} {p : Parser} {tokens : List Segment}

theorem follows_standIn (h : AreWords L n tokens) : Follows n tokens (StandIn L n) where
  tokens hts := .refl (h.sublist hts)
  append := .append
  unparsable expected hcode hts := by
    refine meets_branch_standIn rfl (by decide) hts ⟨_, List.mem_cons_self .., hcode⟩ ?_
    exact fun _ hnot => absurd rfl (hnot expected)

theorem views_context : Match.Views (p.context tokens) tokens.toArray := by
  intro k
  simp [context, MatchContext.ofSegments]

variable (p) in
/-- The tree of a file stands in place of the tokens that parsing takes up, and everything in it but
the file itself holds code from edge to edge. -/
theorem meets_parse_standIn (hL : L.KeepsTypes) (h : AreWords L n tokens)
    (hb : (p.context tokens).ExactBrackets)
    (htrimmed : p.firstCode tokens ≠ p.lastCode tokens →
      (p.rootMatch tokens).Trimmed (p.context tokens) (L.Allows (p.context tokens))) :
    Meets (n ≤ ·) (p.parse tokens) fun r => r.tree.IsOrderlyFile L n (p.taken tokens) := by
  have claims := claims_rootMatch (p := p) (fun _ : True => hb) False.elim
  refine meets_parse_of p tokens (D := fun s => s.IsOrderlyFile L n (p.taken tokens))
    (follows_standIn h) (fun hcode _ =>
      Match.meets_apply_standIn hL views_context (by simpa using h) claims.tidy (htrimmed hcode))
    fun ss hss => ?_
  have whole : Meets (n ≤ ·) (Segment.file ss) fun s => s.kind = .file ∧ s.info.IsLabelled L ∧
      (∀ c ∈ s.children, c.Orderly L) ∧
      ∀ i < n, s.ids.count i ≤ (idsAll (p.taken tokens)).count i := by
    intro m hm
    refine ⟨⟨rfl, isLabelled_branch rfl (by decide), Orderly.fillPositions hss.orderly none,
      fun i hi => ?_⟩, Nat.le_succ_of_le hm⟩
    show ((m :: idsAll (fillPositions none ss)).count i) ≤ _
    rw [idsAll_fillPositions, List.count_cons_of_ne (by omega)]
    exact hss.ids i hi
  exact ((meets_branch _ rfl hss.carries).and whole).mono
    fun s ⟨carries, kind, own, inside, ids⟩ => ⟨kind, own, inside, carries, ids⟩

end Parser

namespace Segment

variable {L : Labelling} {n : Nat} {s t tree : Segment} {tokens : List Segment}

/-- White space in one line. -/
def IsSpace (s : Segment) : Prop := s.isBlank = true ∧ '\n' ∉ s.raw.toList

/-- Tokens of which an ordinary tree is made: they are told apart by their identities, they stand in
the source as they are, and white space is never followed by more of it. -/
structure AreOrdinary (L : Labelling) (n : Nat) (ts : List Segment) : Prop
    extends AreWords L n ts where
  ids : (ts.map (·.id)).Nodup
  literal : ∀ t ∈ ts, t.position.any (·.isLiteral) = true
  spaces : (ts.filter (!·.isMarker)).IsChain fun x y => x.IsSpace → ¬ y.IsSpace

theorem isSpace_bare (h : s.isLeaf = true) : s.bare.IsSpace ↔ s.IsSpace := by
  have blank : s.bare.isBlank = s.isBlank := by
    obtain ⟨⟨kind, type, types, id, position, fixes⟩, cs⟩ := s
    cases kind with
    | token | marker => rfl
    | node | bracketed | unparsable | file => cases h
  rw [IsSpace, IsSpace, raw_bare, blank]

/-- What counts as white space is white space. -/
theorem isSpace_of_isType (h : s.info.IsLabelled L) (hs : s.isType "whitespace" = true) :
    s.IsSpace := by
  obtain ⟨-, -, -, blank, -⟩ := h.frank.of_blank (.inl hs)
  obtain ⟨text, norm, hkind⟩ := h.frank.blank (.inl hs)
  refine ⟨blank, ?_⟩
  have line := h.oneLine hs text .ofBlank norm hkind
  obtain ⟨i, cs⟩ := s
  have kind : i.kind = .token text .ofBlank norm := hkind
  rwa [raw, kind]

namespace IsOrderlyFile

variable (h : tree.IsOrderlyFile L n tokens)

include h

theorem isLeaf_eq : tree.isLeaf = false := by
  simp [isLeaf, h.kind, SegmentKind.isLeaf]

theorem orderly_of_mem {x : Segment} (hx : x ∈ membersAll tree.children) : x.Orderly L := by
  obtain ⟨c, hc, hx⟩ := mem_membersAll.1 hx
  exact (h.inside c hc).of_mem_members x hx

theorem orderly_of_mem_leaves {x : Segment} (hx : x ∈ tree.leaves) : x.Orderly L := by
  rw [leaves_of_not_isLeaf h.isLeaf_eq] at hx
  exact h.orderly_of_mem ((leavesAll_sublist_membersAll _).subset hx)

/-- Without markers, the leaves are the tokens but for what grammars may change in these. -/
theorem map_bare_leaves : (tree.leaves.filter (!·.isMarker)).map bare =
    (tokens.filter (!·.isMarker)).map bare := by
  have kept := congrArg (List.filter (!·.isMarker)) h.carries.keepsTokens.leaves
  have same : (fun s : Segment => !s.isMarker) ∘ bare = fun s => !s.isMarker := by
    funext s
    simp
  rw [List.filter_map, List.filter_map, same, List.filter_filter] at kept
  rw [← kept]
  congr 2
  funext s
  cases hs : s.isMarker <;> simp [isInserted, hs]

/-- A leaf that is no marker is one of the tokens but for what grammars may change in these. -/
theorem exists_token {x : Segment} (hx : x ∈ tree.leaves) (hmarker : x.isMarker = false) :
    ∃ t ∈ tokens, t.bare = x.bare := by
  have member : x.bare ∈ (tree.leaves.filter (!·.isMarker)).map bare :=
    List.mem_map_of_mem (List.mem_filter.2 ⟨hx, by simp [hmarker]⟩)
  rw [h.map_bare_leaves] at member
  obtain ⟨t, ht, hbare⟩ := List.mem_map.1 member
  exact ⟨t, (List.mem_filter.1 ht).1, hbare⟩

/-- The tree of ordinary tokens is ordinary. -/
theorem ordinary (hts : AreOrdinary L n tokens) {m : Nat} (hdrawn : tree.DrawnBefore m)
    (hminted : Minted n n m tree.ids) : Ordinary m tree where
  isFile := by simp [Segment.isFile, h.kind]
  isTree := isTree_iff.2 ⟨fun hleaf => absurd (hleaf.symm.trans h.isLeaf_eq) (by simp),
    fun c hc => (h.inside c hc).isTree⟩
  ids := by
    refine List.nodup_iff_count_le_one.2 fun i => ?_
    by_cases hi : i < n
    · have count := h.ids i hi
      have tokenIds : idsAll tokens = tokens.map (·.id) := by
        rw [idsAll_eq_flatMap, List.map_eq_flatMap]
        refine List.flatMap_congr fun t ht => ?_
        rw [ids_eq, hts.childless t ht, idsAll]
      rw [tokenIds] at count
      exact Nat.le_trans count (List.nodup_iff_count_le_one.1 hts.ids i)
    · have count := hminted i (by omega)
      split at count <;> omega
  before k hk := by
    have drawn : ∀ s ∈ [tree], s.DrawnBefore m := by simpa using hdrawn
    exact lt_of_drawnBefore drawn k (by rwa [idsAll_singleton])
  tight := .of_children (fun hends => by simp [mayHaveLooseEnds, Segment.isFile, h.kind] at hends)
    fun c hc => (h.inside c hc).tight
  frank := .of_children h.own.frank fun c hc => (h.inside c hc).frank
  nodes c hc := (h.orderly_of_mem hc).isCode_of_not_isLeaf
  literal x hx hmarker := by
    obtain ⟨t, ht, hbare⟩ := h.exists_token hx hmarker
    rw [← position_bare, ← hbare, position_bare]
    exact hts.literal t ht
  blanks := by
    have leaves (x : Segment) (hx : x ∈ tree.leaves.filter (!·.isMarker)) :
        x.isLeaf = true ∧ x.Orderly L :=
      have member := (List.mem_filter.1 hx).1
      ⟨isLeaf_of_mem_leaves tree member, h.orderly_of_mem_leaves member⟩
    have spaces : ((tokens.filter (!·.isMarker)).map bare).IsChain
        fun x y => x.IsSpace → ¬ y.IsSpace := by
      rw [List.isChain_map]
      refine hts.spaces.imp_of_mem_imp fun x y hx hy hxy => ?_
      rw [isSpace_bare (hts.isLeaf x (List.mem_filter.1 hx).1),
        isSpace_bare (hts.isLeaf y (List.mem_filter.1 hy).1)]
      exact hxy
    rw [← h.map_bare_leaves, List.isChain_map] at spaces
    refine spaces.imp_of_mem_imp fun x y hx hy hxy hspace => ?_
    rw [isSpace_bare (leaves x hx).1, isSpace_bare (leaves y hy).1] at hxy
    by_contra hnext
    exact hxy (isSpace_of_isType (leaves x hx).2.own hspace)
      (isSpace_of_isType (leaves y hy).2.own (by simpa using hnext))

end IsOrderlyFile

end Segment

namespace Parser

variable {L : Labelling} {n : Nat} {p : Parser} {tokens : List Segment}

/-- Where there is code, the match of a file has it at its edges. -/
theorem trimmed_rootMatch {P S : GrammarId → Prop} {G : MatchClass → Nat → Nat → Prop}
    (hP : (p.context tokens).TrimGrammars P S G) (hroot : P p.dialect.root)
    (hcode : p.firstCode tokens ≠ p.lastCode tokens) :
    (p.rootMatch tokens).Trimmed (p.context tokens) G := by
  have hlt : p.firstCode tokens < p.lastCode tokens :=
    Nat.lt_of_le_of_ne firstCode_le_lastCode hcode
  have asked : (p.context tokens).Asked S (p.lastCode tokens) (p.firstCode tokens)
      p.dialect.root :=
    ⟨hlt, MatchContext.isCodeAt_of_lt_trimToCode hlt, .inl (isCodeAt_firstCode_of_ne hcode)⟩
  exact ((MatchContext.trimmed_matchGrammar hP (p.maxDepth + 1)).2 [] (p.lastCode tokens)
    (p.firstCode tokens) p.dialect.root hroot asked {} .initial).1.trimmed

/-- With a book whose grammars match from code to code, the tree of ordinary tokens is ordinary, and
its leaves have what the book says of them. -/
theorem ordinary_parse {b : GrammarBook} (hwhole : b.isWhole = true)
    (hb : b.weight < GrammarId.absent) (hfit : b.definitions.all (·.body.limitsFit) = true)
    (htrim : b.isTrimmed L = true) (hbook : b.compile = .ok p.dialect.tables)
    (hprompt : p.dialect.tables.IsPrompt) (hclose : p.dialect.tables.ClosersTakeOneToken)
    (hL : L.KeepsTypes) (hts : AreOrdinary L n tokens)
    (hcodes : ∀ t ∈ tokens, ∀ type, L.codes.contains type = true → t.isType type = true →
      t.isCode = true) :
    Ordinary ((p.parse tokens).run n).2 ((p.parse tokens).run n).1.tree ∧
      ((p.parse tokens).run n).1.tree.IsOrderlyFile L n tokens := by
  have brackets := GrammarBook.exactBrackets_of_compile hbook hclose
    (rfl : (p.context tokens).tables = p.dialect.tables)
  have grammars : (p.context tokens).TrimGrammars (p.dialect.tables.ReadsTrimmed b L)
      (p.dialect.tables.ReadsSolid b L) (L.Allows (p.context tokens)) := by
    refine GrammarBook.trimGrammars_of_compile hwhole hb hfit htrim hbook rfl
      fun k v hv type hcode htype => ?_
    have view : (tokens[k]?).map TokenView.ofSegment = some v := by
      rw [← hv, views_context k]
      simp
    obtain ⟨t, ht, rfl⟩ := Option.map_eq_some_iff.1 view
    exact hcodes t (List.mem_of_getElem? ht) type hcode htype
  have root := GrammarBook.readsTrimmed_root hwhole hb hfit htrim hbook
  have taken : p.taken tokens = tokens := by
    have start : p.resumed tokens = p.firstCode tokens :=
      resumed_eq_firstCode_iff.2 fun _ => start_rootMatch hprompt
    rw [Parser.taken, start, List.take_append_drop]
  have file := (meets_parse_standIn p hL hts.toAreWords brackets (trimmed_rootMatch grammars root)
    n (Nat.le_refl n)).1
  rw [taken] at file
  have drawn := (draws_parse p hts.drawnBefore n (Nat.le_refl n)).2
  have minted := (mints_parse p hts.drawnBefore n (Nat.le_refl n)).2
  exact ⟨file.ordinary hts drawn minted, file⟩

end Parser

end QueryLint
