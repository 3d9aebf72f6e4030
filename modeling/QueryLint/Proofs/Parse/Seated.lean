import QueryLint.Proofs.Match.Apply
import QueryLint.Proofs.Parse.Whole
import QueryLint.Proofs.Segment.Listing
import QueryLint.Proofs.Segment.Seated
import QueryLint.Proofs.Template.Consistent
import QueryLint.Proofs.Token.Plain

/-!
QueryLint.Proofs.Parse.Seated — the tree of a file where its text stands.

Tokens that stand one after the other are followed by the segments that a match makes of them: these
too stand one after the other, from where the first token starts to where the last one stops. The
match must be tidy, with inner matches that claim different tokens.

The tokens of a file stand one after the other in its templated text, and every node over them keeps
to that, the markers in it included. So each segment of the tree knows where it is: its span is the
hull of its leaves, and its line and column are those where the span starts. For that nothing more
is asked of a dialect than that a closing bracket is one token.

That the leaves have no gaps between them is asked of the whole file. Parsing may lose the tokens
between the first code and the match of the file, and the first of these has text, so there is a gap
exactly if some are lost.

* `Segment.StandsFor` — segments that may stand in place of tokens.
* `Match.meets_apply_standsFor` — the segments of a tidy match stand for its tokens.
* `meets_lex_childless` — tokens have no segments inside.
* `TemplatedFile.IsRoot` — the root of a file, with or without gaps.
* `Parser.meets_parse_isRoot` — parsing makes one.
* `Segment.ExactAt` — an exact position.
* `Parser.parse_exact` — all positions are exact, and when there are no gaps.
-/

namespace QueryLint

namespace Segment

/-! ## 1. Segments of a match -/

variable {f : TemplatedFile} {n : Nat} {s u : Segment} {ss ts us vs : List Segment}

/-- Segments stand one after the other wherever some tokens do, and where there is a token one of
them has a position. -/
structure StandsFor (f : TemplatedFile) (ss ts : List Segment) : Prop where
  lined : ∀ a b, Lined f Eq a ts b → Lined f Eq a ss b
  placed : ts ≠ [] → ∃ s ∈ ss, s.position.isSome = true

namespace StandsFor

theorem refl (h : ∀ t ∈ ts, t.position.isSome = true) : StandsFor f ts ts where
  lined _ _ h := h
  placed hts := by
    obtain ⟨t, ts, rfl⟩ := List.exists_cons_of_ne_nil hts
    exact ⟨t, List.mem_cons_self .., h t (List.mem_cons_self ..)⟩

theorem append (h : StandsFor f ss ts) (h' : StandsFor f us vs) :
    StandsFor f (ss ++ us) (ts ++ vs) where
  lined a b hlined := by
    obtain ⟨d, hts, hvs⟩ := hlined.split
    exact (h.lined a d hts).append (h'.lined d b hvs)
  placed hts := by
    by_cases hnil : ts = []
    · obtain ⟨s, hs, hplaced⟩ := h'.placed (by simpa [hnil] using hts)
      exact ⟨s, List.mem_append_right _ hs, hplaced⟩
    · obtain ⟨s, hs, hplaced⟩ := h.placed hnil
      exact ⟨s, List.mem_append_left _ hs, hplaced⟩

/-- Segments in place of others, with a position wherever these have one. -/
theorem trans (h : StandsFor f ss ts) (hlined : ∀ a b, Lined f Eq a ss b → Lined f Eq a us b)
    (hplaced : ∀ s ∈ ss, s.position.isSome = true → ∃ u ∈ us, u.position.isSome = true) :
    StandsFor f us ts where
  lined a b hts := hlined a b (h.lined a b hts)
  placed hts := by
    obtain ⟨s, hs, hpos⟩ := h.placed hts
    exact hplaced s hs hpos

end StandsFor

/-- A node stands for the tokens that it is made of. -/
theorem meets_branch_standsFor {k : SegmentKind} (type : String) (hk : k.isLeaf = false)
    (h : StandsFor f ss ts) (hts : ts ≠ []) :
    Meets (n ≤ ·) (branch k type ss) fun s => StandsFor f [s] ts := by
  obtain ⟨c, hc⟩ := exists_cover?_fillPositions (h.placed hts)
  refine meets_freshId.bind fun id _ => .pure
    ⟨fun a b hlined => lined_branch type id hk (h.lined a b hlined) (h.placed hts),
      fun _ => ⟨_, List.mem_singleton.2 rfl, ?_⟩⟩
  rw [position, info, hc]
  rfl

/-- A marker without a position can stand anywhere. -/
theorem meets_marker_standsFor (k : MarkerKind) :
    Meets (n ≤ ·) (marker k none) fun s => StandsFor f [s] [] :=
  meets_freshId.bind fun _ _ => .pure
    ⟨fun _ _ h => .loose ⟨rfl, rfl, rfl⟩ h, fun h => absurd rfl h⟩

end Segment

namespace Match

open Segment

variable {f : TemplatedFile} {n : Nat} {tokens : Array Segment}

theorem additive_standsFor :
    Additive n fun a b ss => StandsFor f ss (tokensIn tokens a b) where
  nil a := by
    rw [tokensIn_of_le (Nat.le_refl a)]
    exact .refl (by simp)
  append hab hbd h h' := by
    rw [← tokensIn_append hab hbd]
    exact h.append h'
  point h b := by
    rw [tokensIn_of_le (Nat.le_refl _)] at h ⊢
    exact h
  marker k a := by
    rw [tokensIn_of_le (Nat.le_refl a)]
    exact meets_marker_standsFor k

/-- Tokens of another type stand where they stood. -/
theorem meets_retypeTokens_standsFor (type : String) (normalized : Option String)
    {ss ts : List Segment} (h : StandsFor f ss ts) :
    Meets (n ≤ ·) (ss.mapM (retypeToken type normalized)) fun us => StandsFor f us ts := by
  have each (ss : List Segment) :
      Meets (n ≤ ·) (ss.mapM (retypeToken type normalized)) fun us =>
        us.map (·.position) = ss.map (·.position) ∧
          ∀ a b, Lined f Eq a ss b → Lined f Eq a us b := by
    induction ss with
    | nil => exact .pure ⟨rfl, fun _ _ h => h⟩
    | cons s ss ih =>
      rw [List.mapM_cons]
      refine (meets_retypeToken type normalized s).bind fun u hu =>
        ih.bind fun us hus => .pure ?_
      have hposition : u.position = s.position := by
        rcases hu with rfl | ⟨-, -, hbare⟩
        · rfl
        · rw [← position_bare, hbare, position_bare]
      refine ⟨by rw [List.map_cons, List.map_cons, hposition, hus.1], fun a b hlined => ?_⟩
      cases hlined with
      | loose loose rest =>
        -- A marker is not made a token.
        rcases hu with rfl | ⟨-, hmarker, -⟩
        · exact .loose loose (hus.2 _ _ rest)
        · rw [loose.isMarker] at hmarker
          cases hmarker
      | seat seated position near rest =>
        refine .seat ?_ (hposition.trans position) near (hus.2 _ _ rest)
        rcases hu with rfl | ⟨hleaf, -, hbare⟩
        · exact seated
        · exact seated.of_bare hleaf hbare
  refine (each ss).mono fun us hus => h.trans hus.2 fun s hs hpos => ?_
  have member : s.position ∈ us.map (·.position) := by
    rw [hus.1]
    exact List.mem_map_of_mem hs
  obtain ⟨u, hu, hup⟩ := List.mem_map.1 member
  exact ⟨u, hu, by rwa [hup]⟩

/-- What a match puts its segments into stands for the same tokens. -/
theorem meets_build_standsFor {ss ts : List Segment} (h : StandsFor f ss ts) (hts : ts ≠ [])
    (c : Option MatchClass) : Meets (n ≤ ·) (build ss c) fun us => StandsFor f us ts :=
  meets_build_of (D := fun us => StandsFor f us ts) h
    (fun type normalized => meets_retypeTokens_standsFor type normalized h)
    (fun _ type hk => meets_branch_standsFor type hk h hts) c

/-- The segments of a tidy match whose inner matches claim different tokens stand for its
tokens. -/
theorem meets_apply_standsFor (hpos : ∀ t ∈ tokens.toList, t.position.isSome = true) {m : Match}
    (h : m.Tidy True) (hm : m.stop ≤ tokens.size) :
    Meets (n ≤ ·) (m.apply tokens) fun ss => StandsFor f ss (tokensIn tokens m.start m.stop) := by
  induction h with
  | @mk a b c is cs le inserts bounds children pairwise ih =>
    rw [start_mk, stop_mk]
    by_cases hab : a < b
    · exact meets_apply_of_parts additive_standsFor hab inserts ⟨bounds, children, pairwise⟩
        (fun m hm' => ih m hm' (Nat.le_trans (bounds m hm').2 hm))
        (fun i j _ _ _ _ => .refl fun t ht => hpos t ((tokensIn_sublist i j).subset ht))
        fun ss hss => meets_build_standsFor hss (tokensIn_ne_nil hab hm) c
    · rw [apply, if_pos (by omega), show a = b by omega]
      exact meets_newMarkers additive_standsFor b is

end Match

open Text Segment

variable {f : TemplatedFile} {n : Nat}

/-! ## 2. Tokens of a file -/

namespace Segment

/-- A token or a marker, without segments inside. -/
structure IsChildless (s : Segment) : Prop where
  isLeaf : s.isLeaf = true
  children : s.children = []

/-- Segments that the tokenizer lays out stand one after the other. -/
theorem Lined.of_laid {a b : Nat} {ts : List Segment} (h : Laid f a ts b)
    (hts : ∀ t ∈ ts, IsChildless t) : Lined f Eq a ts b := by
  induction h with
  | nil n => exact .nil n
  | cons seat _ ih =>
    obtain ⟨⟨isLeaf, children⟩, hts⟩ := List.forall_mem_cons.1 hts
    exact .seat (.leaf isLeaf children seat.sits) seat.position rfl (ih hts)

theorem IsChildless.withIndentation {s : Segment} (h : IsChildless s) (k : Int) :
    IsChildless (s.withIndentation k) := by
  unfold Segment.withIndentation
  split
  · exact ⟨rfl, rfl⟩
  · exact h

end Segment

theorem meets_segments_childless (x : Piece) :
    Meets (n ≤ ·) (x.segments f) fun ss => ∀ s ∈ ss, IsChildless s := by
  have marker (k : MarkerKind) (source : String) (block : SliceKind) (q : Option Position) :
      Meets (n ≤ ·) (Segment.templateMarker k source block q) IsChildless :=
    meets_freshId.bind fun _ _ => .pure ⟨rfl, rfl⟩
  cases x with
  | text start l =>
    exact (meets_freshId.bind fun _ _ => .pure ⟨rfl, rfl⟩ :
      Meets (n ≤ ·) (Segment.token _ _ _ _) IsChildless).bind fun s hs => .pure (by simpa using hs)
  | markup s =>
    show Meets (n ≤ ·) (f.markup s) _
    unfold TemplatedFile.markup
    refine (marker _ _ _ _).bind fun whole hwhole => ?_
    split
    · exact (marker _ _ _ _).bind fun x hx => .pure (by simp [hwhole, hx])
    · exact (marker _ _ _ _).bind fun x hx => .pure (by simp [hwhole, hx])
    · exact .pure (by simpa using hwhole)

theorem childless_indentBlocks {ss : List Segment} (h : ∀ s ∈ ss, IsChildless s) (b : Bool) :
    ∀ s ∈ indentBlocks ss b, IsChildless s := by
  cases b with
  | true => exact h
  | false =>
    intro s hs
    obtain ⟨t, ht, rfl⟩ := List.mem_map.1 hs
    split
    · exact (h t ht).withIndentation 0
    · exact h t ht

theorem indentBlocks_concat (ss : List Segment) {s : Segment} (h : s.isTemplateMarker = false)
    (b : Bool) : indentBlocks (ss ++ [s]) b = indentBlocks ss b ++ [s] := by
  cases b with
  | true => rfl
  | false => simp [indentBlocks, flattenBlocks, h]

/-- The tokens of a file have no segments inside, and the last of them is no code. -/
theorem meets_lex_childless (rules : List LexRule) (blocks : BlocksIndent) (f : TemplatedFile) :
    Meets (n ≤ ·) (lex rules blocks f) fun l => (∀ t ∈ l.segments, IsChildless t) ∧
      ∃ words last, l.segments = words ++ [last] ∧ last.isCode = false := by
  unfold lex
  refine (Meets.mapM _ fun x _ => meets_segments_childless x).bind fun woven hwoven =>
    (meets_freshId.bind fun _ _ => .pure ⟨⟨rfl, rfl⟩, rfl, isCode_of_isMarker rfl⟩ :
      Meets (n ≤ ·) f.endMarker fun s =>
        IsChildless s ∧ s.isTemplateMarker = false ∧ s.isCode = false).bind
      fun last hlast => .pure ⟨childless_indentBlocks (fun s hs => ?_) _, ?_⟩
  · rcases List.mem_append.1 hs with hs | hs
    · obtain ⟨ss, hss, hs⟩ := List.mem_flatten.1 hs
      exact hwoven ss hss s hs
    · rw [List.mem_singleton.1 hs]
      exact hlast.1
  · exact ⟨_, last, indentBlocks_concat _ hlast.2.1 _, hlast.2.2⟩

/-! ## 3. The tree of a file -/

theorem Parser.follows_standsFor {tokens : List Segment}
    (h : ∀ t ∈ tokens, t.position.isSome = true) :
    Follows n tokens (StandsFor f) where
  tokens hts := .refl fun t ht => h t (hts.subset ht)
  append := .append
  unparsable _ _ hts := meets_branch_standsFor _ rfl hts (by simp)

/-- The root of a file: a node over seated segments, each next to the one before it. -/
structure TemplatedFile.IsRoot (f : TemplatedFile) (next : Nat → Nat → Prop) (s : Segment) :
    Prop where
  isLeaf : s.isLeaf = false
  nonempty : s.children ≠ []
  position : s.position = Position.cover? (s.children.filterMap (·.position))
  row : Row next 0 s.children f.length
  inside : ∀ c ∈ s.children, Seated f c

namespace Parser

variable {p : Parser} {tokens : List Segment} {next : Nat → Nat → Prop}

theorem meets_file_isRoot (hnext : IsNext next) {cs : List Segment}
    (h : Lined f next 0 cs f.length) (hcs : ∃ s ∈ cs, s.position.isSome = true) :
    Meets (n ≤ ·) (Segment.file cs) fun s => f.IsRoot next s := by
  obtain ⟨row, all⟩ := row_fillPositions hnext h hcs
  exact meets_freshId.bind fun id _ => .pure
    ⟨rfl, fillPositions_ne_nil (by rintro rfl; simp at hcs), rfl, row, all⟩

variable (p) in
/-- The tree of a file is over seated segments. Next to each other are segments without a gap
between them, but for the gap that lost tokens leave. -/
theorem meets_parse_isRoot (hnext : IsNext next)
    (hgap : ∀ a b, a ≤ b → (p.resumed tokens = p.firstCode tokens → a = b) → next a b)
    {words : List Segment} {last : Segment} (htokens : tokens = words ++ [last])
    (hlast : last.isCode = false) (hlined : Lined f Eq 0 tokens f.length)
    (hpos : ∀ t ∈ tokens, t.position.isSome = true) (hb : (p.context tokens).ExactBrackets) :
    Meets (n ≤ ·) (p.parse tokens) fun r => f.IsRoot next r.tree := by
  have claims := claims_rootMatch (p := p) (fun _ : True => hb) False.elim
  have hfirst : p.firstCode tokens ≤ p.lastCode tokens := firstCode_le_lastCode
  have hle : p.firstCode tokens ≤ p.resumed tokens := firstCode_le_resumed
  have hresumed : p.resumed tokens ≤ p.lastCode tokens := resumed_le_lastCode
  have wider : ∀ a b, a = b → next a b := fun a b h => h ▸ hnext.refl a
  have lastPlaced : last.position.isSome = true := hpos last (by simp [htokens])
  rw [parse_eq]
  split
  · exact (meets_file_isRoot hnext (hlined.mono wider) ⟨last, by simp [htokens], lastPlaced⟩).bind
      fun s hs => .pure hs
  · next hcode =>
    have hlength : p.lastCode tokens ≤ tokens.length := lastCode_le
    have hlast' : p.lastCode tokens < tokens.length := lastCode_lt htokens hlast (by omega)
    have stop_le := claims.stop_le
    refine (meets_code_of (C := StandsFor f) ((follows_standsFor hpos).sublist
      ((List.drop_sublist _ _).trans (List.take_sublist _ _))) claims.le_start
      claims.start_le_stop (by omega) (by omega) (isCodeAt_firstCode_of_ne hcode) fun _ =>
        Match.meets_apply_standsFor (by simpa using hpos) claims.tidy
          (by simp only [List.size_toArray]; omega)).bind fun inner hinner => ?_
    rw [← resumed_of_code hcode] at hinner
    have after : StandsFor f (inner ++ tokens.drop (p.lastCode tokens))
        (tokens.drop (p.resumed tokens)) := by
      rw [← drop_append_drop]
      exact hinner.append (.refl fun t ht => hpos t ((List.drop_sublist _ _).subset ht))
    -- what is lost is between the tokens before the first code and those taken up from the match on
    obtain ⟨a, hbefore, hrest⟩ : ∃ a, Lined f Eq 0 (tokens.take (p.firstCode tokens)) a ∧
        Lined f Eq a (tokens.drop (p.firstCode tokens)) f.length :=
      Lined.split (by rwa [List.take_append_drop])
    obtain ⟨b, hlost, htaken⟩ : ∃ b,
        Lined f Eq a ((tokens.drop (p.firstCode tokens)).take
          (p.resumed tokens - p.firstCode tokens)) b ∧
        Lined f Eq b (tokens.drop (p.resumed tokens)) f.length := by
      have parts := List.take_append_drop (p.resumed tokens - p.firstCode tokens)
        (tokens.drop (p.firstCode tokens))
      rw [List.drop_drop, Nat.add_sub_cancel' hle] at parts
      exact Lined.split (by rwa [parts])
    have gap : next a b := by
      refine hgap a b (hlost.le isNext_eq) fun hall => ?_
      rw [hall, Nat.sub_self, List.take_zero] at hlost
      cases hlost
      rfl
    have nonempty : tokens.drop (p.resumed tokens) ≠ [] := by
      rw [Ne, List.drop_eq_nil_iff]
      omega
    have lined : Lined f next 0 (tokens.take (p.firstCode tokens) ++ inner ++
        tokens.drop (p.lastCode tokens)) f.length := by
      rw [List.append_assoc]
      exact (hbefore.mono wider).append
        ((after.lined _ _ htaken).next_of_eq hnext (after.placed nonempty) gap)
    obtain ⟨s, hs, hplaced⟩ := after.placed nonempty
    exact (meets_file_isRoot hnext lined ⟨s, by simp at hs ⊢; tauto, hplaced⟩).bind
      fun s hs => .pure hs

end Parser

/-! ## 4. Exact positions -/

/-- A segment has an exact position: the hull of its leaves, with the line and column of the
templated text where it starts, which are also those that the text before it leads to. -/
structure Segment.ExactAt (f : TemplatedFile) (p : Position) (s : Segment) : Prop where
  position : s.position = some p
  place : p.place = f.place p.templated.start
  working : p.working = f.place p.templated.start
  counted : ∃ before, slice? f.templated 0 p.templated.start = some before ∧
    f.place p.templated.start = Place.after ⟨1, 1⟩ before
  placed : ∀ x ∈ s.leaves, x.position.isSome = true
  hull : (Position.cover? (s.leaves.filterMap (·.position))).map (·.templated) = some p.templated

theorem TemplatedFile.exists_place_eq_after {f : TemplatedFile} {c : Nat}
    (h : (Span.point c).text? f.templated = some "") :
    ∃ before, slice? f.templated 0 c = some before ∧
      f.place c = Place.after ⟨1, 1⟩ before := by
  obtain ⟨front, back, htext, hfront, -⟩ := slice?_eq_some_iff.1 h
  have before : slice? f.templated 0 c = some (String.ofList front) := by
    refine slice?_eq_some_iff.2 ⟨[], back, by simpa using htext, rfl, ?_⟩
    rw [utf8ByteSize_ofList, hfront, Nat.zero_add]
    rfl
  exact ⟨_, before, f.place_eq_after before⟩

namespace Segment

variable {s u : Segment} {next : Nat → Nat → Prop}

/-- Seated segments have exact positions. -/
theorem Seated.exactAt (h : Seated f s) : ∃ p, ExactAt f p s := by
  obtain ⟨p, sits⟩ := h.sits
  obtain ⟨-, all, row⟩ := h.leaves
  obtain ⟨x, xs, q, hxs, first, hstart⟩ := h.first_leaf sits.position
  refine ⟨p, sits.position, sits.place, sits.working,
    f.exists_place_eq_after (text?_start sits.text), fun x hx => ?_, ?_⟩
  · obtain ⟨q, hq⟩ := (all x hx).sits
    rw [hq.position]
    rfl
  · have row := row p sits.position
    rw [hxs] at row ⊢
    obtain ⟨l, hl, hlstart, hlstop, -⟩ := row.cover? isNext_eq first.position
    rw [hl, Option.map_some, Span.eq_of_ends (hlstart.trans hstart) hlstop]

/-- Inside a seated segment all are. -/
theorem Seated.at? {path : List Nat} (h : Seated f s) (hu : s.at? path = some u) :
    Seated f u := by
  induction path generalizing s with
  | nil => exact Option.some.inj hu ▸ h
  | cons k path ih =>
    rw [at?_cons, Option.bind_eq_some_iff] at hu
    obtain ⟨c, hc, hu⟩ := hu
    exact ih (h.inside c (List.mem_of_getElem? hc)) hu

end Segment

namespace TemplatedFile.IsRoot

variable {s u : Segment} {next : Nat → Nat → Prop}

/-- The leaves of a root are in a row from the start of the text to its end. -/
theorem row_leaves (hnext : IsNext next) (h : f.IsRoot next s) :
    Row next 0 s.leaves f.length ∧ ∀ x ∈ s.leaves, Seated f x := by
  rw [leaves_of_not_isLeaf h.isLeaf]
  refine ⟨h.row.leavesAll hnext fun c hc => ⟨(h.inside c hc).leaves.1, (h.inside c hc).leaves.2.2⟩,
    fun x hx => ?_⟩
  obtain ⟨c, hc, hx⟩ := mem_leavesAll.1 hx
  exact (h.inside c hc).leaves.2.1 x hx

/-- In the tree of a root all segments have exact positions. -/
theorem exactAt (hnext : IsNext next) (h : f.IsRoot next s) {path : List Nat}
    (hu : s.at? path = some u) : ∃ p, ExactAt f p u := by
  cases path with
  | cons k path =>
    rw [at?_cons, Option.bind_eq_some_iff] at hu
    obtain ⟨c, hc, hu⟩ := hu
    exact ((h.inside c (List.mem_of_getElem? hc)).at? hu).exactAt
  | nil =>
    obtain rfl := Option.some.inj hu
    obtain ⟨p, hp, -, -, place, working, cut, hull⟩ :=
      cover?_of_row hnext h.row h.inside h.nonempty
    rw [← leaves_of_not_isLeaf h.isLeaf] at hull
    refine ⟨p, h.position.trans hp, place, working, f.exists_place_eq_after cut, fun x hx => ?_,
      hull⟩
    obtain ⟨q, sits⟩ := ((h.row_leaves hnext).2 x hx).sits
    rw [sits.position]
    rfl

/-- Without gaps between its leaves, it has all of the text. -/
theorem raw_eq (hnext : IsNext next) (h : f.IsRoot next s)
    (hrow : Row Eq 0 s.leaves f.length) : s.raw = f.templated := by
  have start : slice? f.templated 0 0 = some "" :=
    slice?_eq_some_iff.2 ⟨[], f.templated.toList, by simp, rfl, by simp⟩
  have text := slice?_append_row hrow (h.row_leaves hnext).2 start
  rw [TemplatedFile.length, TemplatedFile.slice?_whole, String.empty_append, rawAll_leaves] at text
  exact (Option.some.inj text).symm

end TemplatedFile.IsRoot

/-! ## 5. Files and their trees -/

theorem Segment.Tiles.raw_ne_empty {text : String} {a b : Nat} {ts : List Segment} {t : Segment}
    (h : Tiles text a ts b) (ht : t ∈ ts) : t.raw ≠ "" := by
  induction h with
  | nil n => cases ht
  | cons _ solid own _ ih =>
    rcases List.mem_cons.1 ht with rfl | ht
    · intro hraw
      rw [hraw] at own
      obtain ⟨front, back, -, -, hstop⟩ := slice?_eq_some_iff.1 own
      simp only [String.utf8ByteSize_empty] at hstop
      omega
    · exact ih ht

/-- Code of a file has text. -/
theorem raw_ne_empty_of_isCode {rules : List LexRule} {blocks : BlocksIndent} {t : Segment}
    (ht : t ∈ ((lex rules blocks f).run n).1.segments) (hcode : t.isCode = true) : t.raw ≠ "" := by
  refine (tiles_lex rules blocks f n).raw_ne_empty (List.mem_filter.2 ⟨ht, ?_⟩)
  cases hmarker : t.isMarker with
  | false => rfl
  | true =>
    rw [isCode_of_isMarker hmarker] at hcode
    cases hcode

/-- The points of a file that a templater makes lie between two characters. -/
theorem Templater.isSome_dropBytes?_points {t : Templater} {source name : String}
    (hfile : t.process source name = .ok f) :
    ∀ p ∈ f.points, (dropBytes? f.templated.toList p.templated.start).isSome := by
  cases t with
  | raw =>
    obtain rfl := Except.ok.inj hfile
    simp [TemplatedFile.points_ofString]
  | placeholder values =>
    obtain ⟨ms, bs, hrenders⟩ := Templater.exists_renders hfile
    exact fun p hp => hrenders.isSome_dropBytes? (List.mem_filter.1 hp).1

namespace Parser

variable {p : Parser} {book : GrammarBook} {lexed : Lexed} {m : Nat} {next : Nat → Nat → Prop}

/-- The tree of a file is over seated segments from the start of the text to its end. -/
theorem isRoot_parse (hbook : book.compile = .ok p.dialect.tables)
    (hclose : p.dialect.tables.ClosersTakeOneToken)
    (hpoints : ∀ p ∈ f.points, (dropBytes? f.templated.toList p.templated.start).isSome)
    (rules : List LexRule) (blocks : BlocksIndent)
    (hlex : (lex rules blocks f).run n = (lexed, m)) (hnext : IsNext next)
    (hgap : ∀ a b, a ≤ b → (p.resumed lexed.segments = p.firstCode lexed.segments → a = b) →
      next a b) :
    f.IsRoot next ((p.parse lexed.segments).run m).1.tree := by
  have laid := ((laid_lex rules blocks hpoints).of_run (Nat.le_refl n) hlex).1
  obtain ⟨childless, words, last, hwords, hlast⟩ :=
    ((meets_lex_childless rules blocks f).of_run (Nat.le_refl n) hlex).1
  have placed := ((meets_lex rules blocks f).of_run (Nat.le_refl n) hlex).1.placed
  have brackets := GrammarBook.exactBrackets_of_compile hbook hclose
    (rfl : (p.context lexed.segments).tables = p.dialect.tables)
  exact (meets_parse_isRoot p hnext hgap hwords hlast (.of_laid laid childless) placed brackets m
    (Nat.le_refl m)).1

/-- Without some of the tokens the text is shorter, if the first of these has text. -/
theorem rawAll_taken_ne {a b : Nat} {tokens : List Segment} {t : Segment}
    (ht : tokens[a]? = some t) (hraw : t.raw ≠ "") (hab : a < b) :
    rawAll (tokens.take a ++ tokens.drop b) ≠ rawAll tokens := by
  obtain ⟨ha, hta⟩ := List.getElem?_eq_some_iff.1 ht
  have rest := List.take_append_drop (b - (a + 1)) (tokens.drop (a + 1))
  rw [List.drop_drop, Nat.add_sub_cancel' hab] at rest
  have parts := List.take_append_drop a tokens
  rw [List.drop_eq_getElem_cons ha, hta, ← rest] at parts
  intro same
  have size := congrArg String.utf8ByteSize same
  conv_rhs at size => rw [← parts]
  simp only [rawAll_append, rawAll, String.utf8ByteSize_append] at size
  have : t.raw.utf8ByteSize ≠ 0 := by rwa [Ne, String.utf8ByteSize_eq_zero_iff]
  omega

/-- A tree with all of the text is of all tokens: the first one that is lost is code. -/
theorem resumed_eq_of_raw_eq (hbook : book.compile = .ok p.dialect.tables)
    (hclose : p.dialect.tables.ClosersTakeOneToken) (rules : List LexRule)
    (blocks : BlocksIndent) (hlex : (lex rules blocks f).run n = (lexed, m))
    (hraw : ((p.parse lexed.segments).run m).1.tree.raw = f.templated) :
    p.resumed lexed.segments = p.firstCode lexed.segments := by
  have tokens : ((lex rules blocks f).run n).1.segments = lexed.segments := by rw [hlex]
  have isLexed := isLexed_of_lex hlex
  have text := rawAll_of_lex hlex
  have brackets := GrammarBook.exactBrackets_of_compile hbook hclose
    (rfl : (p.context lexed.segments).tables = p.dialect.tables)
  have kept := (meets_parse p lexed.segments isLexed brackets m (Nat.le_refl m)).1.keepsTokens.raw
  have hle : p.firstCode lexed.segments ≤ p.resumed lexed.segments := firstCode_le_resumed
  have hlast : p.resumed lexed.segments ≤ p.lastCode lexed.segments := resumed_le_lastCode
  have hlength : p.lastCode lexed.segments ≤ lexed.segments.length := lastCode_le
  by_contra hne
  obtain ⟨t, ht, hcode⟩ : ∃ t, lexed.segments[p.firstCode lexed.segments]? = some t ∧
      t.isCode = true := by
    have first : (p.context lexed.segments).isCodeAt (p.firstCode lexed.segments) = true :=
      isCodeAt_firstCode (by omega)
    rw [isCodeAt_context] at first
    exact (Option.any_eq_true _ _).1 first
  have solid := raw_ne_empty_of_isCode (tokens.symm ▸ List.mem_of_getElem? ht) hcode
  refine rawAll_taken_ne ht solid (b := p.resumed lexed.segments) (by omega) ?_
  rw [← kept, hraw, text]

/-- In the tree of a file that a templater makes, every segment has an exact position, and the
leaves are in their order in the templated text. There are no gaps between them exactly if the match
of the file, where there is one, starts with the first code; where no greedy repetition needs two
parts it does. -/
theorem parse_exact (hbook : book.compile = .ok p.dialect.tables)
    (hclose : p.dialect.tables.ClosersTakeOneToken) {t : Templater} {source name : String}
    (hfile : t.process source name = .ok f) (rules : List LexRule) (blocks : BlocksIndent)
    (hlex : (lex rules blocks f).run n = (lexed, m)) {tree : Segment}
    (htree : ((p.parse lexed.segments).run m).1.tree = tree) :
    (∀ path s, tree.at? path = some s → ∃ q, ExactAt f q s) ∧
      Row (· ≤ ·) 0 tree.leaves f.length ∧
      (Row Eq 0 tree.leaves f.length ↔ ((p.rootMatch lexed.segments).isMatch = true →
        (p.rootMatch lexed.segments).start = p.firstCode lexed.segments)) ∧
      (p.dialect.tables.IsPrompt → Row Eq 0 tree.leaves f.length) := by
  subst htree
  have hpoints := Templater.isSome_dropBytes?_points hfile
  have root := isRoot_parse hbook hclose hpoints rules blocks hlex isNext_le fun a b hab _ => hab
  have gapless : p.resumed lexed.segments = p.firstCode lexed.segments →
      Row Eq 0 ((p.parse lexed.segments).run m).1.tree.leaves f.length := fun hall =>
    ((isRoot_parse hbook hclose hpoints rules blocks hlex isNext_eq
      fun a b _ hgap => hgap hall).row_leaves isNext_eq).1
  refine ⟨fun path s hs => root.exactAt isNext_le hs, (root.row_leaves isNext_le).1, ?_, ?_⟩
  · rw [← resumed_eq_firstCode_iff]
    exact ⟨fun hrow => resumed_eq_of_raw_eq hbook hclose rules blocks hlex
      (root.raw_eq isNext_le hrow), gapless⟩
  · exact fun hprompt => gapless (resumed_eq_firstCode_iff.2 fun _ => start_rootMatch hprompt)

/-- A template with a comment before a letter, and a letter for a variable. -/
def remarkSource : String := "\x7b# c #\x7da\x7b\x7b x \x7d\x7d"

/-- The file of the template. -/
def remarkFile : TemplatedFile := rendered [("x", "b")] remarkSource

/-- The tokens of the template: the marker of the comment, the letters and the end. -/
def remarkTokens : Lexed × Nat :=
  (lex [wordRule "a", wordRule "b"] .enabled remarkFile).run 0

/-- The tree of the template. -/
def remarkTree : Segment :=
  (((ofBook roundBook).parse remarkTokens.1.segments).run remarkTokens.2).1.tree

/-- The leaves of the template are without gaps, and its root and all else is where it stands. -/
theorem parse_exact_remark :
    roundBook.compile = .ok (ofBook roundBook).dialect.tables ∧
      (ofBook roundBook).dialect.tables.ClosersTakeOneToken ∧
      (Templater.placeholder [("x", "b")]).process remarkSource "" = .ok remarkFile ∧
      (∀ path s, remarkTree.at? path = some s → ∃ q, ExactAt remarkFile q s) ∧
      Row Eq 0 remarkTree.leaves remarkFile.length := by
  have compiled : roundBook.compile.isOk = true := by decide +kernel
  have terminal : (tablesOf roundBook).ClosersAreTerminal := by decide +kernel
  have file : (Templater.placeholder [("x", "b")]).process remarkSource "" = .ok remarkFile :=
    process_eq_rendered (by decide +kernel)
  have starts : ((ofBook roundBook).rootMatch remarkTokens.1.segments).start =
      (ofBook roundBook).firstCode remarkTokens.1.segments := by decide +kernel
  have closers := Tables.closersTakeOneToken_of_terminal terminal
  obtain ⟨exact_, -, gapless, -⟩ := parse_exact (p := ofBook roundBook)
    (compile_eq_ofBook compiled) closers file [wordRule "a", wordRule "b"] .enabled
    (rfl : _ = remarkTokens) (rfl : _ = remarkTree)
  exact ⟨compile_eq_ofBook compiled, closers, file, exact_, gapless.2 fun _ => starts⟩

/-- The tokens of two letters with blanks before and between them. -/
def spacedTokens : Lexed × Nat :=
  (lex [wordRule "a", wordRule "b", ⟨.ofLiteral " " " " "whitespace" .ofBlank, none, none⟩]
    .enabled (.ofString " a b")).run 0

/-- The tree of a grammar that loses tokens. -/
def spacedTree : Segment :=
  (((ofBook eagerBook).parse spacedTokens.1.segments).run spacedTokens.2).1.tree

/-- Where tokens are lost a leaf does not start where the one before it stops. -/
theorem parse_leaves_gap :
    eagerBook.compile = .ok (ofBook eagerBook).dialect.tables ∧
      (ofBook eagerBook).dialect.tables.ClosersTakeOneToken ∧
      Templater.raw.process " a b" "<string>" = .ok (.ofString " a b") ∧
      ¬ spacedTree.leaves.IsChain fun x y =>
        x.position.map (·.templated.stop) = y.position.map (·.templated.start) := by
  have compiled : eagerBook.compile.isOk = true := by decide +kernel
  have terminal : (tablesOf eagerBook).ClosersAreTerminal := by decide +kernel
  refine ⟨compile_eq_ofBook compiled, Tables.closersTakeOneToken_of_terminal terminal, rfl, ?_⟩
  decide +kernel

end Parser

end QueryLint
