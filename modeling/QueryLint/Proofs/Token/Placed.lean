import QueryLint.Proofs.Match.Apply
import QueryLint.Proofs.Template.Rendered
import QueryLint.Proofs.Text.Bytes
import QueryLint.Token.Stream

/-!
QueryLint.Proofs.Token.Placed — tokens know where they lie.

Every token of a file is made with its position, and so is every marker of markup. None of them
carries a source fix. A token lies at its piece of the templated text, and a marker at its point,
so that all lie within the text.

* `Piece.LiesIn` — a piece makes segments in a region.
* `meets_lex_placedIn` — the tokens of a file lie in a region if its pieces do.
* `meets_lex` — the tokens of a file have positions and no source fixes.
* `meets_lex_within` — the tokens of a file end where the text does, or before.
-/

namespace QueryLint

open Text Segment

variable {n : Nat} {R : Position → Prop} {f : TemplatedFile}

/-! ## 1. Segments of pieces -/

/-- A segment that is made with a position. -/
theorem placedIn_single {i : SegmentInfo} {p : Position} (hfixes : i.sourceFixes = [])
    (hplaced : i.position = some p) (hp : R p) : Match.PlacedIn R [Segment.mk i []] where
  allIn := by
    refine .single (.mk ⟨hfixes, fun q hq => ?_⟩ (by simp))
    rw [hplaced, Option.some.injEq] at hq
    exact hq ▸ hp
  placed t ht := by
    rw [List.mem_singleton.1 ht]
    exact Option.isSome_iff_exists.2 ⟨p, hplaced⟩

theorem Match.PlacedIn.append {ts us : List Segment}
    (h : Match.PlacedIn R ts) (h' : Match.PlacedIn R us) : Match.PlacedIn R (ts ++ us) :=
  ⟨h.allIn.append h'.allIn, fun t ht => (List.mem_append.1 ht).elim (h.placed t) (h'.placed t)⟩

/-- A piece makes segments in a region. -/
def Piece.LiesIn (R : Position → Prop) (f : TemplatedFile) : Piece → Prop
  | text start l => R (f.tokenPosition (span start l))
  | markup s => ∀ source, R (.ofSpans source (.point s.templated.start)
      (f.place s.templated.start) false)

theorem meets_templateMarker (k : MarkerKind) (source : String) (block : SliceKind)
    {p : Position} (hp : R p) : Meets (n ≤ ·) (Segment.templateMarker k source block (some p))
      fun s => Match.PlacedIn R [s] :=
  meets_freshId.bind fun _ _ => .pure (placedIn_single rfl rfl hp)

/-- The markers of markup lie at its point. -/
theorem meets_markup {s : RenderedSlice} (h : (Piece.markup s).LiesIn R f) :
    Meets (n ≤ ·) (f.markup s) fun ss => Match.PlacedIn R ss := by
  unfold TemplatedFile.markup
  refine (meets_templateMarker _ _ _ (h _)).bind fun whole hwhole => ?_
  split
  · exact (meets_templateMarker _ _ _ (h _)).bind fun x hx => .pure (hwhole.append hx)
  · exact (meets_templateMarker _ _ _ (h _)).bind fun x hx => .pure (hx.append hwhole)
  · exact .pure hwhole

theorem meets_segments {x : Piece} (h : x.LiesIn R f) :
    Meets (n ≤ ·) (x.segments f) fun ss => Match.PlacedIn R ss := by
  cases x with
  | markup s => exact meets_markup h
  | text start l =>
    exact (meets_freshId.bind fun _ _ => .pure (placedIn_single rfl rfl h) :
      Meets (n ≤ ·) (Segment.token _ _ _ _) fun s => Match.PlacedIn R [s]).bind
        fun s hs => .pure hs

/-! ## 2. Tokens of files -/

theorem placedIn_flatten {ss : List (List Segment)}
    (h : ∀ s ∈ ss, Match.PlacedIn R s) : Match.PlacedIn R ss.flatten := by
  refine ⟨fun t ht => ?_, fun t ht => ?_⟩
  · obtain ⟨s, hs, ht⟩ := List.mem_flatten.1 ht
    exact (h s hs).allIn t ht
  · obtain ⟨s, hs, ht⟩ := List.mem_flatten.1 ht
    exact (h s hs).placed t ht

/-- Markers that do not indent lie where they lay. -/
theorem placedIn_indentBlocks {ss : List Segment}
    (h : Match.PlacedIn R ss) (b : Bool) : Match.PlacedIn R (indentBlocks ss b) := by
  cases b with
  | true => exact h
  | false =>
    have same (s : Segment) (hs : s ∈ ss) : Every (Segment.LiesIn R) (s.withIndentation 0) ∧
        (s.withIndentation 0).position.isSome = true := by
      unfold withIndentation
      split
      · exact ⟨.mk (h.allIn s hs).own (by simp), h.placed s hs⟩
      · exact ⟨h.allIn s hs, h.placed s hs⟩
    refine ⟨fun t ht => ?_, fun t ht => ?_⟩
    all_goals
      obtain ⟨s, hs, rfl⟩ := List.mem_map.1 ht
      split
    · exact (same s hs).1
    · exact h.allIn s hs
    · exact (same s hs).2
    · exact h.placed s hs

/-- The tokens of a file lie in a region if its pieces and its end do, and there are some. -/
theorem meets_lex_placedIn {rules : List LexRule} (blocks : BlocksIndent)
    (hpieces : ∀ x ∈ f.pieces rules, x.LiesIn R f)
    (hend : R (.ofPoints f.source.utf8ByteSize f.length (f.place f.length) true)) :
    Meets (n ≤ ·) (lex rules blocks f) fun l =>
      Match.PlacedIn R l.segments ∧ l.segments ≠ [] := by
  unfold lex
  refine (Meets.mapM _ fun x hx => meets_segments (hpieces x hx)).bind fun woven hwoven =>
    (meets_freshId.bind fun _ _ => .pure (placedIn_single rfl rfl hend) :
      Meets (n ≤ ·) f.endMarker fun s => Match.PlacedIn R [s]).bind
      fun last hlast => .pure ⟨?_, ?_⟩
  · exact placedIn_indentBlocks ((placedIn_flatten hwoven).append hlast) _
  · dsimp only
    generalize blocks.holds _ = b
    cases b <;> simp [indentBlocks, flattenBlocks]

/-- The tokens of a file have positions and no source fixes. -/
theorem meets_lex (rules : List LexRule) (blocks : BlocksIndent) (f : TemplatedFile) :
    Meets (n ≤ ·) (lex rules blocks f) fun l => Match.PlacedIn (fun _ => True) l.segments :=
  (meets_lex_placedIn blocks (fun x _ => by cases x <;> simp [Piece.LiesIn]) trivial).mono
    fun _ h => h.1

/-! ## 3. Tokens within the text -/

theorem templated_tokenPosition (f : TemplatedFile) (s : Span) :
    (f.tokenPosition s).templated = s := by
  unfold TemplatedFile.tokenPosition
  dsimp only
  split <;> rfl

/-- A piece between two offsets of the text. -/
def Piece.Within (start stop : Nat) (points : List RenderedSlice) : Piece → Prop
  | text a l => start ≤ a ∧ a + byteCount l.text ≤ stop
  | markup s => s ∈ points

theorem Piece.Within.mono {start stop start' stop' : Nat} {points points' : List RenderedSlice}
    {x : Piece} (h : x.Within start stop points) (hstart : start' ≤ start) (hstop : stop ≤ stop')
    (hpoints : ∀ s ∈ points, s ∈ points') : x.Within start' stop' points' := by
  cases x with
  | text a l => exact ⟨Nat.le_trans hstart h.1, Nat.le_trans h.2 hstop⟩
  | markup s => exact hpoints s h

theorem within_ofLexeme (start : Nat) (l : Lexeme) (points : List RenderedSlice) :
    ∀ x ∈ Piece.ofLexeme start l, x.Within start (start + byteCount l.text) points := by
  intro x hx
  unfold Piece.ofLexeme at hx
  split at hx
  · cases hx
  · rw [List.mem_singleton.1 hx]
    exact ⟨Nat.le_refl _, Nat.le_refl _⟩

/-- The pieces of a lexeme lie in it, and its markup is among the points. -/
theorem within_weaveLexeme (l : Lexeme) (start : Nat) (points : List RenderedSlice) :
    (∀ x ∈ (weaveLexeme l start points).1, x.Within start (start + byteCount l.text) points) ∧
      ∀ s ∈ (weaveLexeme l start points).2, s ∈ points := by
  fun_induction weaveLexeme l start points with
  | case1 l start => exact ⟨within_ofLexeme start l [], by simp⟩
  | case2 l start p ps h => exact ⟨within_ofLexeme start l _, by simp⟩
  | case3 l start p ps hlt front back hsplit pieces left hleft ih =>
    have parts := splitBytes_append l.text (p.templated.start - start)
    rw [hsplit] at parts
    have width : byteCount l.text = byteCount front + byteCount back := by
      rw [← parts, byteCount_append]
    rw [hleft] at ih
    dsimp only at ih ⊢
    refine ⟨fun x hx => ?_, fun s hs => List.mem_cons_of_mem _ (ih.2 s hs)⟩
    rcases List.mem_append.1 hx with hx | hx
    · exact (within_ofLexeme start _ (p :: ps) x hx).mono (Nat.le_refl _) (by dsimp only; omega)
        fun _ h => h
    · rcases List.mem_cons.1 hx with rfl | hx
      · exact List.mem_cons_self ..
      · exact (ih.1 x hx).mono (by omega) (by omega) fun s hs => List.mem_cons_of_mem _ hs

/-- The pieces of lexemes lie in them, and their markup is among the points. -/
theorem within_weave (start : Nat) (points : List RenderedSlice) (ls : List Lexeme) :
    ∀ x ∈ weave start points ls, x.Within start (start + byteCount (textOf ls)) points := by
  induction ls generalizing start points with
  | nil =>
    intro x hx
    obtain ⟨s, hs, rfl⟩ := List.mem_map.1 hx
    exact hs
  | cons l ls ih =>
    obtain ⟨hown, hleft⟩ := within_weaveLexeme l start points
    intro x hx
    rw [textOf_cons, byteCount_append]
    rcases List.mem_append.1 hx with hx | hx
    · exact (hown x hx).mono (Nat.le_refl _) (by omega) fun _ h => h
    · exact (ih _ _ x hx).mono (by omega) (by omega) hleft

/-- The tokens of a file end where the text does, or before. -/
theorem meets_lex_within (rules : List LexRule) (blocks : BlocksIndent) (f : TemplatedFile) :
    Meets (n ≤ ·) (lex rules blocks f) fun l =>
      Match.PlacedIn (fun p => p.templated.stop ≤ f.length) l.segments ∧ l.segments ≠ [] := by
  refine meets_lex_placedIn blocks (fun x hx => ?_) (Nat.le_refl _)
  have within := within_weave 0 f.points _ x hx
  rw [text_scan, byteCount_toList, Nat.zero_add] at within
  cases x with
  | text start l =>
    rw [Piece.LiesIn, templated_tokenPosition]
    exact within.2
  | markup s =>
    have inFile : s ∈ f.slices := (List.mem_filter.1 within).1
    have := ((bounds_of_renderedTiling? f.slices_tile).2 s inFile).2
    intro source
    exact Nat.le_trans s.templated.start_le_stop this

end QueryLint
