import QueryLint.Dialect.Ansi.Lexicon
import QueryLint.Proofs.Template.Literal
import QueryLint.Proofs.Template.Rendered
import QueryLint.Proofs.Token.Tiling

/-!
QueryLint.Proofs.Token.Laid — tokens and markers one after the other.

The tokens of a file tile its templated text, and the markers of markup lie at points of it. Both
are laid out together: each segment starts where the one before it stops, has the text of its span,
and is at the line and column where the span starts. A marker has a span without text.

This needs that every point of markup lies between two characters. Then a lexeme that it cuts is cut
exactly there, and the marker lies where the first part stops.

A token is literal if its source touches literal slices only. What it says in the templated text is
then what its source says, but for one case: where a loop starts another pass inside of the token,
the token has text of more than one pass, and its source is part of a single slice.

* `Piece.Tile` — lexemes and points of markup one after the other.
* `TemplatedFile.Seats` — what the tokenizer knows of where a segment lies.
* `Segment.Laid` — segments one after the other.
* `laid_lex` — the tokens of a file, with the markers between them.
* `text?_source_lex_iff` — a literal token has the text of its source exactly if no loop turns in it.
* `turnsSource` — a template with a token that spans a pass of a loop.
-/

namespace QueryLint

open Text Segment

/-! ## 1. Pieces -/

namespace Piece

/-- Pieces one after the other between two offsets of a text: lexemes with the text that stands
there, and markup between two characters. -/
inductive Tile (text : String) : Nat → List Piece → Nat → Prop where
  | nil (n : Nat) : Tile text n [] n
  | lexeme {start b : Nat} {l : Lexeme} {ps : List Piece} (solid : l.text ≠ [])
      (own : (span start l).text? text = some (String.ofList l.text))
      (rest : Tile text (start + byteCount l.text) ps b) : Tile text start (.text start l :: ps) b
  | markup {s : RenderedSlice} {ps : List Piece} {b : Nat}
      (cut : (Span.point s.templated.start).text? text = some "")
      (rest : Tile text s.templated.start ps b) :
      Tile text s.templated.start (.markup s :: ps) b

namespace Tile

variable {text : String} {a b c : Nat} {ps qs : List Piece}

theorem append (h : Tile text a ps b) (h' : Tile text b qs c) : Tile text a (ps ++ qs) c := by
  induction h with
  | nil n => exact h'
  | lexeme solid own _ ih => exact .lexeme solid own (ih h')
  | markup cut _ ih => exact .markup cut (ih h')

end Tile

end Piece

theorem text?_point {text : String} {c : Nat} (h : (dropBytes? text.toList c).isSome) :
    (Span.point c).text? text = some "" := by
  obtain ⟨rest, hrest⟩ := Option.isSome_iff_exists.1 h
  obtain ⟨front, htext, hfront⟩ := exists_append_of_dropBytes? hrest
  exact slice?_eq_some_iff.2 ⟨front, rest, by simpa using htext, hfront, by simp⟩

/-- Points of markup from an offset on: between two characters of a text, in order. -/
structure PointsFrom (text : String) (start : Nat) (points : List RenderedSlice) : Prop where
  rising : Rising points
  behind : ∀ p ∈ points, start ≤ p.templated.start
  cut : ∀ p ∈ points, (dropBytes? text.toList p.templated.start).isSome

theorem PointsFrom.tail {text : String} {start : Nat} {p : RenderedSlice}
    {points : List RenderedSlice} (h : PointsFrom text start (p :: points)) :
    PointsFrom text p.templated.start points where
  rising := (List.pairwise_cons.1 h.rising).2
  behind := (List.pairwise_cons.1 h.rising).1
  cut := (List.forall_mem_cons.1 h.cut).2

variable {text : String} {start : Nat} {points : List RenderedSlice}

theorem tile_ofLexeme {l : Lexeme} {front back : List Char}
    (htext : text.toList = front ++ l.text ++ back) (hfront : byteCount front = start) :
    Piece.Tile text start (Piece.ofLexeme start l) (start + byteCount l.text) := by
  unfold Piece.ofLexeme
  split
  · next hempty =>
    rw [List.isEmpty_iff.1 hempty]
    exact .nil start
  · next hsolid =>
    refine .lexeme (by simpa using hsolid) (slice?_eq_some_iff.2 ⟨front, back, ?_, hfront, ?_⟩)
      (.nil _)
    · rw [String.toList_ofList]
      exact htext
    · rw [utf8ByteSize_ofList]
      rfl

/-- A lexeme is cut where the points in it lie, and the points behind it are left. -/
theorem tile_weaveLexeme {l : Lexeme} {front back : List Char}
    (htext : text.toList = front ++ l.text ++ back) (hfront : byteCount front = start)
    (hpoints : PointsFrom text start points) :
    Piece.Tile text start (weaveLexeme l start points).1 (start + byteCount l.text) ∧
      PointsFrom text (start + byteCount l.text) (weaveLexeme l start points).2 := by
  fun_induction weaveLexeme l start points generalizing front with
  | case1 l start => exact ⟨tile_ofLexeme htext hfront, .nil, by simp, by simp⟩
  | case2 l start p ps hbehind =>
    refine ⟨tile_ofLexeme htext hfront, hpoints.rising, fun q hq => ?_, hpoints.cut⟩
    rcases List.mem_cons.1 hq with rfl | hq
    · exact hbehind
    · exact Nat.le_trans hbehind ((List.pairwise_cons.1 hpoints.rising).1 q hq)
  | case3 l start p ps hinside first second hsplit pieces left hleft ih =>
    have hparts := splitBytes_append l.text (p.templated.start - start)
    have hreach := le_byteCount_splitBytes l.text (p.templated.start - start) (by omega)
    have hown := hpoints.behind p (List.mem_cons_self ..)
    have hcut := hpoints.cut p (List.mem_cons_self ..)
    have hclear := splitBytes_clears htext hcut (hfront ▸ hown) (Nat.le_refl _)
    rw [hfront] at hclear
    simp only [hsplit] at hparts hreach hclear
    -- the first part stops exactly at the point
    have hstop : start + byteCount first = p.templated.start := by omega
    have hsecond : text.toList = (front ++ first) ++ second ++ back := by
      rw [htext, ← hparts]
      simp
    have hrest := ih hsecond (by rw [byteCount_append, hfront]) (hstop ▸ hpoints.tail)
    rw [hleft, hstop] at hrest
    have hwidth : start + byteCount l.text = p.templated.start + byteCount second := by
      rw [← hparts, byteCount_append, ← hstop, Nat.add_assoc]
    have hfirst : Piece.Tile text start (Piece.ofLexeme start { l with text := first })
        p.templated.start :=
      hstop ▸ tile_ofLexeme (l := { l with text := first })
        (show text.toList = front ++ first ++ (second ++ back) by rw [hsecond]; simp) hfront
    rw [hwidth]
    exact ⟨hfirst.append (.markup (text?_point hcut) hrest.1), hrest.2⟩

theorem tile_markup (hpoints : PointsFrom text start points)
    (hin : ∀ p ∈ points, p.templated.start ≤ start) :
    Piece.Tile text start (points.map .markup) start := by
  induction points with
  | nil => exact .nil start
  | cons p points ih =>
    obtain ⟨hp, hin⟩ := List.forall_mem_cons.1 hin
    obtain rfl : p.templated.start = start :=
      Nat.le_antisymm hp (hpoints.behind p (List.mem_cons_self ..))
    exact .markup (text?_point (hpoints.cut p (List.mem_cons_self ..))) (ih hpoints.tail hin)

/-- Lexemes and the points of markup in them are laid out without gaps. -/
theorem tile_weave {ls : List Lexeme} {front : List Char}
    (htext : text.toList = front ++ textOf ls) (hfront : byteCount front = start)
    (hpoints : PointsFrom text start points)
    (hin : ∀ p ∈ points, p.templated.start ≤ text.utf8ByteSize) :
    Piece.Tile text start (weave start points ls) text.utf8ByteSize := by
  induction ls generalizing start points front with
  | nil =>
    obtain rfl : text.utf8ByteSize = start := by
      rw [← byteCount_toList, htext, ← hfront]
      simp
    exact tile_markup hpoints hin
  | cons l ls ih =>
    rw [textOf_cons, ← List.append_assoc] at htext
    obtain ⟨hown, hleft⟩ := tile_weaveLexeme htext hfront hpoints
    exact hown.append (ih htext (by rw [byteCount_append, hfront]) hleft
      fun p hp => hin p ((within_weaveLexeme l start points).2 p hp))

/-! ## 2. Segments -/

/-- What the tokenizer knows of where a segment lies. -/
structure TemplatedFile.Seats (f : TemplatedFile) (p : Position) (t : Segment) : Prop where
  position : t.position = some p
  text : p.templated.text? f.templated = some t.raw
  place : p.place = f.place p.templated.start
  working : p.working = f.place p.templated.start
  /-- Literal are tokens whose source is, and the end of the file. -/
  literal : p.isLiteral = true →
    (p.templated.start < p.templated.stop ∧ f.toSource? p.templated = .ok p.source ∧
      f.isLiteralSource p.source = true) ∨
    (p.source = .point f.source.utf8ByteSize ∧ p.templated = .point f.length)

namespace Segment

/-- Segments one after the other in the templated text of a file, from an offset to another. -/
inductive Laid (f : TemplatedFile) : Nat → List Segment → Nat → Prop where
  | nil (n : Nat) : Laid f n [] n
  | cons {p : Position} {t : Segment} {ts : List Segment} {b : Nat} (seat : f.Seats p t)
      (rest : Laid f p.templated.stop ts b) : Laid f p.templated.start (t :: ts) b

namespace Laid

variable {f : TemplatedFile} {a b c : Nat} {t : Segment} {ts us : List Segment} {p : Position}

theorem single (seat : f.Seats p t) : Laid f p.templated.start [t] p.templated.stop :=
  .cons seat (.nil _)

theorem append (h : Laid f a ts b) (h' : Laid f b us c) : Laid f a (ts ++ us) c := by
  induction h with
  | nil n => exact h'
  | cons seat _ ih => exact .cons seat (ih h')

theorem exists_seat (h : Laid f a ts b) (ht : t ∈ ts) : ∃ p, f.Seats p t := by
  induction h with
  | nil n => cases ht
  | cons seat _ ih =>
    rcases List.mem_cons.1 ht with rfl | ht
    · exact ⟨_, seat⟩
    · exact ih ht

/-- Segments with the same texts and positions are laid out in the same way. -/
theorem map {change : Segment → Segment} (h : Laid f a ts b)
    (same : ∀ t ∈ ts, (change t).position = t.position ∧ (change t).raw = t.raw) :
    Laid f a (ts.map change) b := by
  induction h with
  | nil n => exact .nil n
  | cons seat _ ih =>
    obtain ⟨⟨position, raw⟩, rest⟩ := List.forall_mem_cons.1 same
    exact .cons { seat with position := position ▸ seat.position, text := raw ▸ seat.text }
      (ih rest)

end Laid

end Segment

open TemplatedFile

variable {n : Nat} {f : TemplatedFile}

/-- A marker of markup lies at its point. -/
theorem meets_templateMarker_laid (k : MarkerKind) (source : String) (block : SliceKind)
    (span : Span) {c : Nat} (cut : (Span.point c).text? f.templated = some "") :
    Meets (n ≤ ·) (Segment.templateMarker k source block
      (some (.ofSpans span (.point c) (f.place c) false))) fun s => Laid f c [s] c :=
  meets_freshId.bind fun _ _ => .pure <|
    Laid.single (p := .ofSpans span (.point c) (f.place c) false)
      ⟨rfl, by rw [Segment.raw]; exact cut, rfl, rfl, nofun⟩

theorem meets_markup_laid (s : RenderedSlice)
    (cut : (Span.point s.templated.start).text? f.templated = some "") :
    Meets (n ≤ ·) (f.markup s) fun ss => Laid f s.templated.start ss s.templated.start := by
  unfold TemplatedFile.markup
  refine (meets_templateMarker_laid _ _ _ _ cut).bind fun whole hwhole => ?_
  split
  · exact (meets_templateMarker_laid _ _ _ _ cut).bind fun x hx => .pure (hwhole.append hx)
  · exact (meets_templateMarker_laid _ _ _ _ cut).bind fun x hx => .pure (hx.append hwhole)
  · exact .pure hwhole

/-- A token of a span with text has its seat there. -/
theorem seats_token {s : Span} {t : Segment} (position : t.position = some (f.tokenPosition s))
    (text : s.text? f.templated = some t.raw) (hs : s.start < s.stop) :
    f.Seats (f.tokenPosition s) t := by
  have templated := templated_tokenPosition f s
  refine ⟨position, templated.symm ▸ text, ?_, ?_, fun hliteral => .inl ?_⟩
  · rw [templated]
    unfold tokenPosition
    dsimp only
    split <;> rfl
  · rw [templated]
    unfold tokenPosition
    dsimp only
    split <;> rfl
  · rw [templated]
    refine ⟨hs, ?_⟩
    unfold tokenPosition at hliteral ⊢
    dsimp only at hliteral ⊢
    split at hliteral
    · next source hmap =>
      rw [hmap]
      exact ⟨rfl, hliteral⟩
    · cases hliteral

/-- Pieces one after the other become segments one after the other. -/
theorem meets_mapM_segments_laid {a b : Nat} {ps : List Piece}
    (h : Piece.Tile f.templated a ps b) :
    Meets (n ≤ ·) (ps.mapM (·.segments f)) fun woven => Laid f a woven.flatten b := by
  induction h with
  | nil n => exact .pure (.nil n)
  | @lexeme start b l ps solid own _ ih =>
    have hwidth : start < start + byteCount l.text :=
      Nat.lt_add_of_pos_right (Nat.pos_of_ne_zero fun h => solid (byteCount_eq_zero_iff.1 h))
    rw [List.mapM_cons]
    refine (meets_freshId.bind fun id _ => .pure ?_ : Meets (n ≤ ·)
      ((Piece.text start l).segments f) (Laid f start · (start + byteCount l.text))).bind
        fun ss hss => ih.bind fun later hlater => .pure (hss.append hlater)
    have seat := Laid.single (seats_token (f := f) (s := Piece.span start l)
      (t := .mk ⟨.token (String.ofList l.text) l.flags none, l.type, [l.type], id,
        some (f.tokenPosition (Piece.span start l)), []⟩ []) rfl
      (by rw [Segment.raw]; exact own) hwidth)
    rwa [templated_tokenPosition] at seat
  | markup cut _ ih =>
    rw [List.mapM_cons]
    exact (meets_markup_laid _ cut).bind fun ss hss => ih.bind fun later hlater =>
      .pure (hss.append hlater)

theorem laid_indentBlocks {a b : Nat} {ss : List Segment} (h : Laid f a ss b) (indents : Bool) :
    Laid f a (indentBlocks ss indents) b := by
  cases indents with
  | true => exact h
  | false =>
    refine h.map fun s _ => ?_
    split
    · unfold withIndentation
      split
      · next hmarker =>
        refine ⟨rfl, ?_⟩
        obtain ⟨i, cs⟩ := s
        have kind : i.kind = .marker _ := hmarker
        rw [Segment.raw, Segment.raw, kind]
      · exact ⟨rfl, rfl⟩
    · exact ⟨rfl, rfl⟩

/-- The points of a file between two characters of its templated text. -/
theorem pointsFrom_points
    (h : ∀ p ∈ f.points, (dropBytes? f.templated.toList p.templated.start).isSome) :
    PointsFrom f.templated 0 f.points :=
  ⟨f.rising_points, fun _ _ => Nat.zero_le _, h⟩

/-- The tokens of a file and the markers between them are laid out from the start of the templated
text to its end. -/
theorem laid_lex (rules : List LexRule) (blocks : BlocksIndent)
    (h : ∀ p ∈ f.points, (dropBytes? f.templated.toList p.templated.start).isSome) :
    Meets (n ≤ ·) (lex rules blocks f) fun l => Laid f 0 l.segments f.length := by
  have inText : ∀ p ∈ f.points, p.templated.start ≤ f.length := fun p hp => by
    have := ((bounds_of_renderedTiling? f.slices_tile).2 p (List.mem_filter.1 hp).1).2
    exact Nat.le_trans p.templated.start_le_stop this
  have tile : Piece.Tile f.templated 0 (f.pieces rules) f.length :=
    tile_weave (by rw [text_scan, List.nil_append]) byteCount_nil (pointsFrom_points h) inText
  unfold lex
  refine (meets_mapM_segments_laid tile).bind fun woven hwoven =>
    meets_freshId.bind fun id _ => .pure (laid_indentBlocks (hwoven.append ?_) _)
  have whole : (Span.point f.length).text? f.templated = some "" := by
    refine text?_point ?_
    have := dropBytes?_append f.templated.toList []
    rw [List.append_nil, byteCount_toList] at this
    exact this ▸ rfl
  exact Laid.single (p := .ofPoints f.source.utf8ByteSize f.length (f.place f.length) true)
    ⟨rfl, by rw [Segment.raw]; exact whole, rfl, rfl, fun _ => .inr ⟨rfl, rfl⟩⟩

/-! ## 3. Literal tokens -/

/-- The end of a text has no text. -/
theorem text?_end (text : String) : (Span.point text.utf8ByteSize).text? text = some "" :=
  slice?_eq_some_iff.2 ⟨text.toList, [], by simp, byteCount_toList text, by simp⟩

/-- Whatever the tokenizer makes of a template, a segment that is literal has the text of its source
exactly if no loop turns in it. Without loops it always has. -/
theorem text?_source_lex_iff {values : List (String × String)} {source name : String}
    {f : TemplatedFile} (hfile : (Templater.placeholder values).process source name = .ok f)
    (rules : List LexRule) (blocks : BlocksIndent) (n : Nat) :
    ∀ t ∈ ((lex rules blocks f).run n).1.segments, ∃ p, t.position = some p ∧
      (p.isLiteral = true →
        (p.source.text? source = some t.raw ↔ ¬ f.TurnsIn p.templated) ∧
          (f.LoopFree → p.source.text? source = some t.raw)) := by
  intro t ht
  obtain ⟨ms, bs, hrenders⟩ := Templater.exists_renders hfile
  have cut : ∀ p ∈ f.points, (dropBytes? f.templated.toList p.templated.start).isSome :=
    fun p hp => hrenders.isSome_dropBytes? (List.mem_filter.1 hp).1
  obtain ⟨p, seat⟩ := (laid_lex rules blocks cut n (Nat.le_refl n)).1.exists_seat ht
  refine ⟨p, seat.position, fun hliteral => ?_⟩
  have exactly : p.source.text? source = some t.raw ↔ ¬ f.TurnsIn p.templated := by
    rw [← hrenders.source_eq]
    rcases seat.literal hliteral with ⟨hs, hmap, hsource⟩ | ⟨hsource, htemplated⟩
    · exact hrenders.text?_source_iff hs hmap hsource seat.text
    · -- The end of the file is a point in both texts.
      have noText : t.raw = "" := by
        have own := seat.text
        rw [htemplated] at own
        exact (Option.some.inj ((text?_end f.templated).symm.trans own)).symm
      rw [hsource, htemplated, noText]
      refine iff_of_true (text?_end f.source) ?_
      rintro ⟨x, y, -, hlow, hhigh⟩
      exact Nat.lt_asymm hlow hhigh
  exact ⟨exactly, fun hloops =>
    exactly.2 (TemplatedFile.not_turnsIn_of_loopFree hfile hloops p.templated)⟩

/-- A loop over a letter and a sign that renders a letter and the item. -/
def turnsSource : String := "\x7b% for i in a, + %\x7dx\x7b\x7b i \x7d\x7d\x7b% endfor %\x7d"

/-- The file of the template: the two letters, the letter of the loop again, and the sign. -/
def turnsFile : TemplatedFile := rendered [] turnsSource

theorem process_turnsSource :
    (Templater.placeholder []).process turnsSource "" = .ok turnsFile :=
  process_eq_rendered (by decide +kernel)

/-- The letters before the sign are one literal token, and its source is the letter of the loop. -/
theorem exists_token_turnsFile : ∃ t ∈ ((lex Ansi.symbolRules .enabled turnsFile).run 0).1.segments,
    ∃ p, t.position = some p ∧ p.isLiteral = true ∧ t.raw = "xax" ∧
      p.source.text? turnsSource = some "x" := by
  have found : ((lex Ansi.symbolRules .enabled turnsFile).run 0).1.segments.any (fun t =>
      t.position.any fun p => p.isLiteral && t.raw == "xax" &&
        p.source.text? turnsSource == some "x") = true := by decide +kernel
  obtain ⟨t, ht, hposition⟩ := List.any_eq_true.1 found
  obtain ⟨p, hp, hspec⟩ := (Option.any_eq_true _ _).1 hposition
  simp only [Bool.and_eq_true, beq_iff_eq] at hspec
  exact ⟨t, ht, p, hp, hspec.1.1, hspec.1.2, hspec.2⟩

/-- The token of the letters before the sign is literal, but a loop turns in it. -/
theorem text?_source_lex_iff_turns :
    (Templater.placeholder []).process turnsSource "" = .ok turnsFile ∧
      ∃ t ∈ ((lex Ansi.symbolRules .enabled turnsFile).run 0).1.segments, ∃ p,
        t.position = some p ∧ p.isLiteral = true ∧ t.raw = "xax" ∧
          turnsFile.TurnsIn p.templated := by
  obtain ⟨t, ht, p, hp, hliteral, hraw, hsource⟩ := exists_token_turnsFile
  obtain ⟨q, hq, hspec⟩ :=
    text?_source_lex_iff process_turnsSource Ansi.symbolRules .enabled 0 t ht
  obtain rfl := Option.some.inj (hp.symm.trans hq)
  refine ⟨process_turnsSource, t, ht, p, hp, hliteral, hraw, ?_⟩
  by_contra hturns
  have own := (hspec hliteral).1.2 hturns
  rw [hsource, hraw] at own
  exact absurd (Option.some.inj own) (by decide)

/-- Not every literal token has the text of its source: the three letters have one for theirs. -/
theorem lex_literal_ne_source :
    ¬ ∀ (values : List (String × String)) (source name : String) (f : TemplatedFile),
      (Templater.placeholder values).process source name = .ok f →
        ∀ (rules : List LexRule) (blocks : BlocksIndent) (n : Nat),
          ∀ t ∈ ((lex rules blocks f).run n).1.segments, ∀ p, t.position = some p →
            p.isLiteral = true → p.source.text? source = some t.raw := by
  intro every
  obtain ⟨t, ht, p, hp, hliteral, hraw, hsource⟩ := exists_token_turnsFile
  have own := every [] turnsSource "" turnsFile process_turnsSource _ _ _ t ht p hp hliteral
  rw [hsource, hraw] at own
  exact absurd (Option.some.inj own) (by decide)

end QueryLint
