import QueryLint.Proofs.Template.Rendered
import QueryLint.Proofs.Text.Bytes
import QueryLint.Proofs.Token.Placed

/-!
QueryLint.Proofs.Token.Tiling — the tokens of a file tile its templated text.

Text passes through many cursors on its way to tokens: the scan with its runs of what no rule
takes, the divider and the trimmer of a match, and the points of markup at which lexemes are cut
again. What counts in the end is said here once for all of them. Beside the markers of markup and
of the end there are only tokens with the text of their own span; the spans are not empty, and
each starts where the one before it stops.

The second statement is about the cuts. A point of markup that lies between two characters lies
between two tokens, so no token is partly before and partly behind a tag.

* `Segment.Tiles` — tokens one after the other in a text.
* `lex_tiles` — the tokens of a file tile its templated text.
* `lex_clears` — no token spans a point of markup.
-/

namespace QueryLint

open Text Segment

/-! ## 1. Tokens that tile a text -/

namespace Segment

/-- The segments that are not markers. -/
def textTokens (ss : List Segment) : List Segment := ss.filter (!·.isMarker)

@[simp] theorem textTokens_nil : textTokens [] = [] := rfl

@[simp] theorem textTokens_append (ss ts : List Segment) :
    textTokens (ss ++ ts) = textTokens ss ++ textTokens ts := by
  simp [textTokens]

theorem textTokens_eq_nil {ss : List Segment} (h : ∀ s ∈ ss, s.isMarker = true) :
    textTokens ss = [] := by
  simpa [textTokens] using h

theorem textTokens_eq_self {ss : List Segment} (h : ∀ s ∈ ss, s.isMarker = false) :
    textTokens ss = ss := by
  simpa [textTokens] using h

/-- Tokens one after the other between two offsets of a text: each has the text of its own span,
which is not empty. -/
inductive Tiles (text : String) : Nat → List Segment → Nat → Prop where
  | nil (n : Nat) : Tiles text n [] n
  | cons {p : Position} {t : Segment} {ts : List Segment} {b : Nat} (placed : t.position = some p)
      (solid : p.templated.start < p.templated.stop)
      (own : p.templated.text? text = some t.raw) (rest : Tiles text p.templated.stop ts b) :
      Tiles text p.templated.start (t :: ts) b

/-- No token spans one of some offsets. -/
def Clear (cuts : List Nat) (ts : List Segment) : Prop :=
  ∀ t ∈ ts, ∀ p, t.position = some p →
    ∀ c ∈ cuts, c ≤ p.templated.start ∨ p.templated.stop ≤ c

namespace Tiles

variable {text : String} {a b c : Nat} {ts us : List Segment}

theorem single {s : Span} {t : Segment} {p : Position} (placed : t.position = some p)
    (hp : p.templated = s) (solid : s.start < s.stop) (own : s.text? text = some t.raw) :
    Tiles text s.start [t] s.stop := by
  subst hp
  exact .cons placed solid own (.nil _)

theorem append (h : Tiles text a ts b) (h' : Tiles text b us c) :
    Tiles text a (ts ++ us) c := by
  induction h with
  | nil n => exact h'
  | cons placed solid own _ ih => exact .cons placed solid own (ih h')

theorem le (h : Tiles text a ts b) : a ≤ b := by
  induction h with
  | nil n => exact Nat.le_refl n
  | cons _ solid _ _ ih => omega

/-- Tokens that tile a part of a text have its text. -/
theorem slice? (h : Tiles text a ts b) (ha : (dropBytes? text.toList a).isSome) :
    Text.slice? text a b = some (rawAll ts) := by
  induction h with
  | nil n =>
    obtain ⟨rest, hrest⟩ := Option.isSome_iff_exists.1 ha
    simp [Text.slice?, hrest, rawAll]
  | @cons p t ts b _ _ own _ ih =>
    obtain ⟨front, back, htext, hfront, hstop⟩ := slice?_eq_some_iff.1 own
    have hcut : dropBytes? text.toList p.templated.stop = some back := by
      refine dropBytes?_of_eq_append htext ?_
      rw [byteCount_append, byteCount_toList, hfront, hstop]
    obtain ⟨front', back', htext', hfront', hb⟩ := slice?_eq_some_iff.1 (ih (by simp [hcut]))
    -- both ways to write the text are cut where the first token stops
    have hback : back = (rawAll ts).toList ++ back' := by
      rw [List.append_assoc] at htext'
      have hcut' := dropBytes?_of_eq_append htext' hfront'
      rw [hcut] at hcut'
      exact Option.some.inj hcut'
    refine slice?_eq_some_iff.2 ⟨front, back', ?_, hfront, ?_⟩
    · rw [htext, hback, rawAll, String.toList_append]
      simp
    · rw [rawAll, String.utf8ByteSize_append]
      omega

/-- One of the tokens that tile a part of a text starts where it does. -/
theorem exists_first (h : Tiles text a ts b) (hlt : a < b) :
    ∃ t ∈ ts, ∃ p, t.position = some p ∧ p.templated.start = a := by
  cases h with
  | nil => omega
  | cons placed _ _ _ => exact ⟨_, List.mem_cons_self .., _, placed, rfl⟩

/-- One of the tokens that tile a part of a text stops where it does. -/
theorem exists_last (h : Tiles text a ts b) (hlt : a < b) :
    ∃ t ∈ ts, ∃ p, t.position = some p ∧ p.templated.stop = b := by
  induction h with
  | nil => omega
  | @cons p t ts b placed _ _ rest ih =>
    by_cases hmore : p.templated.stop < b
    · obtain ⟨u, hu, hlast⟩ := ih hmore
      exact ⟨u, List.mem_cons_of_mem _ hu, hlast⟩
    · have := rest.le
      exact ⟨t, List.mem_cons_self .., p, placed, by omega⟩

/-- Tokens that tile a whole text make it up. -/
theorem rawAll_eq (h : Tiles text 0 ts text.utf8ByteSize) : rawAll ts = text := by
  have := h.slice? (by simp)
  rw [TemplatedFile.slice?_whole] at this
  exact (Option.some.inj this).symm

end Tiles

end Segment

/-! ## 2. Cutting a lexeme -/

/-- A cut is made where it is asked for, or after the character it falls into: never behind a
later place between two characters. -/
theorem byteCount_splitBytes_le (cs behind : List Char) {n k : Nat}
    (hk : (dropBytes? (cs ++ behind) k).isSome) (hn : n ≤ k) :
    byteCount (splitBytes cs n).1 ≤ k := by
  fun_induction splitBytes cs n generalizing k with
  | case1 n => simp
  | case2 c cs => simp
  | case3 c cs n hne front back hsplit ih =>
    obtain ⟨rest, hrest⟩ := Option.isSome_iff_exists.1 hk
    obtain ⟨pre, hpre, hcount⟩ := exists_append_of_dropBytes? hrest
    cases pre with
    | nil =>
      rw [byteCount_nil] at hcount
      omega
    | cons d pre =>
      obtain ⟨hd, hpre⟩ := List.cons.inj (show c :: (cs ++ behind) = d :: (pre ++ rest) from hpre)
      rw [byteCount_cons, ← hd] at hcount
      have := ih (k := byteCount pre) (by rw [hpre, dropBytes?_append]; rfl) (by omega)
      simp only [hsplit] at this
      simp only [byteCount_cons]
      omega

/-- A cut within a text takes no less than was asked for. -/
theorem le_byteCount_splitBytes (cs : List Char) (n : Nat) (hn : n ≤ byteCount cs) :
    n ≤ byteCount (splitBytes cs n).1 := by
  fun_induction splitBytes cs n with
  | case1 n => simpa using hn
  | case2 c cs => simp
  | case3 c cs n hne front back hsplit ih =>
    simp only [byteCount_cons] at hn ⊢
    have := ih (by omega)
    simp only [hsplit] at this
    omega

/-- The first part of a piece of a text that is cut at a place ends no later than any place between
two characters from there on. -/
theorem splitBytes_clears {text front cs back : List Char} {c place : Nat}
    (htext : text = front ++ cs ++ back) (hc : (dropBytes? text c).isSome)
    (hlt : byteCount front ≤ c) (hplace : place ≤ c) :
    byteCount front + byteCount (splitBytes cs (place - byteCount front)).1 ≤ c := by
  obtain ⟨rest, hrest⟩ := Option.isSome_iff_exists.1 hc
  obtain ⟨pre, hpre, hcount⟩ := exists_append_of_dropBytes? hrest
  rw [List.append_assoc] at htext
  obtain ⟨between, hbetween⟩ := exists_append_of_cuts htext hpre (by omega)
  have hwidth : byteCount front + byteCount between = c := by
    rw [hbetween, ← List.append_assoc, hpre] at htext
    have := congrArg byteCount (List.append_cancel_right htext)
    rw [byteCount_append] at this
    omega
  have hcut : (dropBytes? (cs ++ back) (byteCount between)).isSome := by
    rw [hbetween, dropBytes?_append]
    rfl
  have := byteCount_splitBytes_le cs back hcut (show place - byteCount front ≤ _ by omega)
  omega

/-- Every cut that a reader has not passed yet is at one of the points that are left. -/
def Ahead (cuts : List Nat) (start : Nat) (points : List RenderedSlice) : Prop :=
  ∀ c ∈ cuts, c ≤ start ∨ ∃ p ∈ points, p.templated.start = c

/-- Points of markup in the order of the text. -/
def Rising (points : List RenderedSlice) : Prop :=
  points.Pairwise fun p q => p.templated.start ≤ q.templated.start

variable {cuts : List Nat} {start n : Nat} {p : RenderedSlice} {ps points : List RenderedSlice}
  {f : TemplatedFile}

namespace Ahead

theorem mono {stop : Nat} (h : Ahead cuts start points) (hle : start ≤ stop) :
    Ahead cuts stop points := by
  intro c hc
  rcases h c hc with hpast | hleft
  · exact .inl (by omega)
  · exact .inr hleft

/-- A reader that reaches the next point has passed it. -/
theorem pass {stop : Nat} (h : Ahead cuts start (p :: ps)) (hle : start ≤ stop)
    (hp : p.templated.start ≤ stop) : Ahead cuts stop ps := by
  intro c hc
  rcases h c hc with hpast | ⟨q, hq, rfl⟩
  · exact .inl (by omega)
  · rcases List.mem_cons.1 hq with rfl | hq
    · exact .inl hp
    · exact .inr ⟨q, hq, rfl⟩

/-- Cuts that have not been passed are no earlier than the next point. -/
theorem le (h : Ahead cuts start (p :: ps)) (hrising : Rising (p :: ps)) {c : Nat} (hc : c ∈ cuts)
    (hlt : start < c) : p.templated.start ≤ c := by
  rcases h c hc with hpast | ⟨q, hq, rfl⟩
  · omega
  · rcases List.mem_cons.1 hq with rfl | hq
    · exact Nat.le_refl _
    · exact (List.pairwise_cons.1 hrising).1 q hq

end Ahead

/-- What is left of the points after a lexeme is an end of them, and holds every cut behind it. -/
theorem weaveLexeme_left (l : Lexeme) (hahead : Ahead cuts start points) :
    (weaveLexeme l start points).2 <:+ points ∧
      Ahead cuts (start + byteCount l.text) (weaveLexeme l start points).2 := by
  fun_induction weaveLexeme l start points with
  | case1 l start => exact ⟨List.suffix_refl [], hahead.mono (by omega)⟩
  | case2 l start p ps h => exact ⟨List.suffix_refl _, hahead.mono (by omega)⟩
  | case3 l start p ps hlt front back hsplit pieces left hleft ih =>
    have hcut : p.templated.start - start ≤ byteCount front := by
      have := le_byteCount_splitBytes l.text (p.templated.start - start) (by omega)
      rwa [hsplit] at this
    have htext : l.text = front ++ back := by
      have := splitBytes_append l.text (p.templated.start - start)
      rw [hsplit] at this
      exact this.symm
    obtain ⟨hsuffix, hrest⟩ := ih (hahead.pass (by omega) (by omega))
    rw [hleft] at hsuffix hrest
    refine ⟨hsuffix.trans (List.suffix_cons p ps), ?_⟩
    rw [htext, byteCount_append, ← Nat.add_assoc]
    exact hrest

/-! ## 3. Tokens of lexemes -/

/-- Segments whose tokens tile a text between two offsets, none of them over a cut. -/
structure Fits (text : String) (cuts : List Nat) (a : Nat) (ss : List Segment) (b : Nat) :
    Prop where
  tiles : Tiles text a (textTokens ss) b
  clear : Clear cuts (textTokens ss)

namespace Fits

variable {text : String} {a b c : Nat} {ss ts : List Segment}

theorem of_markers (h : ∀ s ∈ ss, s.isMarker = true) (a : Nat) : Fits text cuts a ss a := by
  have hnone := textTokens_eq_nil h
  exact ⟨hnone ▸ .nil a, hnone ▸ by simp [Clear]⟩

theorem append (h : Fits text cuts a ss b) (h' : Fits text cuts b ts c) :
    Fits text cuts a (ss ++ ts) c where
  tiles := by
    rw [textTokens_append]
    exact h.tiles.append h'.tiles
  clear := by
    rw [textTokens_append]
    intro t ht
    rcases List.mem_append.1 ht with ht | ht
    · exact h.clear t ht
    · exact h'.clear t ht

end Fits

/-- A lexeme makes one token with its text, or none if it is empty. -/
theorem meets_ofLexeme_fits {l : Lexeme} {front back : List Char}
    (htext : f.templated.toList = front ++ l.text ++ back) (hfront : byteCount front = start)
    (hclear : ∀ c ∈ cuts, c ≤ start ∨ start + byteCount l.text ≤ c) :
    Meets (n ≤ ·) ((Piece.ofLexeme start l).mapM (·.segments f)) fun woven =>
      Fits f.templated cuts start woven.flatten (start + byteCount l.text) := by
  unfold Piece.ofLexeme
  split
  · next hempty =>
    rw [List.isEmpty_iff] at hempty
    rw [hempty]
    exact .pure (.of_markers (by simp) start)
  · next hsolid =>
    have hwidth : 0 < byteCount l.text := by
      rw [Nat.pos_iff_ne_zero, Ne, byteCount_eq_zero_iff]
      simpa using hsolid
    have hslice : (Piece.span start l).text? f.templated = some (String.ofList l.text) := by
      refine slice?_eq_some_iff.2 ⟨front, back, ?_, hfront, ?_⟩
      · rw [String.toList_ofList]
        exact htext
      · rw [utf8ByteSize_ofList]
        rfl
    rw [List.mapM_cons]
    refine (meets_freshId.bind fun id _ => .pure ?_ : Meets (n ≤ ·)
      ((Piece.text start l).segments f) (Fits f.templated cuts start · (start + byteCount l.text))
      ).bind fun ss hss => .pure (by simpa using hss)
    have hposition := templated_tokenPosition f (Piece.span start l)
    refine ⟨?_, ?_⟩ <;> rw [textTokens_eq_self (fun s hs => by rw [List.mem_singleton.1 hs]; rfl)]
    · refine .single rfl hposition (Nat.lt_add_of_pos_right hwidth) ?_
      rw [hslice, Segment.raw]
    · intro t ht p hp c hc
      rw [List.mem_singleton.1 ht] at hp
      rw [← Option.some.inj hp, hposition]
      exact hclear c hc

/-- The markers of markup are markers. -/
theorem meets_markup_isMarker (f : TemplatedFile) (p : RenderedSlice) :
    Meets (n ≤ ·) (f.markup p) fun ss => ∀ s ∈ ss, s.isMarker = true := by
  have hmarker (k : MarkerKind) (source : String) (block : SliceKind) (q : Option Position) :
      Meets (n ≤ ·) (Segment.templateMarker k source block q) (·.isMarker = true) :=
    meets_freshId.bind fun _ _ => .pure rfl
  unfold TemplatedFile.markup
  refine (hmarker _ _ _ _).bind fun whole hwhole => ?_
  split
  · exact (hmarker _ _ _ _).bind fun x hx => .pure (by simp [hwhole, hx])
  · exact (hmarker _ _ _ _).bind fun x hx => .pure (by simp [hwhole, hx])
  · exact .pure (by simp [hwhole])

/-- A lexeme that is cut at points of markup makes tokens that tile it. -/
theorem meets_weaveLexeme {l : Lexeme} {front back : List Char}
    (htext : f.templated.toList = front ++ l.text ++ back) (hfront : byteCount front = start)
    (hcuts : ∀ c ∈ cuts, (dropBytes? f.templated.toList c).isSome)
    (hrising : Rising points) (hahead : Ahead cuts start points) :
    Meets (n ≤ ·) ((weaveLexeme l start points).1.mapM (·.segments f)) fun woven =>
      Fits f.templated cuts start woven.flatten (start + byteCount l.text) := by
  fun_induction weaveLexeme l start points generalizing front with
  | case1 l start =>
    refine meets_ofLexeme_fits htext hfront fun c hc => ?_
    rcases hahead c hc with hpast | ⟨q, hq, -⟩
    · exact .inl hpast
    · cases hq
  | case2 l start p ps hbehind =>
    refine meets_ofLexeme_fits htext hfront fun c hc => ?_
    rcases Nat.lt_or_ge start c with hlt | hle
    · have := hahead.le hrising hc hlt
      exact .inr (by omega)
    · exact .inl hle
  | case3 l start p ps hinside first second hsplit pieces left hleft ih =>
    have hparts := splitBytes_append l.text (p.templated.start - start)
    have hreach := le_byteCount_splitBytes l.text (p.templated.start - start) (by omega)
    simp only [hsplit] at hparts hreach
    -- a cut before the end of the first part would be before the point at which it ends
    have hclear : ∀ c ∈ cuts, c ≤ start ∨ start + byteCount first ≤ c := by
      intro c hc
      rcases Nat.lt_or_ge start c with hlt | hle
      · have := splitBytes_clears htext (hcuts c hc) (by omega) (hahead.le hrising hc hlt)
        rw [hfront, hsplit] at this
        exact .inr this
      · exact .inl hle
    have hfirst : f.templated.toList = front ++ first ++ (second ++ back) := by
      rw [htext, ← hparts]
      simp
    have hsecond : f.templated.toList = (front ++ first) ++ second ++ back := by
      rw [htext, ← hparts]
      simp
    have hrest := ih hsecond (by rw [byteCount_append, hfront]) (List.pairwise_cons.1 hrising).2
      (hahead.pass (by omega) (by omega))
    rw [hleft] at hrest
    have hbehind : Meets (n ≤ ·) ((.markup p :: pieces).mapM (Piece.segments f)) fun woven =>
        Fits f.templated cuts (start + byteCount first) woven.flatten
          (start + byteCount l.text) := by
      rw [List.mapM_cons]
      refine (meets_markup_isMarker f p).bind fun marks hmarks => hrest.bind fun later hlater =>
        .pure ?_
      rw [← hparts, byteCount_append, ← Nat.add_assoc, List.flatten_cons]
      exact (Fits.of_markers hmarks _).append hlater
    rw [List.mapM_append]
    refine (meets_ofLexeme_fits (l := { l with text := first }) hfirst hfront hclear).bind
      fun woven hwoven => hbehind.bind fun later hlater => .pure ?_
    rw [List.flatten_append]
    exact hwoven.append hlater

/-! ## 4. Tokens of files -/

/-- Points of markup alone make markers. -/
theorem meets_points (f : TemplatedFile) (points : List RenderedSlice) :
    Meets (n ≤ ·) ((points.map Piece.markup).mapM (·.segments f)) fun woven =>
      ∀ s ∈ woven.flatten, s.isMarker = true := by
  refine (Meets.mapM (Q := fun ss => ∀ s ∈ ss, s.isMarker = true) _ fun x hx => ?_).mono
    fun woven hwoven s hs => ?_
  · obtain ⟨p, -, rfl⟩ := List.mem_map.1 hx
    exact meets_markup_isMarker f p
  · obtain ⟨ss, hss, hs⟩ := List.mem_flatten.1 hs
    exact hwoven ss hss s hs

/-- Lexemes make tokens that tile their text, whatever markup lies in it. -/
theorem meets_weave_fits {ls : List Lexeme} {front : List Char}
    (htext : f.templated.toList = front ++ textOf ls) (hfront : byteCount front = start)
    (hcuts : ∀ c ∈ cuts, (dropBytes? f.templated.toList c).isSome)
    (hrising : Rising points) (hahead : Ahead cuts start points) :
    Meets (n ≤ ·) ((weave start points ls).mapM (·.segments f)) fun woven =>
      Fits f.templated cuts start woven.flatten (start + byteCount (textOf ls)) := by
  induction ls generalizing start points front with
  | nil =>
    rw [weave]
    exact (meets_points f points).mono fun woven hwoven => .of_markers hwoven start
  | cons l ls ih =>
    obtain ⟨hsuffix, hleft⟩ := weaveLexeme_left l hahead
    rw [textOf_cons, ← List.append_assoc] at htext
    rw [weave, List.mapM_append]
    refine (meets_weaveLexeme htext hfront hcuts hrising hahead).bind fun woven hwoven =>
      (ih htext (by rw [byteCount_append, hfront]) (hrising.sublist hsuffix.sublist)
        hleft).bind fun later hlater => .pure ?_
    rw [List.flatten_append, textOf_cons, byteCount_append, ← Nat.add_assoc]
    exact hwoven.append hlater

/-- The points of markup of a file are in the order of the text. -/
theorem TemplatedFile.rising_points (f : TemplatedFile) : Rising f.points :=
  ((pairwise_of_renderedTiling? f.slices_tile).imp fun {s _} h =>
    Nat.le_trans s.templated.start_le_stop h).filter _

/-- A change of markers that keeps them markers changes no token. -/
theorem textTokens_map {change : Segment → Segment}
    (hmarker : ∀ s, s.isMarker = true → (change s).isMarker = true)
    (htoken : ∀ s, s.isMarker = false → change s = s) (ss : List Segment) :
    textTokens (ss.map change) = textTokens ss := by
  induction ss with
  | nil => rfl
  | cons s ss ih =>
    cases hs : s.isMarker with
    | true => simpa [textTokens, hs, hmarker s hs] using ih
    | false => simpa [textTokens, hs, htoken s hs] using ih

/-- Whether blocks of markup indent has no part in what the tokens are. -/
theorem textTokens_indentBlocks (ss : List Segment) (b : Bool) :
    textTokens (indentBlocks ss b) = textTokens ss := by
  cases b with
  | true => rfl
  | false =>
    refine textTokens_map (fun s hs => ?_) (fun s hs => ?_) ss
    · obtain ⟨⟨kind, type, classTypes, id, position, fixes⟩, cs⟩ := s
      split
      · cases kind <;> exact hs
      · exact hs
    · have hnone : s.marker? = none := by simpa [isMarker] using hs
      rw [isTemplateMarker, hnone]
      rfl

/-- The tokens of a file tile its templated text, and none spans one of the points of markup that
lie between characters. -/
theorem meets_lex_fits (rules : List LexRule) (blocks : BlocksIndent)
    (hcuts : ∀ c ∈ cuts, (dropBytes? f.templated.toList c).isSome)
    (hpoints : ∀ c ∈ cuts, ∃ p ∈ f.points, p.templated.start = c) :
    Meets (n ≤ ·) (lex rules blocks f) fun l =>
      Fits f.templated cuts 0 l.segments f.length := by
  unfold lex
  have htext : f.templated.toList = [] ++ textOf (scan rules f.templated.toList) := by
    rw [text_scan, List.nil_append]
  refine (meets_weave_fits htext byteCount_nil hcuts f.rising_points fun c hc =>
    .inr (hpoints c hc)).bind fun woven hwoven => meets_freshId.bind fun id _ => .pure ?_
  rw [text_scan, byteCount_toList, Nat.zero_add] at hwoven
  have hend (s : Segment) (hs : s.isMarker = true) : Fits f.templated cuts f.length [s] f.length :=
    .of_markers (by simpa using hs) _
  constructor
  · rw [textTokens_indentBlocks]
    exact (hwoven.append (hend _ rfl)).tiles
  · rw [textTokens_indentBlocks]
    exact (hwoven.append (hend _ rfl)).clear

theorem tiles_lex (rules : List LexRule) (blocks : BlocksIndent) (f : TemplatedFile) (n : Nat) :
    Tiles f.templated 0 (textTokens ((lex rules blocks f).run n).1.segments) f.length := by
  have hnone : ∀ c ∈ ([] : List Nat), (dropBytes? f.templated.toList c).isSome ∧
      ∃ p ∈ f.points, p.templated.start = c := by simp
  exact (meets_lex_fits rules blocks (fun c hc => (hnone c hc).1)
    (fun c hc => (hnone c hc).2) n (Nat.le_refl n)).1.tiles

/-- The tokens of a file, markers apart, tile its templated text: their spans are not empty, each
starts where the one before it stops, from the start of the text to its end, and each has the text
of its span. So the texts of the tokens, one after the other, are the templated text. -/
theorem lex_tiles (rules : List LexRule) (blocks : BlocksIndent) (f : TemplatedFile) (n : Nat) :
    Tiles f.templated 0 (textTokens ((lex rules blocks f).run n).1.segments) f.length ∧
      rawAll (textTokens ((lex rules blocks f).run n).1.segments) = f.templated :=
  ⟨tiles_lex rules blocks f n, (tiles_lex rules blocks f n).rawAll_eq⟩

/-- Where every point of markup lies between two characters, every point lies between two tokens:
no token is partly before and partly behind it. -/
theorem lex_clears (rules : List LexRule) (blocks : BlocksIndent) (f : TemplatedFile) (n : Nat)
    (h : ∀ p ∈ f.points, (dropBytes? f.templated.toList p.templated.start).isSome) :
    Clear (f.points.map (·.templated.start))
      (textTokens ((lex rules blocks f).run n).1.segments) := by
  refine (meets_lex_fits rules blocks (fun c hc => ?_) (fun c hc => ?_) n
    (Nat.le_refl n)).1.clear
  · obtain ⟨p, hp, rfl⟩ := List.mem_map.1 hc
    exact h p hp
  · obtain ⟨p, hp, rfl⟩ := List.mem_map.1 hc
    exact ⟨p, hp, rfl⟩

end QueryLint
