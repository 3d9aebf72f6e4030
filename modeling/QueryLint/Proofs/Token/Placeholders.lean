import QueryLint.Dialect.Ansi.Lexicon
import QueryLint.Proofs.Template.Literal
import QueryLint.Proofs.Token.Balance
import QueryLint.Proofs.Token.Laid

/-!
QueryLint.Proofs.Token.Placeholders — tags among the tokens.

Markup of the source that renders no text is woven into the tokens: it waits in a queue and leaves
it before a lexeme, inside one that is cut there, or behind the last. Whichever it is, the stream
that comes out is told by one walk over it, which starts at an offset of the text with the points
that are still to come. A token takes its text, a placeholder takes the first of the points at the
offset where the walk is, and the end of the file stands where no point is left.

* `Segment.IsPlaceholderOf` — the marker of one rendered slice.
* `TemplatedFile.Stream` — the walk over the tokens of a file.
* `TemplatedFile.ShowsMarkup` — where the markup of a file stands among its tokens.
* `showsMarkup_lex` — the tokens of a template show its markup.
-/

namespace QueryLint

open Text

/-! ## 1. What is to be shown -/

namespace Segment

/-- It is a marker of some kind. -/
def isMarkerOf (k : MarkerKind) (s : Segment) : Bool := s.marker?.any (·.kind == k)

/-- The markup that a marker stands for: its text, and what kind of slice it is. -/
def markup? (s : Segment) : Option (String × SliceKind) := s.marker?.bind (·.markup)

/-- It has no width, and lies at an offset of the templated text. -/
def LiesAt (s : Segment) (c : Nat) : Prop :=
  ∃ p, s.position = some p ∧ p.templated = .point c

/-- A placeholder for a rendered slice: it has its text, its kind and its place in the source, and
lies where the slice would be in the templated text. -/
structure IsPlaceholderOf (f : TemplatedFile) (p : RenderedSlice) (s : Segment) : Prop where
  isMarkerOf : s.isMarkerOf .placeholder = true
  markup : ∃ text, p.source.text? f.source = some text ∧ s.markup? = some (text, p.kind)
  source : s.position.map (·.source) = some p.source
  liesAt : s.LiesAt p.templated.start

variable {k : MarkerKind} {s t : Segment}

theorem isMarker_of_isMarkerOf (h : s.isMarkerOf k = true) : s.isMarker = true := by
  obtain ⟨m, hm, -⟩ := (Option.any_eq_true _ _).1 h
  exact Option.isSome_iff_exists.2 ⟨m, hm⟩

/-- A marker is of one kind. -/
theorem isMarkerOf_unique {j : MarkerKind} (h : s.isMarkerOf k = true) (h' : s.isMarkerOf j = true) :
    k = j := by
  obtain ⟨m, hm, hkind⟩ := (Option.any_eq_true _ _).1 h
  obtain ⟨m', hm', hkind'⟩ := (Option.any_eq_true _ _).1 h'
  obtain rfl := Option.some.inj (hm.symm.trans hm')
  exact (beq_iff_eq.1 hkind).symm.trans (beq_iff_eq.1 hkind')

theorem isMarkerOf_eq_false {j : MarkerKind} (h : s.isMarkerOf k = true) (hne : k ≠ j) :
    s.isMarkerOf j = false := by
  rw [Bool.eq_false_iff]
  intro h'
  exact hne (isMarkerOf_unique h h')

theorem isMarkerOf_of_token (h : s.isMarker = false) (k : MarkerKind) : s.isMarkerOf k = false := by
  unfold isMarker at h
  rw [Option.isSome_eq_false_iff, Option.isNone_iff_eq_none] at h
  rw [isMarkerOf, h]
  rfl

@[simp] theorem textTokens_cons_marker {ss : List Segment} (h : s.isMarker = true) :
    textTokens (s :: ss) = textTokens ss := by
  simp [textTokens, h]

@[simp] theorem textTokens_cons_token {ss : List Segment} (h : s.isMarker = false) :
    textTokens (s :: ss) = s :: textTokens ss := by
  simp [textTokens, h]

/-- What a marker is and stands for, and where, is the same without its indentation. -/
structure SameSign (s t : Segment) : Prop where
  position : t.position = s.position
  raw : t.raw = s.raw
  isMarker : t.isMarker = s.isMarker
  isMarkerOf : ∀ k, t.isMarkerOf k = s.isMarkerOf k
  markup : t.markup? = s.markup?

theorem SameSign.refl (s : Segment) : SameSign s s := ⟨rfl, rfl, rfl, fun _ => rfl, rfl⟩

theorem sameSign_withIndentation (s : Segment) (i : Int) : SameSign s (s.withIndentation i) := by
  unfold withIndentation
  split
  · next m hmarker =>
    obtain ⟨info, cs⟩ := s
    have kind : info.kind = .marker m := hmarker
    refine ⟨rfl, ?_, ?_, fun k => ?_, ?_⟩
    · rw [Segment.raw, Segment.raw, kind]
    · simp [Segment.isMarker, marker?, Segment.kind, Segment.info, kind]
    · simp [Segment.isMarkerOf, marker?, Segment.kind, Segment.info, kind]
    · simp [markup?, marker?, Segment.kind, Segment.info, kind]
  · exact .refl s

end Segment

open Segment

/-- How the markup that renders no text stands among the tokens of a file. -/
structure TemplatedFile.ShowsMarkup (f : TemplatedFile) (ss : List Segment) : Prop where
  /-- The placeholders are the markup, in order. -/
  placeholders : List.Forall₂ (IsPlaceholderOf f) f.points
    (ss.filter (·.isMarkerOf .placeholder))
  /-- A placeholder lies where the tokens before it stop and the tokens behind it start. -/
  between : ∀ front s back, ss = front ++ s :: back → s.isMarkerOf .placeholder = true →
    ∃ c, s.LiesAt c ∧ Tiles f.templated 0 (textTokens front) c ∧
      Tiles f.templated c (textTokens back) f.length
  /-- The tag that opens a block is followed by an indent at once. -/
  opens : ∀ front s back, ss = front ++ s :: back → s.isMarkerOf .placeholder = true →
    s.markup?.map (·.2) = some .blockStart →
      ∃ i rest, back = i :: rest ∧ i.isMarkerOf .indent = true
  /-- A dedent comes at once before the tag that ends a block. -/
  closes : ∀ front s back, ss = front ++ s :: back → s.isMarkerOf .placeholder = true →
    s.markup?.map (·.2) = some .blockEnd →
      ∃ rest d, front = rest ++ [d] ∧ d.isMarkerOf .dedent = true
  /-- All segments have positions. -/
  placed : ∀ s ∈ ss, s.position.isSome = true
  /-- No segment starts before one that stands in front of it. -/
  rising : ss.Pairwise fun s t => ∀ p q, s.position = some p → t.position = some q →
    p.templated.start ≤ q.templated.start
  /-- The end of the file is the last segment, and no other. -/
  ended : ∃ front last, ss = front ++ [last] ∧ last.isMarkerOf .endOfFile = true ∧
    ∀ s ∈ front, s.isMarkerOf .endOfFile = false

/-! ## 2. The walk over a stream -/

/-- Tokens and markers from an offset of the templated text to its end, where some points of markup
are still to come. -/
inductive TemplatedFile.Stream (f : TemplatedFile) :
    Nat → List RenderedSlice → List Segment → Nat → Prop where
  | ending {n : Nat} {s : Segment} (kind : s.isMarkerOf .endOfFile = true) (lies : s.LiesAt n) :
      Stream f n [] [s] n
  | token {q : Position} {t : Segment} {ps : List RenderedSlice} {ss : List Segment} {b : Nat}
      (text : t.isMarker = false) (placed : t.position = some q)
      (solid : q.templated.start < q.templated.stop)
      (own : q.templated.text? f.templated = some t.raw)
      (rest : Stream f q.templated.stop ps ss b) : Stream f q.templated.start ps (t :: ss) b
  | plain {p : RenderedSlice} {s : Segment} {ps : List RenderedSlice} {ss : List Segment} {b : Nat}
      (stands : IsPlaceholderOf f p s) (start : p.kind ≠ .blockStart) (stop : p.kind ≠ .blockEnd)
      (rest : Stream f p.templated.start ps ss b) :
      Stream f p.templated.start (p :: ps) (s :: ss) b
  | opens {p : RenderedSlice} {s i : Segment} {ps : List RenderedSlice} {ss : List Segment} {b : Nat}
      (stands : IsPlaceholderOf f p s) (kind : p.kind = .blockStart)
      (indent : i.isMarkerOf .indent = true) (lies : i.LiesAt p.templated.start)
      (rest : Stream f p.templated.start ps ss b) :
      Stream f p.templated.start (p :: ps) (s :: i :: ss) b
  | closes {p : RenderedSlice} {s d : Segment} {ps : List RenderedSlice} {ss : List Segment} {b : Nat}
      (stands : IsPlaceholderOf f p s) (kind : p.kind = .blockEnd)
      (dedent : d.isMarkerOf .dedent = true) (lies : d.LiesAt p.templated.start)
      (rest : Stream f p.templated.start ps ss b) :
      Stream f p.templated.start (p :: ps) (d :: s :: ss) b

namespace TemplatedFile.Stream

variable {f : TemplatedFile} {a b : Nat} {ps : List RenderedSlice} {ss : List Segment}

/-- The placeholders are the points, in order. -/
theorem placeholders (h : f.Stream a ps ss b) :
    List.Forall₂ (IsPlaceholderOf f) ps (ss.filter (·.isMarkerOf .placeholder)) := by
  induction h with
  | ending kind _ =>
    rw [List.filter_cons_of_neg (by simp [isMarkerOf_eq_false kind])]
    exact .nil
  | token text _ _ _ _ ih =>
    rwa [List.filter_cons_of_neg (by simp [isMarkerOf_of_token text])]
  | plain stands _ _ _ ih =>
    rw [List.filter_cons_of_pos stands.isMarkerOf]
    exact .cons stands ih
  | opens stands _ indent _ _ ih =>
    rw [List.filter_cons_of_pos stands.isMarkerOf,
      List.filter_cons_of_neg (by simp [isMarkerOf_eq_false indent])]
    exact .cons stands ih
  | closes stands _ dedent _ _ ih =>
    rw [List.filter_cons_of_neg (by simp [isMarkerOf_eq_false dedent]),
      List.filter_cons_of_pos stands.isMarkerOf]
    exact .cons stands ih

/-- The tokens tile the text, whatever markers stand between them. -/
theorem tiles (h : f.Stream a ps ss b) : Tiles f.templated a (textTokens ss) b := by
  induction h with
  | ending kind _ =>
    rw [textTokens_cons_marker (isMarker_of_isMarkerOf kind)]
    exact .nil _
  | token text placed solid own _ ih =>
    rw [textTokens_cons_token text]
    exact .cons placed solid own ih
  | plain stands _ _ _ ih =>
    rwa [textTokens_cons_marker (isMarker_of_isMarkerOf stands.isMarkerOf)]
  | opens stands _ indent _ _ ih =>
    rwa [textTokens_cons_marker (isMarker_of_isMarkerOf stands.isMarkerOf),
      textTokens_cons_marker (isMarker_of_isMarkerOf indent)]
  | closes stands _ dedent _ _ ih =>
    rwa [textTokens_cons_marker (isMarker_of_isMarkerOf dedent),
      textTokens_cons_marker (isMarker_of_isMarkerOf stands.isMarkerOf)]

/-- What stands around a placeholder in a stream that starts at an offset. -/
structure Around (f : TemplatedFile) (a : Nat) (front : List Segment) (s : Segment)
    (back : List Segment) (b : Nat) : Prop where
  between : ∃ c, s.LiesAt c ∧ Tiles f.templated a (textTokens front) c ∧
    Tiles f.templated c (textTokens back) b
  opens : s.markup?.map (·.2) = some .blockStart →
    ∃ i rest, back = i :: rest ∧ i.isMarkerOf .indent = true
  closes : s.markup?.map (·.2) = some .blockEnd →
    ∃ rest d, front = rest ++ [d] ∧ d.isMarkerOf .dedent = true

namespace Around

variable {front back : List Segment} {s x : Segment}

theorem behind_marker (hx : x.isMarker = true) (h : Around f a front s back b) :
    Around f a (x :: front) s back b where
  between := by
    rw [textTokens_cons_marker hx]
    exact h.between
  opens := h.opens
  closes hkind := by
    obtain ⟨rest, d, rfl, hd⟩ := h.closes hkind
    exact ⟨x :: rest, d, rfl, hd⟩

theorem behind_token {q : Position} (text : x.isMarker = false) (placed : x.position = some q)
    (solid : q.templated.start < q.templated.stop)
    (own : q.templated.text? f.templated = some x.raw)
    (h : Around f q.templated.stop front s back b) :
    Around f q.templated.start (x :: front) s back b where
  between := by
    obtain ⟨c, lies, before, after⟩ := h.between
    rw [textTokens_cons_token text]
    exact ⟨c, lies, .cons placed solid own before, after⟩
  opens := h.opens
  closes hkind := by
    obtain ⟨rest, d, rfl, hd⟩ := h.closes hkind
    exact ⟨x :: rest, d, rfl, hd⟩

/-- A placeholder at the start of a stream, with all of its markers. -/
theorem here {p : RenderedSlice} (stands : IsPlaceholderOf f p s)
    (hfront : textTokens front = []) (rest : Tiles f.templated p.templated.start (textTokens back) b)
    (opens : p.kind = .blockStart → ∃ i rest, back = i :: rest ∧ i.isMarkerOf .indent = true)
    (closes : p.kind = .blockEnd → ∃ rest d, front = rest ++ [d] ∧ d.isMarkerOf .dedent = true) :
    Around f p.templated.start front s back b where
  between := ⟨_, stands.liesAt, hfront ▸ .nil _, rest⟩
  opens hkind := by
    obtain ⟨text, -, markup⟩ := stands.markup
    rw [markup] at hkind
    exact opens (Option.some.inj hkind)
  closes hkind := by
    obtain ⟨text, -, markup⟩ := stands.markup
    rw [markup] at hkind
    exact closes (Option.some.inj hkind)

end Around

/-- Wherever a placeholder stands in a stream, the right segments are around it. -/
theorem around (h : f.Stream a ps ss b) {front : List Segment} {s : Segment} {back : List Segment}
    (hss : ss = front ++ s :: back) (hs : s.isMarkerOf .placeholder = true) :
    Around f a front s back b := by
  induction h generalizing front with
  | ending kind _ =>
    rcases List.cons_eq_append_iff.1 hss with ⟨rfl, hback⟩ | ⟨front, rfl, hlater⟩
    · obtain ⟨rfl, rfl⟩ := List.cons.inj hback
      cases isMarkerOf_unique kind hs
    · simp at hlater
  | token text placed solid own _ ih =>
    rcases List.cons_eq_append_iff.1 hss with ⟨rfl, hback⟩ | ⟨front, rfl, hlater⟩
    · obtain ⟨rfl, rfl⟩ := List.cons.inj hback
      rw [isMarkerOf_of_token text] at hs
      cases hs
    · exact (ih hlater).behind_token text placed solid own
  | plain stands start stop rest ih =>
    rcases List.cons_eq_append_iff.1 hss with ⟨rfl, hback⟩ | ⟨front, rfl, hlater⟩
    · obtain ⟨rfl, rfl⟩ := List.cons.inj hback
      exact .here stands rfl rest.tiles (absurd · start) (absurd · stop)
    · exact (ih hlater).behind_marker (isMarker_of_isMarkerOf stands.isMarkerOf)
  | opens stands kind indent _ rest ih =>
    have indent_isMarker := isMarker_of_isMarkerOf indent
    rcases List.cons_eq_append_iff.1 hss with ⟨rfl, hback⟩ | ⟨front, rfl, hlater⟩
    · obtain ⟨rfl, rfl⟩ := List.cons.inj hback
      refine .here stands rfl ?_ (fun _ => ⟨_, _, rfl, indent⟩) (by simp [kind])
      rw [textTokens_cons_marker indent_isMarker]
      exact rest.tiles
    · refine .behind_marker (isMarker_of_isMarkerOf stands.isMarkerOf) ?_
      rcases List.cons_eq_append_iff.1 hlater with ⟨rfl, hback⟩ | ⟨front, rfl, hlast⟩
      · obtain ⟨rfl, rfl⟩ := List.cons.inj hback
        cases isMarkerOf_unique indent hs
      · exact (ih hlast).behind_marker indent_isMarker
  | closes stands kind dedent _ rest ih =>
    have dedent_isMarker := isMarker_of_isMarkerOf dedent
    rcases List.cons_eq_append_iff.1 hss with ⟨rfl, hback⟩ | ⟨front, rfl, hlater⟩
    · obtain ⟨rfl, rfl⟩ := List.cons.inj hback
      cases isMarkerOf_unique dedent hs
    · rcases List.cons_eq_append_iff.1 hlater with ⟨rfl, hback⟩ | ⟨front, rfl, hlast⟩
      · obtain ⟨rfl, rfl⟩ := List.cons.inj hback
        exact .here stands (textTokens_cons_marker dedent_isMarker) rest.tiles (by simp [kind])
          (fun _ => ⟨[], _, rfl, dedent⟩)
      · exact ((ih hlast).behind_marker (isMarker_of_isMarkerOf stands.isMarkerOf)).behind_marker
          dedent_isMarker

/-- Segments start where the walk starts, or later. -/
theorem exists_start (h : f.Stream a ps ss b) :
    ∀ s ∈ ss, ∃ p, s.position = some p ∧ a ≤ p.templated.start := by
  have marker {s : Segment} {c : Nat} (lies : s.LiesAt c) :
      ∃ p, s.position = some p ∧ c ≤ p.templated.start := by
    obtain ⟨p, hp, hpoint⟩ := lies
    exact ⟨p, hp, by rw [hpoint]; exact Nat.le_refl c⟩
  induction h with
  | ending _ lies => simpa using marker lies
  | token _ placed solid _ _ ih =>
    refine List.forall_mem_cons.2 ⟨⟨_, placed, Nat.le_refl _⟩, ?_⟩
    intro s hs
    obtain ⟨p, hp, hle⟩ := ih s hs
    exact ⟨p, hp, by omega⟩
  | plain stands _ _ _ ih => exact List.forall_mem_cons.2 ⟨marker stands.liesAt, ih⟩
  | opens stands _ _ lies _ ih =>
    exact List.forall_mem_cons.2 ⟨marker stands.liesAt, List.forall_mem_cons.2 ⟨marker lies, ih⟩⟩
  | closes stands _ _ lies _ ih =>
    exact List.forall_mem_cons.2 ⟨marker lies, List.forall_mem_cons.2 ⟨marker stands.liesAt, ih⟩⟩

/-- One segment starts no later than another, as far as both have positions. -/
def StartsBefore (s t : Segment) : Prop :=
  ∀ p q, s.position = some p → t.position = some q → p.templated.start ≤ q.templated.start

theorem startsBefore_of_liesAt {s : Segment} {c : Nat} (lies : s.LiesAt c)
    (h : ∀ t ∈ ss, ∃ q, t.position = some q ∧ c ≤ q.templated.start) :
    ∀ t ∈ ss, StartsBefore s t := by
  intro t ht p q hp hq
  obtain ⟨p', hp', hpoint⟩ := lies
  obtain ⟨q', hq', hle⟩ := h t ht
  obtain rfl := Option.some.inj (hp.symm.trans hp')
  obtain rfl := Option.some.inj (hq.symm.trans hq')
  rw [hpoint]
  exact hle

/-- No segment of a stream starts before one that stands in front of it. -/
theorem rising (h : f.Stream a ps ss b) : ss.Pairwise StartsBefore := by
  have start {s : Segment} {c : Nat} (lies : s.LiesAt c) :
      ∃ q, s.position = some q ∧ c ≤ q.templated.start := by
    obtain ⟨p, hp, hpoint⟩ := lies
    exact ⟨p, hp, by rw [hpoint]; exact Nat.le_refl c⟩
  induction h with
  | ending _ _ => exact List.pairwise_singleton _ _
  | token _ placed solid _ rest ih =>
    refine List.pairwise_cons.2 ⟨?_, ih⟩
    intro t ht p q hp hq
    obtain ⟨q', hq', hle⟩ := rest.exists_start t ht
    obtain rfl := Option.some.inj (hp.symm.trans placed)
    obtain rfl := Option.some.inj (hq.symm.trans hq')
    omega
  | plain stands _ _ rest ih =>
    exact List.pairwise_cons.2 ⟨startsBefore_of_liesAt stands.liesAt rest.exists_start, ih⟩
  | opens stands _ _ lies rest ih =>
    refine List.pairwise_cons.2 ⟨startsBefore_of_liesAt stands.liesAt ?_, ?_⟩
    · exact List.forall_mem_cons.2 ⟨start lies, rest.exists_start⟩
    · exact List.pairwise_cons.2 ⟨startsBefore_of_liesAt lies rest.exists_start, ih⟩
  | closes stands _ _ lies rest ih =>
    refine List.pairwise_cons.2 ⟨startsBefore_of_liesAt lies ?_, ?_⟩
    · exact List.forall_mem_cons.2 ⟨start stands.liesAt, rest.exists_start⟩
    · exact List.pairwise_cons.2 ⟨startsBefore_of_liesAt stands.liesAt rest.exists_start, ih⟩

/-- The end of the file is the last segment, and no other. -/
theorem ended (h : f.Stream a ps ss b) : ∃ front last, ss = front ++ [last] ∧
    last.isMarkerOf .endOfFile = true ∧ ∀ s ∈ front, s.isMarkerOf .endOfFile = false := by
  have behind {s : Segment} {ss : List Segment}
      (hs : s.isMarkerOf .endOfFile = false)
      (h : ∃ front last, ss = front ++ [last] ∧ last.isMarkerOf .endOfFile = true ∧
        ∀ s ∈ front, s.isMarkerOf .endOfFile = false) :
      ∃ front last, s :: ss = front ++ [last] ∧ last.isMarkerOf .endOfFile = true ∧
        ∀ s ∈ front, s.isMarkerOf .endOfFile = false := by
    obtain ⟨front, last, rfl, hlast, hfront⟩ := h
    exact ⟨s :: front, last, rfl, hlast, List.forall_mem_cons.2 ⟨hs, hfront⟩⟩
  induction h with
  | ending kind _ => exact ⟨[], _, rfl, kind, by simp⟩
  | token text _ _ _ _ ih => exact behind (isMarkerOf_of_token text _) ih
  | plain stands _ _ _ ih => exact behind (isMarkerOf_eq_false stands.isMarkerOf nofun) ih
  | opens stands _ indent _ _ ih =>
    exact behind (isMarkerOf_eq_false stands.isMarkerOf nofun)
      (behind (isMarkerOf_eq_false indent nofun) ih)
  | closes stands _ dedent _ _ ih =>
    exact behind (isMarkerOf_eq_false dedent nofun)
      (behind (isMarkerOf_eq_false stands.isMarkerOf nofun) ih)

/-- A stream of all points shows the markup of the file. -/
theorem showsMarkup (h : f.Stream 0 f.points ss f.length) : f.ShowsMarkup ss where
  placeholders := h.placeholders
  between _ _ _ hss hs := (h.around hss hs).between
  opens _ _ _ hss hs := (h.around hss hs).opens
  closes _ _ _ hss hs := (h.around hss hs).closes
  placed s hs := by
    obtain ⟨p, hp, -⟩ := h.exists_start s hs
    exact Option.isSome_iff_exists.2 ⟨p, hp⟩
  rising := h.rising
  ended := h.ended

/-- Segments with the same signs make the same stream. -/
theorem map {change : Segment → Segment} (same : ∀ s, SameSign s (change s))
    (h : f.Stream a ps ss b) : f.Stream a ps (ss.map change) b := by
  have kind {k : MarkerKind} {s : Segment} (hs : s.isMarkerOf k = true) :
      (change s).isMarkerOf k = true := ((same s).isMarkerOf k).trans hs
  have lies {c : Nat} {s : Segment} (hs : s.LiesAt c) : (change s).LiesAt c := by
    rwa [LiesAt, (same s).position]
  have stands {p : RenderedSlice} {s : Segment} (hs : IsPlaceholderOf f p s) :
      IsPlaceholderOf f p (change s) :=
    ⟨kind hs.isMarkerOf, by rw [(same s).markup]; exact hs.markup,
      by rw [(same s).position]; exact hs.source, lies hs.liesAt⟩
  induction h with
  | ending hkind hlies => exact .ending (kind hkind) (lies hlies)
  | @token q t _ _ _ text placed solid own _ ih =>
    exact .token ((same t).isMarker.trans text) ((same t).position.trans placed) solid
      ((same t).raw ▸ own) ih
  | plain hstands start stop _ ih => exact .plain (stands hstands) start stop ih
  | opens hstands hkind indent hlies _ ih =>
    exact .opens (stands hstands) hkind (kind indent) (lies hlies) ih
  | closes hstands hkind dedent hlies _ ih =>
    exact .closes (stands hstands) hkind (kind dedent) (lies hlies) ih

end TemplatedFile.Stream

/-! ## 3. The stream of the tokenizer -/

variable {n : Nat} {f : TemplatedFile}

/-- A marker of markup has its sign where it is put. -/
theorem meets_templateMarker_sign (k : MarkerKind) (text : String) (block : SliceKind) (q : Position) :
    Meets (n ≤ ·) (Segment.templateMarker k text block (some q)) fun s =>
      s.isMarkerOf k = true ∧ s.markup? = some (text, block) ∧ s.position = some q :=
  meets_freshId.bind fun _ _ => .pure
    ⟨by simp [isMarkerOf, marker?, Segment.kind, Segment.info], rfl, rfl⟩

/-- The markers of a slice take it off the points to come. -/
theorem meets_markup_stream {p : RenderedSlice} (htext : (p.source.text? f.source).isSome = true) :
    Meets (n ≤ ·) (f.markup p) fun ss => ∀ ps ts b, f.Stream p.templated.start ps ts b →
      f.Stream p.templated.start (p :: ps) (ss ++ ts) b := by
  obtain ⟨text, htext⟩ := Option.isSome_iff_exists.1 htext
  unfold TemplatedFile.markup
  refine (meets_templateMarker_sign _ _ _ _).bind ?_
  rintro whole ⟨hkind, hmarkup, hposition⟩
  have stands : IsPlaceholderOf f p whole :=
    ⟨hkind, ⟨text, htext, by rw [hmarkup, htext]; rfl⟩, by rw [hposition]; rfl,
      _, hposition, rfl⟩
  cases hp : p.kind with
  | blockStart =>
    refine (meets_templateMarker_sign _ _ _ _).bind ?_
    rintro i ⟨indent, -, lies⟩
    exact .pure fun ps ts b rest => .opens stands hp indent ⟨_, lies, rfl⟩ rest
  | blockEnd =>
    refine (meets_templateMarker_sign _ _ _ _).bind ?_
    rintro d ⟨dedent, -, lies⟩
    exact .pure fun ps ts b rest => .closes stands hp dedent ⟨_, lies, rfl⟩ rest
  | literal | templated | comment =>
    exact .pure fun ps ts b rest => .plain stands (by simp [hp]) (by simp [hp]) rest

/-- The token of a lexeme takes its text. -/
theorem meets_text_stream {start : Nat} {l : Lexeme} (solid : l.text ≠ [])
    (own : (Piece.span start l).text? f.templated = some (String.ofList l.text)) :
    Meets (n ≤ ·) ((Piece.text start l).segments f) fun ss => ∀ ps ts b,
      f.Stream (start + byteCount l.text) ps ts b → f.Stream start ps (ss ++ ts) b := by
  refine meets_freshId.bind fun id _ => .pure ?_
  intro ps ts b rest
  have hwidth : start < start + byteCount l.text :=
    Nat.lt_add_of_pos_right (Nat.pos_of_ne_zero fun h => solid (byteCount_eq_zero_iff.1 h))
  have hposition := templated_tokenPosition f (Piece.span start l)
  have first := TemplatedFile.Stream.token (f := f) (q := f.tokenPosition (Piece.span start l))
    (t := .mk ⟨.token (String.ofList l.text) l.flags none, l.type, [l.type], id,
      some (f.tokenPosition (Piece.span start l)), []⟩ []) rfl rfl
    (by rw [hposition]; exact hwidth) (by rw [hposition, own, Segment.raw])
    (by rw [hposition]; exact rest)
  rwa [hposition] at first

/-- Pieces one after the other make a stream, up to the end of the file. -/
theorem meets_mapM_segments_stream {a b : Nat} {pieces : List Piece}
    (h : Piece.Tile f.templated a pieces b)
    (texts : ∀ p ∈ pieces.filterMap Piece.markup?, (p.source.text? f.source).isSome = true) :
    Meets (n ≤ ·) (pieces.mapM (·.segments f)) fun woven => ∀ last : Segment,
      last.isMarkerOf .endOfFile = true → last.LiesAt b →
        f.Stream a (pieces.filterMap Piece.markup?) (woven.flatten ++ [last]) b := by
  induction h with
  | nil n => exact .pure fun last kind lies => .ending kind lies
  | lexeme solid own _ ih =>
    rw [List.mapM_cons]
    refine (meets_text_stream solid own).bind fun ss hss => (ih texts).bind fun later hlater => .pure ?_
    intro last kind lies
    rw [List.flatten_cons, List.append_assoc]
    exact hss _ _ _ (hlater last kind lies)
  | markup cut _ ih =>
    obtain ⟨own, texts⟩ := List.forall_mem_cons.1 texts
    rw [List.mapM_cons]
    refine (meets_markup_stream own).bind fun ss hss => (ih texts).bind fun later hlater => .pure ?_
    intro last kind lies
    rw [List.flatten_cons, List.append_assoc]
    exact hss _ _ _ (hlater last kind lies)

/-- Blocks that do not indent make the same stream. -/
theorem stream_indentBlocks {ss : List Segment} (h : f.Stream 0 f.points ss f.length)
    (indents : Bool) : f.Stream 0 f.points (indentBlocks ss indents) f.length := by
  cases indents with
  | true => exact h
  | false =>
    refine h.map fun s => ?_
    split
    · exact sameSign_withIndentation s 0
    · exact .refl s

/-- The tokens of a file are a stream of its points, if those lie between characters. -/
theorem stream_lex (rules : List LexRule) (blocks : BlocksIndent)
    (cuts : ∀ p ∈ f.points, (dropBytes? f.templated.toList p.templated.start).isSome)
    (texts : ∀ p ∈ f.points, (p.source.text? f.source).isSome = true) :
    Meets (n ≤ ·) (lex rules blocks f) fun l => f.Stream 0 f.points l.segments f.length := by
  have inText : ∀ p ∈ f.points, p.templated.start ≤ f.length := by
    intro p hp
    have := ((bounds_of_renderedTiling? f.slices_tile).2 p (List.mem_filter.1 hp).1).2
    exact Nat.le_trans p.templated.start_le_stop this
  have tile : Piece.Tile f.templated 0 (f.pieces rules) f.length :=
    tile_weave (by rw [text_scan, List.nil_append]) byteCount_nil (pointsFrom_points cuts) inText
  have woven : (f.pieces rules).filterMap Piece.markup? = f.points :=
    Piece.filterMap_markup?_weave ..
  have stream := meets_mapM_segments_stream (n := n) tile (by rwa [woven])
  rw [woven] at stream
  unfold lex
  exact stream.bind fun segments hsegments => meets_freshId.bind fun id _ =>
    .pure (stream_indentBlocks (hsegments _ rfl ⟨_, rfl, rfl⟩) _)

/-- Among the tokens of a template, whatever the rules of the tokenizer are, each tag or comment
that renders no text has its placeholder at its place. -/
theorem showsMarkup_lex {values : List (String × String)} {source name : String}
    (hfile : (Templater.placeholder values).process source name = .ok f)
    (rules : List LexRule) (blocks : BlocksIndent) (n : Nat) :
    f.ShowsMarkup ((lex rules blocks f).run n).1.segments := by
  obtain ⟨ms, bs, hrenders⟩ := Templater.exists_renders hfile
  have cuts : ∀ p ∈ f.points, (dropBytes? f.templated.toList p.templated.start).isSome := by
    intro p hp
    exact hrenders.isSome_dropBytes? (List.mem_filter.1 hp).1
  have texts : ∀ p ∈ f.points, (p.source.text? f.source).isSome = true := by
    intro p hp
    obtain ⟨l, hl, -, hspan⟩ := hrenders.exists_raw (List.mem_filter.1 hp).1
    rw [← hspan, TemplatedFile.text?_span_of_mem_raw hl]
    rfl
  exact (stream_lex rules blocks cuts texts n (Nat.le_refl n)).1.showsMarkup

/-- A comment inside of a word, and a block around another one. -/
def insideSource : String := "SEL{# c #}ECT{% if a %}, 1{% endif %}"

/-- The file of the template. -/
def insideFile : TemplatedFile := rendered [("a", "x")] insideSource

theorem points_insideFile :
    ((Templater.placeholder [("a", "x")]).process insideSource "").isOk = true ∧
      insideFile.points.map (fun p => (p.kind, p.templated.start)) =
        [(.comment, 3), (.blockStart, 6), (.blockEnd, 9)] := by
  decide +kernel

/-- The comment cuts the word in two, and the tags stand around the rest. -/
theorem showsMarkup_lex_inside :
    (Templater.placeholder [("a", "x")]).process insideSource "" = .ok insideFile ∧
      insideFile.points.map (fun p => (p.kind, p.templated.start)) =
        [(.comment, 3), (.blockStart, 6), (.blockEnd, 9)] ∧
      insideFile.ShowsMarkup ((lex Ansi.symbolRules .enabled insideFile).run 0).1.segments := by
  have hfile := process_eq_rendered points_insideFile.1
  exact ⟨hfile, points_insideFile.2, showsMarkup_lex hfile Ansi.symbolRules .enabled 0⟩

end QueryLint
