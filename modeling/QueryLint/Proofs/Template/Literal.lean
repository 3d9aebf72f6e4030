import Mathlib.Data.List.Chain
import QueryLint.Proofs.Template.Consistent
import QueryLint.Proofs.Template.Point
import QueryLint.Proofs.Template.Spelled

/-!
QueryLint.Proofs.Template.Literal — literal source, and the text that it stands for.

A span of the source is literal if it touches literal slices only. Two of these never meet, since
text up to the next tag is one slice. So what is literal lies in one slice.

This says of a span of the templated text that it has literal source, but not that the source is
its text. The text may come from several passes of a loop over the same slice, and then its source
is what is between its ends in that slice, or the slice itself. It is the text itself exactly if
the span is in one rendered slice, which is so exactly if no loop turns in it.

* `TemplatedFile.isLiteralSource_eq` — the slices that make a span literal.
* `TemplatedFile.rawSpanning_exact` — the queries on a span answer for the slices that share a byte
  with it.
* `Templater.Renders.exists_literal` — literal source lies in one slice.
* `TemplatedFile.TurnsIn` — a loop turns in a span.
* `Templater.Renders.text?_source_iff` — literal source is the text exactly if no loop turns in it.
-/

namespace QueryLint

open Text Markup Block

/-! ## 1. Literal slices do not meet -/

namespace Markup

/-- No two pieces of text meet. -/
def TextApart (ps : List (Shape × List Char)) : Prop :=
  ps.IsChain fun p q => ¬ (p.1 = .text ∧ q.1 = .text)

theorem textApart_consText (cs : List Char) {ps : List (Shape × List Char)} (h : TextApart ps) :
    TextApart (consText cs ps) := by
  match ps with
  | [] => exact .singleton _
  | (.text, _) :: _ => exact List.isChain_cons.2 (List.isChain_cons.1 h)
  | (.expression, _) :: _ | (.statement, _) :: _ | (.comment, _) :: _ =>
    exact List.isChain_cons_cons.2 ⟨by simp, h⟩

/-- Text up to the next tag is one piece. -/
theorem textApart_pieces (cs : List Char) : TextApart (pieces cs) := by
  fun_induction pieces cs with
  | case1 => exact .nil
  | case2 => exact .singleton _
  | case3 d ds hd ih => exact textApart_consText _ ih
  | case4 d ds shape sign hd hnone => exact .singleton _
  | case5 d ds shape sign hd inside after hsome _ ih =>
    refine List.isChain_cons.2 ⟨?_, ih⟩
    rintro p - ⟨rfl, -⟩
    exact tagShape?_ne_text hd
  | case6 c cs hc ih => exact textApart_consText _ ih

end Markup

/-- No two literal slices meet. -/
def RawSlice.LiteralApart (ss : List RawSlice) : Prop :=
  ss.IsChain fun s t => ¬ (s.kind.isLiteral = true ∧ t.kind.isLiteral = true)

theorem Markup.literalApart_marksFrom {offset block : Nat} {ps : List (Shape × List Char)}
    {ms : List Marked} (h : marksFrom offset block ps = .ok ms) (hps : TextApart ps) :
    RawSlice.LiteralApart (ms.map (·.slice)) := by
  induction ps generalizing offset block ms with
  | nil =>
    rw [marksFrom, Except.ok.injEq] at h
    rw [← h]
    exact .nil
  | cons p ps ih =>
    obtain ⟨m, next, later, rfl, hread, hagrees, -, -, hlater⟩ := exists_of_marksFrom_cons h
    obtain ⟨hhead, htail⟩ := List.isChain_cons.1 hps
    refine List.isChain_cons.2 ⟨fun s hs hboth => ?_, ih hlater htail⟩
    have own : p.1 = .text := shape_of_kind hread (hagrees.kind_eq ▸ hboth.1)
    cases ps with
    | nil =>
      rw [marksFrom, Except.ok.injEq] at hlater
      rw [← hlater] at hs
      cases hs
    | cons q ps =>
      obtain ⟨m', _, _, rfl, hread', hagrees', -⟩ := exists_of_marksFrom_cons hlater
      obtain rfl := Option.some.inj hs
      exact hhead q rfl ⟨own, shape_of_kind hread' (hagrees'.kind_eq ▸ hboth.2)⟩

/-! ## 2. Literal source -/

namespace TemplatedFile

variable {f : TemplatedFile} {s : Span}

theorem literalFrom_append {sofar : Bool} {before : List RawSlice} {first : RawSlice}
    (rest : List RawSlice) (hbefore : ∀ t ∈ before, t.start ≤ s.start)
    (hfirst : first.start ≤ s.start) :
    literalFrom s sofar (before ++ first :: rest) = literalFrom s first.kind.isLiteral rest := by
  induction before generalizing sofar with
  | nil => rw [List.nil_append, literalFrom, if_pos hfirst]
  | cons t before ih =>
    obtain ⟨ht, hbefore⟩ := List.forall_mem_cons.1 hbefore
    rw [List.cons_append, literalFrom, if_pos ht, ih hbefore]

theorem literalFrom_behind {sofar : Bool} {rest : List RawSlice}
    (hrest : ∀ t ∈ rest, s.start < t.start) :
    literalFrom s sofar rest =
      (sofar && (rest.takeWhile (·.start < s.stop)).all (·.kind.isLiteral)) := by
  induction rest generalizing sofar with
  | nil => simp [literalFrom]
  | cons t rest ih =>
    obtain ⟨ht, hrest⟩ := List.forall_mem_cons.1 hrest
    rw [literalFrom, if_neg (by omega)]
    by_cases hstop : s.stop ≤ t.start
    · rw [if_pos hstop, List.takeWhile_cons_of_neg (by simpa using hstop)]
      simp
    · rw [if_neg hstop, ih hrest, List.takeWhile_cons_of_pos (by simpa using hstop), List.all_cons,
        Bool.and_assoc]

/-- A span of the source with text is literal if all slices that it touches are. -/
theorem isLiteralSource_eq (hs : s.start < s.stop) (hin : s.start < f.source.utf8ByteSize) :
    f.isLiteralSource s = (f.rawSpanning s).all (·.kind.isLiteral) := by
  rcases f.rawSpanning_spec s with
    ⟨hbeyond, -⟩ | ⟨before, first, rest, hraw, hspan, hbefore, hfirst, hrest⟩
  · omega
  · have solid : s.isEmpty = false := by
      rw [Bool.eq_false_iff, Ne, Span.isEmpty_iff]
      omega
    have starts : ∀ t ∈ before, t.start ≤ s.start := fun t ht =>
      Nat.le_trans t.start_le_stop (hbefore t ht)
    rw [isLiteralSource, solid, hspan, hraw, literalFrom_append rest starts hfirst,
      literalFrom_behind hrest]
    simp

/-- A span with text is literal source exactly if every slice that shares a byte with it is. -/
theorem rawSpanning_exact (htext : ∀ t ∈ f.raw, t.text ≠ "") :
    (∀ s : Span, s.start < s.stop → s.stop ≤ f.source.utf8ByteSize →
      f.rawSpanning s = f.raw.filter (0 < ·.shared s) ∧
      (f.isLiteralSource s = true ↔ ∀ t ∈ f.raw, 0 < t.shared s → t.kind = .literal)) ∧
    ∀ p < f.source.utf8ByteSize, ∃ t, f.rawSpanning (.point p) = [t] ∧
      f.raw.filter (fun t => t.start ≤ p ∧ p < t.stop) = [t] := by
  have solid : ∀ t ∈ f.raw, t.start < t.stop := by
    intro t ht
    have : t.text.utf8ByteSize ≠ 0 := fun hzero =>
      htext t ht (String.utf8ByteSize_eq_zero_iff.1 hzero)
    unfold RawSlice.stop
    omega
  constructor
  · intro s hs hin
    have spanned := rawSpanning_eq_filter solid hs hin
    refine ⟨spanned, ?_⟩
    rw [isLiteralSource_eq hs (by omega), spanned]
    simp only [List.all_eq_true, List.mem_filter, decide_eq_true_eq, and_imp, SliceKind.isLiteral,
      beq_iff_eq]
  · intro p hp
    exact rawSpanning_point hp

/-- An expression between literal text. -/
def columnSource : String := "SELECT \x7b\x7b col \x7d\x7d ,b"

/-- The file of the template. -/
def columnFile : TemplatedFile := rendered [("col", "a")] columnSource

/-- A span that starts in literal text and stops with the expression touches both. -/
theorem rawSpanning_exact_column :
    (∀ t ∈ columnFile.raw, t.text ≠ "") ∧
      columnFile.rawSpanning ⟨6, 16, by decide⟩ = columnFile.raw.take 2 ∧
      columnFile.isLiteralSource ⟨6, 16, by decide⟩ = false ∧
      columnFile.isLiteralSource ⟨16, 18, by decide⟩ = true := by
  have texts : ∀ t ∈ columnFile.raw, t.text ≠ "" := by decide +kernel
  obtain ⟨exact_spans, -⟩ := rawSpanning_exact texts
  have mixed := exact_spans ⟨6, 16, by decide⟩ (by decide) (by decide +kernel)
  have behind := exact_spans ⟨16, 18, by decide⟩ (by decide) (by decide +kernel)
  refine ⟨texts, mixed.1.trans (by decide +kernel), ?_, behind.2.2 (by decide +kernel)⟩
  rw [Bool.eq_false_iff]
  exact fun h => absurd (mixed.2.1 h) (by decide +kernel)

end TemplatedFile

namespace Templater.Renders

variable {values : List (String × String)} {source : String} {f : TemplatedFile}
  {ms : List Marked} {bs : List Block} {s : Span}

theorem literalApart (h : Renders values source f ms bs) : RawSlice.LiteralApart f.raw := by
  rw [h.raw_eq]
  exact literalApart_marksFrom h.marks_eq (textApart_pieces source.toList)

/-- Literal source with text touches one literal slice and no other. -/
theorem exists_literal (h : Renders values source f ms bs) (hs : s.start < s.stop)
    (hin : s.start < f.source.utf8ByteSize) (hliteral : f.isLiteralSource s = true) :
    ∃ l ∈ f.raw, l.kind.isLiteral = true ∧ ∀ l' ∈ f.raw, l'.Overlaps s → l' = l := by
  rw [TemplatedFile.isLiteralSource_eq hs hin] at hliteral
  rcases f.rawSpanning_spec s with ⟨hbeyond, -⟩ | ⟨before, first, rest, hraw, hspan, -⟩
  · omega
  · have apart := h.literalApart
    rw [hraw] at apart
    rw [hspan, List.all_cons, Bool.and_eq_true] at hliteral
    -- The slice behind a literal one is none, so the span does not touch it.
    have alone : rest.takeWhile (·.start < s.stop) = [] := by
      cases rest with
      | nil => rfl
      | cons next rest =>
        have meets := (List.isChain_cons_cons.1 (List.isChain_append.1 apart).2.1).1
        by_cases hnear : next.start < s.stop
        · rw [List.takeWhile_cons_of_pos (by simpa using hnear), List.all_cons,
            Bool.and_eq_true] at hliteral
          exact absurd ⟨hliteral.1, hliteral.2.1⟩ meets
        · exact List.takeWhile_cons_of_neg (by simpa using hnear)
    refine ⟨first, by simp [hraw], hliteral.1, fun l' hl' hoverlaps => ?_⟩
    have touched := TemplatedFile.mem_rawSpanning hl' hoverlaps
    rw [hspan, alone] at touched
    exact List.mem_singleton.1 touched

/-- A rendered slice comes from a raw slice of its kind. -/
theorem exists_raw (h : Renders values source f ms bs) {t : RenderedSlice} (ht : t ∈ f.slices) :
    ∃ l ∈ f.raw, l.kind = t.kind ∧ l.span = t.source := by
  have one := h.isConsistent.origin t ht
  obtain ⟨l, hl, hsame⟩ := List.countP_pos_iff.1 (Nat.lt_of_lt_of_eq Nat.zero_lt_one one.symm)
  exact ⟨l, hl, of_decide_eq_true hsame⟩

theorem source_solid (h : Renders values source f ms bs) {t : RenderedSlice} (ht : t ∈ f.slices) :
    t.source.start < t.source.stop := by
  obtain ⟨l, hl, -, hspan⟩ := h.exists_raw ht
  rw [← hspan]
  exact h.start_lt_stop l hl

/-- All rendered slices with a part of some literal source have the same source. -/
theorem exists_source_of_literal (h : Renders values source f ms bs) (hs : s.start < s.stop)
    (hliteral : f.isLiteralSource s = true) {u : RenderedSlice} (hu : u ∈ f.slices)
    (hstart : s.start < u.source.stop) :
    ∃ l : Span, ∀ t ∈ f.slices, t.source.start < s.stop → s.start < t.source.stop →
      t.kind.isLiteral = true ∧ t.source = l := by
  obtain ⟨l', hl', -, hspan'⟩ := h.exists_raw hu
  rw [← hspan'] at hstart
  have inSource : s.start < f.source.utf8ByteSize :=
    Nat.lt_of_lt_of_le hstart (f.raw_tiles.bounds l' hl').2
  obtain ⟨l, -, hkind, hall⟩ := h.exists_literal hs inSource hliteral
  refine ⟨l.span, fun t ht hlow hhigh => ?_⟩
  obtain ⟨own, hown, hsame, hspan⟩ := h.exists_raw ht
  rw [← hspan] at hlow hhigh ⊢
  obtain rfl := hall own hown ⟨hhigh, hlow⟩
  exact ⟨hsame ▸ hkind, rfl⟩

end Templater.Renders

/-! ## 3. The widest source of a span -/

namespace TemplatedFile

variable {f : TemplatedFile} {r s : Span}

/-- The widest source of a span is that of its slices, if they have the same. -/
theorem widest_eq {l : Span} (hr : r.start < r.stop) {t : RenderedSlice} (ht : t ∈ f.slices)
    (hlow : t.templated.start < r.stop) (hhigh : r.start < t.templated.stop)
    (hall : ∀ u ∈ f.slices, u.templated.start < r.stop → r.start < u.templated.stop →
      u.source = l) : f.widest r.start r.stop = l := by
  have fold (ts : List RenderedSlice) (hts : ∀ u ∈ ts, u.source = l) :
      ts.foldl (fun acc u => acc.cover u.source) l = l := by
    induction ts with
    | nil => rfl
    | cons u ts ih =>
      obtain ⟨hu, hts⟩ := List.forall_mem_cons.1 hts
      rw [List.foldl_cons, hu, show l.cover l = l by simp [Span.cover]]
      exact ih hts
  have touched {u : RenderedSlice} : u ∈ f.slices.filter (fun u =>
      decide (u.templated.start < r.stop) && decide (r.start < u.templated.stop)) ↔
      u ∈ f.slices ∧ u.templated.start < r.stop ∧ r.start < u.templated.stop := by
    simp [List.mem_filter]
  unfold widest
  simp only [if_neg (Nat.ne_of_lt hr)]
  split
  · next hnone =>
    rw [hnone] at touched
    cases touched.2 ⟨ht, hlow, hhigh⟩
  · next u rest hsome =>
    rw [hsome] at touched
    have same : ∀ v ∈ u :: rest, v.source = l := fun v hv =>
      hall v (touched.1 hv).1 (touched.1 hv).2.1 (touched.1 hv).2.2
    obtain ⟨hu, hrest⟩ := List.forall_mem_cons.1 same
    rw [hu]
    exact fold rest hrest

/-! ## 4. Turns in a span -/

/-- A loop turns inside of a span: what it renders before the turn and behind it is in the span. -/
def TurnsIn (f : TemplatedFile) (r : Span) : Prop :=
  ∃ x y, f.TurnsAt x y ∧ r.start < y.templated.start ∧ y.templated.start < r.stop

/-- Without a turn in a span, its slices come in the order of their sources. -/
theorem source_le_of_not_turnsIn (hturns : ¬ f.TurnsIn r) {x y : RenderedSlice}
    {before middle after : List RenderedSlice}
    (hvisible : f.visible = before ++ x :: (middle ++ y :: after))
    (hx : r.start < x.templated.stop) (hy : y.templated.start < r.stop) :
    x.source.stop ≤ y.source.start := by
  induction middle generalizing before x with
  | nil =>
    have sorted := pairwise_visible (f := f)
    rw [hvisible, List.nil_append, List.pairwise_append, List.pairwise_cons] at sorted
    have := sorted.2.1.1 y (List.mem_cons_self ..)
    refine Nat.not_lt.1 fun hback => hturns ⟨x, y, ⟨⟨before, after, hvisible⟩, hback⟩, ?_, hy⟩
    omega
  | cons u middle ih =>
    have sorted := pairwise_visible (f := f)
    rw [hvisible, List.pairwise_append, List.cons_append, List.pairwise_cons,
      List.pairwise_cons] at sorted
    obtain ⟨-, ⟨hnext, hlater, -⟩, -⟩ := sorted
    have behind := hnext u (List.mem_cons_self ..)
    have before_y := hlater y (by simp)
    have := u.templated.start_le_stop
    have := u.source.start_le_stop
    have first : x.source.stop ≤ u.source.start := by
      refine Nat.not_lt.1 fun hback => hturns
        ⟨x, u, ⟨⟨before, middle ++ y :: after, hvisible⟩, hback⟩, ?_, ?_⟩ <;> omega
    have rest := ih (show f.visible = (before ++ [x]) ++ u :: (middle ++ y :: after) by
      simpa using hvisible) (by omega)
    omega

namespace Framed

variable {first last : RenderedSlice}

/-- A turn in a span lies between its first and its last slice. -/
theorem ne_of_turnsIn (hframe : f.Framed r s first last) (hturns : f.TurnsIn r) :
    first ≠ last := by
  rintro rfl
  obtain ⟨x, y, hxy, hlow, hhigh⟩ := hturns
  obtain ⟨before, after, hvisible⟩ := hxy.next
  have hy := mem_visible.1 (hvisible ▸ by simp : y ∈ f.visible)
  have := hframe.starts
  have := hframe.stops
  obtain rfl := slices_eq_of_lt hframe.first_mem hy.1 (by omega) (by omega)
  omega

/-- The first slice of a span is the last one, or comes before it. -/
theorem eq_or_before (hframe : f.Framed r s first last) (hr : r.start < r.stop) :
    first = last ∨ first.templated.stop ≤ last.templated.start := by
  have := hframe.starts
  have := hframe.stops
  rcases slices_eq_or_apart hframe.first_mem hframe.last_mem with rfl | hbefore | hbehind
  · exact .inl rfl
  · exact .inr hbefore
  · omega

/-- Where a loop turns in no part of a span, the last slice has its source behind the first. -/
theorem source_le (hframe : f.Framed r s first last)
    (hbefore : first.templated.stop ≤ last.templated.start) (hturns : ¬ f.TurnsIn r) :
    first.source.stop ≤ last.source.start := by
  have hstarts := hframe.starts
  have hstops := hframe.stops
  have hfirst := mem_visible.2 ⟨hframe.first_mem, by omega⟩
  have hlast := mem_visible.2 ⟨hframe.last_mem, by omega⟩
  have sorted := pairwise_visible (f := f)
  obtain ⟨before, after, hvisible⟩ := List.append_of_mem hfirst
  rw [hvisible] at hlast sorted
  rcases List.mem_append.1 hlast with hlast | hlast
  · have := (List.pairwise_append.1 sorted).2.2 last hlast first (List.mem_cons_self ..)
    omega
  · rcases List.mem_cons.1 hlast with rfl | hlast
    · omega
    · obtain ⟨middle, rest, rfl⟩ := List.append_of_mem hlast
      exact source_le_of_not_turnsIn hturns hvisible hstarts.2 hstops.1

end Framed

end TemplatedFile

/-! ## 5. Text with literal source -/

/-- Text within a part of a text is the same as in another text with the same part. -/
theorem Span.text?_of_within {one two whole text : String} {a b r s : Span}
    (ha : a.text? one = some whole) (hb : b.text? two = some whole) (hr : b.Contains r)
    (hstart : s.start = a.start + (r.start - b.start))
    (hstop : s.stop = a.start + (r.stop - b.start))
    (htext : r.text? two = some text) : s.text? one = some text := by
  obtain ⟨front, back, hone, hfront, -⟩ := slice?_eq_some_iff.1 ha
  obtain ⟨front', back', htwo, hfront', hback'⟩ := slice?_eq_some_iff.1 hb
  obtain ⟨left, right, hcut, hleft, hright⟩ := slice?_eq_some_iff.1 htext
  obtain ⟨hlow, hhigh⟩ := hr
  obtain ⟨c, d, hwhole, rfl, -⟩ := exists_append_of_within htwo hcut (by omega)
    (by rw [byteCount_toList, byteCount_toList]; omega)
  rw [byteCount_append] at hleft
  refine slice?_eq_some_iff.2 ⟨front ++ c, d ++ back, ?_, ?_, ?_⟩
  · rw [hone, hwhole]
    simp
  · rw [byteCount_append]
    omega
  · omega

namespace Templater.Renders

variable {values : List (String × String)} {source : String} {f : TemplatedFile}
  {ms : List Marked} {bs : List Block} {r s : Span} {first last : RenderedSlice}

theorem verbatim (h : Renders values source f ms bs) : f.Verbatim := by
  intro t ht hkind
  obtain ⟨text, hsource, htemplated⟩ :=
    h.isConsistent.verbatim t ht (by simpa [SliceKind.isLiteral] using hkind)
  have := (le_of_slice? hsource).1
  have := (le_of_slice? htemplated).1
  unfold Span.length
  omega

/-- The source of a span starts before its first slice stops, and stops behind the start of its
last slice. -/
theorem source_between (h : Renders values source f ms bs) (hframe : f.Framed r s first last) :
    first.source.start + (r.start - first.templated.start) < first.source.stop ∧
      last.source.start < last.source.stop - (last.templated.stop - r.stop) := by
  have hstarts := hframe.starts
  have hstops := hframe.stops
  have hsolid := h.source_solid hframe.first_mem
  have hsolid' := h.source_solid hframe.last_mem
  constructor
  · rcases hframe.whole_start with hkind | hown
    · have hsame := h.verbatim first hframe.first_mem hkind
      unfold Span.length at hsame
      omega
    · omega
  · rcases hframe.whole_stop with hkind | hown
    · have hsame := h.verbatim last hframe.last_mem hkind
      unfold Span.length at hsame
      omega
    · omega

/-- The source of a span in one slice is its text, if it is literal. -/
theorem text?_of_framed (h : Renders values source f ms bs) {t : RenderedSlice}
    (hframe : f.Framed r s t t) (hr : r.start < r.stop) (hliteral : f.isLiteralSource s = true)
    {text : String} (htext : r.text? f.templated = some text) :
    s.text? f.source = some text := by
  have hstarts := hframe.starts
  have hstops := hframe.stops
  have hsolid := h.source_solid hframe.first_mem
  have hkind : t.kind.isLiteral = true := by
    by_contra hother
    -- An expression is taken whole, so that its tag would be literal.
    have hstart := hframe.whole_start.resolve_left hother
    have hstop := hframe.whole_stop.resolve_left hother
    rcases hframe.source with ⟨hs, hs'⟩ | ⟨hlt, -⟩
    · obtain ⟨l, hl⟩ := h.exists_source_of_literal (by omega) hliteral hframe.first_mem (by omega)
      exact hother (hl t hframe.first_mem (by omega) (by omega)).1
    · omega
  have hsame := h.verbatim t hframe.first_mem hkind
  unfold Span.length at hsame
  obtain ⟨whole, hsource, htemplated⟩ :=
    h.isConsistent.verbatim t hframe.first_mem (by simpa [SliceKind.isLiteral] using hkind)
  rcases hframe.source with ⟨hs, hs'⟩ | ⟨hlt, -⟩
  · exact Span.text?_of_within hsource htemplated ⟨hstarts.1, hstops.2⟩ hs (by omega) htext
  · omega

/-- If the ends of a span in several slices are in order in the source, then what is between them
is part of the slice that both come from, and shorter than the span. -/
theorem length_ne_of_ordered (h : Renders values source f ms bs)
    (hframe : f.Framed r s first last)
    (hbefore : first.templated.stop ≤ last.templated.start) (hliteral : f.isLiteralSource s = true)
    (hs : s.start = first.source.start + (r.start - first.templated.start))
    (hs' : s.stop = last.source.stop - (last.templated.stop - r.stop)) : s.length ≠ r.length := by
  have hstarts := hframe.starts
  have hstops := hframe.stops
  obtain ⟨hlow, hhigh⟩ := h.source_between hframe
  rw [← hs] at hlow
  rw [← hs'] at hhigh
  unfold Span.length
  intro hlength
  obtain ⟨l, hl⟩ := h.exists_source_of_literal (by omega) hliteral hframe.first_mem hlow
  obtain ⟨hkind, hsource⟩ := hl first hframe.first_mem (by omega) hlow
  obtain ⟨hkind', hsource'⟩ := hl last hframe.last_mem hhigh (by omega)
  have hsame := h.verbatim first hframe.first_mem hkind
  have hsame' := h.verbatim last hframe.last_mem hkind'
  unfold Span.length at hsame hsame'
  rw [hsource] at hs hsame
  rw [hsource'] at hs' hsame'
  omega

/-- If the ends of a span are not in order in the source, then its source is the slice that
everything in it comes from. The span is longer, or shorter if it has parts of two passes only. -/
theorem length_ne_of_turned (h : Renders values source f ms bs)
    (hframe : f.Framed r s first last)
    (hbefore : first.templated.stop ≤ last.templated.start) (hliteral : f.isLiteralSource s = true)
    (hlt : last.source.stop - (last.templated.stop - r.stop) <
      first.source.start + (r.start - first.templated.start))
    (hwide : s = f.widest r.start r.stop) : s.length ≠ r.length := by
  have hstarts := hframe.starts
  have hstops := hframe.stops
  have hsolid := h.source_solid hframe.first_mem
  have contains {t : RenderedSlice} (ht : t ∈ f.slices) (hlow : t.templated.start < r.stop)
      (hhigh : r.start < t.templated.stop) : s.Contains t.source :=
    hwide ▸ TemplatedFile.widest_contains (by omega) ht hlow hhigh
  obtain ⟨hin, hin'⟩ := contains hframe.first_mem (by omega) hstarts.2
  obtain ⟨l, hl⟩ := h.exists_source_of_literal (by omega) hliteral hframe.first_mem (by omega)
  have same {t : RenderedSlice} (ht : t ∈ f.slices) (hlow : t.templated.start < r.stop)
      (hhigh : r.start < t.templated.stop) :
      t.source = l ∧ l.stop - l.start = t.templated.stop - t.templated.start := by
    obtain ⟨hlow', hhigh'⟩ := contains ht hlow hhigh
    have := h.source_solid ht
    obtain ⟨hkind, hsource⟩ := hl t ht (by omega) (by omega)
    exact ⟨hsource, hsource ▸ h.verbatim t ht hkind⟩
  have whole := TemplatedFile.widest_eq (by omega) hframe.first_mem (by omega) hstarts.2
    fun t ht hlow hhigh => (same ht hlow hhigh).1
  obtain ⟨hsource, hfirst⟩ := same hframe.first_mem (by omega) hstarts.2
  obtain ⟨hsource', hlast⟩ := same hframe.last_mem hstops.1 (by omega)
  rw [hsource, hsource'] at hlt
  rw [hwide, whole]
  unfold Span.length
  -- The slice behind the first one is the last, or lies whole in the span.
  have hend := ((bounds_of_renderedTiling? f.slices_tile).2 last hframe.last_mem).2
  obtain ⟨u, hu, hlow, hhigh⟩ := exists_of_renderedTiling? (p := first.templated.stop + 1)
    f.slices_tile (by omega) (by omega)
  have hnext := (same hu (by omega) (by omega)).2
  rcases TemplatedFile.slices_eq_or_apart hframe.first_mem hu with rfl | hafter | hprior
  · omega
  · rcases TemplatedFile.slices_eq_or_apart hu hframe.last_mem with rfl | hmore | hmore <;> omega
  · omega

/-- Without a turn, a span with literal source is in one slice. -/
theorem eq_of_not_turnsIn (h : Renders values source f ms bs) (hframe : f.Framed r s first last)
    (hr : r.start < r.stop) (hliteral : f.isLiteralSource s = true) (hturns : ¬ f.TurnsIn r) :
    first = last := by
  rcases hframe.eq_or_before hr with rfl | hbefore
  · rfl
  · have hle := hframe.source_le hbefore hturns
    obtain ⟨hlow, hhigh⟩ := h.source_between hframe
    rcases hframe.source with ⟨hs, hs'⟩ | ⟨hlt, -⟩
    · rw [← hs] at hlow
      rw [← hs'] at hhigh
      obtain ⟨l, hl⟩ := h.exists_source_of_literal (by omega) hliteral hframe.first_mem hlow
      have hsource := (hl first hframe.first_mem (by omega) hlow).2
      have hsource' := (hl last hframe.last_mem hhigh (by omega)).2
      have hsolid := h.source_solid hframe.first_mem
      rw [hsource] at hle hsolid
      rw [hsource'] at hle
      omega
    · omega

/-- Literal source is the text that it stands for exactly if no loop turns in the text. -/
theorem text?_source_iff (h : Renders values source f ms bs) (hr : r.start < r.stop)
    (hmap : f.toSource? r = .ok s) (hliteral : f.isLiteralSource s = true) {text : String}
    (htext : r.text? f.templated = some text) :
    s.text? f.source = some text ↔ ¬ f.TurnsIn r := by
  obtain ⟨first, last, hframe⟩ := TemplatedFile.exists_framed hr hmap
  refine ⟨fun hsource hturns => ?_, fun hturns => ?_⟩
  · have hbefore := (hframe.eq_or_before hr).resolve_left (hframe.ne_of_turnsIn hturns)
    have hlength : s.length = r.length := by
      have := (le_of_slice? hsource).1
      have := (le_of_slice? htext).1
      unfold Span.length
      omega
    rcases hframe.source with ⟨hs, hs'⟩ | ⟨hlt, hwide⟩
    · exact h.length_ne_of_ordered hframe hbefore hliteral hs hs' hlength
    · exact h.length_ne_of_turned hframe hbefore hliteral hlt hwide hlength
  · obtain rfl := h.eq_of_not_turnsIn hframe hr hliteral hturns
    exact h.text?_of_framed hframe hr hliteral htext

end Templater.Renders

/-- Without loops there are no turns. -/
theorem TemplatedFile.not_turnsIn_of_loopFree {values : List (String × String)}
    {source name : String} {f : TemplatedFile}
    (hfile : (Templater.placeholder values).process source name = .ok f) (hloops : f.LoopFree)
    (r : Span) : ¬ f.TurnsIn r := by
  rintro ⟨x, y, hxy, -⟩
  obtain ⟨before, after, hvisible⟩ := hxy.next
  have ascending := (ascending_of_loopFree hfile hloops).filter (!·.templated.isEmpty)
  rw [show f.slices.filter (!·.templated.isEmpty) = _ from hvisible, List.pairwise_append,
    List.pairwise_cons] at ascending
  have := ascending.2.1.1 y (List.mem_cons_self ..)
  have := hxy.back
  omega

end QueryLint
