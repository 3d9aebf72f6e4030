import QueryLint.Proofs.Template.LoopFree
import QueryLint.Proofs.Template.Rendered

/-!
QueryLint.Proofs.Template.Cover — what the source of a span leaves out.

The source of a span starts where the source of its first slice starts and stops where that of its
last slice stops. If the slices in between come in the order of their sources, theirs lies between.
A loop goes back in the source with every pass, and what it renders before it comes back to the last
slice, or after it has left the first one, can lie outside.

So the question is asked of the turns of loops alone: the source of a span holds the source of every
slice in the span exactly if, at each turn, it reaches to where the loop comes from and back to
where it goes.

* `TemplatedFile.visible` — the slices with text.
* `TemplatedFile.TurnsAt` — a loop goes back in the source.
* `TemplatedFile.Framed` — the first and last slice of a span, and their part in its source.
* `TemplatedFile.toSource?_contains_iff` — the source of a span holds what is in the span.
-/

namespace QueryLint

open Markup Block

/-! ## 1. Slices of the templated text -/

namespace Span

/-- All bytes of one span are bytes of another. -/
def Contains (s t : Span) : Prop := s.start ≤ t.start ∧ t.stop ≤ s.stop

instance (s t : Span) : Decidable (s.Contains t) := inferInstanceAs (Decidable (_ ∧ _))

theorem Contains.trans {s t u : Span} (h : s.Contains t) (h' : t.Contains u) : s.Contains u :=
  ⟨Nat.le_trans h.1 h'.1, Nat.le_trans h'.2 h.2⟩

theorem contains_cover_left (s t : Span) : (s.cover t).Contains s :=
  ⟨Nat.min_le_left _ _, Nat.le_max_left _ _⟩

theorem contains_cover_right (s t : Span) : (s.cover t).Contains t :=
  ⟨Nat.min_le_right _ _, Nat.le_max_right _ _⟩

end Span

namespace TemplatedFile

variable (f : TemplatedFile)

/-- The slices with text. -/
def visible : List RenderedSlice := f.slices.filter (!·.templated.isEmpty)

variable {f}

theorem mem_visible {t : RenderedSlice} :
    t ∈ f.visible ↔ t ∈ f.slices ∧ t.templated.start < t.templated.stop := by
  have := t.templated.start_le_stop
  simp only [visible, List.mem_filter, Span.isEmpty, Bool.not_eq_true', beq_eq_false_iff_ne]
  exact and_congr_right' (by omega)

/-- Slices with text follow each other. -/
theorem pairwise_visible : f.visible.Pairwise (·.templated.stop ≤ ·.templated.start) :=
  (pairwise_of_renderedTiling? f.slices_tile).filter _

variable (f) in
/-- One slice with text comes next after another, but its source does not lie behind the other's:
a loop starts another pass there. -/
structure TurnsAt (x y : RenderedSlice) : Prop where
  next : ∃ before after, f.visible = before ++ x :: y :: after
  back : y.source.start < x.source.stop

/-! ## 2. The ends of a span -/

theorem contains_foldl_cover (s : Span) (ts : List RenderedSlice) :
    (ts.foldl (fun acc t => acc.cover t.source) s).Contains s ∧
      ∀ t ∈ ts, (ts.foldl (fun acc t => acc.cover t.source) s).Contains t.source := by
  induction ts generalizing s with
  | nil => exact ⟨⟨Nat.le_refl _, Nat.le_refl _⟩, by simp⟩
  | cons t ts ih =>
    obtain ⟨hown, hrest⟩ := ih (s.cover t.source)
    exact ⟨hown.trans (Span.contains_cover_left _ _), List.forall_mem_cons.2
      ⟨hown.trans (Span.contains_cover_right _ _), hrest⟩⟩

/-- The widest source of a span holds the source of every slice that the span touches. -/
theorem widest_contains {start stop : Nat} (hne : start ≠ stop) {t : RenderedSlice}
    (ht : t ∈ f.slices) (hstop : t.templated.start < stop) (hstart : start < t.templated.stop) :
    (f.widest start stop).Contains t.source := by
  unfold widest
  simp only [hne, if_false]
  have touched : t ∈ f.slices.filter fun s =>
      decide (s.templated.start < stop ∧ start < s.templated.stop) := by
    rw [List.mem_filter]
    exact ⟨ht, by simp [hstop, hstart]⟩
  split
  · next hnone => simp_all
  · next s rest hsome =>
    obtain ⟨hown, hrest⟩ := contains_foldl_cover s.source rest
    have member : t ∈ s :: rest := by
      rw [← hsome]
      simpa using touched
    rcases List.mem_cons.1 member with rfl | member
    · exact hown
    · exact hrest t member

/-- Literal text is as long as its source. -/
def Verbatim (f : TemplatedFile) : Prop :=
  ∀ t ∈ f.slices, t.kind.isLiteral = true → t.source.length = t.templated.length

/-- Where the source of a span starts: in the slice in which the span starts, as far behind its
start as the span is, and this is no inner place of an expression. -/
theorem sourceStart?_eq_ok {start k : Nat} {whole : Span}
    (h : f.sourceStart? start whole = .ok k) :
    ∃ t ∈ f.slices, t.templated.start ≤ start ∧ start < t.templated.stop ∧
      (t.kind.isLiteral = true ∨ start = t.templated.start) ∧
      k = t.source.start + (start - t.templated.start) := by
  unfold sourceStart? at h
  split at h
  · cases h
  · next t hfound =>
    have hspan := List.find?_some hfound
    simp only [Bool.and_eq_true, decide_eq_true_eq] at hspan
    refine ⟨t, List.mem_of_find?_eq_some hfound, hspan.1, hspan.2, ?_⟩
    split at h
    · next hliteral =>
      rw [Except.ok.injEq] at h
      exact ⟨.inl hliteral, by omega⟩
    · split at h
      · next hown =>
        rw [Except.ok.injEq] at h
        exact ⟨.inr hown, by omega⟩
      · cases h

/-- Where the source of a span stops: in the slice in which the span stops, as far before its stop
as the span does, and this is no inner place of an expression. -/
theorem sourceStop?_eq_ok {stop k : Nat} {whole : Span}
    (h : f.sourceStop? stop whole = .ok k) :
    ∃ t ∈ f.slices, t.templated.start < stop ∧ stop ≤ t.templated.stop ∧
      (t.kind.isLiteral = true ∨ stop = t.templated.stop) ∧
      k = t.source.stop - (t.templated.stop - stop) := by
  unfold sourceStop? at h
  split at h
  · cases h
  · next t hfound =>
    have hspan := List.find?_some hfound
    simp only [Bool.and_eq_true, decide_eq_true_eq] at hspan
    refine ⟨t, List.mem_of_find?_eq_some hfound, hspan.1, hspan.2, ?_⟩
    split at h
    · next hliteral =>
      rw [Except.ok.injEq] at h
      exact ⟨.inl hliteral, h.symm⟩
    · split at h
      · next hown =>
        rw [Except.ok.injEq] at h
        exact ⟨.inr hown, by omega⟩
      · cases h

/-- The first and the last slice of a span with text, and what each has to do with its source. -/
structure Framed (f : TemplatedFile) (r s : Span) (first last : RenderedSlice) : Prop where
  first_mem : first ∈ f.slices
  last_mem : last ∈ f.slices
  starts : first.templated.start ≤ r.start ∧ r.start < first.templated.stop
  stops : last.templated.start < r.stop ∧ r.stop ≤ last.templated.stop
  whole_start : first.kind.isLiteral = true ∨ r.start = first.templated.start
  whole_stop : last.kind.isLiteral = true ∨ r.stop = last.templated.stop
  source :
    (s.start = first.source.start + (r.start - first.templated.start) ∧
      s.stop = last.source.stop - (last.templated.stop - r.stop)) ∨
    (last.source.stop - (last.templated.stop - r.stop) <
        first.source.start + (r.start - first.templated.start) ∧
      s = f.widest r.start r.stop)

theorem exists_framed {r s : Span} (hr : r.start < r.stop) (h : f.toSource? r = .ok s) :
    ∃ first last, f.Framed r s first last := by
  unfold toSource? at h
  split at h
  · cases h
  · next hin =>
    have hsome : f.slices ≠ [] := by
      intro hnone
      -- Without slices there is no text.
      have := renderedTiling?_nil_eq_none (hnone ▸ f.slices_tile)
      unfold length at hin
      omega
    rw [if_neg (by simpa using hsome), if_neg (by rw [Span.isEmpty_iff]; omega)] at h
    cases hstart : f.sourceStart? r.start r with
    | error e => rw [hstart] at h; cases h
    | ok a =>
      cases hstop : f.sourceStop? r.stop r with
      | error e => rw [hstart, hstop] at h; cases h
      | ok b =>
        obtain ⟨first, hfirst, hlow, hhigh, hwhole, ha⟩ := sourceStart?_eq_ok hstart
        obtain ⟨last, hlast, hlow', hhigh', hwhole', hb⟩ := sourceStop?_eq_ok hstop
        refine ⟨first, last, hfirst, hlast, ⟨hlow, hhigh⟩, ⟨hlow', hhigh'⟩, hwhole, hwhole', ?_⟩
        rw [← ha, ← hb]
        simp only [hstart, hstop, bind, Except.bind] at h
        split at h
        · obtain rfl := Except.ok.inj h
          exact .inl ⟨rfl, rfl⟩
        · next hturned =>
          exact .inr ⟨Nat.not_le.1 hturned, (Except.ok.inj h).symm⟩

/-- A span of text has a first and a last slice, and its source goes from the one to the other. -/
theorem exists_ends (hf : f.Verbatim) {r s : Span} (hr : r.start < r.stop)
    (h : f.toSource? r = .ok s) :
    ∃ first ∈ f.visible, ∃ last ∈ f.visible,
      (first.templated.start ≤ r.start ∧ r.start < first.templated.stop) ∧
      (last.templated.start < r.stop ∧ r.stop ≤ last.templated.stop) ∧
      (s.start ≤ first.source.stop ∧ last.source.start ≤ s.stop) ∧
      (r.start = first.templated.start → s.start ≤ first.source.start) ∧
      (r.stop = last.templated.stop → last.source.stop ≤ s.stop) := by
  obtain ⟨first, last, hframe⟩ := exists_framed hr h
  obtain ⟨hin, ha⟩ := hframe.starts
  obtain ⟨hin', hb⟩ := hframe.stops
  have hsource := first.source.start_le_stop
  have hsource' := last.source.start_le_stop
  refine ⟨first, mem_visible.2 ⟨hframe.first_mem, by omega⟩, last,
    mem_visible.2 ⟨hframe.last_mem, by omega⟩, ⟨hin, ha⟩, ⟨hin', hb⟩, ?_⟩
  rcases hframe.source with ⟨hs, hs'⟩ | ⟨-, rfl⟩
  · have starts : s.start ≤ first.source.stop := by
      rcases hframe.whole_start with hliteral | hown
      · have same := hf first hframe.first_mem hliteral
        unfold Span.length at same
        omega
      · omega
    have stops : last.source.start ≤ s.stop := by
      rcases hframe.whole_stop with hliteral | hown
      · have same := hf last hframe.last_mem hliteral
        unfold Span.length at same
        omega
      · omega
    exact ⟨⟨starts, stops⟩, fun hown => by omega, fun hown => by omega⟩
  · -- The source of the whole span is taken.
    have wide : r.start ≠ r.stop := by omega
    obtain ⟨h₁, h₂⟩ := widest_contains wide hframe.first_mem (by omega) ha
    obtain ⟨h₃, h₄⟩ := widest_contains wide hframe.last_mem hin' (by omega)
    omega

/-! ## 3. Between the ends -/

/-- The source of every slice in a span starts behind the start of `s`, if that of its first slice
stops there and no turn goes back beyond it. -/
theorem start_le_of_follows {r : Span} {k : Nat} {first : RenderedSlice}
    {before after : List RenderedSlice} (hvisible : f.visible = before ++ first :: after)
    (hr : r.start < first.templated.stop) (hk : k ≤ first.source.stop)
    (hturns : ∀ x y, f.TurnsAt x y → r.Contains y.templated → k ≤ y.source.start) :
    ∀ t ∈ after, r.Contains t.templated → k ≤ t.source.start := by
  induction after generalizing before first with
  | nil => simp
  | cons u after ih =>
    have sorted := pairwise_visible (f := f)
    rw [hvisible, List.pairwise_append, List.pairwise_cons, List.pairwise_cons] at sorted
    obtain ⟨-, ⟨hnext, hlater, -⟩, -⟩ := sorted
    have hu := hnext u (List.mem_cons_self ..)
    have hbounds := u.templated.start_le_stop
    have hsource := u.source.start_le_stop
    have own (hin : r.Contains u.templated) : k ≤ u.source.start := by
      by_cases hback : u.source.start < first.source.stop
      · exact hturns first u ⟨⟨before, after, hvisible⟩, hback⟩ hin
      · omega
    intro t ht hin
    rcases List.mem_cons.1 ht with rfl | ht
    · exact own hin
    · -- A slice before one in the span that starts in it is in the span itself.
      have behind := hlater t ht
      have := t.templated.start_le_stop
      have inside : r.Contains u.templated := ⟨by omega, Nat.le_trans (by omega) hin.2⟩
      have := own inside
      exact ih (hvisible.trans (List.append_assoc before [first] (u :: after)).symm) (by omega)
        (by omega) t ht hin

/-- The source of every slice in a span stops before the stop of `s`, if that of its last slice
starts there and no turn comes from beyond it. -/
theorem stop_le_of_precedes {r : Span} {k : Nat} {last : RenderedSlice}
    {before middle after : List RenderedSlice}
    (hvisible : f.visible = before ++ (middle ++ last :: after))
    (hr : last.templated.start < r.stop) (hk : last.source.start ≤ k)
    (hturns : ∀ x y, f.TurnsAt x y → r.Contains x.templated → x.source.stop ≤ k) :
    ∀ t ∈ middle, r.Contains t.templated → t.source.stop ≤ k := by
  induction middle generalizing before with
  | nil => simp
  | cons u middle ih =>
    have later := ih (hvisible.trans (List.append_assoc before [u] _).symm)
    have sorted := pairwise_visible (f := f)
    rw [hvisible, List.pairwise_append, List.cons_append, List.pairwise_cons] at sorted
    obtain ⟨-, ⟨hnext, hmiddle⟩, -⟩ := sorted
    intro t ht hin
    rcases List.mem_cons.1 ht with rfl | ht
    · cases middle with
      | nil =>
        by_cases hback : last.source.start < t.source.stop
        · exact hturns t last ⟨⟨before, after, hvisible⟩, hback⟩ hin
        · omega
      | cons v middle =>
        by_cases hback : v.source.start < t.source.stop
        · exact hturns t v ⟨⟨before, middle ++ last :: after, hvisible⟩, hback⟩ hin
        · -- The next slice is in the span too, since the last one starts in it.
          have hv := hnext v (List.mem_cons_self ..)
          have hlast := (List.pairwise_cons.1 hmiddle).1 last (by simp)
          have := t.templated.start_le_stop
          have := v.source.start_le_stop
          have := later v (List.mem_cons_self ..) ⟨Nat.le_trans hin.1 (by omega), by omega⟩
          omega
    · exact later t ht hin

/-- The source of a span of text holds the source of every slice in the span exactly if at each
turn of a loop it reaches to where the loop comes from, and back to where it goes. Without loops it
always does. -/
theorem toSource?_contains_iff {values : List (String × String)} {source name : String}
    (hfile : (Templater.placeholder values).process source name = .ok f) {r s : Span}
    (hr : r.start < r.stop) (h : f.toSource? r = .ok s) :
    ((∀ t ∈ f.visible, r.Contains t.templated → s.Contains t.source) ↔
      ∀ x y, f.TurnsAt x y → (r.Contains x.templated → x.source.stop ≤ s.stop) ∧
        (r.Contains y.templated → s.start ≤ y.source.start)) ∧
    (f.LoopFree → ∀ t ∈ f.visible, r.Contains t.templated → s.Contains t.source) := by
  have verbatim : f.Verbatim := fun t ht hkind => length_source_of_isLiteral hfile ht hkind
  have reaches (hturns : ∀ x y, f.TurnsAt x y → (r.Contains x.templated → x.source.stop ≤ s.stop) ∧
      (r.Contains y.templated → s.start ≤ y.source.start)) :
      ∀ t ∈ f.visible, r.Contains t.templated → s.Contains t.source := by
    obtain ⟨first, hfirst, last, hlast, hin, hin', hends, hown, hown'⟩ := exists_ends verbatim hr h
    have sorted := pairwise_visible (f := f)
    intro t ht hrt
    have text := (mem_visible.1 ht).2
    have hrt' := hrt
    obtain ⟨hstart, hstop⟩ := hrt'
    refine ⟨?_, ?_⟩
    · obtain ⟨before, after, hvisible⟩ := List.append_of_mem hfirst
      rw [hvisible] at ht sorted
      rcases List.mem_append.1 ht with ht | ht
      · have := (List.pairwise_append.1 sorted).2.2 t ht first (List.mem_cons_self ..)
        omega
      · rcases List.mem_cons.1 ht with rfl | ht
        · exact hown (by omega)
        · exact start_le_of_follows hvisible hin.2 hends.1 (fun x y hxy => (hturns x y hxy).2) t ht hrt
    · obtain ⟨before, after, hvisible⟩ := List.append_of_mem hlast
      rw [hvisible] at ht sorted
      rcases List.mem_append.1 ht with ht | ht
      · exact stop_le_of_precedes (hvisible.trans (List.nil_append _).symm) hin'.1 hends.2
          (fun x y hxy => (hturns x y hxy).1) t ht hrt
      · rcases List.mem_cons.1 ht with rfl | ht
        · exact hown' (by omega)
        · have := (List.pairwise_cons.1 (List.pairwise_append.1 sorted).2.1).1 t ht
          omega
  refine ⟨⟨fun hall x y hxy => ?_, reaches⟩, fun hloops => reaches fun x y hxy => ?_⟩
  · obtain ⟨before, after, hvisible⟩ := hxy.next
    exact ⟨fun hx => (hall x (by simp [hvisible]) hx).2, fun hy => (hall y (by simp [hvisible]) hy).1⟩
  · obtain ⟨before, after, hvisible⟩ := hxy.next
    have ascending := (ascending_of_loopFree hfile hloops).filter (!·.templated.isEmpty)
    rw [show f.slices.filter (!·.templated.isEmpty) = _ from hvisible] at ascending
    have := (List.pairwise_cons.1 (List.pairwise_append.1 ascending).2.1).1 y
      (List.mem_cons_self ..)
    have := hxy.back
    omega

/-! ## 4. A loop with two passes -/

/-- A loop over two items that renders a letter and the item. -/
def passesSource : String := "\x7b% for i in a, b %\x7dx\x7b\x7b i \x7d\x7d\x7b% endfor %\x7d"

/-- The file of the template: the letter and the item, twice. -/
def passesFile : TemplatedFile := rendered [] passesSource

theorem process_passesSource :
    (Templater.placeholder []).process passesSource "" = .ok passesFile :=
  process_eq_rendered (by decide +kernel)

theorem toSource?_eq_ok {r s : Span} (h : (f.toSource? r).toOption = some s) :
    f.toSource? r = .ok s := by
  cases hmap : f.toSource? r with
  | error e => rw [hmap] at h; cases h
  | ok t => rw [hmap] at h; exact congrArg _ (Option.some.inj h)

/-- The source of both passes reaches to where the loop comes from and back to where it goes. -/
theorem toSource?_contains_iff_passes :
    passesFile.toSource? ⟨0, 4, by decide⟩ = .ok ⟨19, 27, by decide⟩ ∧
      ∀ x y, passesFile.TurnsAt x y → x.source.stop ≤ 27 ∧ 19 ≤ y.source.start := by
  have mapped : passesFile.toSource? ⟨0, 4, by decide⟩ = .ok ⟨19, 27, by decide⟩ :=
    toSource?_eq_ok (by decide +kernel)
  have holds : ∀ t ∈ passesFile.visible, (⟨0, 4, by decide⟩ : Span).Contains t.templated →
      (⟨19, 27, by decide⟩ : Span).Contains t.source := by decide +kernel
  have inside : ∀ t ∈ passesFile.visible, (⟨0, 4, by decide⟩ : Span).Contains t.templated := by
    decide +kernel
  refine ⟨mapped, fun x y hxy => ?_⟩
  obtain ⟨before, after, hvisible⟩ := hxy.next
  have turns := (toSource?_contains_iff process_passesSource (by decide) mapped).1.1 holds x y hxy
  exact ⟨turns.1 (inside x (by simp [hvisible])), turns.2 (inside y (by simp [hvisible]))⟩

/-- The letter of both passes and the item between them have the source of the letter, without the
tag of the item. -/
theorem toSource?_leaves_out_tag :
    (Templater.placeholder []).process passesSource "" = .ok passesFile ∧
      passesFile.toSource? ⟨0, 3, by decide⟩ = .ok ⟨19, 20, by decide⟩ ∧
      ∃ t ∈ passesFile.visible, t.kind = .templated ∧
        (⟨0, 3, by decide⟩ : Span).Contains t.templated ∧
        ¬ (⟨19, 20, by decide⟩ : Span).Contains t.source := by
  refine ⟨process_passesSource, toSource?_eq_ok ?_, ?_⟩
  · decide +kernel
  · decide +kernel

end TemplatedFile

end QueryLint
