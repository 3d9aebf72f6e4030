import Mathlib.Data.Nat.PSub
import QueryLint.Proofs.Template.Literal

/-!
QueryLint.Proofs.Template.Mapped — where the map to the source leads.

The map finds the source of a place in the templated text in several ways: as the least end of the
slices that meet there, as a place counted from the start or from the stop of a literal slice, or
as an end of the widest source of a span. All of them are offsets that one slice gives: an end of
its source, or a place counted from an end by fewer bytes than the slice has.

A file that was rendered from a template has its literal text in the source, byte by byte, so that
what is counted in literal text stays in it, and the map never leads into a tag. For slices of any
other origin it is checked that they tile their texts, but not that a literal slice is as long as
its source. What is counted may then lie beyond the end of the source, or before its start, where
the count breaks off. `Checked` is the map as it is evaluated, with every step that may break off.

* `RenderedSlice.Gives` — the offsets that a slice gives.
* `TemplatedFile.exists_enclosing?` — every span in the text has an enclosing source.
* `TemplatedFile.mapped_cutsNoMarkup` — the source of a span cuts no tag.
* `TemplatedFile.MapsSafely` — the map breaks off nowhere, and stays in the source.
* `TemplatedFile.ofSlices_mapsSafely_iff` — what slices have to be checked for to make it so.
-/

namespace QueryLint

open Markup

/-! ## 1. Offsets that slices give -/

/-- A source offset that is counted from a slice: an end of its source or, if the slice is literal,
a place as far behind the start or before the stop as some byte of its text. -/
inductive RenderedSlice.Gives (t : RenderedSlice) : Nat → Prop where
  | start : t.Gives t.source.start
  | stop : t.Gives t.source.stop
  | behind {i : Nat} (hliteral : t.kind.isLiteral = true) (hi : i < t.templated.length) :
      t.Gives (t.source.start + i)
  | before {i : Nat} (hliteral : t.kind.isLiteral = true) (hi : i < t.templated.length) :
      t.Gives (t.source.stop - i)

namespace TemplatedFile

variable {f : TemplatedFile} {t : RenderedSlice} {r s : Span} {p : Nat}

variable (f s) in
/-- Slices of a file give both ends of a span. -/
structure EndsGiven : Prop where
  start : ∃ t ∈ f.slices, t.Gives s.start
  stop : ∃ t ∈ f.slices, t.Gives s.stop

namespace EndsGiven

theorem source (ht : t ∈ f.slices) : f.EndsGiven t.source :=
  ⟨⟨t, ht, .start⟩, ⟨t, ht, .stop⟩⟩

theorem cover (hr : f.EndsGiven r) (hs : f.EndsGiven s) : f.EndsGiven (r.cover s) where
  start := by
    show ∃ t ∈ f.slices, t.Gives (min r.start s.start)
    rcases Nat.le_total r.start s.start with hle | hle
    · rw [Nat.min_eq_left hle]
      exact hr.start
    · rw [Nat.min_eq_right hle]
      exact hs.start
  stop := by
    show ∃ t ∈ f.slices, t.Gives (max r.stop s.stop)
    rcases Nat.le_total r.stop s.stop with hle | hle
    · rw [Nat.max_eq_right hle]
      exact hs.stop
    · rw [Nat.max_eq_left hle]
      exact hr.stop

theorem foldl_cover {ts : List RenderedSlice} (hs : f.EndsGiven s) (hts : ∀ t ∈ ts, t ∈ f.slices) :
    f.EndsGiven (ts.foldl (fun acc t => acc.cover t.source) s) := by
  induction ts generalizing s with
  | nil => exact hs
  | cons t ts ih =>
    obtain ⟨ht, hts⟩ := List.forall_mem_cons.1 hts
    exact ih (hs.cover (source ht)) hts

end EndsGiven

/-- Every byte of the text is in a slice. -/
theorem exists_slice_at (hp : p < f.length) :
    ∃ t ∈ f.slices, t.templated.start ≤ p ∧ p < t.templated.stop := by
  obtain ⟨t, ht, hlow, hhigh⟩ := exists_of_renderedTiling? f.slices_tile (Nat.succ_pos p) hp
  exact ⟨t, ht, by omega, by omega⟩

theorem widest_endsGiven {start stop : Nat} (hlt : start < stop) (hstart : start < f.length) :
    f.EndsGiven (f.widest start stop) := by
  obtain ⟨t, ht, hlow, hhigh⟩ := exists_slice_at hstart
  unfold widest
  simp only [if_neg (Nat.ne_of_lt hlt)]
  split
  · next hnone =>
    have := List.filter_eq_nil_iff.1 hnone t ht
    simp at this
    omega
  · next u rest hsome =>
    have touched : ∀ v ∈ u :: rest, v ∈ f.slices := by
      intro v hv
      rw [← hsome] at hv
      exact (List.mem_filter.1 hv).1
    obtain ⟨hu, hrest⟩ := List.forall_mem_cons.1 touched
    exact (EndsGiven.source hu).foldl_cover hrest

theorem pointToSource?_gives {k : Nat} (h : f.pointToSource? p = .ok k) :
    ∃ t ∈ f.slices, t.Gives k := by
  rcases pointToSource?_eq_ok_iff.1 h with
    ⟨⟨t, ht, hmeets⟩, -⟩ | ⟨t, ht, hliteral, hlow, hhigh, rfl⟩
  · rcases hmeets with ⟨-, rfl⟩ | ⟨-, rfl⟩
    · exact ⟨t, ht, .start⟩
    · exact ⟨t, ht, .stop⟩
  · rw [Nat.add_sub_assoc (Nat.le_of_lt hlow)]
    exact ⟨t, ht, .behind hliteral (by unfold Span.length; omega)⟩

/-- In a file with slices, they give the ends of the source of every span in the text. -/
theorem toSource?_endsGiven (hslices : f.slices ≠ []) (hr : r.stop ≤ f.length)
    (h : f.toSource? r = .ok s) : f.EndsGiven s := by
  have hle := r.start_le_stop
  by_cases hempty : r.start = r.stop
  · unfold toSource? at h
    rw [if_neg (Nat.not_lt.2 hr), if_neg (by simpa using hslices),
      if_pos (by rwa [Span.isEmpty_iff])] at h
    cases hpoint : f.pointToSource? r.start with
    | error e =>
      rw [hpoint] at h
      cases h
    | ok k =>
      rw [hpoint] at h
      obtain rfl := Except.ok.inj h
      exact ⟨pointToSource?_gives hpoint, pointToSource?_gives hpoint⟩
  · obtain ⟨first, last, hframe⟩ := exists_framed (by omega) h
    have hstarts := hframe.starts
    have hstops := hframe.stops
    rcases hframe.source with ⟨hs, hs'⟩ | ⟨-, rfl⟩
    · constructor
      · refine ⟨first, hframe.first_mem, ?_⟩
        rw [hs]
        rcases hframe.whole_start with hliteral | hown
        · exact .behind hliteral (by unfold Span.length; omega)
        · rw [hown, Nat.sub_self]
          exact .start
      · refine ⟨last, hframe.last_mem, ?_⟩
        rw [hs']
        rcases hframe.whole_stop with hliteral | hown
        · exact .before hliteral (by unfold Span.length; omega)
        · rw [hown, Nat.sub_self]
          exact .stop
    · exact widest_endsGiven (by omega) (by omega)

/-! ## 2. Spans without a source -/

theorem pointToSource?_error {e : MappingError} (h : f.pointToSource? p = .error e) :
    e = .insideTemplated (.point p) := by
  unfold pointToSource? at h
  dsimp only at h
  split at h
  · cases h
  · split at h
    · split at h
      · cases h
      · exact (Except.error.inj h).symm
    · exact (Except.error.inj h).symm

theorem sourceStart?_error {e : MappingError} (hp : p < f.length)
    (h : f.sourceStart? p r = .error e) : e = .insideTemplated r := by
  obtain ⟨t, ht, hlow, hhigh⟩ := exists_slice_at hp
  rw [sourceStart?_eq ht hlow hhigh] at h
  split at h
  · cases h
  · split at h
    · cases h
    · exact (Except.error.inj h).symm

theorem sourceStop?_error {e : MappingError} (hpos : 0 < p) (hp : p ≤ f.length)
    (h : f.sourceStop? p r = .error e) : e = .insideTemplated r := by
  obtain ⟨t, ht, hlow, hhigh⟩ := exists_of_renderedTiling? f.slices_tile hpos hp
  rw [sourceStop?_eq ht hlow hhigh] at h
  split at h
  · cases h
  · split at h
    · cases h
    · exact (Except.error.inj h).symm

/-- The end of the text is where slices meet, if there are any. -/
theorem exists_pointToSource?_length (hslices : f.slices ≠ []) :
    ∃ k, f.pointToSource? f.length = .ok k := by
  obtain ⟨t, ht, hstop⟩ := exists_stop_of_renderedTiling? hslices f.slices_tile
  exact exists_pointToSource? ht (.inr ⟨hstop, rfl⟩)

/-- A span in the text has no source only where an end of it lies inside of an expression. -/
theorem toSource?_error {e : MappingError} (hr : r.stop ≤ f.length)
    (h : f.toSource? r = .error e) : r.start < f.length ∧ ∃ u, e = .insideTemplated u := by
  have hle := r.start_le_stop
  unfold toSource? at h
  rw [if_neg (Nat.not_lt.2 hr)] at h
  split at h
  · cases h
  · next hslices =>
    rw [List.isEmpty_iff] at hslices
    split at h
    · cases hpoint : f.pointToSource? r.start with
      | ok k =>
        rw [hpoint] at h
        cases h
      | error e' =>
        rw [hpoint] at h
        obtain rfl := Except.error.inj h
        have inside : r.start ≠ f.length := by
          intro hend
          obtain ⟨k, hk⟩ := exists_pointToSource?_length hslices
          rw [hend, hk] at hpoint
          cases hpoint
        exact ⟨by omega, _, pointToSource?_error hpoint⟩
    · next hsolid =>
      rw [Span.isEmpty_iff] at hsolid
      refine ⟨by omega, r, ?_⟩
      cases hstart : f.sourceStart? r.start r with
      | error e' =>
        rw [hstart] at h
        obtain rfl := Except.error.inj h
        exact sourceStart?_error (by omega) hstart
      | ok a =>
        cases hstop : f.sourceStop? r.stop r with
        | error e' =>
          rw [hstart, hstop] at h
          obtain rfl := Except.error.inj h
          exact sourceStop?_error (by omega) hr hstop
        | ok b =>
          simp only [hstart, hstop, bind, Except.bind] at h
          split at h <;> cases h

/-- Every span in the text has an enclosing source: its source or, where it has none, that of all
slices that it touches. -/
theorem exists_enclosing? (hr : r.stop ≤ f.length) :
    ∃ s, f.enclosing? r = some s ∧ (f.toSource? r = .ok s ∨
      r.start < f.length ∧ s = f.widest r.start (min (max r.stop (r.start + 1)) f.length)) := by
  unfold enclosing?
  rw [if_neg (Nat.not_lt.2 hr)]
  cases h : f.toSource? r with
  | ok s => exact ⟨s, rfl, .inl rfl⟩
  | error e =>
    obtain ⟨hlt, u, rfl⟩ := toSource?_error hr h
    exact ⟨_, rfl, .inr ⟨hlt, rfl⟩⟩

/-- In a file with slices, they give the ends of the enclosing source. -/
theorem enclosing?_endsGiven (hslices : f.slices ≠ []) (hr : r.stop ≤ f.length) :
    ∃ s, f.enclosing? r = some s ∧ f.EndsGiven s := by
  obtain ⟨s, henclosing, hmap | ⟨hlt, rfl⟩⟩ := exists_enclosing? hr
  · exact ⟨s, henclosing, toSource?_endsGiven hslices hr hmap⟩
  · exact ⟨_, henclosing, widest_endsGiven (by omega) hlt⟩

/-! ## 3. Tags of a template -/

variable (f p) in
/-- An offset lies in the source, and not strictly inside of a slice that is not literal. -/
def CutsNoMarkup : Prop :=
  p ≤ f.source.utf8ByteSize ∧ ∀ l ∈ f.raw, l.kind ≠ .literal → ¬ (l.start < p ∧ p < l.stop)

instance : Decidable (f.CutsNoMarkup p) := inferInstanceAs (Decidable (_ ∧ _))

end TemplatedFile

namespace Templater.Renders

variable {values : List (String × String)} {source : String} {f : TemplatedFile}
  {ms : List Marked} {bs : List Block} {t : RenderedSlice} {s : Span} {k : Nat}

/-- What a slice gives lies in its source, and strictly inside of it only if it is literal. -/
theorem gives_within (h : Renders values source f ms bs) (ht : t ∈ f.slices) (hk : t.Gives k) :
    t.source.start ≤ k ∧ k ≤ t.source.stop ∧
      (t.source.start < k → k < t.source.stop → t.kind.isLiteral = true) := by
  have hsource := t.source.start_le_stop
  cases hk with
  | start => omega
  | stop => omega
  | behind hliteral hi =>
    have := h.verbatim t ht hliteral
    unfold Span.length at *
    exact ⟨by omega, by omega, fun _ _ => hliteral⟩
  | before hliteral hi =>
    have := h.verbatim t ht hliteral
    unfold Span.length at *
    exact ⟨by omega, by omega, fun _ _ => hliteral⟩

theorem cutsNoMarkup_of_gives (h : Renders values source f ms bs) (ht : t ∈ f.slices)
    (hk : t.Gives k) : f.CutsNoMarkup k := by
  obtain ⟨hlow, hhigh, hinside⟩ := h.gives_within ht hk
  obtain ⟨own, hown, hkind, hspan⟩ := h.exists_raw ht
  rw [← hspan] at hlow hhigh hinside
  constructor
  · exact Nat.le_trans hhigh (f.raw_tiles.bounds own hown).2
  · rintro l hl hmarkup ⟨hstart, hstop⟩
    rcases TemplatedFile.eq_or_apart hown hl with rfl | hapart | hapart
    · have hliteral := hinside hstart hstop
      rw [← hkind] at hliteral
      exact hmarkup (by simpa [SliceKind.isLiteral] using hliteral)
    · exact absurd (Nat.le_trans hhigh hapart) (Nat.not_le.2 hstart)
    · exact absurd (Nat.le_trans hapart hlow) (Nat.not_le.2 hstop)

theorem cutsNoMarkup_of_endsGiven (h : Renders values source f ms bs) (hs : f.EndsGiven s) :
    f.CutsNoMarkup s.start ∧ f.CutsNoMarkup s.stop := by
  obtain ⟨t, ht, hgives⟩ := hs.start
  obtain ⟨u, hu, hgives'⟩ := hs.stop
  exact ⟨h.cutsNoMarkup_of_gives ht hgives, h.cutsNoMarkup_of_gives hu hgives'⟩

end Templater.Renders

namespace TemplatedFile

variable {f : TemplatedFile} {r s : Span} {p : Nat}

theorem length_eq_zero_of_nil (hslices : f.slices = []) : f.length = 0 :=
  (renderedTiling?_nil_eq_none (hslices ▸ f.slices_tile)).symm

/-- Without slices the only span is the empty one at the start, and that is its own source. -/
theorem toSource?_of_nil (hslices : f.slices = []) (hr : r.stop ≤ f.length) :
    r = .point 0 ∧ f.toSource? r = .ok r ∧ f.enclosing? r = some r := by
  have hmap : f.toSource? r = .ok r := by
    unfold toSource?
    rw [if_neg (Nat.not_lt.2 hr), if_pos (by simpa using hslices)]
  refine ⟨?_, hmap, ?_⟩
  · have hzero := length_eq_zero_of_nil hslices
    obtain ⟨start, stop, hle⟩ := r
    dsimp only at hr
    obtain rfl : stop = 0 := by omega
    obtain rfl : start = 0 := by omega
    rfl
  · unfold enclosing?
    rw [if_neg (Nat.not_lt.2 hr), hmap]

theorem cutsNoMarkup_zero : f.CutsNoMarkup 0 :=
  ⟨Nat.zero_le _, fun _ _ _ h => Nat.not_lt_zero _ h.1⟩

/-- The source of a span, and the enclosing source, which every span has, lie in the source of the
file and cut no tag. -/
theorem mapped_cutsNoMarkup {values : List (String × String)} {source name : String}
    (hfile : (Templater.placeholder values).process source name = .ok f)
    (hr : r.stop ≤ f.length) :
    (∀ s, f.toSource? r = .ok s →
      s.start ≤ s.stop ∧ f.CutsNoMarkup s.start ∧ f.CutsNoMarkup s.stop) ∧
    ∃ s, f.enclosing? r = some s ∧
      s.start ≤ s.stop ∧ f.CutsNoMarkup s.start ∧ f.CutsNoMarkup s.stop := by
  obtain ⟨ms, bs, hrenders⟩ := Templater.exists_renders hfile
  by_cases hslices : f.slices = []
  · obtain ⟨rfl, hmap, henclosing⟩ := toSource?_of_nil hslices hr
    refine ⟨?_, .point 0, henclosing, Nat.le_refl _, cutsNoMarkup_zero, cutsNoMarkup_zero⟩
    intro s hs
    rw [hmap] at hs
    obtain rfl := Except.ok.inj hs
    exact ⟨Nat.le_refl _, cutsNoMarkup_zero, cutsNoMarkup_zero⟩
  · constructor
    · intro s hs
      have given := toSource?_endsGiven hslices hr hs
      exact ⟨s.start_le_stop, hrenders.cutsNoMarkup_of_endsGiven given⟩
    · obtain ⟨s, henclosing, given⟩ := enclosing?_endsGiven hslices hr
      exact ⟨s, henclosing, s.start_le_stop, hrenders.cutsNoMarkup_of_endsGiven given⟩

/-- A loop over two items of two letters that renders a letter and the item. -/
def lettersSource : String :=
  "\x7b% for i in ab, cd %\x7dx\x7b\x7b i \x7d\x7d\x7b% endfor %\x7d"

/-- The file of the template: the letter and the item, twice. -/
def lettersFile : TemplatedFile := rendered [] lettersSource

theorem process_lettersSource :
    (Templater.placeholder []).process lettersSource "" = .ok lettersFile :=
  process_eq_rendered (by decide +kernel)

/-- A span from within the first item to the second letter has no source, and its enclosing source
goes back in the loop from the tag of the item to the letter, between two tags. -/
theorem mapped_cutsNoMarkup_letters :
    lettersFile.toSource? ⟨2, 4, by decide⟩ = .error (.insideTemplated ⟨2, 4, by decide⟩) ∧
      lettersFile.enclosing? ⟨2, 4, by decide⟩ = some ⟨21, 29, by decide⟩ ∧
      lettersFile.CutsNoMarkup 21 ∧ lettersFile.CutsNoMarkup 29 ∧ ¬ lettersFile.CutsNoMarkup 28 := by
  have facts : (⟨2, 4, by decide⟩ : Span).stop ≤ lettersFile.length ∧
      lettersFile.toSource? ⟨2, 4, by decide⟩ = .error (.insideTemplated ⟨2, 4, by decide⟩) ∧
      lettersFile.enclosing? ⟨2, 4, by decide⟩ = some ⟨21, 29, by decide⟩ ∧
      ¬ lettersFile.CutsNoMarkup 28 := by
    decide +kernel
  obtain ⟨hr, fails, widened, cut⟩ := facts
  obtain ⟨-, s, henclosing, -, hstart, hstop⟩ := mapped_cutsNoMarkup process_lettersSource hr
  rw [widened] at henclosing
  obtain rfl := Option.some.inj henclosing
  exact ⟨fails, widened, hstart, hstop, cut⟩

/-! ## 4. The map with every step checked -/

/-- What a computation comes to: a result or an error of the map, or nothing where a step of it is
not defined. -/
abbrev Checked (α : Type) : Type := ExceptT MappingError Option α

namespace Checked

/-- A computation of which every step is defined. -/
def of {α : Type} (x : Except MappingError α) : Checked α := ExceptT.mk (some x)

/-- A difference, if it is none below zero. -/
def sub (a b : Nat) : Checked Nat := ExceptT.lift (a.psub b)

theorem sub_eq {a b : Nat} (h : b ≤ a) : sub a b = .of (.ok (a - b)) := by
  unfold sub
  rw [Nat.psub_eq_sub h]
  rfl

theorem sub_eq_none {a b : Nat} (h : a < b) : (sub a b).run = none := by
  unfold sub
  rw [Nat.psub_eq_none.2 h]
  rfl

variable (f : TemplatedFile)

/-- `TemplatedFile.pointToSource?`, checked. -/
def pointToSource? (pos : Nat) : Checked Nat :=
  match f.endsAt pos with
  | e :: es => return es.foldl min e
  | [] =>
    match f.slices.find? fun s => s.templated.start < pos && pos < s.templated.stop with
    | some s =>
      if s.kind.isLiteral then sub (s.source.start + pos) s.templated.start
      else throw (.insideTemplated (.point pos))
    | none => throw (.insideTemplated (.point pos))

/-- `TemplatedFile.sourceStart?`, checked. -/
def sourceStart? (start : Nat) (whole : Span) : Checked Nat :=
  match f.slices.find? fun s => s.templated.start ≤ start && start < s.templated.stop with
  | none => throw (.outOfRange whole f.length)
  | some s =>
    if s.kind.isLiteral then sub (s.source.start + start) s.templated.start
    else if start = s.templated.start then return s.source.start
    else throw (.insideTemplated whole)

/-- `TemplatedFile.sourceStop?`, checked. -/
def sourceStop? (stop : Nat) (whole : Span) : Checked Nat :=
  match f.slices.find? fun s => s.templated.start < stop && stop ≤ s.templated.stop with
  | none => throw (.outOfRange whole f.length)
  | some s =>
    if s.kind.isLiteral then do
      let missing ← sub s.templated.stop stop
      sub s.source.stop missing
    else if stop = s.templated.stop then return s.source.stop
    else throw (.insideTemplated whole)

/-- `TemplatedFile.toSource?`, checked. -/
def toSource? (s : Span) : Checked Span :=
  if f.length < s.stop then throw (.outOfRange s f.length)
  else if f.slices.isEmpty then return s
  else if s.isEmpty then Span.point <$> pointToSource? f s.start
  else do
    let start ← sourceStart? f s.start s
    let stop ← sourceStop? f s.stop s
    if h : start ≤ stop then return ⟨start, stop, h⟩ else return f.widest s.start s.stop

/-- `TemplatedFile.enclosing?`, checked. -/
def enclosing? (s : Span) : Option (Option Span) :=
  if f.length < s.stop then some none
  else
    (toSource? f s).run.map fun
      | .ok t => some t
      | .error (.outOfRange _ _) => none
      | .error (.insideTemplated _) =>
        some (f.widest s.start (min (max s.stop (s.start + 1)) f.length))

/-- `TemplatedFile.placeIn`, checked: the line is looked up among the starts of lines. -/
def placeIn? (text : String) (offset : Nat) : Option Place := do
  let line := max ((lineStarts text).takeWhile (· ≤ offset)).length 1
  let start ← (lineStarts text)[← line.psub 1]?
  let column ← offset.psub start
  return ⟨line, column + 1⟩

variable {f} {r : Span}

theorem pointToSource?_eq (p : Nat) : pointToSource? f p = .of (f.pointToSource? p) := by
  unfold pointToSource? TemplatedFile.pointToSource?
  dsimp only
  rw [← endsAt]
  cases f.endsAt p with
  | cons e es => rfl
  | nil =>
    cases hfound : f.slices.find? fun s =>
        decide (s.templated.start < p) && decide (p < s.templated.stop) with
    | none => rfl
    | some t =>
      have hin := List.find?_some hfound
      simp only [Bool.and_eq_true, decide_eq_true_eq] at hin
      dsimp only
      split
      · exact sub_eq (by omega)
      · rfl

theorem sourceStart?_eq (p : Nat) : sourceStart? f p r = .of (f.sourceStart? p r) := by
  unfold sourceStart? TemplatedFile.sourceStart?
  cases hfound : f.slices.find? fun s =>
      decide (s.templated.start ≤ p) && decide (p < s.templated.stop) with
  | none => rfl
  | some t =>
    have hin := List.find?_some hfound
    simp only [Bool.and_eq_true, decide_eq_true_eq] at hin
    dsimp only
    split
    · exact sub_eq (by omega)
    · split
      · rfl
      · rfl

/-- The source of a stop is defined if the literal slice in which it lies, if it lies in one, does
not reach farther behind it than its source is long. -/
theorem sourceStop?_eq {p : Nat} (hcount : ∀ t ∈ f.slices, t.kind.isLiteral = true →
      t.templated.start < p → t.templated.stop - p ≤ t.source.stop) :
    sourceStop? f p r = .of (f.sourceStop? p r) := by
  unfold sourceStop? TemplatedFile.sourceStop?
  cases hfound : f.slices.find? fun s =>
      decide (s.templated.start < p) && decide (p ≤ s.templated.stop) with
  | none => rfl
  | some t =>
    have hin := List.find?_some hfound
    simp only [Bool.and_eq_true, decide_eq_true_eq] at hin
    dsimp only
    split
    · next hliteral =>
      rw [sub_eq hin.2]
      exact sub_eq (hcount t (List.mem_of_find?_eq_some hfound) hliteral hin.1)
    · split
      · rfl
      · rfl

/-- The source of a stop is not defined if the literal slice in which it lies reaches too far
behind it. -/
theorem sourceStop?_eq_none {t : RenderedSlice} {p : Nat} (ht : t ∈ f.slices)
    (hliteral : t.kind.isLiteral = true) (hlow : t.templated.start < p)
    (hhigh : p ≤ t.templated.stop) (hcount : t.source.stop < t.templated.stop - p) :
    (sourceStop? f p r).run = none := by
  unfold sourceStop?
  rw [find?_stop_eq ht hlow hhigh]
  dsimp only
  rw [if_pos hliteral, sub_eq hhigh]
  exact sub_eq_none hcount

theorem toSource?_eq (hstop : r.start < r.stop →
      sourceStop? f r.stop r = .of (f.sourceStop? r.stop r)) :
    toSource? f r = .of (f.toSource? r) := by
  have hle := r.start_le_stop
  unfold toSource? TemplatedFile.toSource?
  by_cases hbeyond : f.length < r.stop
  · rw [if_pos hbeyond, if_pos hbeyond]
    rfl
  rw [if_neg hbeyond, if_neg hbeyond]
  cases f.slices.isEmpty with
  | true => rfl
  | false =>
    cases hsolid : r.isEmpty with
    | true =>
      rw [pointToSource?_eq]
      cases f.pointToSource? r.start with
      | ok k => rfl
      | error e => rfl
    | false =>
      have hne : r.start ≠ r.stop := by
        rw [Ne, ← Span.isEmpty_iff, hsolid]
        simp
      rw [sourceStart?_eq, hstop (by omega)]
      cases f.sourceStart? r.start r with
      | error e => rfl
      | ok a =>
        cases f.sourceStop? r.stop r with
        | error e => rfl
        | ok b =>
          show (if h : a ≤ b then pure ⟨a, b, h⟩ else pure (f.widest r.start r.stop)) =
            of (if h : a ≤ b then .ok ⟨a, b, h⟩ else .ok (f.widest r.start r.stop))
          by_cases hab : a ≤ b
          · rw [dif_pos hab, dif_pos hab]
            rfl
          · rw [dif_neg hab, dif_neg hab]
            rfl

/-- Where the source of the stop is not defined, neither is that of a span that has one for its
start. -/
theorem toSource?_eq_none {a : Nat} (hsolid : r.start < r.stop) (hr : r.stop ≤ f.length)
    (hslices : f.slices ≠ []) (hstart : f.sourceStart? r.start r = .ok a)
    (hstop : (sourceStop? f r.stop r).run = none) : (toSource? f r).run = none := by
  have hstop : sourceStop? f r.stop r = ExceptT.mk none := hstop
  unfold toSource?
  rw [if_neg (Nat.not_lt.2 hr), if_neg (by simpa using hslices),
    if_neg (by rw [Span.isEmpty_iff]; omega), sourceStart?_eq, hstart, hstop]
  rfl

theorem enclosing?_eq (h : toSource? f r = .of (f.toSource? r)) :
    enclosing? f r = some (f.enclosing? r) := by
  unfold enclosing? TemplatedFile.enclosing?
  rw [h]
  by_cases hbeyond : f.length < r.stop
  · rw [if_pos hbeyond, if_pos hbeyond]
  · rw [if_neg hbeyond, if_neg hbeyond]
    cases f.toSource? r with
    | ok s => rfl
    | error e =>
      cases e with
      | outOfRange s n => rfl
      | insideTemplated s => rfl

/-- The place of an offset is defined for every text and every offset. -/
theorem placeIn?_eq (text : String) (offset : Nat) :
    placeIn? text offset = some (placeIn text offset) := by
  obtain ⟨starts, hlines⟩ : ∃ starts, lineStarts text = 0 :: starts := ⟨_, rfl⟩
  have hbefore : (lineStarts text).takeWhile (· ≤ offset) = 0 :: starts.takeWhile (· ≤ offset) := by
    rw [hlines, List.takeWhile_cons_of_pos (by simp)]
  unfold placeIn? placeIn
  rw [hbefore]
  generalize hrest : starts.takeWhile (· ≤ offset) = rest at hbefore
  -- The last start of a line up to the offset is found where it is counted.
  obtain ⟨start, hlast⟩ : ∃ start, (0 :: rest).getLast? = some start :=
    Option.isSome_iff_exists.1 (by simp)
  have hfound : (lineStarts text)[rest.length]? = some start := by
    rw [← List.takeWhile_append_dropWhile (p := (· ≤ offset)) (l := lineStarts text), hbefore,
      List.getElem?_append_left (by simp), ← hlast, List.getLast?_eq_getElem?]
    simp
  have hle : start ≤ offset := by
    have hmem := List.mem_of_getLast? hlast
    rw [← hbefore] at hmem
    simpa using List.all_eq_true.1 List.all_takeWhile start hmem
  have hline : max (0 :: rest).length 1 = rest.length + 1 := by simp
  have hindex : (rest.length + 1).psub 1 = some rest.length :=
    Nat.psub_eq_sub (Nat.le_add_left ..)
  simp only [hline, hindex, hfound, Nat.psub_eq_sub hle, bind, Option.bind, pure,
    List.getLastD_eq_getLast?, hlast, Option.getD_some]

end Checked

/-! ## 5. Slices of any origin -/

variable (f) in
/-- For spans in the text every step of the map is defined, as is every step to the place of an
offset, and no source that it answers reaches beyond the end of the source. -/
structure MapsSafely : Prop where
  toSource : ∀ r, r.stop ≤ f.length → Checked.toSource? f r = .of (f.toSource? r) ∧
    ∀ s, f.toSource? r = .ok s → s.stop ≤ f.source.utf8ByteSize
  enclosing : ∀ r, r.stop ≤ f.length → Checked.enclosing? f r = some (f.enclosing? r) ∧
    ∀ s, f.enclosing? r = some s → s.stop ≤ f.source.utf8ByteSize
  place : ∀ offset, Checked.placeIn? f.templated offset = some (f.place offset) ∧
    Checked.placeIn? f.source offset = some (f.sourcePlace offset)

variable {t : RenderedSlice}

/-- What a slice gives lies in the source, if its text fits. -/
theorem le_of_gives {n k : Nat} (hsource : t.source.stop ≤ n)
    (hfits : t.kind.isLiteral = true → t.source.start + t.templated.length ≤ n + 1)
    (hk : t.Gives k) : k ≤ n := by
  have := t.source.start_le_stop
  cases hk with
  | start => omega
  | stop => omega
  | behind hliteral hi =>
    have := hfits hliteral
    omega
  | before => omega

theorem mapsSafely_of_fits
    (hfits : ∀ t ∈ f.slices, t.kind.isLiteral = true → t.templated.length ≤ t.source.stop + 1 ∧
      t.source.start + t.templated.length ≤ f.source.utf8ByteSize + 1) : f.MapsSafely := by
  have checked (r : Span) : Checked.toSource? f r = .of (f.toSource? r) := by
    apply Checked.toSource?_eq
    intro _
    apply Checked.sourceStop?_eq
    intro t ht hliteral hlow
    have := (hfits t ht hliteral).1
    unfold Span.length at this
    omega
  have inSource {s : Span} (hs : f.EndsGiven s) : s.stop ≤ f.source.utf8ByteSize := by
    obtain ⟨t, ht, hgives⟩ := hs.stop
    exact le_of_gives (source_le_of_renderedTiling? f.slices_tile t ht)
      (fun hliteral => (hfits t ht hliteral).2) hgives
  have answers {r : Span} (hr : r.stop ≤ f.length) :
      (∀ s, f.toSource? r = .ok s → s.stop ≤ f.source.utf8ByteSize) ∧
        ∀ s, f.enclosing? r = some s → s.stop ≤ f.source.utf8ByteSize := by
    by_cases hslices : f.slices = []
    · obtain ⟨rfl, hmap, henclosing⟩ := toSource?_of_nil hslices hr
      rw [hmap, henclosing]
      constructor
      · rintro s ⟨⟩
        exact Nat.zero_le _
      · rintro s ⟨⟩
        exact Nat.zero_le _
    · obtain ⟨u, henclosing, given⟩ := enclosing?_endsGiven hslices hr
      rw [henclosing]
      constructor
      · intro s hs
        exact inSource (toSource?_endsGiven hslices hr hs)
      · rintro s ⟨⟩
        exact inSource given
  constructor
  · intro r hr
    exact ⟨checked r, (answers hr).1⟩
  · intro r hr
    exact ⟨Checked.enclosing?_eq (checked r), (answers hr).2⟩
  · intro offset
    exact ⟨Checked.placeIn?_eq .., Checked.placeIn?_eq ..⟩

namespace MapsSafely

/-- The map is defined for the first byte of a literal slice only if the rest of the slice is no
longer than the source up to the stop of its own. -/
theorem length_le_stop (h : f.MapsSafely) (ht : t ∈ f.slices) (hliteral : t.kind.isLiteral = true) :
    t.templated.length ≤ t.source.stop + 1 := by
  have hin := ((bounds_of_renderedTiling? f.slices_tile).2 t ht).2
  unfold Span.length
  by_contra hlong
  let first : Span := ⟨t.templated.start, t.templated.start + 1, Nat.le_succ _⟩
  have hfirst : first.stop ≤ f.length := by
    show t.templated.start + 1 ≤ f.templated.utf8ByteSize
    omega
  have hstart := TemplatedFile.sourceStart?_eq ht (Nat.le_refl _) (by omega) first
  rw [if_pos hliteral] at hstart
  have hstop : (Checked.sourceStop? f first.stop first).run = none :=
    Checked.sourceStop?_eq_none ht hliteral (Nat.lt_succ_self _)
      (show t.templated.start + 1 ≤ t.templated.stop by omega)
      (show t.source.stop < t.templated.stop - (t.templated.start + 1) by omega)
  have breaks : (Checked.toSource? f first).run = none :=
    Checked.toSource?_eq_none (Nat.lt_succ_self _) hfirst (List.ne_nil_of_mem ht) hstart hstop
  rw [(h.toSource first hfirst).1] at breaks
  cases breaks

/-- The last byte of a literal slice has a source in the file only if the slice is no longer than
the source from the start of its own on. -/
theorem start_add_length_le (h : f.MapsSafely) (ht : t ∈ f.slices)
    (hliteral : t.kind.isLiteral = true) :
    t.source.start + t.templated.length ≤ f.source.utf8ByteSize + 1 := by
  have hsource := source_le_of_renderedTiling? f.slices_tile t ht
  have hin := ((bounds_of_renderedTiling? f.slices_tile).2 t ht).2
  have hle := t.source.start_le_stop
  unfold Span.length
  by_contra hlong
  have hpoint : f.pointToSource? (t.templated.stop - 1) =
      .ok (t.source.start + (t.templated.stop - 1) - t.templated.start) :=
    pointToSource?_eq_ok_iff.2 (.inr ⟨t, ht, hliteral, by omega, by omega, rfl⟩)
  have hslices : f.slices ≠ [] := List.ne_nil_of_mem ht
  have inText : t.templated.stop - 1 ≤ f.length := by
    unfold length
    omega
  have := (h.toSource (.point (t.templated.stop - 1)) inText).2 _
    (toSource?_point_eq_ok_iff.2 ⟨inText, .inr ⟨hslices, hpoint⟩⟩)
  rw [Span.stop_point] at this
  omega

end MapsSafely

theorem of_ofSlices {source templated name : String} {slices : List RenderedSlice}
    {raw : List RawSlice} (h : ofSlices source templated name slices raw = .ok f) :
    f.source = source ∧ f.slices = slices := by
  unfold ofSlices at h
  split at h
  · cases h
  · split at h
    · cases h
    · obtain rfl := Except.ok.inj h
      exact ⟨rfl, rfl⟩

/-- Every file is made from its own slices. -/
theorem ofSlices_self (f : TemplatedFile) :
    ofSlices f.source f.templated f.name f.slices f.raw = .ok f := by
  unfold ofSlices
  split
  · next e h =>
    rw [f.slices_tile] at h
    cases h
  · split
    · next e h =>
      rw [f.raw_tile] at h
      cases h
    · rfl

/-- The map of a file made from slices is safe exactly if the text of each literal slice is at most
one byte longer than the source up to the stop of its own, and than the source from the start of its
own on. -/
theorem ofSlices_mapsSafely_iff {source templated name : String} {slices : List RenderedSlice}
    {raw : List RawSlice} (h : ofSlices source templated name slices raw = .ok f) :
    f.MapsSafely ↔ ∀ t ∈ slices, t.kind = .literal →
      t.templated.length ≤ t.source.stop + 1 ∧
        t.source.start + t.templated.length ≤ source.utf8ByteSize + 1 := by
  obtain ⟨rfl, rfl⟩ := of_ofSlices h
  constructor
  · intro hsafe t ht hkind
    have hliteral : t.kind.isLiteral = true := by simp [SliceKind.isLiteral, hkind]
    exact ⟨hsafe.length_le_stop ht hliteral, hsafe.start_add_length_le ht hliteral⟩
  · intro hfits
    apply mapsSafely_of_fits
    intro t ht hliteral
    exact hfits t ht (by simpa [SliceKind.isLiteral] using hliteral)

/-- One literal slice, with a byte more than its source. -/
def longerFile : TemplatedFile where
  source := "ab"
  templated := "abc"
  name := ""
  slices := [⟨.literal, ⟨0, 2, by decide⟩, ⟨0, 3, by decide⟩⟩]
  raw := [{ text := "ab", kind := .literal, start := 0 }]
  slices_tile := by decide
  raw_tile := by decide +kernel

/-- With one byte more than its source a literal slice can be mapped, and not verbatim. -/
theorem ofSlices_mapsSafely_iff_longer :
    ofSlices "ab" "abc" "" longerFile.slices longerFile.raw = .ok longerFile ∧
      longerFile.MapsSafely ∧ ¬ longerFile.Verbatim := by
  refine ⟨ofSlices_self longerFile,
    (ofSlices_mapsSafely_iff (ofSlices_self longerFile)).2 (by decide), ?_⟩
  intro verbatim
  exact absurd (verbatim _ (List.mem_singleton_self _) rfl) (by decide)

/-- One literal slice, without a source. -/
def sourcelessFile : TemplatedFile where
  source := ""
  templated := "abc"
  name := ""
  slices := [⟨.literal, .point 0, ⟨0, 3, by decide⟩⟩]
  raw := []
  slices_tile := by decide
  raw_tile := by decide

/-- A literal slice without a source is accepted. A point in it is mapped to a place beyond the end
of the source, and for its first byte the map breaks off. -/
theorem ofSlices_not_mapsSafely :
    ofSlices "" "abc" "" sourcelessFile.slices sourcelessFile.raw = .ok sourcelessFile ∧
      sourcelessFile.toSource? (.point 2) = .ok (.point 2) ∧
      sourcelessFile.source.utf8ByteSize = 0 ∧
      (Checked.toSource? sourcelessFile ⟨0, 1, by decide⟩).run = none ∧
      ¬ sourcelessFile.MapsSafely := by
  refine ⟨ofSlices_self sourcelessFile, by decide +kernel, by decide, by decide +kernel, ?_⟩
  intro hsafe
  have := (hsafe.toSource (.point 2) (by decide)).2 (.point 2) (by decide +kernel)
  exact absurd this (by decide)

end TemplatedFile

/-- The map of a file that was rendered from a template is safe. -/
theorem Templater.process_mapsSafely {values : List (String × String)} {source name : String}
    {f : TemplatedFile} (h : (placeholder values).process source name = .ok f) : f.MapsSafely := by
  apply TemplatedFile.mapsSafely_of_fits
  intro t ht hliteral
  have hlength := TemplatedFile.length_source_of_isLiteral h ht hliteral
  have hsource := source_le_of_renderedTiling? f.slices_tile t ht
  have hle := t.source.start_le_stop
  unfold Span.length at *
  omega

end QueryLint
