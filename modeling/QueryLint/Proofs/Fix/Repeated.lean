import QueryLint.Proofs.Fix.Splice
import QueryLint.Proofs.Template.Loop

/-!
QueryLint.Proofs.Fix.Repeated — insertions that loops repeat.

Text that is inserted into the body of a loop is repeated in every round, so a fix must not reach
the text of a loop that renders the same in every round. Whether an insertion does is asked of one
byte: the one in front of the place if the new text stands in front of the anchor, the one behind it
otherwise. Where the new text goes in the source is decided by the map, which also looks at the
slices that stop at the place.

In front of an anchor the two agree, and so they do behind it as long as another round follows. But
behind the last round the byte behind the place is not of the loop, while the map takes the place
to the end of the body.

* `Fix.insertionPoint?` — the place in the templated text where a fix inserts.
* `isUnsafe_of_covers` — a fix that reaches a byte of the body is not safe.
* `not_covers_before`, `not_covers_behind` — what a safe insertion stays clear of.
* `safeFixes_lands_iff` — the safe insertions that land in a loop.
-/

namespace QueryLint

open TemplatedFile

/-! ## 1. What an insertion reaches -/

/-- The place in the templated text where an insertion is made: the start of its anchor, or the
stop. -/
def Fix.insertionPoint? (x : Fix) : Option Nat :=
  match x.edit with
  | .insertBefore _ => x.anchor.position.map (·.templated.start)
  | .insertAfter _ => x.anchor.position.map (·.templated.stop)
  | _ => none

variable {values : List (String × String)} {source name : String} {f : TemplatedFile}
  {loop : f.LiteralLoop} {fixes : List Fix} {x : Fix}

/-- A fix that reaches a byte of literal text reaches the raw slice of the text. -/
theorem Fix.mem_touched (hf : f.Verbatim) {t : RenderedSlice} (ht : t ∈ f.slices)
    (hliteral : t.kind.isLiteral = true) {s : RawSlice} (hs : s ∈ f.raw) (hspan : t.source = s.span)
    {p : Position} (hp : x.anchor.position = some p) {w : Span} (hw : some w ∈ x.spans true p)
    (hlt : w.start < w.stop) (hin : t.templated.Contains w) : s ∈ x.touched f true := by
  obtain ⟨r, hr, hstart, hstop⟩ := toSource?_of_isLiteral hf hlt ht hliteral hin
  have inFile := ((bounds_of_renderedTiling? f.slices_tile).2 t ht).2
  have enclosing : f.enclosing? w = some r := by
    unfold enclosing?
    rw [if_neg (Nat.not_lt.2 (Nat.le_trans hin.2 inFile : w.stop ≤ f.length)), hr]
  have same := hf t ht hliteral
  unfold Span.length at same
  obtain ⟨source_start, source_stop⟩ := Block.source_ends hspan
  obtain ⟨hlow, hhigh⟩ := hin
  have spanned : s ∈ f.rawSpanning r :=
    mem_rawSpanning hs ⟨by omega, by omega⟩
  have reached : s ∈ slicesOf f (some w) := by
    unfold slicesOf
    rw [Option.bind_some, enclosing, Option.map_some, Option.getD_some]
    split
    · next hnone => rw [hnone] at spanned; cases spanned
    · exact spanned
  unfold touched slicesOfAll
  rw [hp]
  exact List.mem_eraseDups.2 (List.mem_flatMap.2 ⟨some w, hw, reached⟩)

/-- A fix that reaches a byte of the body of a loop is not safe. -/
theorem isUnsafe_of_covers (hfile : (Templater.placeholder values).process source name = .ok f)
    {t : RenderedSlice} (ht : t ∈ f.visible) (hcovers : loop.Covers t) (hx : x ∈ fixes)
    {p : Position} (hp : x.anchor.position = some p) {w : Span} (hw : some w ∈ x.spans true p)
    (hlt : w.start < w.stop) (hin : t.templated.Contains w) : isUnsafe f fixes = true := by
  obtain ⟨ms, bs, hr⟩ := Templater.exists_renders hfile
  have hslice := (mem_visible.1 ht).1
  have hliteral := LiteralLoop.isLiteral_of_covers hr ht hcovers
  obtain ⟨xs, y, ys, hout, hbody, hkind, hsource, -, -⟩ :=
    LiteralLoop.exists_of_covers hr hslice hcovers
  have hraw := (hr.spec y (by simp [hout])).1
  have kind_eq : y.1.kind = .literal := by
    rw [hkind] at hliteral
    simpa [SliceKind.isLiteral] using hliteral
  have touched := Fix.mem_touched (fun _ => length_source_of_isLiteral hfile) hslice hliteral hraw
    hsource hp hw hlt hin
  have reached : y.1.block ∈ fixes.flatMap (·.blocks f) := by
    refine List.mem_flatMap.2 ⟨x, hx, List.mem_filterMap.2 ⟨y.1, touched, ?_⟩⟩
    rw [if_neg (by rw [RawSlice.isSourceOnly, kind_eq]; decide),
      blockAt?_eq_some hr.start_lt_stop hraw]
  have repeated : (fixes.flatMap (·.blocks f)).any f.literalLoopBlocks.contains = true :=
    List.any_eq_true.2 ⟨_, reached, by
      simpa using loop.block_mem_literalLoopBlocks hbody kind_eq⟩
  unfold isUnsafe
  dsimp only
  rw [repeated, Bool.or_true]

/-! ## 2. Where a safe insertion lands -/

section Safe

variable (hfile : (Templater.placeholder values).process source name = .ok f)
  (hx : x ∈ safeFixes f fixes) {p : Nat} {new : List Segment} {t : RenderedSlice}

include hfile hx

/-- A safe fix reaches no byte of the body. -/
theorem not_contains_of_safe {q : Position} (hq : x.anchor.position = some q) {w : Span}
    (hw : some w ∈ x.spans true q) (hlt : w.start < w.stop) (ht : t ∈ f.slices)
    (hcovers : loop.Covers t) : ¬ t.templated.Contains w := by
  intro hin
  unfold safeFixes at hx
  split at hx
  · cases hx
  · next hsafe =>
    have visible := mem_visible.2 ⟨ht, Nat.lt_of_le_of_lt hin.1 (Nat.lt_of_lt_of_le hlt hin.2)⟩
    exact hsafe (isUnsafe_of_covers hfile visible hcovers hx hq hw hlt hin)

/-- Text of the body does not reach up to an anchor that a safe insertion stands in front of. -/
theorem not_covers_before (hedit : x.edit = .insertBefore new) (hp : x.insertionPoint? = some p)
    (ht : t ∈ f.slices) (hcovers : loop.Covers t) (hlow : t.templated.start < p) :
    ¬ p ≤ t.templated.stop := by
  intro hhigh
  obtain ⟨q, hq, rfl⟩ : ∃ q, x.anchor.position = some q ∧ q.templated.start = p := by
    simpa [Fix.insertionPoint?, hedit] using hp
  have reached : some (Span.between (q.templated.start - 1) q.templated.start) ∈
      x.spans true q := by
    unfold Fix.spans
    rw [hedit]
    dsimp only
    rw [if_neg (by omega)]
    exact List.mem_singleton_self _
  refine not_contains_of_safe hfile hx hq reached ?_ ht hcovers ⟨?_, ?_⟩
  all_goals
    simp only [Span.start_between, Span.stop_between]
    omega

/-- Text of the body does not go on behind an anchor that a safe insertion stands behind. -/
theorem not_covers_behind (hedit : x.edit = .insertAfter new) (hp : x.insertionPoint? = some p)
    (ht : t ∈ f.slices) (hcovers : loop.Covers t) (hlow : t.templated.start ≤ p) :
    ¬ p < t.templated.stop := by
  intro hhigh
  obtain ⟨q, hq, rfl⟩ : ∃ q, x.anchor.position = some q ∧ q.templated.stop = p := by
    simpa [Fix.insertionPoint?, hedit] using hp
  have reached : some (Span.between q.templated.stop (q.templated.stop + 1)) ∈
      x.spans true q := by
    unfold Fix.spans
    rw [hedit]
    exact List.mem_singleton_self _
  refine not_contains_of_safe hfile hx hq reached ?_ ht hcovers ⟨?_, ?_⟩
  all_goals
    simp only [Span.start_between, Span.stop_between]
    omega

end Safe

/-- A safe insertion lands in a loop that renders the same text in every round exactly if it is made
behind an anchor, the last round of the loop stops there, and nothing starts there that comes from
before the body. In front of an anchor none lands. -/
theorem safeFixes_lands_iff
    (hfile : (Templater.placeholder values).process source name = .ok f) (loop : f.LiteralLoop)
    (hx : x ∈ safeFixes f fixes) {p : Nat} (hp : x.insertionPoint? = some p) :
    loop.Lands p ↔ x.edit.isInsertAfter = true ∧ loop.EndsAt p ∧
      ∀ t ∈ f.slices, t.templated.start = p → loop.opening.stop ≤ t.source.start := by
  rw [loop.lands_iff hfile]
  cases hedit : x.edit with
  | insertBefore new =>
    have before {t : RenderedSlice} (ht : t ∈ f.slices) (hcovers : loop.Covers t) :=
      not_covers_before hfile hx hedit hp ht hcovers
    refine ⟨?_, fun h => absurd h.1 Bool.false_ne_true⟩
    rintro (⟨t, ht, hcovers, hlow, hhigh⟩ | ⟨⟨t, ht, hcovers, hstop⟩, -⟩)
    · exact absurd (Nat.le_of_lt hhigh) (before ht hcovers hlow)
    · obtain ⟨hslice, hlt⟩ := mem_visible.1 ht
      exact absurd (Nat.le_of_eq hstop.symm) (before hslice hcovers (hstop ▸ hlt))
  | insertAfter new =>
    have behind {t : RenderedSlice} (ht : t ∈ f.slices) (hcovers : loop.Covers t) :=
      not_covers_behind hfile hx hedit hp ht hcovers
    refine ⟨?_, fun ⟨_, hends, hstarts⟩ => .inr ⟨hends.stops, hstarts⟩⟩
    rintro (⟨t, ht, hcovers, hlow, hhigh⟩ | ⟨⟨t, ht, hcovers, hstop⟩, hstarts⟩)
    · exact absurd hhigh (behind ht hcovers (Nat.le_of_lt hlow))
    · refine ⟨rfl, LiteralLoop.endsAt_of_covers hfile ht hcovers hstop ?_, hstarts⟩
      rintro u hu hucovers rfl
      obtain ⟨hslice, hlt⟩ := mem_visible.1 hu
      exact behind hslice hucovers (Nat.le_refl _) hlt
  | replace new => simp [Fix.insertionPoint?, hedit] at hp
  | delete => simp [Fix.insertionPoint?, hedit] at hp

/-! ## 3. A fix behind the last round -/

/-- A loop over two items that renders a letter, with another letter behind it. -/
def roundsSource : String := "\x7b% for i in a, b %\x7dx\x7b% endfor %\x7dy"

/-- The file of the template: the letter twice, and the other one. -/
def roundsFile : TemplatedFile := rendered [] roundsSource

theorem process_roundsSource :
    (Templater.placeholder []).process roundsSource "" = .ok roundsFile :=
  process_eq_rendered (by decide +kernel)

/-- The loop of the template. -/
def roundsLoop : roundsFile.LiteralLoop where
  before := []
  opening := ⟨"\x7b% for i in a, b %\x7d", .blockStart, 0, 0, some "for"⟩
  body := [⟨"x", .literal, 19, 1, none⟩]
  closing := ⟨"\x7b% endfor %\x7d", .blockEnd, 20, 2, some "endfor"⟩
  after := [⟨"y", .literal, 32, 2, none⟩]
  raw_eq := by decide +kernel
  opening_kind := rfl
  opening_tag := rfl
  closing_kind := rfl
  body_kind := by simp

/-- The tree of the template. -/
def roundsTree : Segment :=
  (((Parser.ofBook nothingBook).parse
    ((lex [wordRule "x", wordRule "y"] .enabled roundsFile).run 0).1.segments).run 10).1.tree

/-- A blank behind a segment. -/
def blankBehind (s : Segment) : Fix := .insertAfter s [((Segment.whitespace " ").run 100).1]

/-- A blank behind the letter of the second round is safe. -/
theorem exists_blankBehind : ∃ s ∈ roundsTree.leaves,
    blankBehind s ∈ safeFixes roundsFile [blankBehind s] ∧
      (blankBehind s).insertionPoint? = some 2 := by
  have safe : ∃ s ∈ roundsTree.leaves, isUnsafe roundsFile [blankBehind s] = false ∧
      (blankBehind s).insertionPoint? = some 2 := by decide +kernel
  obtain ⟨s, hs, hsafe, hpoint⟩ := safe
  exact ⟨s, hs, by rw [safeFixes, hsafe]; exact List.mem_singleton_self _, hpoint⟩

/-- The second round is the last one, so the blank lands in the loop. -/
theorem safeFixes_lands_iff_behind : ∃ s ∈ roundsTree.leaves,
    blankBehind s ∈ safeFixes roundsFile [blankBehind s] ∧
      (blankBehind s).insertionPoint? = some 2 ∧ roundsLoop.Lands 2 := by
  obtain ⟨s, hs, hsafe, hpoint⟩ := exists_blankBehind
  have ends : ((∃ t ∈ roundsFile.visible, (∃ r ∈ roundsLoop.body, t.source = r.span) ∧
      t.templated.stop = 2) ∧
      ∃ t ∈ roundsFile.slices, t.source = roundsLoop.closing.span ∧ t.templated.start = 2) ∧
      ∀ t ∈ roundsFile.slices, t.templated.start = 2 →
        roundsLoop.opening.stop ≤ t.source.start := by decide +kernel
  exact ⟨s, hs, hsafe, hpoint, (safeFixes_lands_iff process_roundsSource roundsLoop hsafe hpoint).2
    ⟨rfl, ⟨ends.1.1, ends.1.2⟩, ends.2⟩⟩

/-- A blank that is safe to insert behind the letter of the second round goes into the loop, where
both rounds render it. -/
theorem safeFixes_land_in_loop :
    (Templater.placeholder []).process roundsSource "" = .ok roundsFile ∧
      ∃ s ∈ roundsTree.leaves, blankBehind s ∈ safeFixes roundsFile [blankBehind s] ∧
        (blankBehind s).text = " " ∧ (blankBehind s).insertionPoint? = some 2 ∧
        roundsLoop.Lands 2 := by
  obtain ⟨s, hs, hsafe, hpoint⟩ := exists_blankBehind
  have mapped : (roundsFile.toSource? (.point 2)).toOption = some (.point 20) := by decide +kernel
  exact ⟨process_roundsSource, s, hs, hsafe, rfl, hpoint, 20, toSource?_eq_ok mapped,
    by decide, by decide⟩

end QueryLint
