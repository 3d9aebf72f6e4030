import QueryLint.Proofs.Template.Cover

/-!
QueryLint.Proofs.Template.Point — the source of a point, and of a span in one slice.

Slices meet at a point of the templated text: one with text may stop there and another start, and
any number without text lie between them. The map takes the least of all their ends in the source.
Strictly inside a slice no other one meets it, and there, as for a span in the slice, the source is
found by counting bytes if the slice is literal.

* `RenderedSlice.Meets` — an end of a slice in both texts.
* `TemplatedFile.pointToSource?_eq_ok_iff` — the source of a point.
* `TemplatedFile.sourceStart?_eq`, `TemplatedFile.sourceStop?_eq` — the source of the ends of a span.
* `TemplatedFile.toSource?_of_isLiteral` — the source of a span in a literal slice.
-/

namespace QueryLint

/-- An end of a slice lies at `p` in the templated text and at `k` in the source. -/
def RenderedSlice.Meets (t : RenderedSlice) (p k : Nat) : Prop :=
  t.templated.start = p ∧ t.source.start = k ∨ t.templated.stop = p ∧ t.source.stop = k

namespace TemplatedFile

variable {f : TemplatedFile} {t u : RenderedSlice} {p k : Nat}

/-- Two slices of a file are the same, or the text of one comes before that of the other. -/
theorem slices_eq_or_apart (ht : t ∈ f.slices) (hu : u ∈ f.slices) :
    t = u ∨ t.templated.stop ≤ u.templated.start ∨ u.templated.stop ≤ t.templated.start := by
  have sorted := pairwise_of_renderedTiling? f.slices_tile
  exact List.Pairwise.forall_of_forall_of_flip (R := fun t u : RenderedSlice =>
    t = u ∨ t.templated.stop ≤ u.templated.start ∨ u.templated.stop ≤ t.templated.start)
    (fun _ _ => .inl rfl) (sorted.imp fun h => .inr (.inl h)) (sorted.imp fun h => .inr (.inr h))
    ht hu

/-- Text that two slices share is the text of one slice. -/
theorem slices_eq_of_lt (ht : t ∈ f.slices) (hu : u ∈ f.slices)
    (hlow : t.templated.start < u.templated.stop) (hhigh : u.templated.start < t.templated.stop) :
    t = u := by
  rcases slices_eq_or_apart ht hu with rfl | h | h
  · rfl
  · omega
  · omega

/-- The slices that start up to a point come first. -/
theorem mem_takeWhile_slices (ht : t ∈ f.slices) (hp : t.templated.start ≤ p) :
    t ∈ f.slices.takeWhile (·.templated.start ≤ p) := by
  have sorted := pairwise_of_renderedTiling? f.slices_tile
  obtain ⟨before, after, hslices⟩ := List.append_of_mem ht
  rw [hslices] at sorted ⊢
  have first : ∀ u ∈ before, decide (u.templated.start ≤ p) = true := by
    intro u hu
    have := (List.pairwise_append.1 sorted).2.2 u hu t (List.mem_cons_self ..)
    have := u.templated.start_le_stop
    exact decide_eq_true (by omega)
  rw [List.takeWhile_append_of_pos first, List.takeWhile_cons_of_pos (by simpa using hp)]
  simp

/-! ## 1. Points -/

variable (f p) in
/-- The ends in the source of the slices that meet at a point. -/
def endsAt : List Nat :=
  (f.slices.takeWhile (·.templated.start ≤ p)).flatMap fun s =>
    (if s.templated.start = p then [s.source.start] else []) ++
      (if s.templated.stop = p then [s.source.stop] else [])

theorem mem_endsAt : k ∈ f.endsAt p ↔ ∃ t ∈ f.slices, t.Meets p k := by
  have ends (t : RenderedSlice) : k ∈ (if t.templated.start = p then [t.source.start] else []) ++
      (if t.templated.stop = p then [t.source.stop] else []) ↔ t.Meets p k := by
    unfold RenderedSlice.Meets
    rw [List.mem_append]
    split <;> split <;> simp_all [eq_comm]
  unfold endsAt
  simp only [List.mem_flatMap, ends]
  refine ⟨fun ⟨t, ht, hmeets⟩ => ⟨t, (List.takeWhile_sublist _).subset ht, hmeets⟩,
    fun ⟨t, ht, hmeets⟩ => ⟨t, mem_takeWhile_slices ht ?_, hmeets⟩⟩
  have := t.templated.start_le_stop
  rcases hmeets with ⟨rfl, -⟩ | ⟨rfl, -⟩
  · exact Nat.le_refl _
  · exact this

/-- The source of a point is the least end of the slices that meet there; where none does, the
point is in a literal slice, and its source as far behind the start of the slice. -/
theorem pointToSource?_eq_ok_iff :
    f.pointToSource? p = .ok k ↔
      ((∃ t ∈ f.slices, t.Meets p k) ∧ ∀ t ∈ f.slices, ∀ m, t.Meets p m → k ≤ m) ∨
      ∃ t ∈ f.slices, t.kind.isLiteral = true ∧ t.templated.start < p ∧ p < t.templated.stop ∧
        k = t.source.start + p - t.templated.start := by
  have inside {t u : RenderedSlice} (ht : t ∈ f.slices) (hu : u ∈ f.slices) {m : Nat}
      (hlow : t.templated.start < p) (hhigh : p < t.templated.stop) : ¬ u.Meets p m := by
    unfold RenderedSlice.Meets
    have := u.templated.start_le_stop
    rcases slices_eq_or_apart ht hu with rfl | h | h <;> omega
  unfold pointToSource?
  dsimp only
  rw [← endsAt]
  split
  · next e es hends =>
    have least : es.foldl min e = k ↔ k ∈ f.endsAt p ∧ ∀ m ∈ f.endsAt p, k ≤ m := by
      rw [hends, ← List.min?_eq_some_iff, List.min?_cons', Option.some.injEq]
    rw [Except.ok.injEq, least]
    simp only [mem_endsAt]
    refine ⟨fun ⟨hmem, hle⟩ => .inl ⟨hmem, fun t ht m hm => hle m ⟨t, ht, hm⟩⟩, ?_⟩
    rintro (⟨hmem, hle⟩ | ⟨t, ht, -, hlow, hhigh, -⟩)
    · exact ⟨hmem, fun m ⟨t, ht, hm⟩ => hle t ht m hm⟩
    · obtain ⟨u, hu, hm⟩ := mem_endsAt.1 (hends ▸ List.mem_cons_self .. : e ∈ f.endsAt p)
      exact absurd hm (inside ht hu hlow hhigh)
  · next hends =>
    have alone : ∀ t ∈ f.slices, ∀ m, ¬ t.Meets p m := fun t ht m hm =>
      List.not_mem_nil (hends ▸ mem_endsAt.2 ⟨t, ht, hm⟩ : m ∈ [])
    have here : (∃ t ∈ f.slices, t.Meets p k) ↔ False :=
      iff_false_intro fun ⟨t, ht, hm⟩ => alone t ht k hm
    rw [here, false_and, false_or]
    cases hfound : f.slices.find? fun s =>
        decide (s.templated.start < p) && decide (p < s.templated.stop) with
    | none =>
      refine ⟨nofun, fun ⟨t, ht, _, hlow, hhigh, _⟩ => ?_⟩
      have := List.find?_eq_none.1 hfound t ht
      simp [hlow, hhigh] at this
    | some s =>
      have hs := List.mem_of_find?_eq_some hfound
      have hin := List.find?_some hfound
      simp only [Bool.and_eq_true, decide_eq_true_eq] at hin
      dsimp only
      constructor
      · intro h
        split at h
        · next hliteral => exact ⟨s, hs, hliteral, hin.1, hin.2, (Except.ok.inj h).symm⟩
        · cases h
      · rintro ⟨t, ht, hliteral, hlow, hhigh, rfl⟩
        obtain rfl := slices_eq_of_lt ht hs (by omega) (by omega)
        rw [if_pos hliteral]

/-- A point where slices meet has a source. -/
theorem exists_pointToSource? {m : Nat} (ht : t ∈ f.slices) (hm : t.Meets p m) :
    ∃ k, f.pointToSource? p = .ok k := by
  have hends := mem_endsAt.2 ⟨t, ht, hm⟩
  unfold pointToSource?
  dsimp only
  rw [← endsAt]
  split
  · exact ⟨_, rfl⟩
  · next hnone =>
    rw [hnone] at hends
    cases hends

theorem toSource?_point_eq_ok_iff :
    f.toSource? (.point p) = .ok (.point k) ↔
      p ≤ f.length ∧ (f.slices = [] ∧ p = k ∨ f.slices ≠ [] ∧ f.pointToSource? p = .ok k) := by
  unfold toSource?
  rw [Span.stop_point, Span.start_point]
  split
  · next hbeyond => simp [Nat.not_le.2 hbeyond]
  · next hin =>
    rw [and_iff_right (Nat.not_lt.1 hin)]
    split
    · next hnone =>
      have hnone := List.isEmpty_iff.1 hnone
      simp [hnone, Span.point]
    · next hsome =>
      have hsome : f.slices ≠ [] := fun hnone => hsome (List.isEmpty_iff.2 hnone)
      rw [if_pos (by rw [Span.isEmpty_iff]; rfl)]
      cases f.pointToSource? p <;> simp [hsome, Except.map, Span.point]

/-! ## 2. Spans in literal text -/

theorem find?_start_eq (ht : t ∈ f.slices) (hlow : t.templated.start ≤ p)
    (hhigh : p < t.templated.stop) :
    (f.slices.find? fun s => s.templated.start ≤ p && p < s.templated.stop) = some t := by
  cases hfound : f.slices.find? fun s =>
      decide (s.templated.start ≤ p) && decide (p < s.templated.stop) with
  | none =>
    have := List.find?_eq_none.1 hfound t ht
    simp [hlow, hhigh] at this
  | some u =>
    have hu := List.find?_some hfound
    simp only [Bool.and_eq_true, decide_eq_true_eq] at hu
    rw [slices_eq_of_lt ht (List.mem_of_find?_eq_some hfound) (by omega) (by omega)]

theorem find?_stop_eq (ht : t ∈ f.slices) (hlow : t.templated.start < p)
    (hhigh : p ≤ t.templated.stop) :
    (f.slices.find? fun s => s.templated.start < p && p ≤ s.templated.stop) = some t := by
  cases hfound : f.slices.find? fun s =>
      decide (s.templated.start < p) && decide (p ≤ s.templated.stop) with
  | none =>
    have := List.find?_eq_none.1 hfound t ht
    simp [hlow, hhigh] at this
  | some u =>
    have hu := List.find?_some hfound
    simp only [Bool.and_eq_true, decide_eq_true_eq] at hu
    rw [slices_eq_of_lt ht (List.mem_of_find?_eq_some hfound) (by omega) (by omega)]

/-- The source of the start of a span, in the slice in which the span starts. -/
theorem sourceStart?_eq (ht : t ∈ f.slices) (hlow : t.templated.start ≤ p)
    (hhigh : p < t.templated.stop) (whole : Span) : f.sourceStart? p whole =
      if t.kind.isLiteral then .ok (t.source.start + p - t.templated.start)
      else if p = t.templated.start then .ok t.source.start
      else .error (.insideTemplated whole) := by
  unfold sourceStart?
  rw [find?_start_eq ht hlow hhigh]

/-- The source of the stop of a span, in the slice in which the span stops. -/
theorem sourceStop?_eq (ht : t ∈ f.slices) (hlow : t.templated.start < p)
    (hhigh : p ≤ t.templated.stop) (whole : Span) : f.sourceStop? p whole =
      if t.kind.isLiteral then .ok (t.source.stop - (t.templated.stop - p))
      else if p = t.templated.stop then .ok t.source.stop
      else .error (.insideTemplated whole) := by
  unfold sourceStop?
  rw [find?_stop_eq ht hlow hhigh]

/-- The source of a span in a literal slice is where the span is in the slice. -/
theorem toSource?_of_isLiteral (hf : f.Verbatim) {r : Span} (hr : r.start < r.stop)
    (ht : t ∈ f.slices) (hliteral : t.kind.isLiteral = true) (hin : t.templated.Contains r) :
    ∃ s, f.toSource? r = .ok s ∧ s.start = t.source.start + (r.start - t.templated.start) ∧
      s.stop = t.source.start + (r.stop - t.templated.start) := by
  have same := hf t ht hliteral
  unfold Span.length at same
  have := t.source.start_le_stop
  have inFile := ((bounds_of_renderedTiling? f.slices_tile).2 t ht).2
  obtain ⟨hlow, hhigh⟩ := hin
  have start_eq := sourceStart?_eq ht hlow (by omega) r
  have stop_eq := sourceStop?_eq ht (by omega) hhigh r
  rw [if_pos hliteral] at start_eq stop_eq
  unfold toSource?
  rw [if_neg (by unfold length; omega), if_neg, if_neg (by rw [Span.isEmpty_iff]; omega)]
  · simp only [start_eq, stop_eq, bind, Except.bind]
    rw [dif_pos (by omega)]
    exact ⟨_, rfl, by dsimp only; omega, by dsimp only; omega⟩
  · rw [List.isEmpty_iff]
    rintro hnone
    rw [hnone] at ht
    cases ht

end TemplatedFile

end QueryLint
