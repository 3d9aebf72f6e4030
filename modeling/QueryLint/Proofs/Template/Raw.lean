import QueryLint.Proofs.Text.Bytes
import QueryLint.Template.File

/-!
QueryLint.Proofs.Template.Raw — how raw slices lie in the source.

Every file carries a proof that its raw slices tile its source. So they follow each other without
overlap, their texts make up the source, and the slices that a span touches are a window of the
list.

* `RawSlice.Tile` — slices one after the other between two offsets.
* `TemplatedFile.mem_rawSpanning` — what a span overlaps is among the slices it touches.
* `TemplatedFile.rawSpanning_pair` — a span that touches two slices lies in them.
* `TemplatedFile.rawSpanning_eq_filter` — a span touches the slices that share a byte with it.
* `TemplatedFile.rawSpanning_point` — a point touches the slice that it is in.
* `TemplatedFile.toList_source` — the source is the texts of the slices.
-/

namespace QueryLint

/-! ## 1. Tilings -/

namespace RawSlice

/-- Slices one after the other between two offsets. -/
inductive Tile : Nat → List RawSlice → Nat → Prop where
  | nil (n : Nat) : Tile n [] n
  | cons {s : RawSlice} {rest : List RawSlice} {n : Nat} (h : Tile s.stop rest n) :
      Tile s.start (s :: rest) n

/-- A slice and a span have bytes in common, or the span is a point inside the slice. -/
def Overlaps (t : RawSlice) (s : Span) : Prop := s.start < t.stop ∧ t.start < s.stop

instance (t : RawSlice) (s : Span) : Decidable (t.Overlaps s) :=
  inferInstanceAs (Decidable (_ ∧ _))

/-- Number of bytes that a slice and a span have in common. -/
def shared (t : RawSlice) (s : Span) : Nat := min t.stop s.stop - max t.start s.start

theorem shared_pos_iff {t : RawSlice} {s : Span} (ht : t.start < t.stop)
    (hs : s.start < s.stop) : 0 < t.shared s ↔ t.Overlaps s := by
  unfold shared Overlaps
  omega

theorem start_le_stop (s : RawSlice) : s.start ≤ s.stop := Nat.le_add_right _ _

namespace Tile

variable {a b : Nat} {s : RawSlice} {ss us : List RawSlice}

theorem head (h : Tile a (s :: ss) b) : s.start = a := by
  cases h with
  | cons _ => rfl

theorem tail (h : Tile a (s :: ss) b) : Tile s.stop ss b := by
  cases h with
  | cons h => exact h

theorem eq_of_nil (h : Tile a [] b) : a = b := by
  cases h
  rfl

theorem le (h : Tile a ss b) : a ≤ b := by
  induction h with
  | nil n => exact Nat.le_refl n
  | @cons s _ _ _ ih => exact Nat.le_trans s.start_le_stop ih

theorem bounds (h : Tile a ss b) : ∀ t ∈ ss, a ≤ t.start ∧ t.stop ≤ b := by
  induction h with
  | nil n => simp
  | @cons s rest n h ih =>
    intro t ht
    rcases List.mem_cons.1 ht with rfl | ht
    · exact ⟨Nat.le_refl _, h.le⟩
    · have := s.start_le_stop
      have := ih t ht
      omega

/-- No two slices overlap. -/
theorem pairwise (h : Tile a ss b) : ss.Pairwise (·.stop ≤ ·.start) := by
  induction h with
  | nil n => exact .nil
  | cons h ih => exact List.pairwise_cons.2 ⟨fun t ht => (h.bounds t ht).1, ih⟩

theorem split (h : Tile a (ss ++ us) b) : ∃ n, Tile a ss n ∧ Tile n us b := by
  induction ss generalizing a with
  | nil => exact ⟨a, .nil a, h⟩
  | cons s ss ih =>
    obtain rfl := h.head
    obtain ⟨n, hss, hus⟩ := ih h.tail
    exact ⟨n, .cons hss, hus⟩

end Tile

end RawSlice

open RawSlice

/-- What a tiling is checked for: the slices follow each other, and their texts are the text. -/
theorem tile_of_rawTiling? {source : String} {offset : Nat} {raw : List RawSlice}
    (h : rawTiling? source offset raw = none) :
    Tile offset raw source.utf8ByteSize ∧ ∀ front back, source.toList = front ++ back →
      Text.byteCount front = offset → back = raw.flatMap (·.text.toList) := by
  induction raw generalizing offset with
  | nil =>
    rw [rawTiling?] at h
    split at h
    · next heq =>
      refine ⟨heq ▸ .nil _, fun front back hs hfront => ?_⟩
      have whole := congrArg Text.byteCount hs
      rw [Text.byteCount_toList, Text.byteCount_append, hfront, heq] at whole
      exact Text.byteCount_eq_zero_iff.1 (by omega)
    · cases h
  | cons s raw ih =>
    rw [rawTiling?] at h
    split at h
    · cases h
    · next hstart =>
      split at h
      · cases h
      · next htext =>
        obtain ⟨tile, texts⟩ := ih h
        have hstart := Decidable.not_not.1 hstart
        subst hstart
        refine ⟨.cons tile, fun front back hs hfront => ?_⟩
        obtain ⟨front', rest, hs', hfront', -⟩ :=
          Text.slice?_eq_some_iff.1 (Decidable.not_not.1 htext)
        rw [hs, List.append_assoc] at hs'
        obtain ⟨rfl, hback⟩ := List.append_inj hs' (by
          have cut := Text.dropBytes?_of_eq_append hs hfront
          have cut' := Text.dropBytes?_of_eq_append (hs.trans hs') hfront'
          rw [cut, Option.some.injEq] at cut'
          have := congrArg List.length hs'
          rw [List.length_append, List.length_append, cut'] at this
          omega)
        have next := texts (front ++ s.text.toList) rest
          (by rw [hs, hback, List.append_assoc])
          (by rw [Text.byteCount_append, hfront, Text.byteCount_toList]; rfl)
        rw [hback, List.flatMap_cons, next]

/-! ## 2. The slices that a span touches -/

namespace TemplatedFile

/-- The list from the slice in which an offset lies. -/
theorem fromSliceAt_spec {a b offset : Nat} {s : RawSlice} {ss : List RawSlice}
    (h : Tile a (s :: ss) b) (ha : a ≤ offset) :
    ∃ before first rest, s :: ss = before ++ first :: rest ∧
      fromSliceAt offset (s :: ss) = first :: rest ∧ (∀ t ∈ before, t.stop ≤ offset) ∧
      first.start ≤ offset ∧ ∀ t ∈ rest, offset < t.start := by
  induction ss generalizing a s with
  | nil =>
    refine ⟨[], s, [], rfl, rfl, by simp, ?_, by simp⟩
    rw [h.head]
    exact ha
  | cons r ss ih =>
    rw [fromSliceAt]
    have hnext := h.tail.head
    split
    · next hr =>
      obtain ⟨before, first, rest, heq, hfrom, hbefore, hfirst, hrest⟩ := ih h.tail (by omega)
      refine ⟨s :: before, first, rest, by rw [heq]; rfl, hfrom, fun t ht => ?_, hfirst, hrest⟩
      rcases List.mem_cons.1 ht with rfl | ht
      · omega
      · exact hbefore t ht
    · next hr =>
      refine ⟨[], s, r :: ss, rfl, rfl, by simp, by rw [h.head]; exact ha, fun t ht => ?_⟩
      have := (h.tail.bounds t ht).1
      omega

variable (f : TemplatedFile)

theorem raw_tiles : Tile 0 f.raw f.source.utf8ByteSize := (tile_of_rawTiling? f.raw_tile).1

/-- The texts of the raw slices are the source. -/
theorem toList_source : f.source.toList = f.raw.flatMap (·.text.toList) :=
  (tile_of_rawTiling? f.raw_tile).2 [] f.source.toList rfl rfl

/-- The slices that a span touches: none beyond the end, or a window that starts with the slice in
which the span starts. -/
theorem rawSpanning_spec (s : Span) :
    (f.source.utf8ByteSize ≤ s.start ∧ f.rawSpanning s = []) ∨
      ∃ before first rest, f.raw = before ++ first :: rest ∧
        f.rawSpanning s = first :: rest.takeWhile (·.start < s.stop) ∧
        (∀ t ∈ before, t.stop ≤ s.start) ∧ first.start ≤ s.start ∧
        ∀ t ∈ rest, s.start < t.start := by
  have tiles := f.raw_tiles
  unfold rawSpanning
  cases hraw : f.raw with
  | nil =>
    rw [hraw] at tiles
    have := tiles.eq_of_nil
    exact .inl ⟨by omega, rfl⟩
  | cons r raw =>
    rw [hraw] at tiles
    obtain ⟨last, hlast⟩ : ∃ last, (r :: raw).getLast? = some last :=
      Option.isSome_iff_exists.1 (by simp)
    obtain ⟨init, hinit⟩ := List.getLast?_eq_some_iff.1 hlast
    have last_stop : last.stop = f.source.utf8ByteSize := by
      rw [hinit] at tiles
      obtain ⟨n, -, hend⟩ := tiles.split
      exact hend.tail.eq_of_nil
    rw [hlast]
    dsimp only
    split
    · next hbeyond => exact .inl ⟨by omega, rfl⟩
    · obtain ⟨before, first, rest, heq, hfrom, hspec⟩ :=
        fromSliceAt_spec tiles (Nat.zero_le s.start)
      rw [hfrom]
      exact .inr ⟨before, first, rest, heq, rfl, hspec⟩

variable {f}

/-- The slices that a span touches are slices of the file. -/
theorem mem_raw_of_mem_rawSpanning {s : Span} {t : RawSlice} (h : t ∈ f.rawSpanning s) :
    t ∈ f.raw := by
  rcases f.rawSpanning_spec s with ⟨-, hnone⟩ | ⟨before, first, rest, hraw, hspan, -⟩
  · rw [hnone] at h
    cases h
  · rw [hspan] at h
    rw [hraw]
    rcases List.mem_cons.1 h with rfl | h
    · simp
    · simp [(List.takeWhile_sublist _).subset h]

/-- Of slices that follow each other, those that start before an offset come first. -/
theorem takeWhile_start_eq_filter {n : Nat} {ss : List RawSlice}
    (h : ss.Pairwise (·.stop ≤ ·.start)) :
    ss.takeWhile (·.start < n) = ss.filter (·.start < n) := by
  induction ss with
  | nil => rfl
  | cons t ss ih =>
    obtain ⟨hnext, hrest⟩ := List.pairwise_cons.1 h
    by_cases ht : t.start < n
    · rw [List.takeWhile_cons_of_pos (by simpa using ht),
        List.filter_cons_of_pos (by simpa using ht), ih hrest]
    · have later : ∀ u ∈ ss, ¬ u.start < n := by
        intro u hu
        have := hnext u hu
        have := t.start_le_stop
        omega
      rw [List.takeWhile_cons_of_neg (by simpa using ht),
        List.filter_cons_of_neg (by simpa using ht), List.filter_eq_nil_iff.2 (by simpa using later)]

/-- What a span overlaps is among the slices that it touches. -/
theorem mem_rawSpanning {s : Span} {t : RawSlice} (ht : t ∈ f.raw) (h : t.Overlaps s) :
    t ∈ f.rawSpanning s := by
  have tiles := f.raw_tiles
  rcases f.rawSpanning_spec s with ⟨hbeyond, -⟩ | ⟨before, first, rest, hraw, hspan, hbefore, -, -⟩
  · have := (tiles.bounds t ht).2
    have := h.1
    omega
  · have sorted := tiles.pairwise
    rw [hraw] at ht sorted
    rw [hspan]
    rcases List.mem_append.1 ht with ht | ht
    · have := hbefore t ht
      have := h.1
      omega
    · rcases List.mem_cons.1 ht with rfl | ht
      · exact List.mem_cons_self ..
      · have inRest := (List.pairwise_cons.1 (List.pairwise_append.1 sorted).2.1).2
        rw [takeWhile_start_eq_filter inRest]
        exact List.mem_cons_of_mem _ (List.mem_filter.2 ⟨ht, by simpa using h.2⟩)

/-- A point at the start of the slice that it touches overlaps nothing. -/
theorem not_overlaps_of_point {s : Span} (hempty : s.start = s.stop) {first : RawSlice}
    (hfirst : (f.rawSpanning s).head? = some first) (hstart : first.start = s.start) :
    ∀ t ∈ f.raw, ¬ t.Overlaps s := by
  rintro t ht ⟨hstop, hlt⟩
  rcases f.rawSpanning_spec s with
    ⟨-, hnone⟩ | ⟨before, first', rest, hraw, hspan, hbefore, -, hrest⟩
  · rw [hnone] at hfirst
    cases hfirst
  · rw [hspan, List.head?_cons, Option.some.injEq] at hfirst
    subst hfirst
    rw [hraw] at ht
    rcases List.mem_append.1 ht with ht | ht
    · have := hbefore t ht
      omega
    · rcases List.mem_cons.1 ht with rfl | ht
      · omega
      · have := hrest t ht
        omega

/-- A span in the source that touches two slices lies in them, and they meet. -/
theorem rawSpanning_pair {s : Span} {a b : RawSlice} (h : f.rawSpanning s = [a, b])
    (hs : s.stop ≤ f.source.utf8ByteSize) :
    a.start ≤ s.start ∧ a.stop = b.start ∧ s.stop ≤ b.stop := by
  have tiles := f.raw_tiles
  rcases f.rawSpanning_spec s with ⟨-, hnone⟩ | ⟨before, first, rest, hraw, hspan, -, hfirst, -⟩
  · rw [hnone] at h
    cases h
  · rw [hspan, List.cons.injEq] at h
    obtain ⟨rfl, hrest⟩ := h
    rw [hraw] at tiles
    obtain ⟨n, -, tiles⟩ := tiles.split
    cases rest with
    | nil => cases hrest
    | cons r rest =>
      rw [List.takeWhile_cons] at hrest
      split at hrest
      · rw [List.cons.injEq] at hrest
        obtain ⟨rfl, hend⟩ := hrest
        refine ⟨hfirst, tiles.tail.head.symm, ?_⟩
        cases rest with
        | nil =>
          rw [tiles.tail.tail.eq_of_nil]
          exact hs
        | cons u rest =>
          rw [List.takeWhile_cons] at hend
          split at hend
          · cases hend
          · next hu =>
            rw [← tiles.tail.tail.head]
            simpa using hu
      · cases hrest

/-- The window of the slices that a span touches: those before it stop where the span starts or
earlier, the first holds its start, and those behind it start later. -/
theorem exists_window (hin : s.start < f.source.utf8ByteSize) :
    ∃ before first rest, f.raw = before ++ first :: rest ∧
      f.rawSpanning s = first :: rest.filter (·.start < s.stop) ∧
      (∀ t ∈ before, t.stop ≤ s.start) ∧ (first.start ≤ s.start ∧ s.start < first.stop) ∧
      ∀ t ∈ rest, s.start < t.start := by
  rcases f.rawSpanning_spec s with
    ⟨hbeyond, -⟩ | ⟨before, first, rest, hraw, hspan, hbefore, hfirst, hrest⟩
  · omega
  · have tiles := f.raw_tiles
    rw [hraw] at tiles
    obtain ⟨n, -, tiles⟩ := tiles.split
    have holds : s.start < first.stop := by
      cases rest with
      | nil =>
        rw [tiles.tail.eq_of_nil]
        exact hin
      | cons u rest =>
        rw [← tiles.tail.head]
        exact hrest u (List.mem_cons_self ..)
    rw [takeWhile_start_eq_filter tiles.tail.pairwise] at hspan
    exact ⟨before, first, rest, hraw, hspan, hbefore, ⟨hfirst, holds⟩, hrest⟩

/-- What holds of the first slice of a window and of none before it holds of the window from its
first slice on. -/
theorem filter_window {p : RawSlice → Bool} {before : List RawSlice} {first : RawSlice}
    (rest : List RawSlice) (hbefore : ∀ t ∈ before, ¬ p t = true) (hfirst : p first = true) :
    (before ++ first :: rest).filter p = first :: rest.filter p := by
  rw [List.filter_append, List.filter_eq_nil_iff.2 hbefore, List.nil_append,
    List.filter_cons_of_pos hfirst]

/-- Of slices with text, a span with text touches those that share a byte with it. -/
theorem rawSpanning_eq_filter (htext : ∀ t ∈ f.raw, t.start < t.stop) (hs : s.start < s.stop)
    (hin : s.stop ≤ f.source.utf8ByteSize) :
    f.rawSpanning s = f.raw.filter (0 < ·.shared s) := by
  obtain ⟨before, first, rest, hraw, hspan, hbefore, hfirst, hrest⟩ :=
    exists_window (f := f) (s := s) (by omega)
  rw [hraw] at htext
  have shares {t : RawSlice} (ht : t ∈ before ++ first :: rest) :
      0 < t.shared s ↔ t.Overlaps s := RawSlice.shared_pos_iff (htext t ht) hs
  rw [hspan, hraw, filter_window rest]
  · congr 1
    apply List.filter_congr
    intro t ht
    have := hrest t ht
    have := t.start_le_stop
    simp only [shares (t := t) (by simp [ht]), RawSlice.Overlaps, decide_eq_decide]
    omega
  · intro t ht
    have := hbefore t ht
    simp only [shares (List.mem_append_left _ ht), RawSlice.Overlaps, decide_eq_true_eq]
    omega
  · simp only [shares (t := first) (by simp), RawSlice.Overlaps, decide_eq_true_eq]
    omega

/-- A point below the end touches the one slice that it is in, or where it starts. -/
theorem rawSpanning_point {p : Nat} (hp : p < f.source.utf8ByteSize) :
    ∃ t, f.rawSpanning (.point p) = [t] ∧
      f.raw.filter (fun t => t.start ≤ p ∧ p < t.stop) = [t] := by
  obtain ⟨before, first, rest, hraw, hspan, hbefore, hfirst, hrest⟩ :=
    exists_window (f := f) (s := .point p) hp
  simp only [Span.start_point] at hbefore hfirst hrest
  have behind {q : RawSlice → Bool} (hq : ∀ t, p < t.start → ¬ q t = true) : rest.filter q = [] :=
    List.filter_eq_nil_iff.2 fun t ht => hq t (hrest t ht)
  refine ⟨first, ?_, ?_⟩
  · rw [hspan, behind]
    intro t ht hq
    have : t.start < p := of_decide_eq_true hq
    omega
  · rw [hraw, filter_window rest, behind]
    · intro t ht
      simp only [decide_eq_true_eq]
      omega
    · intro t ht
      have := hbefore t ht
      simp only [decide_eq_true_eq]
      omega
    · simpa using hfirst

/-- Two slices of a file are the same, or one ends before the other starts. -/
theorem eq_or_apart {a b : RawSlice} (ha : a ∈ f.raw) (hb : b ∈ f.raw) :
    a = b ∨ a.stop ≤ b.start ∨ b.stop ≤ a.start := by
  have sorted := f.raw_tiles.pairwise
  refine List.Pairwise.forall_of_forall_of_flip (R := fun a b : RawSlice =>
    a = b ∨ a.stop ≤ b.start ∨ b.stop ≤ a.start) (fun a _ => .inl rfl)
    (sorted.imp fun h => .inr (.inl h)) (sorted.imp fun h => .inr (.inr h)) ha hb

end TemplatedFile

end QueryLint
