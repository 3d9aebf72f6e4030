import QueryLint.Fix.Splice
import QueryLint.Proofs.Fix.Reached
import QueryLint.Proofs.Template.Raw

/-!
QueryLint.Proofs.Fix.Markup — which patches reach markup.

A patch is kept if its place in the source touches literal slices only, or if it inserts at the
start of a slice. Such patches have no byte of markup in their place. A patch that touches one
literal slice and one of markup is moved to the one copy of the text that it replaces, and nothing
asks in which of the two slices the copy stands.

* `Patch.TouchesMarkup` — a patch with markup in its place.
* `Patch.Strays` — a patch that was moved out of the literal slice.
* `Patch.safe?_cases` — the ways in which a patch is kept.
* `Patch.touchesMarkup_iff_strays` — a patch that is kept touches markup exactly if it strays.
-/

namespace QueryLint

open Segment

namespace Patch

variable {f : TemplatedFile} {p q : Patch}

/-! ## 1. Moving a patch -/

/-- The patch changes bytes of markup, or inserts inside of it. -/
def TouchesMarkup (f : TemplatedFile) (q : Patch) : Prop :=
  ∃ s ∈ f.raw, s.isSourceOnly = true ∧ s.Overlaps q.source

instance (f : TemplatedFile) (q : Patch) : Decidable (q.TouchesMarkup f) :=
  inferInstanceAs (Decidable (∃ s ∈ f.raw, _))

/-- A patch over markup was moved to the one copy of the text that it replaces, and the copy does
not stand within literal text. -/
structure Strays (f : TemplatedFile) (p q : Patch) : Prop where
  moved : p.relocated? = some q
  mixed : ∃ s ∈ f.rawSpanning p.source, s.isSourceOnly = true
  outside : ∀ s ∈ f.rawSpanning p.source, s.kind.isLiteral = true →
    ¬ (s.start ≤ q.source.start ∧ q.source.stop ≤ s.stop)

/-- A patch of text that changed, with the source at its place. -/
structure IsMapped (f : TemplatedFile) (p : Patch) : Prop where
  category : p.category ≠ .source
  sourceText : p.sourceText = (p.source.text? f.source).getD ""

theorem soleOccurrence?_le {pat text : String} {k : Nat} (h : soleOccurrence? pat text = some k) :
    k + pat.utf8ByteSize ≤ text.utf8ByteSize := by
  unfold soleOccurrence? at h
  obtain ⟨start, -, h⟩ := Option.bind_eq_some_iff.1 h
  obtain ⟨rest, hrest, h⟩ := Option.bind_eq_some_iff.1 h
  split at h
  · rw [Option.some.injEq] at h
    obtain ⟨front, hfront, hcount⟩ := Text.exists_append_of_dropBytes? hrest
    rw [← Text.byteCount_toList text, hfront, Text.byteCount_append, hcount, h]
    omega
  · cases h

/-- A patch that is moved stays within its place, which lies in the source, and is not empty. -/
theorem relocated?_bounds (hp : p.IsMapped f) (h : p.relocated? = some q) :
    p.source.start ≤ q.source.start ∧ q.source.start < q.source.stop ∧
      q.source.stop ≤ p.source.stop ∧ p.source.stop ≤ f.source.utf8ByteSize := by
  unfold relocated? at h
  split at h
  · cases h
  · next hempty =>
    obtain ⟨k, hk, rfl⟩ := Option.map_eq_some_iff.1 h
    have fits := soleOccurrence?_le hk
    have nonempty : p.templatedText.utf8ByteSize ≠ 0 := by
      rw [Ne, String.utf8ByteSize_eq_zero_iff]
      simpa using hempty
    have inSource : p.source.start + p.sourceText.utf8ByteSize = p.source.stop ∧
        p.source.stop ≤ f.source.utf8ByteSize := by
      rw [hp.sourceText] at fits ⊢
      cases htext : p.source.text? f.source with
      | none =>
        rw [htext, Option.getD_none, String.utf8ByteSize_empty] at fits
        omega
      | some t => exact Text.le_of_slice? htext
    dsimp only
    omega

/-! ## 2. Ways to keep a patch -/

/-- A patch that is kept touches literal slices only, or inserts at the start of a slice, or is
moved in a literal slice and one of markup. -/
theorem safe?_cases (hp : p.IsMapped f) (h : p.safe? f = some q) :
    (q = p ∧ ∀ s ∈ f.rawSpanning p.source, s.kind.isLiteral = true) ∨
    (q = p ∧ p.source.start = p.source.stop ∧
      ∃ s, (f.rawSpanning p.source).head? = some s ∧ s.start = p.source.start) ∨
    (p.relocated? = some q ∧ ∃ l m, l.kind.isLiteral = true ∧ m.isSourceOnly = true ∧
      (f.rawSpanning p.source = [l, m] ∨ f.rawSpanning p.source = [m, l])) := by
  unfold safe? at h
  dsimp only at h
  split at h
  · next hall =>
    rw [Option.some.injEq] at h
    exact .inl ⟨h.symm, by simpa using hall⟩
  · next hall =>
    rw [if_neg hp.category] at h
    split at h
    · next hpoint =>
      rw [Option.some.injEq] at h
      rw [Bool.and_eq_true, Span.isEmpty_iff, Option.any_eq_true] at hpoint
      obtain ⟨hempty, s, hs, hstart⟩ := hpoint
      exact .inr (.inl ⟨h.symm, hempty, s, hs, by simpa using hstart⟩)
    · split at h
      · cases h
      · next hany =>
        split at h
        · cases h
        · next hlength =>
          refine .inr (.inr ⟨h, ?_⟩)
          match hslices : f.rawSpanning p.source with
          | [] => simp [hslices] at hall
          | [a] => simp_all
          | [a, b] =>
            rw [hslices] at hall hany
            simp only [List.all_cons, List.all_nil, List.any_cons, List.any_nil, Bool.and_true,
              Bool.or_false, Bool.not_eq_true, Bool.not_eq_false', Bool.or_eq_true,
              Bool.and_eq_false_iff] at hall hany
            unfold RawSlice.isSourceOnly
            cases ha : a.kind.isLiteral with
            | true => exact ⟨a, b, ha, by simp_all, .inl rfl⟩
            | false => exact ⟨b, a, by simp_all, by simp [ha], .inr rfl⟩
          | a :: b :: d :: rest => simp [hslices] at hlength

/-- What lies within a literal slice touches no markup. -/
theorem not_touchesMarkup_of_within {l : RawSlice} (hl : l ∈ f.raw)
    (hliteral : l.kind.isLiteral = true) (hstart : l.start ≤ q.source.start)
    (hstop : q.source.stop ≤ l.stop) : ¬ q.TouchesMarkup f := by
  rintro ⟨t, ht, honly, hlt, hgt⟩
  rcases TemplatedFile.eq_or_apart ht hl with rfl | happart | happart
  · rw [RawSlice.isSourceOnly, hliteral] at honly
    cases honly
  · omega
  · omega

/-- A patch that is kept touches markup exactly if it strays. -/
theorem touchesMarkup_iff_strays (hp : p.IsMapped f) (h : p.safe? f = some q) :
    q.TouchesMarkup f ↔ p.Strays f q := by
  rcases safe?_cases hp h with
    ⟨rfl, hall⟩ | ⟨rfl, hempty, s, hs, hstart⟩ | ⟨hmoved, l, m, hl, hm, hslices⟩
  · constructor
    · rintro ⟨t, ht, honly, hover⟩
      have := hall t (TemplatedFile.mem_rawSpanning ht hover)
      rw [RawSlice.isSourceOnly, this] at honly
      cases honly
    · rintro ⟨-, ⟨t, ht, honly⟩, -⟩
      rw [RawSlice.isSourceOnly, hall t ht] at honly
      cases honly
  · constructor
    · rintro ⟨t, ht, -, hover⟩
      exact absurd hover (TemplatedFile.not_overlaps_of_point hempty hs hstart t ht)
    · rintro ⟨hmoved, -, -⟩
      have := relocated?_bounds hp hmoved
      omega
  · obtain ⟨hstart, hlt, hstop, hsize⟩ := relocated?_bounds hp hmoved
    have lmem : l ∈ f.rawSpanning p.source := by
      rcases hslices with hslices | hslices <;> rw [hslices] <;> simp
    have mmem : m ∈ f.rawSpanning p.source := by
      rcases hslices with hslices | hslices <;> rw [hslices] <;> simp
    constructor
    · intro htouch
      refine ⟨hmoved, ⟨m, mmem, hm⟩, fun s hs hliteral hwithin => ?_⟩
      exact not_touchesMarkup_of_within (TemplatedFile.mem_raw_of_mem_rawSpanning hs) hliteral
        hwithin.1 hwithin.2 htouch
    · rintro ⟨-, -, outside⟩
      have out := outside l lmem hl
      refine ⟨m, TemplatedFile.mem_raw_of_mem_rawSpanning mmem, hm, ?_⟩
      rcases hslices with hslices | hslices
      · have := TemplatedFile.rawSpanning_pair hslices hsize
        exact ⟨by omega, by omega⟩
      · have := TemplatedFile.rawSpanning_pair hslices hsize
        exact ⟨by omega, by omega⟩

/-! ## 3. Patches of a tree -/

theorem exists_safe_of_mem_allSafe {seen : List (Span × String)} {ps : List Patch}
    (h : q ∈ allSafe f seen ps) : ∃ p ∈ ps, p.safe? f = some q := by
  induction ps generalizing seen with
  | nil => cases h
  | cons p ps ih =>
    have later (seen : List (Span × String)) (h : q ∈ allSafe f seen ps) :
        ∃ r ∈ p :: ps, r.safe? f = some q := by
      obtain ⟨r, hr, hsafe⟩ := ih h
      exact ⟨r, List.mem_cons_of_mem _ hr, hsafe⟩
    rw [allSafe] at h
    split at h
    · exact later _ h
    · split at h
      · next r hsafe =>
        rcases List.mem_cons.1 h with rfl | h
        · exact ⟨p, List.mem_cons_self .., hsafe⟩
        · exact later _ h
      · exact later _ h

/-- A patch of changed text is mapped to a patch of changed text. -/
theorem isMapped_of_toSource? (hcategory : p.category ≠ .source) (h : p.toSource? f = some q) :
    q.IsMapped f := by
  unfold toSource? at h
  rw [if_neg hcategory] at h
  split at h
  · rw [Option.some.injEq] at h
    subst h
    exact ⟨hcategory, rfl⟩
  · cases h

end Patch

namespace Segment

theorem category_gapPatch (w : Walk) (p : Position) :
    ∀ x ∈ w.gapPatch p, x.category ≠ .source := by
  intro x hx
  unfold Walk.gapPatch at hx
  split at hx
  · rw [List.mem_singleton.1 hx]
    simp
  · cases hx

theorem category_endPatch (w : Walk) (f : TemplatedFile) (p : Position) :
    ∀ x ∈ w.endPatch f p, x.category ≠ .source := by
  intro x hx
  unfold Walk.endPatch at hx
  split at hx
  · rw [List.mem_singleton.1 hx]
    simp [Patch.ofSpans]
  · cases hx

mutual

/-- A tree without source fixes has patches of changed text only. -/
theorem category_patches (f : TemplatedFile) (s : Segment) (hs : s.IsPlain) :
    ∀ x ∈ patches f s, x.category ≠ .source := by
  match s with
  | mk i cs =>
    have own : i.sourceFixes = [] := ((isPlain_iff _).1 hs).1
    have inside : ∀ c ∈ cs, c.IsPlain := ((isPlain_iff _).1 hs).2
    have all : (mk i cs).sourceFixes = [] := hs
    intro x hx
    rw [patches] at hx
    split at hx
    · cases hx
    · next p hp =>
      dsimp only at hx
      rw [all, own] at hx
      split at hx
      · cases hx
      · split at hx
        · rw [List.map_nil, List.nil_append, List.mem_singleton] at hx
          rw [hx]
          simp [Patch.ofSpans]
        · cases cs with
          | nil => simp at hx
          | cons c rest => exact category_patchesFrom f p _ (c :: rest) inside x (by simpa using hx)

theorem category_patchesFrom (f : TemplatedFile) (p : Position) (w : Walk) (ss : List Segment)
    (hs : ∀ s ∈ ss, s.IsPlain) : ∀ x ∈ patchesFrom f p w ss, x.category ≠ .source := by
  match ss with
  | [] =>
    rw [patchesFrom]
    exact category_endPatch w f p
  | s :: rest =>
    have later (w : Walk) := category_patchesFrom f p w rest fun s hs' => hs s (by simp [hs'])
    intro x hx
    rw [patchesFrom] at hx
    split at hx
    · exact later _ x hx
    · next q hq =>
      split at hx
      · exact later _ x hx
      · rcases List.mem_append.1 hx with hx | hx
        · rcases List.mem_append.1 hx with hx | hx
          · exact category_gapPatch w q x hx
          · exact category_patches f s (hs s (by simp)) x hx
        · exact later _ x hx

end

/-- The patches of a tree without source fixes, at their place in the source, are patches of changed
text. -/
theorem isMapped_of_mem {f : TemplatedFile} {tree : Segment} (htree : tree.IsPlain) {p : Patch}
    (hp : p ∈ (tree.patches f).filterMap (·.toSource? f)) : p.IsMapped f := by
  obtain ⟨r, hr, hrp⟩ := List.mem_filterMap.1 hp
  exact Patch.isMapped_of_toSource? (category_patches f tree htree r hr) hrp

/-- Every patch that is made for a tree comes from one of its patches, made safe. -/
theorem exists_of_mem_sourcePatches {f : TemplatedFile} {tree : Segment} {q : Patch}
    (hq : q ∈ sourcePatches f tree) :
    ∃ p ∈ (tree.patches f).filterMap (·.toSource? f), p.safe? f = some q := by
  unfold sourcePatches at hq
  rw [List.mem_mergeSort] at hq
  exact Patch.exists_safe_of_mem_allSafe hq

end Segment

end QueryLint
