import QueryLint.Proofs.Match.Punctual

/-!
QueryLint.Proofs.Match.Parts — the parts of a sequence that match.

The match of a sequence does not say which of its parts it comes from: what a part matched may be
put into nothing, and a part may be left out. A trace says so. It follows the sequence from part to
part, whatever each of them leads to, and keeps the parts that match, with the place where each was
asked for and its match. Every run of a sequence has a trace.

* `MatchContext.NoCode` — a range of tokens without code.
* `MatchContext.SequenceTrace` — the parts that match while a sequence is matched.
* `MatchContext.exists_sequenceTrace` — every run of a sequence has one.
* `MatchContext.Successive` — matches of parts, one after the other.
* `MatchContext.Filled` — of a list of parts, all that are required have matched, in their order.
-/

namespace QueryLint

open Matching

namespace MatchContext

variable {c : MatchContext} {I : MatchState → Prop}

/-! ## 1. Ranges without code -/

/-- From one place on, before the other, there is no code. -/
structure NoCode (c : MatchContext) (a b : Nat) : Prop where
  le : a ≤ b
  blank : ∀ p, a ≤ p → p < b → c.isCodeAt p = false

namespace NoCode

theorem refl (a : Nat) : c.NoCode a a := ⟨Nat.le_refl a, fun p _ _ => by omega⟩

theorem skipToCode (a limit : Nat) : c.NoCode a (c.skipToCode a limit) :=
  ⟨le_skipToCode a limit, fun _ ha hb => not_isCodeAt_of_lt_skipToCode ha hb⟩

theorem trimToCode (a b : Nat) : c.NoCode (c.trimToCode b a) b :=
  ⟨trimToCode_le b a, fun _ ha hb => not_isCodeAt_of_trimToCode_le ha hb⟩

theorem trans {a b d : Nat} (h : c.NoCode a b) (h' : c.NoCode b d) : c.NoCode a d := by
  refine ⟨Nat.le_trans h.le h'.le, fun p ha hd => ?_⟩
  by_cases hb : p < b
  · exact h.blank p ha hb
  · exact h'.blank p (by omega) hd

/-- A place of code from the start of the range on is behind the range. -/
theorem le_of_isCodeAt {a b p : Nat} (h : c.NoCode a b) (hp : a ≤ p)
    (hcode : c.isCodeAt p = true) : b ≤ p := by
  by_contra hlt
  have := h.blank p hp (by omega)
  rw [hcode] at this
  cases this

end NoCode

/-- Where there is no code up to the limit, all is passed over. -/
theorem le_skipToCode_of_blank {a limit : Nat}
    (h : ∀ p, a ≤ p → p < limit → c.isCodeAt p = false) : limit ≤ c.skipToCode a limit := by
  by_contra hlt
  have hcode : c.isCodeAt (c.skipToCode a limit) = true := isCodeAt_skipToCode (by omega)
  have := h (c.skipToCode a limit) (le_skipToCode a limit) (by omega)
  rw [hcode] at this
  cases this

/-! ## 2. Traces -/

/-- A part of a grammar that has matched. -/
structure PartMatch where
  part : GrammarId
  /-- The place where it was asked for. -/
  place : Nat
  found : Match

/-- If all that parts have matched could be placed, so could what each of them has matched. -/
theorem hasUnparsable_of_mem {xs : List PartMatch} {x : PartMatch}
    (h : Match.anyUnparsable (xs.flatMap (·.found.outerChildren)) = false) (hx : x ∈ xs) :
    x.found.hasUnparsable = false := by
  induction xs with
  | nil => cases hx
  | cons y xs ih =>
    rw [List.flatMap_cons, Match.anyUnparsable_append, Bool.or_eq_false_iff,
      Match.anyUnparsable_outerChildren] at h
    rcases List.mem_cons.1 hx with rfl | hx
    · exact h.1
    · exact ih h.2 hx

/-- Up to where the next part is asked for there is no code. -/
theorem SequenceSpec.noCode_nextPlace (spec : SequenceSpec) (s : SequenceState) :
    c.NoCode s.place (spec.nextPlace c s) := by
  unfold nextPlace
  split
  · exact .skipToCode _ _
  · exact .refl _

/-- A part that is no marker and must not be left out. -/
def Required (t : Tables) (g : GrammarId) : Prop :=
  (t.instruction g).kind ≠ .marker ∧ (t.instruction g).isOptional = false

section Traces

variable (c) (below : Matcher) (ts : List GrammarId) (limit start : Nat) (spec : SequenceSpec)

/-- A sequence goes from part to part, from a state and parts that are left to others. The list
holds the parts that match on the way. -/
inductive SequenceRun : SequenceState → List GrammarId → MatchState → List PartMatch →
    SequenceState → List GrammarId → MatchState → Prop where
  | stay {s : SequenceState} {gs : List GrammarId} {t : MatchState} :
    SequenceRun s gs t [] s gs t
  | marker {s s' : SequenceState} {g : GrammarId} {gs hs : List GrammarId} {t t' : MatchState}
    {xs : List PartMatch} (marker : (c.tables.instruction g).kind = .marker)
    (rest : SequenceRun { s with waiting := s.waiting ++ (c.enabledMarker? g).toList } gs t xs
      s' hs t') :
    SequenceRun s (g :: gs) t xs s' hs t'
  | absent {s s' : SequenceState} {g : GrammarId} {gs hs : List GrammarId} {t t' : MatchState}
    {xs : List PartMatch} (part : (c.tables.instruction g).kind ≠ .marker)
    (leftOut : (c.tables.instruction g).isOptional = true) (ended : s.limit ≤ spec.nextPlace c s)
    (rest : SequenceRun s gs t xs s' hs t') :
    SequenceRun s (g :: gs) t xs s' hs t'
  | leftOut {s s' : SequenceState} {g : GrammarId} {gs hs : List GrammarId} {t t₁ t' : MatchState}
    {xs : List PartMatch} {m : Match} (part : (c.tables.instruction g).kind ≠ .marker)
    (leftOut : (c.tables.instruction g).isOptional = true) (goesOn : spec.nextPlace c s < s.limit)
    (run : (below (pushTerminators spec.reset spec.terminators ts) s.limit (spec.nextPlace c s)
      g).run t = (m, t₁))
    (isNone : m.isMatch = false) (rest : SequenceRun s gs t₁ xs s' hs t') :
    SequenceRun s (g :: gs) t xs s' hs t'
  | took {s s' : SequenceState} {g : GrammarId} {gs hs : List GrammarId} {t t₁ t₂ t' : MatchState}
    {xs : List PartMatch} {m : Match} {bound : Nat}
    (part : (c.tables.instruction g).kind ≠ .marker) (goesOn : spec.nextPlace c s < s.limit)
    (run : (below (pushTerminators spec.reset spec.terminators ts) s.limit (spec.nextPlace c s)
      g).run t = (m, t₁))
    (isMatch : m.isMatch = true)
    (bounds : (c.nextLimit below ts limit spec s m).run t₁ = (bound, t₂))
    (rest : SequenceRun (s.withPart (spec.nextPlace c s) bound m) gs t₂ xs s' hs t') :
    SequenceRun s (g :: gs) t (⟨g, spec.nextPlace c s, m⟩ :: xs) s' hs t'

/-- How a sequence ends: all parts have been dealt with, or one that is required finds no token or
does not match. -/
inductive SequenceEnd : SequenceState → List GrammarId → MatchState → Match × MatchState →
    Prop where
  | finished {s : SequenceState} {t : MatchState} :
    SequenceEnd s [] t (c.finishSequence spec start s, t)
  | ended {s : SequenceState} {g : GrammarId} {gs : List GrammarId} {t : MatchState}
    (required : Required c.tables g) (ended : s.limit ≤ spec.nextPlace c s) :
    SequenceEnd s (g :: gs) t (c.endedSequence spec start s g, t)
  | failed {s : SequenceState} {g : GrammarId} {gs : List GrammarId} {t t₁ : MatchState} {m : Match}
    (required : Required c.tables g) (goesOn : spec.nextPlace c s < s.limit)
    (run : (below (pushTerminators spec.reset spec.terminators ts) s.limit (spec.nextPlace c s)
      g).run t = (m, t₁))
    (isNone : m.isMatch = false) :
    SequenceEnd s (g :: gs) t (c.failedSequence spec start s g (spec.nextPlace c s), t₁)

/-- The parts that match while a sequence is matched, and what comes of it. -/
inductive SequenceTrace (t : MatchState) (xs : List PartMatch) : Match × MatchState → Prop where
  | mk {bound : Nat} {t₀ t₁ : MatchState} {s : SequenceState} {gs : List GrammarId}
    {r : Match × MatchState}
    (bounds : (c.firstLimit below ts limit start spec).run t = (bound, t₀))
    (run : c.SequenceRun below ts limit spec { place := start, limit := bound } spec.parts t₀ xs
      s gs t₁)
    (ends : c.SequenceEnd below ts start spec s gs t₁ r) : SequenceTrace t xs r

end Traces

section Every

variable (below : Matcher) (ts : List GrammarId) (limit start : Nat) (spec : SequenceSpec)

/-- A sequence goes from part to part until it ends. -/
theorem exists_sequenceRun (s : SequenceState) (gs : List GrammarId) (t : MatchState) :
    ∃ xs s' hs t', c.SequenceRun below ts limit spec s gs t xs s' hs t' ∧
      c.SequenceEnd below ts start spec s' hs t'
        ((c.sequenceFrom below ts limit start spec s gs).run t) := by
  induction gs generalizing s t with
  | nil => exact ⟨[], s, [], t, .stay, .finished⟩
  | cons g gs ih =>
    unfold sequenceFrom
    dsimp only
    by_cases hmarker : (c.tables.instruction g).kind = .marker
    · rw [if_pos hmarker]
      obtain ⟨xs, s', hs, t', run, ends⟩ :=
        ih { s with waiting := s.waiting ++ (c.enabledMarker? g).toList } t
      exact ⟨xs, s', hs, t', .marker hmarker run, ends⟩
    rw [if_neg hmarker]
    rw [← SequenceSpec.nextPlace]
    by_cases hended : s.limit ≤ spec.nextPlace c s
    · rw [if_pos hended]
      by_cases hoptional : (c.tables.instruction g).isOptional = true
      · rw [if_pos hoptional]
        obtain ⟨xs, s', hs, t', run, ends⟩ := ih s t
        exact ⟨xs, s', hs, t', .absent hmarker hoptional hended run, ends⟩
      · rw [if_neg hoptional]
        exact ⟨[], s, g :: gs, t, .stay, .ended ⟨hmarker, by simpa using hoptional⟩ hended⟩
    rw [if_neg hended]
    have goesOn : spec.nextPlace c s < s.limit := by omega
    rcases hrun : (below (pushTerminators spec.reset spec.terminators ts) s.limit
      (spec.nextPlace c s) g).run t with ⟨m, t₁⟩
    rw [run_bind_of_run hrun]
    by_cases hmatch : m.isMatch = true
    · rw [if_neg (by simp [hmatch])]
      rcases hbound : (c.nextLimit below ts limit spec s m).run t₁ with ⟨bound, t₂⟩
      have bounds := hbound
      unfold nextLimit at bounds
      rw [bind_ite, run_bind_of_run bounds]
      obtain ⟨xs, s', hs, t', run, ends⟩ := ih (s.withPart (spec.nextPlace c s) bound m) t₂
      exact ⟨_, s', hs, t', .took hmarker goesOn hrun hmatch hbound run, ends⟩
    · have hnone : m.isMatch = false := by simpa using hmatch
      rw [if_pos (by simp [hnone])]
      by_cases hoptional : (c.tables.instruction g).isOptional = true
      · rw [if_pos hoptional]
        obtain ⟨xs, s', hs, t', run, ends⟩ := ih s t₁
        exact ⟨xs, s', hs, t', .leftOut hmarker hoptional goesOn hrun hnone run, ends⟩
      · rw [if_neg hoptional]
        exact ⟨[], s, g :: gs, t, .stay,
          .failed ⟨hmarker, by simpa using hoptional⟩ goesOn hrun hnone⟩

/-- Every run of a sequence has a trace. -/
theorem exists_sequenceTrace (t : MatchState) :
    ∃ xs, c.SequenceTrace below ts limit start spec t xs
      ((c.matchSequence below ts limit start spec).run t) := by
  unfold matchSequence
  rcases hbound : (c.firstLimit below ts limit start spec).run t with ⟨bound, t₀⟩
  have bounds := hbound
  unfold firstLimit at bounds
  dsimp only
  rw [bind_ite, run_bind_of_run bounds]
  obtain ⟨xs, s, gs, t₁, run, ends⟩ := exists_sequenceRun (c := c) below ts limit start spec
    { place := start, limit := bound } spec.parts t₀
  exact ⟨xs, .mk hbound run ends⟩

end Every

/-! ## 3. What a trace says -/

section Runs

variable {below : Matcher} {ts : List GrammarId} {limit start : Nat} {spec : SequenceSpec}
  {s s' : SequenceState} {gs hs : List GrammarId} {t t' : MatchState} {xs : List PartMatch}

/-- Of a list of parts, these have matched, in the order of the list. Markers match nothing, and
only optional parts are left out. -/
inductive Filled (t : Tables) : List GrammarId → List PartMatch → Prop where
  | nil : Filled t [] []
  | marker {g : GrammarId} {gs : List GrammarId} {xs : List PartMatch}
    (marker : (t.instruction g).kind = .marker) (rest : Filled t gs xs) : Filled t (g :: gs) xs
  | leftOut {g : GrammarId} {gs : List GrammarId} {xs : List PartMatch}
    (part : (t.instruction g).kind ≠ .marker) (leftOut : (t.instruction g).isOptional = true)
    (rest : Filled t gs xs) : Filled t (g :: gs) xs
  | matched {x : PartMatch} {gs : List GrammarId} {xs : List PartMatch}
    (part : (t.instruction x.part).kind ≠ .marker) (rest : Filled t gs xs) :
    Filled t (x.part :: gs) (x :: xs)

/-- A part that is required has matched. -/
theorem Filled.exists_of_required {tables : Tables} (h : Filled tables gs xs) {g : GrammarId}
    (hg : g ∈ gs) (hrequired : Required tables g) : ∃ x ∈ xs, x.part = g := by
  induction h with
  | nil => cases hg
  | marker hmarker _ ih =>
    rcases List.mem_cons.1 hg with rfl | hg
    · exact absurd hmarker hrequired.1
    · exact ih hg
  | leftOut _ hoptional _ ih =>
    rcases List.mem_cons.1 hg with rfl | hg
    · rw [hrequired.2] at hoptional
      cases hoptional
    · exact ih hg
  | @matched x gs xs _ _ ih =>
    rcases List.mem_cons.1 hg with rfl | hg
    · exact ⟨x, by simp, rfl⟩
    · obtain ⟨y, hy, rfl⟩ := ih hg
      exact ⟨y, by simp [hy], rfl⟩

/-- No part needs to match exactly if none is required. -/
theorem filled_nil_iff {tables : Tables} : Filled tables gs [] ↔ ¬ HasRequired tables gs := by
  constructor
  · rintro h ⟨g, hg, hrequired⟩
    obtain ⟨x, hx, -⟩ := h.exists_of_required hg hrequired
    cases hx
  · intro h
    induction gs with
    | nil => exact .nil
    | cons g gs ih =>
      have rest : Filled tables gs [] :=
        ih fun ⟨x, hx, hrequired⟩ => h ⟨x, by simp [hx], hrequired⟩
      by_cases hmarker : (tables.instruction g).kind = .marker
      · exact .marker hmarker rest
      · refine .leftOut hmarker ?_ rest
        by_contra hoptional
        exact h ⟨g, by simp, hmarker, by simpa using hoptional⟩

/-- The parts that have been gone through are filled by those that match on the way. -/
theorem SequenceRun.filled (h : c.SequenceRun below ts limit spec s gs t xs s' hs t') :
    ∃ ds, gs = ds ++ hs ∧ Filled c.tables ds xs := by
  induction h with
  | stay => exact ⟨[], rfl, .nil⟩
  | marker hmarker _ ih =>
    obtain ⟨ds, rfl, filled⟩ := ih
    exact ⟨_ :: ds, rfl, .marker hmarker filled⟩
  | absent hpart hoptional _ _ ih =>
    obtain ⟨ds, rfl, filled⟩ := ih
    exact ⟨_ :: ds, rfl, .leftOut hpart hoptional filled⟩
  | leftOut hpart hoptional _ _ _ _ ih =>
    obtain ⟨ds, rfl, filled⟩ := ih
    exact ⟨_ :: ds, rfl, .leftOut hpart hoptional filled⟩
  | took hpart _ _ _ _ _ ih =>
    obtain ⟨ds, rfl, filled⟩ := ih
    exact ⟨_ :: ds, rfl, .matched (x := ⟨_, _, _⟩) hpart filled⟩

/-- What a sequence has matched is what its parts have matched. -/
theorem SequenceRun.children_eq (h : c.SequenceRun below ts limit spec s gs t xs s' hs t') :
    s'.children = s.children ++ xs.flatMap (·.found.outerChildren) := by
  induction h with
  | stay => simp
  | marker _ _ ih => exact ih
  | absent _ _ _ _ ih => exact ih
  | leftOut _ _ _ _ _ _ ih => exact ih
  | took _ _ _ _ _ _ ih => simp [ih, SequenceState.withPart]

theorem enabledMarker?_of_not_marker {g : GrammarId}
    (h : (c.tables.instruction g).kind ≠ .marker) : c.enabledMarker? g = none := by
  unfold enabledMarker? Tables.shape
  cases hkind : (c.tables.instruction g).kind with
  | marker => exact absurd hkind h
  | _ => rfl

/-- As long as no part has matched, the sequence is where it was, and markers wait. -/
theorem SequenceRun.unmoved (h : c.SequenceRun below ts limit spec s gs t [] s' hs t') :
    ∃ ds, gs = ds ++ hs ∧
      s' = { s with waiting := s.waiting ++ ds.flatMap fun g => (c.enabledMarker? g).toList } := by
  generalize hxs : ([] : List PartMatch) = xs at h
  induction h with
  | stay => exact ⟨[], rfl, by simp⟩
  | marker _ _ ih =>
    obtain ⟨ds, rfl, rfl⟩ := ih hxs
    exact ⟨_ :: ds, rfl, by simp⟩
  | absent part _ _ _ ih =>
    obtain ⟨ds, rfl, rfl⟩ := ih hxs
    exact ⟨_ :: ds, rfl, by simp [enabledMarker?_of_not_marker part]⟩
  | leftOut part _ _ _ _ _ ih =>
    obtain ⟨ds, rfl, rfl⟩ := ih hxs
    exact ⟨_ :: ds, rfl, by simp [enabledMarker?_of_not_marker part]⟩
  | took => cases hxs

/-- Where no token is left, no part matches. -/
theorem SequenceRun.eq_nil_of_limit_le (h : c.SequenceRun below ts limit spec s gs t xs s' hs t')
    (hlimit : s.limit ≤ s.place) : xs = [] := by
  have beyond {s : SequenceState} (hlimit : s.limit ≤ s.place) : s.limit ≤ spec.nextPlace c s :=
    Nat.le_trans hlimit (spec.noCode_nextPlace s).le
  induction h with
  | stay => rfl
  | marker _ _ ih => exact ih hlimit
  | absent _ _ _ _ ih => exact ih hlimit
  | leftOut _ _ goesOn => exact absurd (beyond hlimit) (by omega)
  | took _ goesOn => exact absurd (beyond hlimit) (by omega)

/-- Matches of parts one after the other, from one place to another. Up to where the next part is
asked for there is no code, and it matches there or further on. -/
inductive Successive (c : MatchContext) : Nat → List PartMatch → Nat → Prop where
  | nil (a : Nat) : Successive c a [] a
  | cons {a b : Nat} {x : PartMatch} {xs : List PartMatch} (gap : c.NoCode a x.place)
    (le_start : x.place ≤ x.found.start) (start_le_stop : x.found.start ≤ x.found.stop)
    (rest : Successive c x.found.stop xs b) : Successive c a (x :: xs) b

namespace Successive

variable {a b : Nat}

theorem le (h : c.Successive a xs b) : a ≤ b := by
  induction h with
  | nil => exact Nat.le_refl _
  | cons gap le_start start_le_stop _ ih =>
    have := gap.le
    omega

/-- All matches are between the two places. -/
theorem within (h : c.Successive a xs b) :
    ∀ x ∈ xs, a ≤ x.found.start ∧ x.found.start ≤ x.found.stop ∧ x.found.stop ≤ b := by
  induction h with
  | nil => simp
  | cons gap le_start start_le_stop rest ih =>
    intro y hy
    have := gap.le
    have := rest.le
    rcases List.mem_cons.1 hy with rfl | hy
    · omega
    · have := ih y hy
      omega

/-- Code from the one place on, before the other, is taken by a part, or passed over before the
match of a part. -/
theorem takes (h : c.Successive a xs b) {p : Nat} (ha : a ≤ p) (hb : p < b)
    (hcode : c.isCodeAt p = true) :
    ∃ x ∈ xs, x.place ≤ p ∧ p < x.found.stop := by
  induction h with
  | nil => omega
  | @cons a b x xs gap _ _ _ ih =>
    have hplace := gap.le_of_isCodeAt ha hcode
    by_cases hp : p < x.found.stop
    · exact ⟨x, by simp, hplace, hp⟩
    · obtain ⟨y, hy, hyp⟩ := ih (by omega) hb
      exact ⟨y, by simp [hy], hyp⟩

end Successive

variable (hsound : Sound c False False I below)

include hsound

/-- While parts match, states stay as they should be, and every match is as its matcher promises. -/
theorem SequenceRun.forall_mem {Q : Nat → Match → Prop}
    (h : c.SequenceRun below ts limit spec s gs t xs s' hs t')
    (hbelow : ∀ ts limit i g, Meets I (below ts limit i g) (Q i)) (ht : I t) :
    (∀ x ∈ xs, Q x.place x.found) ∧ I t' := by
  induction h with
  | stay => exact ⟨by simp, ht⟩
  | marker _ _ ih => exact ih ht
  | absent _ _ _ _ ih => exact ih ht
  | leftOut _ _ _ run _ _ ih => exact ih ((hbelow _ _ _ _).of_run ht run).2
  | @took _ _ _ _ _ _ _ t₂ _ _ _ _ _ _ run _ bounds _ ih =>
    obtain ⟨found, ht₁⟩ := (hbelow _ _ _ _).of_run ht run
    have ht₂ : I t₂ := by
      unfold nextLimit at bounds
      split at bounds
      · exact ((meets_trimToTerminator hsound False.elim _ _ _ _).of_run ht₁ bounds).2
      · cases bounds
        exact ht₁
    obtain ⟨later, ht'⟩ := ih ht₂
    refine ⟨fun x hx => ?_, ht'⟩
    rcases List.mem_cons.1 hx with rfl | hx
    · exact found
    · exact later x hx

/-- The parts that match do so one after the other, and the sequence has come to the end of the
last. -/
theorem SequenceRun.successive (h : c.SequenceRun below ts limit spec s gs t xs s' hs t')
    (ht : I t) : c.Successive s.place xs s'.place := by
  induction h with
  | stay => exact .nil _
  | marker _ _ ih => exact ih ht
  | absent _ _ _ _ ih => exact ih ht
  | leftOut _ _ _ run _ _ ih => exact ih ((hsound _ _ _ _).of_run ht run).2
  | @took s s' g gs hs t t₁ t₂ t' xs m bound _ goesOn run isMatch bounds _ ih =>
    obtain ⟨claims, ht₁⟩ := (hsound _ _ _ _).of_run ht run
    have claims := claims (.inr isMatch)
    have ht₂ : I t₂ := by
      unfold nextLimit at bounds
      split at bounds
      · exact ((meets_trimToTerminator hsound False.elim _ _ _ _).of_run ht₁ bounds).2
      · cases bounds
        exact ht₁
    exact .cons (spec.noCode_nextPlace s) claims.le_start claims.start_le_stop (ih ht₂)

/-- While a sequence is matched its parts match as the matcher promises. -/
theorem SequenceTrace.forall_mem {Q : Nat → Match → Prop} {r : Match × MatchState}
    (h : c.SequenceTrace below ts limit start spec t xs r)
    (hbelow : ∀ ts limit i g, Meets I (below ts limit i g) (Q i)) (ht : I t) :
    ∀ x ∈ xs, Q x.place x.found := by
  obtain @⟨bound, t₀, t₁, s, gs, r, bounds, run, -⟩ := h
  have ht₀ : I t₀ := by
    unfold firstLimit at bounds
    split at bounds
    · exact ((meets_trimToTerminator hsound False.elim _ _ _ _).of_run ht bounds).2
    · cases bounds
      exact ht
  exact (run.forall_mem hsound hbelow ht₀).1

end Runs

end MatchContext

end QueryLint
