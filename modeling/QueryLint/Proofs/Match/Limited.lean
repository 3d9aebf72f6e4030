import QueryLint.Proofs.Match.Parts
import QueryLint.Proofs.Match.Transparent
import QueryLint.Proofs.Parse

/-!
QueryLint.Proofs.Match.Limited — how often the parts of a repetition match.

A repetition takes the option that matches most, again and again. It ends where it has enough, where
no token is left, where no option matches, or where the option that matches most has been taken as
often as it may be. The trace of a repetition keeps the options that are taken, and which of these
ends it came to. No option is ever taken more often than it may be, and there are never more rounds
than are wanted at most. Where there are too few, nothing matches, unless the repetition has come to
its last end: that one does not ask how many rounds there have been.

* `MatchContext.RepetitionTrace` — the options that a repetition takes, and how it ends.
* `MatchContext.exists_repetitionTrace` — every run of a repetition has a trace.
* `MatchContext.matchAnyNumberOf_repeats` — what a repetition matches, told by its trace.
-/

namespace QueryLint

open Matching

namespace MatchContext

variable {c : MatchContext} {I : MatchState → Prop}

/-! ## 1. The option that matches most -/

/-- The best match that takes a token comes with its grammar, which made it. -/
theorem meets_longestFrom_option {here below : Matcher} {Q : GrammarId → Match → Prop}
    {ts : List GrammarId} {limit i : Nat}
    (hhere : ∀ place g, Meets I (here ts limit place g) fun _ => True) (gs : List GrammarId)
    (hbelow : ∀ g ∈ gs, Meets I (below ts limit i g) (Q g)) {best : Match × Option GrammarId}
    (hbest : best.1.isEmpty = true ∨ ∃ g, best.2 = some g ∧ Q g best.1) :
    Meets I (c.longestFrom here below ts limit i best gs) fun r =>
      r.1.isEmpty = true ∨ ∃ g, r.2 = some g ∧ Q g r.1 := by
  induction gs generalizing best with
  | nil => exact .pure hbest
  | cons g gs ih =>
    have later {best : Match × Option GrammarId}
        (h : best.1.isEmpty = true ∨ ∃ g, best.2 = some g ∧ Q g best.1) :=
      ih (fun g hg => hbelow g (by simp [hg])) h
    refine (hbelow g (by simp)).bind fun m hm => ?_
    have made : m.isEmpty = true ∨ ∃ g', some g = some g' ∧ Q g' m := .inr ⟨g, rfl, hm⟩
    refine .ite (fun _ => .pure made) fun _ => .ite (fun _ => later hbest) fun _ => ?_
    refine .ite (fun _ => .pure made) fun _ => .ite (fun _ => later made) fun _ => ?_
    refine .ite (fun _ => .pure made) fun _ => ?_
    refine (meets_anyMatches (hhere _) ts).bind fun found _ => ?_
    exact .ite (fun _ => .pure made) fun _ => later made

/-- A longest match that takes a token comes with the option that made it. -/
theorem meets_longest_option {here below : Matcher} {Q : GrammarId → Match → Prop}
    {ts : List GrammarId} {limit i : Nat}
    (hhere : ∀ place g, Meets I (here ts limit place g) fun _ => True) (gs : List GrammarId)
    (hbelow : i < limit → ∀ g ∈ gs, Meets I (below ts limit i g) (Q g)) :
    Meets I (c.longest here below ts limit i gs) fun r =>
      r.1.isEmpty = true ∨ ∃ g, r.2 = some g ∧ Q g r.1 := by
  have nothing : (Match.empty i).isEmpty = true := by simp [Match.isEmpty, Match.empty]
  unfold longest
  refine .ite (fun _ => .pure (.inl nothing)) fun hlt => ?_
  exact meets_longestFrom_option hhere _ (fun g hg => hbelow (by omega) g (mem_of_mem_prune hg))
    (.inl nothing)

/-! ## 2. Traces -/

/-- After an option that has matched. -/
def RepetitionState.withPart (c : MatchContext) (limit : Nat) (allowGaps : Bool)
    (s : RepetitionState) (g : GrammarId) (m : Match) : RepetitionState where
  matched := s.matched.append m
  count := s.count + 1
  counts := (g, timesOf g s.counts + 1) :: s.counts
  place := (s.matched.append m).stop
  next := if allowGaps then c.skipToCode (s.matched.append m).stop limit
    else (s.matched.append m).stop

/-- How a repetition ends. -/
inductive RepetitionExit where
  /-- What is excluded matches. -/
  | excluded
  /-- There have been enough rounds, and there may not be more, or no token is left. -/
  | enough
  /-- No token is left for the rounds that are wanted. -/
  | cutOff
  /-- No option matches. -/
  | unmatched
  /-- The option that matches most may not be taken again. -/
  | capped
  deriving DecidableEq, Repr

section Traces

variable (c) (below below2 : Matcher) (ts : List GrammarId) (limit start : Nat) (allowGaps : Bool)
  (r : Repetition) (options : List GrammarId)

/-- A repetition goes from round to round. The list holds the options that are taken. -/
inductive RepetitionRun : RepetitionState → MatchState → List PartMatch → RepetitionState →
    MatchState → Prop where
  | stay {s : RepetitionState} {t : MatchState} : RepetitionRun s t [] s t
  | took {s s' : RepetitionState} {t t₁ t' : MatchState} {xs : List PartMatch} {g : GrammarId}
    {m : Match} (wanted : r.least ≤ s.count → ∀ k ∈ r.most, s.count < k) (goesOn : s.place < limit)
    (run : (c.longest below below2 ts limit s.next options).run t = ((m, some g), t₁))
    (takes : m.start < m.stop) (allowed : ∀ k ∈ r.perPart, timesOf g s.counts < k)
    (rest : RepetitionRun (s.withPart c limit allowGaps g m) t₁ xs s' t') :
    RepetitionRun s t (⟨g, s.next, m⟩ :: xs) s' t'

/-- How a repetition ends after its last round. -/
inductive RepetitionEnd : RepetitionState → MatchState → RepetitionExit →
    Option RepetitionState × MatchState → Prop where
  | enough {s : RepetitionState} {t : MatchState} (least : r.least ≤ s.count)
    (full : (∃ k ∈ r.most, k ≤ s.count) ∨ limit ≤ s.place) :
    RepetitionEnd s t .enough (some s, t)
  | cutOff {s : RepetitionState} {t : MatchState} (few : s.count < r.least)
    (ended : limit ≤ s.place) : RepetitionEnd s t .cutOff (none, t)
  | unmatched {s : RepetitionState} {t t₁ : MatchState} {m : Match} {o : Option GrammarId}
    (goesOn : s.place < limit)
    (run : (c.longest below below2 ts limit s.next options).run t = ((m, o), t₁))
    (isEmpty : m.isEmpty = true) :
    RepetitionEnd s t .unmatched
      (some (if s.count < r.least then { s with matched := .empty start } else s), t₁)
  | capped {s : RepetitionState} {t t₁ : MatchState} {m : Match} {g : GrammarId} {k : Nat}
    (goesOn : s.place < limit)
    (run : (c.longest below below2 ts limit s.next options).run t = ((m, some g), t₁))
    (takes : m.start < m.stop) (cap : k ∈ r.perPart) (spent : k ≤ timesOf g s.counts) :
    RepetitionEnd s t .capped (some s, t₁)

end Traces

section Repetitions

variable (c) (below below2 : Matcher) (ts : List GrammarId) (limit i : Nat) (id : GrammarId)
  (r : Repetition) (exclude : Option GrammarId)

/-- The options that a repetition takes, how it ends, and what comes of it. -/
inductive RepetitionTrace (t : MatchState) : List PartMatch → RepetitionExit →
    Match × MatchState → Prop where
  | excluded {t' : MatchState}
    (found : (matchesExcluded below ts limit i exclude).run t = (true, t')) :
    RepetitionTrace t [] .excluded (.empty i, t')
  | repeated {bound : Nat} {t₀ t₁ t₂ t₃ : MatchState} {s : RepetitionState} {xs : List PartMatch}
    {e : RepetitionExit} {res : Option RepetitionState}
    (found : (matchesExcluded below ts limit i exclude).run t = (false, t₀))
    (bounds : (c.repetitionLimit below ts limit i id).run t₀ = (bound, t₁))
    (run : c.RepetitionRun below below2 (c.repetitionTerminators ts id) bound
      (c.tables.instruction id).flags.allowGaps r (c.tables.parts id)
      { matched := .empty i, place := i, next := i } t₁ xs s t₂)
    (ends : c.RepetitionEnd below below2 (c.repetitionTerminators ts id) bound i r
      (c.tables.parts id) s t₂ e (res, t₃)) :
    RepetitionTrace t xs e (c.finishRepetition i id bound res, t₃)

end Repetitions

section Existence

variable {below below2 : Matcher} (hbelow : Sound c False False I below)
  (hbelow2 : Sound c False False I below2)

include hbelow hbelow2

/-- A longest match that takes a token comes with an option that made it, further on. -/
theorem meets_longest_taking (ts : List GrammarId) (limit i : Nat) (options : List GrammarId) :
    Meets I (c.longest below below2 ts limit i options) fun r =>
      Claims c False False limit i r.1 ∧
        (r.1.isEmpty = true ∨ ∃ g, r.2 = some g ∧ g ∈ options) :=
  (meets_longest hbelow hbelow2 ts limit i options).and <|
    (meets_longest_option (Q := fun g _ => g ∈ options)
      (fun place g => (hbelow ts limit place g).trivial) options
      fun _ g hg => (hbelow2 ts limit i g).mono fun _ _ => hg).mono fun _ h => h

omit hbelow hbelow2 in
/-- There have been enough rounds, and there may not be more, or no token is left. -/
theorem enough_iff {r : Repetition} {limit : Nat} {s : RepetitionState} :
    (decide (r.least ≤ s.count) && (r.most.any (· ≤ s.count) || decide (limit ≤ s.place))) = true ↔
      r.least ≤ s.count ∧ ((∃ k ∈ r.most, k ≤ s.count) ∨ limit ≤ s.place) := by
  simp [Option.any_eq_true]

omit hbelow hbelow2 in
/-- An option has been taken as often as it may be. -/
theorem spent_iff {r : Repetition} {n : Nat} :
    r.perPart.any (· < n + 1) = true ↔ ∃ k ∈ r.perPart, k ≤ n := by
  simp only [Option.any_eq_true, decide_eq_true_eq, Nat.lt_succ_iff, Option.mem_def]

/-- A repetition goes from round to round until it ends; there are more rounds than places. -/
theorem exists_repetitionRun (ts : List GrammarId) (limit start : Nat) (allowGaps : Bool)
    (r : Repetition) (options : List GrammarId) (fuel : Nat) {s : RepetitionState}
    (h : RepetitionInvariant c False False limit start s) (hfuel : limit < fuel + s.place)
    (hpos : 0 < fuel) {t : MatchState} (ht : I t) :
    ∃ xs s' t' e, c.RepetitionRun below below2 ts limit allowGaps r options s t xs s' t' ∧
      c.RepetitionEnd below below2 ts limit start r options s' t' e
        ((c.repeatFrom below below2 ts limit start allowGaps r options fuel s).run t) := by
  induction fuel generalizing s t with
  | zero => omega
  | succ fuel ih =>
    unfold repeatFrom
    by_cases henough : r.least ≤ s.count ∧ ((∃ k ∈ r.most, k ≤ s.count) ∨ limit ≤ s.place)
    · rw [if_pos (enough_iff.2 henough)]
      exact ⟨[], s, t, _, .stay, .enough henough.1 henough.2⟩
    rw [if_neg (mt enough_iff.1 henough)]
    by_cases hended : limit ≤ s.place
    · rw [if_pos hended]
      exact ⟨[], s, t, _, .stay,
        .cutOff (Nat.lt_of_not_le fun hleast => henough ⟨hleast, .inr hended⟩) hended⟩
    rw [if_neg hended]
    have goesOn : s.place < limit := by omega
    rcases hrun : (c.longest below below2 ts limit s.next options).run t with ⟨⟨m, option⟩, t₁⟩
    obtain ⟨⟨claims, made⟩, ht₁⟩ :=
      (meets_longest_taking hbelow hbelow2 ts limit s.next options).of_run ht hrun
    rw [run_bind_of_run hrun]
    dsimp only at claims made ⊢
    by_cases hempty : m.isEmpty = true
    · rw [if_pos hempty]
      exact ⟨[], s, t, _, .stay, .unmatched goesOn hrun hempty⟩
    rw [if_neg hempty]
    have takes : m.start < m.stop := (m.isEmpty_eq_false_iff).1 (by simpa using hempty)
    obtain ⟨g, rfl, -⟩ := made.resolve_left hempty
    dsimp only [Option.map_some, Option.getD_some]
    by_cases hspent : ∃ k ∈ r.perPart, k ≤ timesOf g s.counts
    · rw [if_pos (spent_iff.2 hspent)]
      obtain ⟨k, hk, spent⟩ := hspent
      exact ⟨[], s, t, _, .stay, .capped goesOn hrun takes hk spent⟩
    rw [if_neg (mt spent_iff.1 hspent)]
    have allowed : ∀ k ∈ r.perPart, timesOf g s.counts < k :=
      fun k hk => Nat.lt_of_not_le fun hle => hspent ⟨k, hk, hle⟩
    have wanted : r.least ≤ s.count → ∀ k ∈ r.most, s.count < k :=
      fun hleast k hk => Nat.lt_of_not_le fun hle => henough ⟨hleast, .inl ⟨k, hk, hle⟩⟩
    have onwards := h.lt_stop claims takes
    obtain ⟨xs, s', t', e, run, ends⟩ := ih (s := s.withPart c limit allowGaps g m)
      (h.withPart claims takes allowGaps ((g, timesOf g s.counts + 1) :: s.counts))
      (by show limit < fuel + (s.matched.append m).stop; omega)
      (by omega) ht₁
    exact ⟨_, s', t', e, .took wanted goesOn hrun takes allowed run, ends⟩

/-- Every run of a repetition has a trace. -/
theorem exists_repetitionTrace (ts : List GrammarId) (limit i : Nat) (id : GrammarId)
    (r : Repetition) (exclude : Option GrammarId) {t : MatchState} (ht : I t) :
    ∃ xs e, c.RepetitionTrace below below2 ts limit i id r exclude t xs e
      ((c.matchAnyNumberOf below below2 ts limit i id r exclude).run t) := by
  rw [matchAnyNumberOf_eq]
  rcases hfound : (matchesExcluded below ts limit i exclude).run t with ⟨found, t₀⟩
  have ht₀ := ((meets_matchesExcluded hbelow ts limit i exclude).of_run ht hfound).2
  rw [run_bind_of_run hfound]
  cases found with
  | true => exact ⟨[], _, .excluded hfound⟩
  | false =>
    rw [if_neg Bool.false_ne_true]
    rcases hbound : (c.repetitionLimit below ts limit i id).run t₀ with ⟨bound, t₁⟩
    obtain ⟨hle, ht₁⟩ :=
      (meets_repetitionLimit hbelow False.elim ts limit i id).of_run ht₀ hbound
    rw [run_bind_of_run hbound]
    obtain ⟨xs, s, t₂, e, run, ends⟩ := exists_repetitionRun hbelow hbelow2
      (c.repetitionTerminators ts id) bound i (c.tables.instruction id).flags.allowGaps r
      (c.tables.parts id) (limit + 1) (.initial bound i) (by dsimp only; omega) (by omega) ht₁
    rcases hres : (c.repeatFrom below below2 (c.repetitionTerminators ts id) bound i
      (c.tables.instruction id).flags.allowGaps r (c.tables.parts id) (limit + 1)
      { matched := .empty i, place := i, next := i }).run t₁ with ⟨res, t₃⟩
    rw [hres] at ends
    rw [run_bind_of_run hres]
    exact ⟨xs, e, .repeated hfound hbound run ends⟩

end Existence

/-! ## 3. What a trace says -/

section Runs

variable {below below2 : Matcher} {ts : List GrammarId} {limit start : Nat} {allowGaps : Bool}
  {r : Repetition} {options : List GrammarId} {s s' : RepetitionState} {t t' : MatchState}
  {xs : List PartMatch}

/-- Every option that is taken counts as one round. -/
theorem RepetitionRun.count_eq
    (h : c.RepetitionRun below below2 ts limit allowGaps r options s t xs s' t') :
    s'.count = s.count + xs.length := by
  induction h with
  | stay => rfl
  | took _ _ _ _ _ _ ih =>
    rw [ih]
    show _ + 1 + _ = _ + (_ + 1)
    omega

theorem timesOf_cons (g x : GrammarId) (k : Nat) (counts : List (GrammarId × Nat)) :
    timesOf g ((x, k) :: counts) = if g = x then k else timesOf g counts := by
  unfold timesOf
  rw [List.lookup_cons]
  by_cases h : g = x
  · simp [h]
  · simp [h, beq_eq_false_iff_ne.2 h]

/-- An option has been taken as often as it is counted. -/
theorem RepetitionRun.timesOf_eq
    (h : c.RepetitionRun below below2 ts limit allowGaps r options s t xs s' t') (g : GrammarId) :
    timesOf g s'.counts = timesOf g s.counts + (xs.map (·.part)).count g := by
  induction h with
  | stay => rfl
  | @took s s' t t₁ t' xs x m _ _ _ _ _ _ ih =>
    rw [ih, List.map_cons, List.count_cons]
    show timesOf g ((x, timesOf x s.counts + 1) :: s.counts) + _ = _
    rw [timesOf_cons]
    by_cases hx : g = x
    · simp [hx]
      omega
    · simp [hx, Ne.symm hx]

/-- There are never more rounds than are wanted at most. -/
theorem RepetitionRun.count_le
    (h : c.RepetitionRun below below2 ts limit allowGaps r options s t xs s' t')
    (hleast : ∀ k ∈ r.most, r.least ≤ k) (hs : ∀ k ∈ r.most, s.count ≤ k) :
    ∀ k ∈ r.most, s'.count ≤ k := by
  induction h with
  | stay => exact hs
  | @took s s' t t₁ t' xs g m wanted _ _ _ _ _ ih =>
    refine ih fun k hk => ?_
    show s.count + 1 ≤ k
    have := hleast k hk
    by_cases hcount : r.least ≤ s.count
    · exact wanted hcount k hk
    · omega

/-- No option is taken more often than it may be. -/
theorem RepetitionRun.timesOf_le
    (h : c.RepetitionRun below below2 ts limit allowGaps r options s t xs s' t') {k : Nat}
    (hk : k ∈ r.perPart) (hs : ∀ g, timesOf g s.counts ≤ k) (g : GrammarId) :
    timesOf g s'.counts ≤ k := by
  induction h with
  | stay => exact hs g
  | @took s s' t t₁ t' xs x m _ _ _ _ allowed _ ih =>
    refine ih fun g => ?_
    show timesOf g ((x, timesOf x s.counts + 1) :: s.counts) ≤ k
    rw [timesOf_cons]
    split
    · exact allowed k hk
    · exact hs g

/-- What a repetition has matched is what its rounds have matched, one behind the other. -/
theorem RepetitionRun.matched_eq
    (h : c.RepetitionRun below below2 ts limit allowGaps r options s t xs s' t') :
    s'.matched = (xs.map (·.found)).foldl Match.append s.matched := by
  induction h with
  | stay => rfl
  | took _ _ _ _ _ _ ih => exact ih

theorem RepetitionRun.place_eq
    (h : c.RepetitionRun below below2 ts limit allowGaps r options s t xs s' t')
    (hs : s.place = s.matched.stop) : s'.place = s'.matched.stop := by
  induction h with
  | stay => exact hs
  | took _ _ _ _ _ _ ih => exact ih rfl

variable (hbelow : Sound c False False I below) (hbelow2 : Sound c False False I below2)

include hbelow hbelow2

/-- Rounds come one after the other, and each takes a token with one of the options. -/
theorem RepetitionRun.inPlace
    (h : c.RepetitionRun below below2 ts limit allowGaps r options s t xs s' t')
    (hs : RepetitionInvariant c False False limit start s) (ht : I t) :
    c.Successive s.place xs s'.place ∧ (∀ x ∈ xs, x.part ∈ options ∧ x.found.start < x.found.stop) ∧
      RepetitionInvariant c False False limit start s' ∧ I t' := by
  induction h with
  | stay => exact ⟨.nil _, by simp, hs, ht⟩
  | @took s s' t t₁ t' xs g m _ goesOn run takes _ _ ih =>
    obtain ⟨⟨claims, made⟩, ht₁⟩ :=
      (meets_longest_taking hbelow hbelow2 ts limit s.next options).of_run ht run
    have hg : g ∈ options := by
      obtain ⟨g', hsome, hg⟩ := made.resolve_left (by
        rw [(m.isEmpty_eq_false_iff).2 takes]
        exact Bool.false_ne_true)
      cases hsome
      exact hg
    have gap : c.NoCode s.place s.next := by
      rcases hs.next_eq with hnext | hnext
      · rw [hnext]
        exact .refl _
      · rw [hnext]
        exact .skipToCode _ _
    obtain ⟨inOrder, all, hs', ht'⟩ := ih (hs.withPart claims takes allowGaps _) ht₁
    have hstop : (s.withPart c limit allowGaps g m).place = m.stop :=
      Match.stop_append _ (Match.isMatch_of_lt takes)
    rw [hstop] at inOrder
    refine ⟨.cons gap claims.le_start claims.start_le_stop inOrder, fun x hx => ?_, hs', ht'⟩
    rcases List.mem_cons.1 hx with rfl | hx
    · exact ⟨hg, takes⟩
    · exact all x hx

omit hbelow2 in
/-- Each round matches as its option promises where it was asked for. -/
theorem RepetitionRun.forall_mem {Q : Nat → Match → Prop}
    (h : c.RepetitionRun below below2 ts limit allowGaps r options s t xs s' t')
    (hQ : ∀ ts limit i g, Meets I (below2 ts limit i g) (Q i)) (hempty : ∀ i, Q i (.empty i))
    (ht : I t) : ∀ x ∈ xs, Q x.place x.found := by
  induction h with
  | stay => simp
  | @took s s' t t₁ t' xs g m _ _ run _ _ _ ih =>
    obtain ⟨found, ht₁⟩ := (meets_longest_of (fun place g => (hbelow ts limit place g).trivial)
      options (fun _ g _ => hQ ts limit s.next g) (hempty s.next)).of_run ht run
    intro x hx
    rcases List.mem_cons.1 hx with rfl | hx
    · exact found
    · exact ih ht₁ x hx

end Runs

/-! ## 4. What a repetition matches -/

section Outcome

variable {below below2 : Matcher} {ts : List GrammarId} {limit i : Nat} {id : GrammarId}
  {r : Repetition} {exclude : Option GrammarId} {s : MatchState} {xs : List PartMatch}
  {e : RepetitionExit} {m : Match}

/-- Where rounds that take tokens come one after the other, there are no more rounds than tokens. -/
theorem Successive.length_le {a b : Nat} (h : c.Successive a xs b)
    (takes : ∀ x ∈ xs, x.found.start < x.found.stop) : a + xs.length ≤ b := by
  induction h with
  | nil => exact Nat.le_refl _
  | @cons a b x xs gap le_start _ _ ih =>
    have := gap.le
    have := takes x (by simp)
    have := ih fun y hy => takes y (by simp [hy])
    rw [List.length_cons]
    omega

/-- If what rounds have matched, one behind the other, could be placed, so could every round. -/
theorem Successive.hasUnparsable_of_mem {a b : Nat} (h : c.Successive a xs b)
    (takes : ∀ x ∈ xs, x.found.start < x.found.stop) (hm : m.start ≤ m.stop) (hbehind : m.stop ≤ a)
    (hplaced : ((xs.map (·.found)).foldl Match.append m).hasUnparsable = false) :
    (m.isMatch = true → m.hasUnparsable = false) ∧ ∀ x ∈ xs, x.found.hasUnparsable = false := by
  induction h generalizing m with
  | nil => exact ⟨fun _ => hplaced, by simp⟩
  | @cons a b x xs gap le_start _ _ ih =>
    have hgap := gap.le
    have hx := takes x (by simp)
    have taken := Match.isMatch_of_lt hx
    have stop : (m.append x.found).stop = x.found.stop := Match.stop_append m taken
    have start : (m.append x.found).start < x.found.stop := by
      by_cases hmatch : m.isMatch = true
      · rw [Match.start_append _ hmatch]
        omega
      · rw [Match.append_of_not_isMatch _ (by simpa using hmatch)]
        exact hx
    have lt : (m.append x.found).start < (m.append x.found).stop := by omega
    obtain ⟨before, later⟩ := ih (fun y hy => takes y (by simp [hy])) (Nat.le_of_lt lt)
      (Nat.le_of_eq stop) hplaced
    have placed := before (Match.isMatch_of_lt lt)
    by_cases hmatch : m.isMatch = true
    · rw [Match.hasUnparsable_append hmatch taken, Bool.or_eq_false_iff] at placed
      exact ⟨fun _ => placed.1, by simpa using ⟨placed.2, later⟩⟩
    · rw [Match.append_of_not_isMatch _ (by simpa using hmatch)] at placed
      exact ⟨fun h => absurd h hmatch, by simpa using ⟨placed, later⟩⟩

/-- Where nothing has matched, only what is left over may be there. -/
theorem finishRepetition_of_empty (bound : Nat) {s : RepetitionState} (h : s.matched = .empty i) :
    c.finishRepetition i id bound (some s) = .empty i ∨
      (c.tables.instruction id).mode = .greedy ∧ ∃ first last,
        c.finishRepetition i id bound (some s) = .unparsable first last nothingHere := by
  rcases finishRepetition_cases (c := c) bound s with heq | ⟨hmode, first, last, -, -, -, -, heq⟩
  · exact .inl (heq.trans h)
  · rw [h, Match.append_of_not_isMatch _ (Match.isMatch_empty i)] at heq
    exact .inr ⟨hmode, first, last, heq⟩

/-- A repetition that leaves nothing over matches what its rounds have matched. -/
theorem finishRepetition_of_placed {bound : Nat} {s : RepetitionState}
    (h : (c.finishRepetition i id bound (some s)).hasUnparsable = false) :
    c.finishRepetition i id bound (some s) = s.matched := by
  refine (finishRepetition_cases bound s).resolve_right ?_
  rintro ⟨-, first, last, -, -, hlt, -, heq⟩
  rw [heq, Match.hasUnparsable_append_unparsable hlt] at h
  cases h

/-- Of the rounds of a repetition there are not too many, neither of all nor of any option. -/
theorem RepetitionTrace.limits {res : Match × MatchState}
    (h : c.RepetitionTrace below below2 ts limit i id r exclude s xs e res)
    (hleast : ∀ k ∈ r.most, r.least ≤ k) :
    (∀ k ∈ r.most, xs.length ≤ k) ∧
      ∀ k ∈ r.perPart, ∀ g, (xs.map (·.part)).count g ≤ k := by
  cases h with
  | excluded => simp
  | repeated _ _ run =>
    refine ⟨fun k hk => ?_, fun k hk g => ?_⟩
    · have := run.count_le hleast (by simp) k hk
      rw [run.count_eq] at this
      simpa using this
    · have := run.timesOf_le hk (by simp [timesOf]) g
      rw [run.timesOf_eq] at this
      simpa [timesOf] using this

/-- A repetition that has come to the cap has taken some option as often as it may be. -/
theorem RepetitionTrace.of_capped {res : Match × MatchState}
    (h : c.RepetitionTrace below below2 ts limit i id r exclude s xs .capped res) :
    ∃ k ∈ r.perPart, ∃ g, k ≤ (xs.map (·.part)).count g := by
  cases h with
  | repeated _ _ run ends =>
    cases ends with
    | capped _ _ _ hk spent =>
      rw [run.timesOf_eq] at spent
      exact ⟨_, hk, _, by simpa [timesOf] using spent⟩

/-- With too few rounds nothing matches, unless the repetition has come to the cap. A greedy one
says what it leaves over. -/
theorem RepetitionTrace.of_few {t : MatchState}
    (h : c.RepetitionTrace below below2 ts limit i id r exclude s xs e (m, t))
    (hfew : xs.length < r.least) (hcap : e ≠ .capped) :
    m = .empty i ∨
      (c.tables.instruction id).mode = .greedy ∧
        ∃ first last, m = .unparsable first last nothingHere := by
  generalize hres : (m, t) = res at h
  cases h with
  | excluded =>
    cases hres
    exact .inl rfl
  | @repeated bound _ _ _ _ s _ _ _ _ _ run ends =>
    have hcount : s.count = xs.length := by simpa using run.count_eq
    cases ends with
    | enough least => omega
    | cutOff =>
      cases hres
      exact .inl rfl
    | unmatched =>
      rw [if_pos (by omega)] at hres
      cases hres
      exact finishRepetition_of_empty bound rfl
    | capped => exact absurd rfl hcap

/-- A repetition that has come to the cap matches what its rounds have matched, however few. -/
theorem RepetitionTrace.matched_of_capped {t : MatchState}
    (h : c.RepetitionTrace below below2 ts limit i id r exclude s xs .capped (m, t))
    (hmode : (c.tables.instruction id).mode ≠ .greedy) :
    m = (xs.map (·.found)).foldl Match.append (.empty i) := by
  generalize hres : (m, t) = res at h
  cases h with
  | @repeated bound _ _ _ _ s _ _ _ _ _ run ends =>
    cases ends
    cases hres
    rw [← run.matched_eq]
    exact (finishRepetition_cases bound s).resolve_right fun ⟨greedy, _⟩ => hmode greedy

/-- The rounds of a repetition start from a state that matching can be in. -/
theorem RepetitionTrace.start_of_repeated {I : MatchState → Prop}
    (hbelow : Sound c False False I below) (hs : I s) {t₀ t₁ : MatchState} {bound : Nat}
    (found : (matchesExcluded below ts limit i exclude).run s = (false, t₀))
    (bounds : (c.repetitionLimit below ts limit i id).run t₀ = (bound, t₁)) : I t₁ := by
  have ht₀ := ((meets_matchesExcluded hbelow ts limit i exclude).of_run hs found).2
  exact ((meets_repetitionLimit hbelow False.elim ts limit i id).of_run ht₀ bounds).2

/-- Each round of a repetition takes a token with one of the options. -/
theorem RepetitionTrace.forall_mem {I : MatchState → Prop} (hbelow : Sound c False False I below)
    (hbelow2 : Sound c False False I below2) (hs : I s) {res : Match × MatchState}
    (h : c.RepetitionTrace below below2 ts limit i id r exclude s xs e res) :
    ∀ x ∈ xs, x.part ∈ c.tables.parts id ∧ x.found.start < x.found.stop := by
  cases h with
  | excluded => simp
  | @repeated bound _ _ _ _ _ _ _ _ found bounds run =>
    have ht₁ := start_of_repeated hbelow hs found bounds
    exact (run.inPlace hbelow hbelow2 (.initial bound i) ht₁).2.1

/-- A repetition whose match has all it takes in its place has matched what its rounds have, each
where it was asked for; there are enough of them, unless the repetition has come to the cap. -/
theorem RepetitionTrace.of_placed {n : Nat} {t : MatchState} (hs : c.Reachable s)
    (h : c.RepetitionTrace (c.matchGrammar n) (c.matchGrammar (n - 1)) ts limit i id r exclude s xs
      e (m, t))
    (hmatch : m.isMatch = true) (hplaced : m.hasUnparsable = false) :
    m = (xs.map (·.found)).foldl Match.append (.empty i) ∧ c.Successive i xs m.stop ∧
      (∀ x ∈ xs, x.found.start = x.place) ∧ (r.least ≤ xs.length ∨ e = .capped) := by
  have nothing : m ≠ .empty i := by
    rintro rfl
    rw [Match.isMatch_empty] at hmatch
    cases hmatch
  have soundAt (n : Nat) : Sound c False False c.PunctualInvariant (c.matchGrammar n) :=
    .punctual (punctual_matchGrammar n) (sound_matchGrammar False.elim False.elim n)
  generalize hres : (m, t) = res at h
  cases h with
  | excluded =>
    cases hres
    exact absurd rfl nothing
  | @repeated bound t₀ t₁ t₂ t₃ s' _ _ res found bounds run ends =>
    obtain ⟨rfl, -⟩ := Prod.mk.inj hres
    have ht₁ : c.PunctualInvariant t₁ :=
      start_of_repeated (soundAt n) hs.punctual found bounds
    obtain ⟨inOrder, takes, -, -⟩ :=
      run.inPlace (soundAt n) (soundAt (n - 1)) (.initial bound i) ht₁
    have hcount : s'.count = xs.length := by simpa using run.count_eq
    -- what is given up or left over would be no match, or could not be placed
    have kept : res = some s' ∧ (r.least ≤ xs.length ∨ e = .capped) := by
      cases ends with
      | enough least => exact ⟨rfl, .inl (by omega)⟩
      | cutOff => exact absurd rfl nothing
      | unmatched =>
        by_cases hfew : s'.count < r.least
        · rw [if_pos hfew] at hplaced nothing
          exact absurd (finishRepetition_of_placed hplaced) nothing
        · exact ⟨by rw [if_neg hfew], .inl (by omega)⟩
      | capped => exact ⟨rfl, .inr rfl⟩
    obtain ⟨rfl, enough⟩ := kept
    have settled := finishRepetition_of_placed hplaced
    rw [settled] at hplaced ⊢
    have matched := run.matched_eq
    rw [run.place_eq rfl] at inOrder
    refine ⟨matched, inOrder, fun x hx => ?_, enough⟩
    rw [matched] at hplaced
    have placed := (inOrder.hasUnparsable_of_mem (fun x hx => (takes x hx).2) (Nat.le_refl _)
      (Nat.le_refl _) hplaced).2 x hx
    exact run.forall_mem (soundAt n)
      (fun ts limit i g => punctual_matchGrammar (n - 1) ts limit i g) Match.Punctual.empty ht₁ x hx
      placed

/-- A repetition, of any options and in any mode, is told by its trace. There are no more rounds
than are wanted at most, and no option is taken more often than it may be. A match with all it takes
in its place is put together from the rounds. There are as many of them as are wanted at least, or
the option that matches most behind them had been taken as often as it may be. With fewer rounds,
and none of these options behind them, nothing matches, unless a greedy repetition says that it
could not place what it leaves over. -/
theorem matchAnyNumberOf_repeats {n : Nat} (hleast : ∀ k ∈ r.most, r.least ≤ k)
    (hs : c.Reachable s)
    (hm : ((c.matchAnyNumberOf (c.matchGrammar n) (c.matchGrammar (n - 1)) ts limit i id r
      exclude).run s).1 = m) :
    ∃ xs e t,
      c.RepetitionTrace (c.matchGrammar n) (c.matchGrammar (n - 1)) ts limit i id r exclude s xs e
        (m, t) ∧
      (∀ k ∈ r.most, xs.length ≤ k) ∧
      (∀ k ∈ r.perPart, ∀ g, (xs.map (·.part)).count g ≤ k) ∧
      (∀ x ∈ xs, x.part ∈ c.tables.parts id ∧ x.found.start < x.found.stop) ∧
      (m.isMatch = true → m.hasUnparsable = false →
        m = (xs.map (·.found)).foldl Match.append (.empty i) ∧ c.Successive i xs m.stop ∧
          (∀ x ∈ xs, x.found.start = x.place) ∧ (r.least ≤ xs.length ∨ e = .capped)) ∧
      (xs.length < r.least → e ≠ .capped → m = .empty i ∨
        (c.tables.instruction id).mode = .greedy ∧
          ∃ first last, m = .unparsable first last nothingHere) ∧
      (e = .capped → (∃ k ∈ r.perPart, ∃ g, (xs.map (·.part)).count g = k) ∧
        ((c.tables.instruction id).mode ≠ .greedy →
          m = (xs.map (·.found)).foldl Match.append (.empty i))) := by
  have below := sound_matchGrammar (c := c) False.elim False.elim n
  have below2 := sound_matchGrammar (c := c) False.elim False.elim (n - 1)
  obtain ⟨xs, e, trace⟩ := exists_repetitionTrace below below2 ts limit i id r exclude hs.invariant
  rcases hrun : (c.matchAnyNumberOf (c.matchGrammar n) (c.matchGrammar (n - 1)) ts limit i id r
    exclude).run s with ⟨m', t⟩
  rw [hrun] at hm trace
  obtain rfl : m' = m := hm
  obtain ⟨total, each⟩ := trace.limits hleast
  refine ⟨xs, e, t, trace, total, each, trace.forall_mem below below2 hs.invariant,
    trace.of_placed hs, trace.of_few, ?_⟩
  rintro rfl
  obtain ⟨k, hk, g, spent⟩ := trace.of_capped
  exact ⟨⟨k, hk, g, Nat.le_antisymm (each k hk g) spent⟩, trace.matched_of_capped⟩

end Outcome

/-! ## 5. Two keywords in any order -/

/-- A repetition that makes no segment matches what its parts do. -/
theorem matchGrammar_of_anyNumberOf {n : Nat} {ts : List GrammarId} {limit i : Nat} {id : GrammarId}
    {most perPart : Option Nat} {exclude : Option GrammarId}
    (hshape : c.tables.shape id = .anyNumberOf most perPart exclude)
    (htype : c.tables.segmentType? id = none) :
    c.matchGrammar (n + 1) ts limit i id =
      c.matchAnyNumberOf (c.matchGrammar n) (c.matchGrammar (n - 1)) ts limit i id
        ⟨(c.tables.instruction id).least, most, perPart⟩ exclude := by
  rw [matchGrammar_succ, matchLevel]
  unfold matchOne matchShape
  rw [hshape, htype]
  rfl

/-- Two keywords, both of them, in any order. -/
def bothBook : GrammarBook where
  root := "Root"
  definitions := [
    .grammar "Root" (((Grammar.anySetOf [.keyword "a", .keyword "b"]).atLeast 2).atMost 2)]

/-- The repetition and some words. -/
def bothContext (words : List String) : MatchContext :=
  (Parser.ofBook bothBook).context (Parser.wordTokens 0 0 words)

theorem shape_bothContext (words : List String) :
    (bothContext words).tables.shape (bothContext words).tables.root =
      .anyNumberOf (some 2) (some 1) none := by
  let t := (Parser.ofBook bothBook).dialect.tables
  have known : (t.instruction t.root).kind = .anyNumberOf ∧
      Tables.slotNat? (t.parameter t.root 0) = some 2 ∧
      Tables.slotNat? (t.parameter t.root 1) = some 1 ∧
      t.excludeIn t.root 2 = none := by decide +kernel
  obtain ⟨kind, most, perPart, exclude⟩ := known
  show t.shape t.root = _
  unfold Tables.shape
  rw [kind]
  dsimp only
  rw [most, perPart, exclude]

/-- The repetition matches as the root grammar does without a memo, if that does not reach the limit
of depth. -/
theorem run_bothContext (words : List String)
    (hn : ¬ (bothContext words).unmemoized.Trips 9 [] (bothContext words).size 0
      (bothContext words).tables.root {}) :
    (((bothContext words).matchAnyNumberOf ((bothContext words).matchGrammar 8)
      ((bothContext words).matchGrammar 7) [] (bothContext words).size 0
      (bothContext words).tables.root ⟨2, some 2, some 1⟩ none).run {}).1 =
        (bothContext words).rootMatch := by
  have least : ((bothContext words).tables.instruction (bothContext words).tables.root).least = 2 :=
    (by decide +kernel : ((Parser.ofBook bothBook).dialect.tables.instruction
      (Parser.ofBook bothBook).dialect.tables.root).least = 2)
  have type : (bothContext words).tables.segmentType? (bothContext words).tables.root = none :=
    (by decide +kernel : (Parser.ofBook bothBook).dialect.tables.segmentType?
      (Parser.ofBook bothBook).dialect.tables.root = none)
  rw [← run_root hn, matchGrammar_of_anyNumberOf (shape_bothContext words) type, least]

/-- The keywords once each: both have matched, in two rounds. -/
theorem matchAnyNumberOf_repeats_both :
    ∃ xs : List PartMatch, xs.length ≤ 2 ∧ (∀ g, (xs.map (·.part)).count g ≤ 1) ∧
      (bothContext ["b", "a"]).Successive 0 xs 2 ∧
      (bothContext ["b", "a"]).rootMatch = (xs.map (·.found)).foldl Match.append (.empty 0) := by
  have stop : (bothContext ["b", "a"]).rootMatch.stop = 2 := by decide +kernel
  obtain ⟨xs, e, t, -, total, each, -, placed, -, -⟩ :=
    matchAnyNumberOf_repeats (r := ⟨2, some 2, some 1⟩) (by simp) .initial
      (run_bothContext ["b", "a"] (by decide +kernel))
  obtain ⟨matched, inOrder, -, -⟩ := placed (by decide +kernel) (by decide +kernel)
  exact ⟨xs, total 2 rfl, each 1 rfl, stop ▸ inOrder, matched⟩

/-- One of the keywords twice: a single round has matched, although two are wanted, since the same
keyword comes again behind it. -/
theorem matchAnyNumberOf_accepts_few :
    (bothContext ["a", "a"]).tables.shape (bothContext ["a", "a"]).tables.root =
        .anyNumberOf (some 2) (some 1) none ∧
    ((bothContext ["a", "a"]).tables.instruction (bothContext ["a", "a"]).tables.root).least = 2 ∧
    (bothContext ["a", "a"]).rootMatch.start < (bothContext ["a", "a"]).rootMatch.stop ∧
    (bothContext ["a", "a"]).rootMatch.hasUnparsable = false ∧
    ∃ xs e t, (bothContext ["a", "a"]).RepetitionTrace ((bothContext ["a", "a"]).matchGrammar 8)
        ((bothContext ["a", "a"]).matchGrammar 7) [] 2 0 (bothContext ["a", "a"]).tables.root
        ⟨2, some 2, some 1⟩ none {} xs e ((bothContext ["a", "a"]).rootMatch, t) ∧
      xs.length < 2 := by
  have below := sound_matchGrammar (c := bothContext ["a", "a"]) False.elim False.elim 8
  have below2 := sound_matchGrammar (c := bothContext ["a", "a"]) False.elim False.elim 7
  have stop : (bothContext ["a", "a"]).rootMatch.stop = 1 := by decide +kernel
  have takes : (bothContext ["a", "a"]).rootMatch.isMatch = true := by decide +kernel
  have placed : (bothContext ["a", "a"]).rootMatch.hasUnparsable = false := by decide +kernel
  have run := run_bothContext ["a", "a"] (by decide +kernel)
  obtain ⟨xs, e, trace⟩ := exists_repetitionTrace below below2 [] 2 0
    (bothContext ["a", "a"]).tables.root ⟨2, some 2, some 1⟩ none Reachable.initial.invariant
  rcases hrun : ((bothContext ["a", "a"]).matchAnyNumberOf ((bothContext ["a", "a"]).matchGrammar 8)
    ((bothContext ["a", "a"]).matchGrammar 7) [] 2 0 (bothContext ["a", "a"]).tables.root
    ⟨2, some 2, some 1⟩ none).run {} with ⟨m, t⟩
  rw [hrun] at trace
  obtain rfl : m = (bothContext ["a", "a"]).rootMatch := (congrArg Prod.fst hrun).symm.trans run
  obtain ⟨-, inOrder, -, -⟩ := trace.of_placed .initial takes placed
  have := inOrder.length_le fun x hx =>
    (trace.forall_mem below below2 Reachable.initial.invariant x hx).2
  refine ⟨shape_bothContext _, by decide +kernel, by decide +kernel, placed, xs, e, t, trace, ?_⟩
  omega

end MatchContext

end QueryLint
