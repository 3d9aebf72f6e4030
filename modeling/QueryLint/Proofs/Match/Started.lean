import QueryLint.Proofs.Match.Parts
import QueryLint.Proofs.Match.Terminated
import QueryLint.Proofs.Match.Transparent

/-!
QueryLint.Proofs.Match.Started — sequences that are greedy once they have started.

Such a sequence is strict up to its first part that matches. The match of that part sets the limit
for all others: the sequence takes the code up to the first terminator behind it, with its parts or
as what it could not place. Where no part matches, the sequence does not match if it needs one. If
all its parts may be left out, it is another matter: the limit has never been set, and what is left
over up to there is all that was there.

* `MatchContext.SequenceRun.exists_bound` — the first part that matches sets the limit.
* `MatchContext.TakesUpTo` — all code up to a place is taken.
* `MatchContext.matchSequence_onceStarted` — what such a sequence matches.
-/

namespace QueryLint

open Matching

namespace MatchContext

variable {c : MatchContext} {I : MatchState → Prop} {below : Matcher} {ts : List GrammarId}
  {limit start : Nat} {spec : SequenceSpec} {s s' : SequenceState} {gs hs : List GrammarId}
  {t t' : MatchState} {xs : List PartMatch}

/-! ## 1. What is left over -/

/-- Of what a greedy grammar leaves over, everything is taken that is code. -/
theorem leftover_cases (a b : Nat) :
    (c.leftover a b = none ∧ ∀ p, a ≤ p → p < b → c.isCodeAt p = false) ∨
      ∃ first last, c.leftover a b = some (.unparsable first last nothingHere) ∧
        c.NoCode a first ∧ c.isCodeAt first = true ∧ first < last ∧ c.NoCode last b := by
  have before : c.NoCode a (c.skipToCode a b) := .skipToCode a b
  have behind : c.NoCode (c.trimToCode b (c.skipToCode a b)) b := .trimToCode _ b
  unfold leftover
  dsimp only
  by_cases hlt : c.skipToCode a b < c.trimToCode b (c.skipToCode a b)
  · have := behind.le
    rw [if_pos hlt]
    exact .inr ⟨_, _, rfl, before, isCodeAt_skipToCode (by omega), hlt, behind⟩
  · rw [if_neg hlt]
    refine .inl ⟨rfl, fun p ha hb => ?_⟩
    by_cases hp : p < c.skipToCode a b
    · exact before.blank p ha hp
    · exact behind.blank p (by omega) hb

/-! ## 2. From the first part that matches on -/

/-- Up to the first part that matches a sequence looks as far as it may. -/
theorem run_firstLimit (hmode : spec.mode = .greedyOnceStarted) :
    (c.firstLimit below ts limit start spec).run t = (limit, t) := by
  unfold firstLimit
  rw [if_neg (by simp [hmode])]
  rfl

/-- Once a part has matched, the limit stays, and parts match before it. -/
theorem SequenceRun.limit_eq (hsound : Sound c False False I below)
    (h : c.SequenceRun below ts limit spec s gs t xs s' hs t') (ht : I t)
    (hfirst : s.isFirst = false) (hplace : s.place ≤ s.limit) :
    s'.limit = s.limit ∧ s'.place ≤ s.limit := by
  induction h with
  | stay => exact ⟨rfl, hplace⟩
  | marker _ _ ih => exact ih ht hfirst hplace
  | absent _ _ _ _ ih => exact ih ht hfirst hplace
  | leftOut _ _ _ run _ _ ih => exact ih ((hsound _ _ _ _).of_run ht run).2 hfirst hplace
  | @took s _ _ _ _ _ _ _ _ _ m _ _ goesOn run isMatch bounds _ ih =>
    obtain ⟨claims, ht₁⟩ := (hsound _ _ _ _).of_run ht run
    have hstop := (claims (.inr isMatch)).stop_le
    unfold nextLimit at bounds
    rw [hfirst, Bool.false_and, if_neg Bool.false_ne_true] at bounds
    cases bounds
    exact ih ht₁ rfl (by show m.stop ≤ s.limit; omega)

/-- The first part that matches sets the limit, which is where a greedy grammar stops that starts
behind it. -/
theorem SequenceRun.exists_bound (hsound : Sound c False False I below)
    (hmode : spec.mode = .greedyOnceStarted) {x : PartMatch}
    (h : c.SequenceRun below ts limit spec s gs t (x :: xs) s' hs t') (ht : I t)
    (hfirst : s.isFirst = true) (hlimit : s.limit = limit) :
    c.StopsAt I below ts limit (allTerminators spec.terminators spec.reset ts) x.found.stop
      s'.limit ∧ x.found.stop ≤ s'.limit ∧ s'.place ≤ s'.limit ∧ s'.limit ≤ limit := by
  generalize hxs : x :: xs = ys at h
  induction h with
  | stay => cases hxs
  | marker _ _ ih => exact ih ht hfirst hlimit hxs
  | absent _ _ _ _ ih => exact ih ht hfirst hlimit hxs
  | leftOut _ _ _ run _ _ ih => exact ih ((hsound _ _ _ _).of_run ht run).2 hfirst hlimit hxs
  | @took s _ g _ _ _ _ t₂ _ _ m bound _ goesOn run isMatch bounds rest =>
    cases hxs
    obtain ⟨claims, ht₁⟩ := (hsound _ _ _ _).of_run ht run
    have hstop := (claims (.inr isMatch)).stop_le
    unfold nextLimit at bounds
    rw [if_pos (by simp [hfirst, hmode])] at bounds
    obtain ⟨⟨stops, hle, hge⟩, ht₂⟩ := ((meets_trimToTerminator_stopsAt hsound m.stop).and
      (meets_trimToTerminator hsound False.elim ts limit m.stop _)).of_run ht₁ bounds
    have behind := hge (by omega)
    obtain ⟨hlimit', hplace'⟩ := rest.limit_eq hsound ht₂ rfl behind
    dsimp only [SequenceState.withPart] at hlimit' hplace'
    rw [hlimit']
    exact ⟨stops, behind, hplace', hle⟩

/-! ## 3. Up to the limit -/

/-- A place of code is taken by a part, which starts there at the latest if it could place all it
takes, or by what could not be placed. -/
def TakenIn (m : Match) (xs : List PartMatch) (p : Nat) : Prop :=
  (∃ x ∈ xs, x.place ≤ p ∧ p < x.found.stop ∧ (x.found.hasUnparsable = false → x.found.start ≤ p)) ∨
    ∃ a b expected, Match.unparsable a b expected ∈ m.children ∧ a ≤ p ∧ p < b

/-- From one place on a sequence takes all code up to another, and no token behind: parts of it have
matched, and the rest is what it could not place. -/
structure TakesUpTo (c : MatchContext) (start bound : Nat) (xs : List PartMatch) (m : Match) :
    Prop where
  start_eq : m.start = start
  stop_le : m.stop ≤ bound
  parts : xs.flatMap (·.found.outerChildren) <+: m.children
  takes : ∀ p, start ≤ p → p < bound → c.isCodeAt p = true → p < m.stop ∧ TakenIn m xs p

/-- Code before the place that parts have come to is taken by one of them. -/
theorem TakenIn.of_parts {m : Match} {place p : Nat} (inOrder : c.Successive start xs place)
    (punctual : ∀ x ∈ xs, x.found.Punctual x.place) (hp : start ≤ p) (hplace : p < place)
    (hcode : c.isCodeAt p = true) : TakenIn m xs p := by
  obtain ⟨x, hx, hfrom, hto⟩ := inOrder.takes hp hplace hcode
  exact .inl ⟨x, hx, hfrom, hto, fun placed => by rw [punctual x hx placed]; exact hfrom⟩

namespace TakesUpTo

variable {m : Match} {place bound : Nat} (inOrder : c.Successive start xs place)
  (punctual : ∀ x ∈ xs, x.found.Punctual x.place) (hstart : m.start = start)

include inOrder punctual hstart

/-- Parts have taken all code. -/
theorem of_parts (hstop : m.stop = place)
    (hchildren : m.children = xs.flatMap (·.found.outerChildren)) (hrest : c.NoCode place bound) :
    c.TakesUpTo start bound xs m where
  start_eq := hstart
  stop_le := hstop ▸ hrest.le
  parts := hchildren ▸ List.prefix_rfl
  takes p hp hb hcode := by
    have hplace : p < place := by
      by_contra hge
      have := hrest.blank p (by omega) hb
      rw [hcode] at this
      cases this
    exact ⟨hstop ▸ hplace, .of_parts inOrder punctual hp hplace hcode⟩

/-- Parts have taken some code, and the rest could not be placed. -/
theorem of_leftover {first last : Nat} {expected : String} (hstop : last ≤ m.stop)
    (hbound : m.stop ≤ bound)
    (hchildren : m.children =
      xs.flatMap (·.found.outerChildren) ++ [.unparsable first last expected])
    (hfirst : c.NoCode place first) (hlt : first < last) (hlast : c.NoCode last bound) :
    c.TakesUpTo start bound xs m where
  start_eq := hstart
  stop_le := hbound
  parts := by
    rw [hchildren]
    exact List.prefix_append _ _
  takes p hp hb hcode := by
    have hfl := hfirst.le
    by_cases hplace : p < place
    · exact ⟨by omega, .of_parts inOrder punctual hp hplace hcode⟩
    have hge := hfirst.le_of_isCodeAt (by omega) hcode
    have hlt : p < last := by
      by_contra hge
      have := hlast.blank p (by omega) hb
      rw [hcode] at this
      cases this
    exact ⟨by omega, .inr ⟨first, last, expected, by rw [hchildren]; simp, hge, hlt⟩⟩

end TakesUpTo

/-! ## 4. How a sequence ends -/

/-- A sequence that has gone from part to part, up to a limit behind the place it has come to. -/
structure Arrived (c : MatchContext) (start : Nat) (xs : List PartMatch) (s : SequenceState) :
    Prop where
  inOrder : c.Successive start xs s.place
  punctual : ∀ x ∈ xs, x.found.Punctual x.place
  children : s.children = xs.flatMap (·.found.outerChildren)
  le : s.place ≤ s.limit

/-- A sequence of which all parts have been dealt with takes what is left over. -/
theorem Arrived.finish (h : c.Arrived start xs s) (hmode : spec.mode = .greedyOnceStarted) :
    c.TakesUpTo start s.limit xs (c.finishSequence spec start s) := by
  unfold finishSequence
  rw [if_pos (by simp [hmode])]
  rcases leftover_cases (c := c) s.place s.limit with
    ⟨hleft, hrest⟩ | ⟨first, last, hleft, hfirst, -, hlt, hlast⟩
  · rw [hleft]
    exact .of_parts h.inOrder h.punctual rfl rfl h.children ⟨h.le, hrest⟩
  · rw [hleft]
    exact .of_leftover h.inOrder h.punctual rfl (Nat.le_refl _) hlast.le
      (congrArg (· ++ _) h.children) hfirst hlt hlast

/-- A sequence that needs another part where no token is left has taken all code. -/
theorem Arrived.ended (h : c.Arrived start xs s) (hmode : spec.mode = .greedyOnceStarted)
    (hended : s.limit ≤ spec.nextPlace c s) (part : GrammarId) :
    c.endedSequence spec start s part = .empty start ∧ s.place = start ∨
      c.TakesUpTo start s.limit xs (c.endedSequence spec start s part) := by
  unfold endedSequence
  by_cases hplace : s.place = start
  · rw [if_pos (by simp [hplace])]
    exact .inl ⟨rfl, hplace⟩
  rw [if_neg (by simp [hmode, hplace])]
  have hlt : start < s.place := by
    have := h.inOrder.le
    omega
  refine .inr (.of_parts h.inOrder h.punctual ?_ ?_ ?_ ?_)
  · rw [Match.start_wrap, Match.start_mk]
  · rw [Match.stop_wrap, Match.stop_mk]
  · have isMatch : (Match.mk start s.place none (s.placed s.place) s.children).isMatch = true :=
      Match.isMatch_of_lt hlt
    rw [Match.wrap, if_neg (by simp [isMatch])]
    exact h.children
  · exact ⟨h.le, fun p hp hb => (spec.noCode_nextPlace s).blank p hp (by omega)⟩

/-- A sequence of which a part does not match takes all from there on as what it could not place. -/
theorem Arrived.failed (h : c.Arrived start xs s) (hmode : spec.mode = .greedyOnceStarted)
    (hgoesOn : spec.nextPlace c s < s.limit) (part : GrammarId) :
    c.failedSequence spec start s part (spec.nextPlace c s) = .empty start ∧ s.place = start ∨
      c.TakesUpTo start s.limit xs
        (c.failedSequence spec start s part (spec.nextPlace c s)) := by
  unfold failedSequence
  dsimp only
  rw [hmode]
  by_cases hplace : s.place = start
  · rw [decide_eq_true hplace]
    exact .inl ⟨rfl, hplace⟩
  · rw [decide_eq_false hplace]
    exact .inr (.of_leftover h.inOrder h.punctual rfl (Nat.le_refl _) (Nat.le_refl _)
      (congrArg (· ++ _) h.children) (spec.noCode_nextPlace s) hgoesOn (.refl _))

/-! ## 5. Sequences of which no part matches -/

/-- A sequence of which no part has matched matches nothing if it needs one; otherwise it has its
markers and what is left over. -/
theorem SequenceTrace.cases_of_nil {i : Nat} {m : Match} (hmode : spec.mode = .greedyOnceStarted)
    (h : c.SequenceTrace below ts limit i spec t [] (m, t')) :
    HasRequired c.tables spec.parts ∧ m = .empty i ∨
      ¬ HasRequired c.tables spec.parts ∧ m = c.finishSequence spec i
        { place := i, limit,
          waiting := spec.parts.flatMap fun g => (c.enabledMarker? g).toList } := by
  generalize hres : (m, t') = res at h
  obtain @⟨bound, t₀, t₁, s, gs, res, bounds, run, ends⟩ := h
  rw [run_firstLimit hmode] at bounds
  cases bounds
  obtain ⟨ds, hparts, filled⟩ := run.filled
  obtain ⟨ds', hparts', rfl⟩ := run.unmoved
  obtain rfl : ds = ds' := List.append_cancel_right (hparts.symm.trans hparts')
  cases ends with
  | finished =>
    cases hres
    rw [List.append_nil] at hparts
    rw [hparts]
    exact .inr ⟨filled_nil_iff.1 filled, rfl⟩
  | ended required =>
    cases hres
    exact .inl ⟨⟨_, by rw [hparts]; simp, required⟩, by simp [endedSequence]⟩
  | failed required =>
    cases hres
    exact .inl ⟨⟨_, by rw [hparts]; simp, required⟩, by simp [failedSequence, hmode]⟩

/-- What a sequence matches of which all parts have been left out: code, wherever there is some up
to the limit, and markers. -/
theorem isMatch_finishSequence_iff (hmode : spec.mode = .greedyOnceStarted) {i : Nat}
    {waiting : List MarkerKind} :
    (c.finishSequence spec i { place := i, limit, waiting }).isMatch = true ↔
      (∃ p, i ≤ p ∧ p < limit ∧ c.isCodeAt p = true) ∨ waiting ≠ [] := by
  unfold finishSequence
  rw [if_pos (by simp [hmode])]
  dsimp only
  rcases leftover_cases (c := c) i limit with
    ⟨hleft, hrest⟩ | ⟨first, last, hleft, hfirst, hcode, hlt, hlast⟩
  · have nothing : ¬ ∃ p, i ≤ p ∧ p < limit ∧ c.isCodeAt p = true := by
      rintro ⟨p, hp, hlimit, hcode⟩
      rw [hrest p hp hlimit] at hcode
      cases hcode
    rw [hleft]
    simp [Match.isMatch, Match.isEmpty, Match.inserts, SequenceState.placed, nothing]
  · have := hfirst.le
    have := hlast.le
    have taken : i < last := by omega
    rw [hleft]
    exact iff_of_true (Match.isMatch_of_lt taken)
      (.inl ⟨first, hfirst.le, by omega, hcode⟩)

/-- A sequence of which no part has matched matches if it needs none, and if there is code or one of
its markers is put in; it takes the code up to the limit as what it could not place. -/
theorem SequenceTrace.of_nil {i : Nat} {m : Match} (hmode : spec.mode = .greedyOnceStarted)
    (h : c.SequenceTrace below ts limit i spec t [] (m, t')) :
    (m.isMatch = true ↔ ¬ HasRequired c.tables spec.parts ∧
      ((∃ p, i ≤ p ∧ p < limit ∧ c.isCodeAt p = true) ∨
        ∃ g ∈ spec.parts, (c.enabledMarker? g).isSome = true)) ∧
    (m.isMatch = true → i ≤ limit → c.TakesUpTo i limit [] m) := by
  rcases h.cases_of_nil hmode with ⟨required, rfl⟩ | ⟨hnone, rfl⟩
  · have hempty : ¬ (Match.empty i).isMatch = true := by simp [Match.isMatch_empty]
    exact ⟨iff_of_false hempty fun h => h.1 required, fun h => absurd h hempty⟩
  have markers : (spec.parts.flatMap fun g => (c.enabledMarker? g).toList) ≠ [] ↔
      ∃ g ∈ spec.parts, (c.enabledMarker? g).isSome = true := by
    simp [List.flatMap_eq_nil_iff, Option.isSome_iff_ne_none]
  refine ⟨?_, fun _ hi => ?_⟩
  · rw [isMatch_finishSequence_iff hmode, markers]
    exact ⟨fun h => ⟨hnone, h⟩, fun h => h.2⟩
  · have arrived (waiting : List MarkerKind) :
        c.Arrived i [] { place := i, limit, waiting } := ⟨.nil i, by simp, rfl, hi⟩
    exact (arrived _).finish hmode

/-! ## 6. Greedy once started -/

theorem sound_reachable (n : Nat) : Sound c False False c.Reachable (c.matchGrammar n) :=
  fun ts limit i g s hs =>
    ⟨(sound_matchGrammar False.elim False.elim n ts limit i g s hs.invariant).1,
      (reachable_matchGrammar n ts limit i g s hs).2⟩

/-- What a sequence matches of which some part has matched. -/
theorem SequenceTrace.of_cons {n i : Nat} {m : Match} {x : PartMatch}
    (hmode : spec.mode = .greedyOnceStarted) (ht : c.Reachable t)
    (h : c.SequenceTrace (c.matchGrammar n) ts limit i spec t (x :: xs) (m, t')) :
    ∃ bound, c.StopsAt c.Reachable (c.matchGrammar n) ts limit
        (allTerminators spec.terminators spec.reset ts) x.found.stop bound ∧
      (c.TakesUpTo i bound (x :: xs) m ∨
        m = .empty i ∧ HasRequired c.tables spec.parts ∧
          ∀ y ∈ x :: xs, y.found.start = i ∧ y.found.stop = i) := by
  have punctual : ∀ y ∈ x :: xs, y.found.Punctual y.place :=
    h.forall_mem (.punctual (punctual_matchGrammar n) (sound_matchGrammar False.elim False.elim n))
      (fun ts limit i g => punctual_matchGrammar n ts limit i g) ht.punctual
  generalize hres : (m, t') = res at h
  obtain @⟨bound, t₀, t₁, s, gs, res, bounds, run, ends⟩ := h
  rw [run_firstLimit hmode] at bounds
  cases bounds
  obtain ⟨stops, -, hle, -⟩ := run.exists_bound (sound_reachable n) hmode ht rfl rfl
  have inOrder := run.successive (sound_reachable n) ht
  have arrived : c.Arrived i (x :: xs) s :=
    ⟨inOrder, punctual, by simpa using run.children_eq, hle⟩
  obtain ⟨ds, hparts, -⟩ := run.filled
  -- where no token has been taken, all matches are at the start
  have unmoved (hplace : s.place = i) : ∀ y ∈ x :: xs, y.found.start = i ∧ y.found.stop = i := by
    intro y hy
    have := inOrder.within y hy
    dsimp only at this
    omega
  refine ⟨s.limit, stops, ?_⟩
  cases ends with
  | finished =>
    cases hres
    exact .inl (arrived.finish hmode)
  | ended required ended =>
    cases hres
    rcases arrived.ended hmode ended _ with ⟨heq, hplace⟩ | takes
    · exact .inr ⟨heq, ⟨_, by rw [hparts]; simp, required⟩, unmoved hplace⟩
    · exact .inl takes
  | failed required goesOn =>
    cases hres
    rcases arrived.failed hmode goesOn _ with ⟨heq, hplace⟩ | takes
    · exact .inr ⟨heq, ⟨_, by rw [hparts]; simp, required⟩, unmoved hplace⟩
    · exact .inl takes

/-- A sequence that is greedy once started, whatever its parts, is told by the parts of it that
match. If one does, the limit is where a greedy grammar stops that starts behind it, and up to there
all code is taken, and no token behind: by the parts that match, or as what could not be placed.
Only if these have all matched by their markers alone, and another part that is required does not
match, is there no match. If none matches, there is no match where a part is required; otherwise the
sequence takes the code up to its own limit as what could not be placed. -/
theorem matchSequence_onceStarted {n i : Nat} {m : Match}
    (hmode : spec.mode = .greedyOnceStarted) (ht : c.Reachable t)
    (hm : ((c.matchSequence (c.matchGrammar n) ts limit i spec).run t).1 = m) :
    ∃ xs t', c.SequenceTrace (c.matchGrammar n) ts limit i spec t xs (m, t') ∧
      (xs = [] →
        (m.isMatch = true ↔ ¬ HasRequired c.tables spec.parts ∧
          ((∃ p, i ≤ p ∧ p < limit ∧ c.isCodeAt p = true) ∨
            ∃ g ∈ spec.parts, (c.enabledMarker? g).isSome = true)) ∧
        (m.isMatch = true → i ≤ limit → c.TakesUpTo i limit [] m)) ∧
      ∀ x rest, xs = x :: rest → ∃ bound,
        c.StopsAt c.Reachable (c.matchGrammar n) ts limit
          (allTerminators spec.terminators spec.reset ts) x.found.stop bound ∧
        (c.TakesUpTo i bound xs m ∨
          m = .empty i ∧ HasRequired c.tables spec.parts ∧
            ∀ y ∈ xs, y.found.start = i ∧ y.found.stop = i) := by
  obtain ⟨xs, trace⟩ := exists_sequenceTrace (c := c) (c.matchGrammar n) ts limit i spec t
  rcases hrun : (c.matchSequence (c.matchGrammar n) ts limit i spec).run t with ⟨m', t'⟩
  rw [hrun] at hm trace
  obtain rfl : m' = m := hm
  refine ⟨xs, t', trace, ?_, ?_⟩
  · rintro rfl
    exact trace.of_nil hmode
  · rintro x rest rfl
    exact trace.of_cons hmode ht

/-! ## 7. Two keywords up to a semicolon -/

/-- A sequence that makes no segment matches what its parts do. -/
theorem matchGrammar_of_sequence {n i : Nat} {id : GrammarId}
    (hkind : (c.tables.instruction id).kind = .sequence)
    (htype : c.tables.segmentType? id = none) :
    c.matchGrammar (n + 1) ts limit i id =
      c.matchSequence (c.matchGrammar n) ts limit i (c.sequenceSpec id) := by
  have hshape : c.tables.shape id = .sequence := by simp [Tables.shape, hkind]
  rw [matchGrammar_succ, matchLevel]
  unfold matchOne matchShape
  rw [hshape, htype]
  rfl

/-- The root sequence matches all tokens as it does without a memo, if that does not reach the limit
of depth. -/
theorem run_matchSequence_root (hkind : (c.tables.instruction c.tables.root).kind = .sequence)
    (htype : c.tables.segmentType? c.tables.root = none)
    (hn : ¬ c.unmemoized.Trips 9 [] c.size 0 c.tables.root {}) :
    ((c.matchSequence (c.matchGrammar 8) [] c.size 0 (c.sequenceSpec c.tables.root)).run {}).1 =
      c.rootMatch := by
  rw [← run_root hn, matchGrammar_of_sequence hkind htype]

/-- Two keywords, up to a semicolon. -/
def startedBook : GrammarBook where
  root := "Root"
  definitions := [
    .grammar "Root" (((Grammar.seq [.keyword "a", .keyword "b"]).mode
      .greedyOnceStarted).terminators [.string ";" "end"])]

/-- One of the keywords, another word, and what is behind the semicolon. -/
def startedContext : MatchContext :=
  (Parser.ofBook startedBook).context (Parser.wordTokens 0 0 ["a", "x", ";", "c"])

/-- The sequence has started with the first keyword and takes the word behind it, up to the
semicolon. -/
theorem matchSequence_onceStarted_keyword :
    (startedContext.sequenceSpec startedContext.tables.root).mode = .greedyOnceStarted ∧
      ∃ xs bound, xs ≠ [] ∧ 2 ≤ bound ∧ startedContext.rootMatch.stop = 2 ∧
        startedContext.TakesUpTo 0 bound xs startedContext.rootMatch := by
  let c := startedContext
  have mode : (c.sequenceSpec c.tables.root).mode = .greedyOnceStarted := by decide +kernel
  have sequence : (c.tables.instruction c.tables.root).kind = .sequence := by decide +kernel
  have run := run_matchSequence_root (c := c) sequence (by decide +kernel) (by decide +kernel)
  obtain ⟨xs, t', -, hnil, hcons⟩ := matchSequence_onceStarted mode .initial run
  have isMatch : startedContext.rootMatch.isMatch = true := by decide +kernel
  have stop : startedContext.rootMatch.stop = 2 := by decide +kernel
  refine ⟨mode, ?_⟩
  cases xs with
  | nil =>
    have required : HasRequired c.tables (c.sequenceSpec c.tables.root).parts := by
      unfold HasRequired
      decide +kernel
    exact absurd required ((hnil rfl).1.1 isMatch).1
  | cons x rest =>
    obtain ⟨bound, -, takes | ⟨nothing, -⟩⟩ := hcons x rest rfl
    · exact ⟨x :: rest, bound, by simp, stop ▸ takes.stop_le, stop, takes⟩
    · rw [nothing] at stop
      cases stop

/-- A keyword that may be left out. -/
def leftOutBook : GrammarBook where
  root := "Root"
  definitions := [
    .grammar "Root" ((Grammar.seq [(Grammar.keyword "a").optional]).mode .greedyOnceStarted)]

/-- Another word in its place. -/
def leftOutContext : MatchContext :=
  (Parser.ofBook leftOutBook).context (Parser.wordTokens 0 0 ["b"])

/-- No part has matched, and yet the sequence takes the word, as what it could not place. -/
theorem matchSequence_starts_without_part :
    (leftOutContext.tables.instruction leftOutContext.tables.root).kind = .sequence ∧
      (leftOutContext.sequenceSpec leftOutContext.tables.root).mode = .greedyOnceStarted ∧
      ∃ t', leftOutContext.SequenceTrace (leftOutContext.matchGrammar 8) [] 1 0
          (leftOutContext.sequenceSpec leftOutContext.tables.root) {} []
          (leftOutContext.rootMatch, t') ∧
        leftOutContext.rootMatch.isMatch = true ∧ leftOutContext.rootMatch.stop = 1 := by
  let c := leftOutContext
  have sequence : (c.tables.instruction c.tables.root).kind = .sequence := by decide +kernel
  have mode : (c.sequenceSpec c.tables.root).mode = .greedyOnceStarted := by decide +kernel
  have run : ((c.matchSequence (c.matchGrammar 8) [] 1 0 (c.sequenceSpec c.tables.root)).run {}).1 =
      leftOutContext.rootMatch :=
    run_matchSequence_root (c := c) sequence (by decide +kernel) (by decide +kernel)
  rcases hrun : (c.matchSequence (c.matchGrammar 8) [] 1 0 (c.sequenceSpec c.tables.root)).run {}
    with ⟨m, t'⟩
  obtain ⟨xs, trace⟩ := exists_sequenceTrace (c := c) (c.matchGrammar 8) [] 1 0
    (c.sequenceSpec c.tables.root) {}
  rw [hrun, show m = leftOutContext.rootMatch from (congrArg Prod.fst hrun).symm.trans run] at trace
  -- the only part does not match where it is asked for
  have unmatched : ∀ g ∈ (c.sequenceSpec c.tables.root).parts,
      ((c.matchGrammar 8 [] 1 0 g).run {}).1.isMatch = false := by
    have known : ∀ g ∈ (c.sequenceSpec c.tables.root).parts,
        ¬ c.unmemoized.Trips 8 [] 1 0 g {} ∧
          ((c.unmemoized.matchGrammar 8 [] 1 0 g).run {}).1.isMatch = false := by decide +kernel
    intro g hg
    rw [run_unmemoized_of_sincere .empty (known g hg).1]
    exact (known g hg).2
  obtain rfl : xs = [] := by
    have here : (c.sequenceSpec c.tables.root).nextPlace c { place := 0, limit := 1 } = 0 := by
      decide +kernel
    have pushed : pushTerminators (c.sequenceSpec c.tables.root).reset
        (c.sequenceSpec c.tables.root).terminators [] = [] := by decide +kernel
    obtain ⟨g, hparts⟩ : ∃ g, (c.sequenceSpec c.tables.root).parts = [g] :=
      List.length_eq_one_iff.1 (by decide +kernel)
    cases trace with
    | mk bounds steps =>
      rw [run_firstLimit mode] at bounds
      cases bounds
      rw [hparts] at steps
      cases steps with
      | stay => rfl
      | marker _ rest | absent _ _ _ rest | leftOut _ _ _ _ _ rest =>
        cases rest
        rfl
      | took _ _ found isMatch =>
        rw [here, pushed] at found
        have hnone := unmatched g (by rw [hparts]; simp)
        rw [congrArg Prod.fst found, isMatch] at hnone
        cases hnone
  exact ⟨sequence, mode, t', trace, by decide +kernel, by decide +kernel⟩

end MatchContext

end QueryLint
