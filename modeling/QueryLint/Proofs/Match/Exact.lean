import QueryLint.Proofs.Match.Bracketed
import QueryLint.Proofs.Match.Parts

/-!
QueryLint.Proofs.Match.Exact — what a strict bracketed grammar takes between its brackets.

Whether the content of brackets is accepted is read off the place where it stops. A content that
stops at the closing bracket has all its required parts and takes all code between the brackets. So
it is, if there is such code. Brackets without any are another matter: no part is tried, a content
that needs a part is the empty match, and the empty match stops where the content has to. So
brackets with nothing but blanks between them are accepted, whatever parts the grammar wants.

* `MatchContext.BracketedTrace` — a match in brackets with the parts between them.
* `MatchContext.SequenceTrace.of_strict` — a strict sequence that stops at its limit.
* `MatchContext.Fills` — parts that take all there is between two places.
* `MatchContext.matchBracketed_fills` — what a strict bracketed grammar takes.
-/

namespace QueryLint

namespace MatchContext

variable {c : MatchContext} {here below below2 : Matcher} {ts : List GrammarId} {limit i : Nat}
  {id opening closing : GrammarId} {persists : Bool} {s : MatchState} {first last m : Match}
  {xs : List PartMatch}

/-! ## 1. Strict sequences -/

theorem endedSequence_of_strict {spec : SequenceSpec} (hstrict : spec.mode = .strict) (start : Nat)
    (s : SequenceState) (part : GrammarId) : c.endedSequence spec start s part = .empty start := by
  simp [endedSequence, hstrict]

theorem failedSequence_of_strict {spec : SequenceSpec} (hstrict : spec.mode = .strict)
    (start : Nat) (s : SequenceState) (part : GrammarId) (i : Nat) :
    c.failedSequence spec start s part i = .empty start := by
  simp [failedSequence, hstrict]

theorem finishSequence_of_strict {spec : SequenceSpec} (hstrict : spec.mode = .strict)
    (start : Nat) (s : SequenceState) :
    c.finishSequence spec start s = .mk start s.place none (s.placed s.place) s.children := by
  simp [finishSequence, hstrict]

/-- A strict sequence has tried every part, one after the other, and all that are required have
matched; or it has given up, as it does where a required part finds no match. -/
theorem SequenceTrace.cases_of_strict {I : MatchState → Prop} {start : Nat} {spec : SequenceSpec}
    {t t' : MatchState} (hsound : Sound c False False I below) (hstrict : spec.mode = .strict)
    (ht : I t) (h : c.SequenceTrace below ts limit start spec t xs (m, t')) :
    (Filled c.tables spec.parts xs ∧ c.Successive start xs m.stop ∧
      m.outerChildren = xs.flatMap (·.found.outerChildren)) ∨
    (HasRequired c.tables spec.parts ∧ m = .empty start) := by
  obtain ⟨bounds, run, ends⟩ := h
  rw [firstLimit, if_neg (by simp [hstrict])] at bounds
  cases bounds
  obtain ⟨ds, hparts, filled⟩ := run.filled
  have required {g : GrammarId} {rest : List GrammarId} (hg : Required c.tables g)
      (hparts : spec.parts = ds ++ g :: rest) : HasRequired c.tables spec.parts :=
    ⟨g, by simp [hparts], hg⟩
  cases ends with
  | finished =>
    rw [finishSequence_of_strict hstrict]
    rw [List.append_nil] at hparts
    exact .inl ⟨by rwa [hparts], run.successive hsound ht,
      run.children_eq.trans (List.nil_append _)⟩
  | ended hg => exact .inr ⟨required hg hparts, endedSequence_of_strict hstrict _ _ _⟩
  | failed hg => exact .inr ⟨required hg hparts, failedSequence_of_strict hstrict _ _ _ _⟩

/-- Where a strict sequence has no token to look at, no part of it matches. -/
theorem SequenceTrace.eq_nil_of_strict {start : Nat} {spec : SequenceSpec} {t : MatchState}
    {r : Match × MatchState} (hstrict : spec.mode = .strict) (hlimit : limit ≤ start)
    (h : c.SequenceTrace below ts limit start spec t xs r) : xs = [] := by
  obtain ⟨bounds, run, -⟩ := h
  rw [firstLimit, if_neg (by simp [hstrict])] at bounds
  cases bounds
  exact run.eq_nil_of_limit_le hlimit

/-! ## 2. The parts between brackets -/

/-- A match of a bracketed grammar with its opening and its closing bracket, and the parts that have
matched between them. A strict content goes as far as it may. -/
inductive BracketedTrace (c : MatchContext) (here below below2 : Matcher) (ts : List GrammarId)
    (limit i : Nat) (id opening closing : GrammarId) (persists : Bool) (s : MatchState) :
    Match → Match → List PartMatch → Match → Prop
  | mk {first found last : Match} {k : Option MatchClass} {s₁ s₂ s₃ : MatchState}
    {xs : List PartMatch}
    (opens : (below ts limit i opening).run s = (first, s₁)) (isMatch : first.isMatch = true)
    (closes : (c.closeBracket here ts limit (c.pairsFor opening closing persists).1 false
      (c.pairsFor opening closing persists).2 first).run s₁ =
        (some (pairMatch first.start first.stop k [first] last), s₂))
    (holds : (c.matchSequence below2 [closing] (c.contentLimit id first.stop last.stop)
      (c.contentStart id first.stop last.stop) (c.sequenceSpec id)).run s₂ = (found, s₃))
    (trace : c.SequenceTrace below2 [closing] (c.contentLimit id first.stop last.stop)
      (c.contentStart id first.stop last.stop) (c.sequenceSpec id) s₂ xs (found, s₃))
    (fits : (c.sequenceSpec id).mode = .strict →
      found.stop = c.contentLimit id first.stop last.stop) :
    BracketedTrace c here below below2 ts limit i id opening closing persists s
      (putBetween (pairMatch first.start first.stop k [first] last)
        (c.fillContent id last.stop found)) first xs last

/-- What a bracketed grammar makes of its brackets and its content. -/
theorem run_matchBracketed_eq {k : Option MatchClass} {s₁ s₂ s₃ : MatchState} {found : Match}
    (opens : (below ts limit i opening).run s = (first, s₁)) (isMatch : first.isMatch = true)
    (closes : (c.closeBracket here ts limit (c.pairsFor opening closing persists).1 false
      (c.pairsFor opening closing persists).2 first).run s₁ =
        (some (pairMatch first.start first.stop k [first] last), s₂))
    (holds : (c.matchSequence below2 [closing] (c.contentLimit id first.stop last.stop)
      (c.contentStart id first.stop last.stop) (c.sequenceSpec id)).run s₂ = (found, s₃)) :
    (c.matchBracketed here below below2 ts limit i id opening closing persists).run s =
      (if found.stop ≠ c.contentLimit id first.stop last.stop &&
          (c.sequenceSpec id).mode == .strict then .empty i
        else putBetween (pairMatch first.start first.stop k [first] last)
          (c.fillContent id last.stop found), s₃) := by
  unfold matchBracketed
  rw [run_bind_of_run opens, if_neg (by simp [isMatch])]
  dsimp only
  rw [run_bind_of_run closes]
  dsimp only
  rw [matchContent_eq, stop_pairMatch, run_bind_of_run holds]
  split <;> rfl

/-- A bracketed grammar that matches leaves a trace. -/
theorem exists_bracketedTrace (hhere : Sound c False False (Invariant c False False) here)
    (hbelow : Sound c False False (Invariant c False False) below) (hs : Invariant c False False s)
    (hm : ((c.matchBracketed here below below2 ts limit i id opening closing persists).run s).1 = m)
    (hmatch : m.isMatch = true) :
    ∃ first xs last, c.BracketedTrace here below below2 ts limit i id opening closing persists s
      m first xs last := by
  obtain ⟨first, content, last, parts⟩ := matchBracketed_cases hhere hbelow hs hm hmatch
  obtain @⟨first, found, last, k, s₁, s₂, s₃, opens, isMatch, closes, holds⟩ := parts
  obtain ⟨xs, trace⟩ := exists_sequenceTrace (c := c) below2 [closing]
    (c.contentLimit id first.stop last.stop) (c.contentStart id first.stop last.stop)
    (c.sequenceSpec id) s₂
  rw [holds] at trace
  refine ⟨first, xs, last, .mk opens isMatch closes holds trace fun hstrict => ?_⟩
  rw [run_matchBracketed_eq opens isMatch closes holds] at hm
  by_contra hstop
  rw [if_pos (by simp [hstop, hstrict])] at hm
  rw [← hm, Match.isMatch_empty] at hmatch
  cases hmatch

theorem BracketedTrace.exists_from
    (h : c.BracketedTrace here below below2 ts limit i id opening closing persists s m first xs
      last) :
    ∃ content, c.BracketedFrom here below below2 ts limit i id opening closing persists s m first
      content last := by
  obtain ⟨opens, isMatch, closes, holds, -, -⟩ := h
  exact ⟨_, .mk opens isMatch closes holds⟩

/-! ## 3. Content that fills its brackets -/

/-- Parts take all there is between two places: they match one after the other, each where it was
asked for, and there is no code before, between or behind them. -/
structure Fills (c : MatchContext) (a b : Nat) (xs : List PartMatch) : Prop where
  inOrder : ∃ e f, c.NoCode a e ∧ c.Successive e xs f ∧ c.NoCode f b
  starts : ∀ x ∈ xs, x.found.start = x.place
  takes : ∀ p, a ≤ p → p < b → c.isCodeAt p = true → ∃ x ∈ xs, x.found.Takes p

theorem Fills.mk' {a b e f : Nat} (before : c.NoCode a e) (parts : c.Successive e xs f)
    (after : c.NoCode f b) (starts : ∀ x ∈ xs, x.found.start = x.place) : c.Fills a b xs := by
  refine ⟨⟨e, f, before, parts, after⟩, starts, fun p ha hb hcode => ?_⟩
  have hlt : p < f := by
    by_contra hp
    have := after.blank p (by omega) hb
    rw [hcode] at this
    cases this
  obtain ⟨x, hx, hfrom, hto⟩ := parts.takes (before.le_of_isCodeAt ha hcode) hlt hcode
  exact ⟨x, hx, by rw [starts x hx]; exact hfrom, hto⟩

/-- Where there is no code, no part is tried. -/
theorem contentLimit_le_contentStart (hgaps : (c.sequenceSpec id).allowGaps = true) {a b : Nat}
    (h : c.NoCode a (b - 1)) : c.contentLimit id a b ≤ c.contentStart id a b := by
  rw [contentStart, if_pos hgaps]
  exact Nat.le_trans (contentLimit_le id a b) (le_skipToCode_of_blank h.blank)

/-- Between brackets without code nothing matches. -/
theorem BracketedTrace.eq_nil
    (h : c.BracketedTrace here below below2 ts limit i id opening closing persists s m first xs
      last)
    (hstrict : (c.sequenceSpec id).mode = .strict) (hgaps : (c.sequenceSpec id).allowGaps = true)
    (hblank : c.NoCode first.stop (last.stop - 1)) : xs = [] := by
  obtain ⟨-, -, -, -, content, -⟩ := h
  exact content.eq_nil_of_strict hstrict (contentLimit_le_contentStart hgaps hblank)

/-- The content of brackets, with all it takes in its place, that stops where it has to: its parts
take all there is. Those that are required are among them, unless there is no code and so none has
been tried. -/
theorem SequenceTrace.fills {n : Nat} {spec : SequenceSpec} {t t' : MatchState} {found : Match}
    {a b start : Nat} (hstrict : spec.mode = .strict) (ht : c.Reachable t)
    (h : c.SequenceTrace (c.matchGrammar n) ts limit start spec t xs (found, t'))
    (stop : found.stop = limit) (before : c.NoCode a start) (after : c.NoCode limit b)
    (hab : a ≤ b) (untried : c.NoCode a b → xs = [])
    (hplaced : Match.anyUnparsable found.outerChildren = false) :
    found.outerChildren = xs.flatMap (·.found.outerChildren) ∧ c.Fills a b xs ∧
      (Filled c.tables spec.parts xs ↔
        (∃ p, a ≤ p ∧ p < b ∧ c.isCodeAt p = true) ∨ ¬ HasRequired c.tables spec.parts) := by
  have sound : Sound c False False c.PunctualInvariant (c.matchGrammar n) :=
    .punctual (punctual_matchGrammar n) (sound_matchGrammar False.elim False.elim n)
  rcases h.cases_of_strict sound hstrict ht.punctual with
    ⟨filled, inOrder, hchildren⟩ | ⟨required, rfl⟩
  · rw [stop] at inOrder
    rw [hchildren] at hplaced
    refine ⟨hchildren, .mk' before inOrder after fun x hx => ?_, fun _ => ?_, fun _ => filled⟩
    · exact h.forall_mem sound (fun ts limit i g => punctual_matchGrammar n ts limit i g)
        ht.punctual x hx (hasUnparsable_of_mem hplaced hx)
    · by_cases hcode : c.NoCode a b
      · rw [untried hcode] at filled
        exact .inr (filled_nil_iff.1 filled)
      · refine .inl ?_
        by_contra hnone
        exact hcode ⟨hab, by simpa using hnone⟩
  · -- nothing has been tried: the empty match stops at the closing bracket if no code comes first
    rw [← stop] at after
    have hempty : c.NoCode a b := before.trans after
    obtain rfl := untried hempty
    refine ⟨rfl, .mk' before (.nil _) after (by simp), fun filled => ?_, ?_⟩
    · exact absurd required (filled_nil_iff.1 filled)
    · rintro (⟨p, hfrom, hto, hcode⟩ | hnone)
      · rw [hempty.blank p hfrom hto] at hcode
        cases hcode
      · exact absurd required hnone

/-- A strict bracketed grammar that matches, with all it takes in its place, has its brackets from
where it was asked for on, and between them parts that take all the code there is. All parts that
are required are among them, in their order, exactly if there is any code between the brackets or
no part is required: between brackets without code no part is tried, and none is missed. -/
theorem matchBracketed_fills {book : GrammarBook} (hbook : book.compile = .ok c.tables)
    (hone : c.tables.ClosersTakeOneToken) {n : Nat}
    (hshape : c.tables.shape id = .bracketed (some (opening, closing, persists)))
    (hstrict : (c.sequenceSpec id).mode = .strict)
    (hgaps : (c.sequenceSpec id).allowGaps = true) (hs : c.Reachable s)
    (hm : ((c.matchBracketed (c.searching n) (c.matchGrammar n) (c.matchGrammar (n - 1)) ts limit i
      id opening closing persists).run s).1 = m)
    (hmatch : m.isMatch = true) (hplaced : m.hasUnparsable = false) :
    ∃ first xs last,
      c.BracketedTrace (c.searching n) (c.matchGrammar n) (c.matchGrammar (n - 1)) ts limit i id
        opening closing persists s m first xs last ∧
      m.start = i ∧ first.start = i ∧ last.stop = last.start + 1 ∧ m.stop = last.stop ∧
      m.children = first :: last :: xs.flatMap (·.found.outerChildren) ∧
      c.Fills first.stop last.start xs ∧
      (Filled c.tables (c.tables.parts id) xs ↔
        (∃ p, first.stop ≤ p ∧ p < last.start ∧ c.isCodeAt p = true) ∨
          ¬ HasRequired c.tables (c.tables.parts id)) := by
  have brackets : c.ExactBrackets := GrammarBook.exactBrackets_of_compile hbook hone rfl
  obtain ⟨first, xs, last, trace⟩ := exists_bracketedTrace
    (sound_searching False.elim False.elim n) (sound_matchGrammar False.elim False.elim n)
    hs.invariant hm hmatch
  obtain ⟨content, parts⟩ := trace.exists_from
  obtain ⟨inPlace, -⟩ : c.PartsInPlace True False limit i first content last ∧
      Claims c True False limit i m :=
    parts.inPlace (fun _ => brackets) False.elim
      (fun _ => brackets.declared id opening closing persists hshape)
      (hs.invariant_of (fun _ => brackets) False.elim)
  have one := inPlace.closed.one trivial
  have behind := inPlace.closed.le_start
  have closer : last.stop - 1 = last.start := by omega
  have untried := trace.eq_nil hstrict hgaps
  rw [closer] at untried
  refine ⟨first, xs, last, trace, ?_⟩
  obtain @⟨first, found, last, k, s₁, s₂, s₃, xs, opens, isMatch, closes, holds, content, fits⟩ :=
    trace
  have hfill : c.fillContent id last.stop found = found := by simp [fillContent, hgaps]
  rw [hfill] at hplaced ⊢
  have placed : first.hasUnparsable = false ∧ last.hasUnparsable = false ∧
      Match.anyUnparsable found.outerChildren = false := by
    simpa [putBetween, pairMatch, Match.children, Match.anyUnparsable] using
      Match.anyUnparsable_children hplaced
  -- the states that the two brackets lead to
  obtain ⟨opened, hs₁⟩ :=
    (sound_matchGrammar False.elim False.elim n ts limit i opening).of_run hs.invariant opens
  have hs₂ : c.Reachable s₂ :=
    ((meets_closeBracket (sound_searching False.elim False.elim n) False.elim ts limit false _
      (opened (.inr isMatch)).tidy).of_run hs₁ closes).2.reachable
  have start : first.start = i :=
    ((punctual_matchGrammar n ts limit i opening).of_run hs.punctual opens).1 placed.1
  have before : c.NoCode first.stop (c.contentStart id first.stop last.stop) := by
    rw [contentStart, if_pos hgaps]
    exact .skipToCode _ _
  have after : c.NoCode (c.contentLimit id first.stop last.stop) last.start := by
    rw [contentLimit, if_pos hgaps, closer]
    exact .trimToCode _ _
  obtain ⟨hchildren, fills, filled⟩ :=
    content.fills hstrict hs₂ (fits hstrict) before after behind untried placed.2.2
  exact ⟨start, start, one, rfl, congrArg (first :: last :: ·) hchildren, fills, filled⟩

/-! ## 4. Brackets around a keyword -/

/-- A keyword in round brackets. -/
def keywordBook : GrammarBook where
  root := "Root"
  definitions := [
    .grammar "Root" (.bracketed [.keyword "a"]),
    .grammar "Start" (.string "(" "start_bracket"),
    .grammar "End" oneCloser]
  brackets := [⟨"round", "Start", "End", true⟩]

/-- The keyword between brackets. -/
def aroundKeyword : MatchContext :=
  (Parser.ofBook keywordBook).context (Parser.wordTokens 0 0 ["(", "a", ")"])

/-- Brackets with nothing between them. -/
def aroundNothing : MatchContext :=
  (Parser.ofBook keywordBook).context (Parser.wordTokens 0 0 ["(", ")"])

/-- Between the brackets the keyword has matched. -/
theorem matchBracketed_fills_keyword :
    ∃ xs, aroundKeyword.Fills 1 2 xs ∧
      Filled aroundKeyword.tables (aroundKeyword.tables.parts aroundKeyword.tables.root) xs := by
  let c := aroundKeyword
  have compiled : keywordBook.compile.isOk = true := by decide +kernel
  have terminal : c.tables.ClosersAreTerminal := by decide +kernel
  obtain ⟨opening, closing, persists, hshape⟩ : ∃ opening closing persists,
      c.tables.shape c.tables.root = .bracketed (some (opening, closing, persists)) :=
    exists_brackets (by decide +kernel)
  have run : ((c.matchBracketed (c.searching 8) (c.matchGrammar 8) (c.matchGrammar 7) [] 3 0
      c.tables.root opening closing persists).run {}).1 = aroundKeyword.rootMatch :=
    run_matchBracketed [] 3 0 hshape (by decide +kernel) (by decide +kernel)
  obtain ⟨first, xs, last, -, -, -, one, stop, children, fills, filled⟩ :=
    matchBracketed_fills (Parser.compile_eq_ofBook compiled)
      (Tables.closersTakeOneToken_of_terminal terminal) hshape (by decide +kernel)
      (by decide +kernel) .initial run (by decide +kernel) (by decide +kernel)
  -- the opening bracket ends behind the first token, the closing one is the last
  have ends : (aroundKeyword.rootMatch.children.head?.map (·.stop)) = some 1 ∧
      aroundKeyword.rootMatch.stop = 3 := by decide +kernel
  rw [children] at ends
  have opened : first.stop = 1 := by simpa using ends.1
  have closed : last.start = 2 := by omega
  rw [opened, closed] at fills filled
  exact ⟨xs, fills, filled.2 (.inl ⟨1, by decide, by decide, by decide +kernel⟩)⟩

/-- Brackets with nothing between them match, although the grammar wants the keyword there. -/
theorem matchBracketed_accepts_nothing :
    keywordBook.compile = .ok aroundNothing.tables ∧ aroundNothing.tables.ClosersTakeOneToken ∧
    (aroundNothing.sequenceSpec aroundNothing.tables.root).mode = .strict ∧
    (aroundNothing.sequenceSpec aroundNothing.tables.root).allowGaps = true ∧
    ∃ opening closing persists first xs last,
      aroundNothing.tables.shape aroundNothing.tables.root =
        .bracketed (some (opening, closing, persists)) ∧
      ((aroundNothing.matchBracketed (aroundNothing.searching 8) (aroundNothing.matchGrammar 8)
        (aroundNothing.matchGrammar 7) [] 2 0 aroundNothing.tables.root opening closing
        persists).run {}).1 = aroundNothing.rootMatch ∧
      aroundNothing.rootMatch.start = 0 ∧ aroundNothing.rootMatch.stop = 2 ∧
      aroundNothing.rootMatch.isMatch = true ∧
      aroundNothing.rootMatch.hasUnparsable = false ∧
      aroundNothing.BracketedTrace (aroundNothing.searching 8) (aroundNothing.matchGrammar 8)
        (aroundNothing.matchGrammar 7) [] 2 0 aroundNothing.tables.root opening closing persists {}
        aroundNothing.rootMatch first xs last ∧
      ¬ Filled aroundNothing.tables (aroundNothing.tables.parts aroundNothing.tables.root) xs := by
  let c := aroundNothing
  have compiled : keywordBook.compile.isOk = true := by decide +kernel
  have terminal : c.tables.ClosersAreTerminal := by decide +kernel
  obtain ⟨opening, closing, persists, hshape⟩ : ∃ opening closing persists,
      c.tables.shape c.tables.root = .bracketed (some (opening, closing, persists)) :=
    exists_brackets (by decide +kernel)
  have run : ((c.matchBracketed (c.searching 8) (c.matchGrammar 8) (c.matchGrammar 7) [] 2 0
      c.tables.root opening closing persists).run {}).1 = aroundNothing.rootMatch :=
    run_matchBracketed [] 2 0 hshape (by decide +kernel) (by decide +kernel)
  have isMatch : aroundNothing.rootMatch.isMatch = true := by decide +kernel
  obtain ⟨first, xs, last, trace⟩ := exists_bracketedTrace
    (sound_searching False.elim False.elim 8) (sound_matchGrammar False.elim False.elim 8)
    .initial run isMatch
  have strict : (c.sequenceSpec c.tables.root).mode = .strict := by decide +kernel
  have gaps : (c.sequenceSpec c.tables.root).allowGaps = true := by decide +kernel
  -- the two brackets are all that is in the match, so there is no code between them
  have inside : aroundNothing.rootMatch.children.map (·.stop) = [1, 2] := by decide +kernel
  obtain ⟨content, parts⟩ := trace.exists_from
  rw [parts.children_eq] at inside
  simp only [List.map_cons, List.cons.injEq] at inside
  obtain rfl : xs = [] :=
    trace.eq_nil strict gaps (by rw [inside.1, inside.2.1]; exact .refl 1)
  have wanted : HasRequired c.tables (c.tables.parts c.tables.root) := by
    unfold HasRequired
    decide +kernel
  exact ⟨Parser.compile_eq_ofBook compiled, Tables.closersTakeOneToken_of_terminal terminal,
    strict, gaps, opening, closing, persists, first, [], last, hshape, run, by decide +kernel,
    by decide +kernel, isMatch, by decide +kernel, trace,
    fun filled => filled_nil_iff.1 filled wanted⟩

end MatchContext

end QueryLint
