import QueryLint.Proofs.Grammar.Brackets

/-!
QueryLint.Proofs.Match.Anchored — a match that takes no token stays where it was asked for.

Markers alone make a match, and such a match takes no token. It could still be found behind the
place it was asked for, and even at the limit. It never is: whatever passes over tokens before its
first part only counts parts that take some. So of several grammars, the one that matches most at a
place before the limit always takes a token, since a match as far as the limit reaches further than
the place.

* `Match.Anchored` — a match that starts where it was asked for, or takes a token.
* `MatchContext.anchored_matchGrammar` — all matches do one or the other.
* `MatchContext.meets_longest_takes` — the longest match takes a token.
-/

namespace QueryLint

open Matching

/-- A match that takes no token is at the place it was asked for. -/
def Match.Anchored (i : Nat) (m : Match) : Prop := m.start = i ∨ m.start < m.stop

namespace Match.Anchored

variable {i : Nat} {m x : Match}

theorem empty (i : Nat) : (Match.empty i).Anchored i := .inl rfl

theorem wrap? (h : m.Anchored i) (k : Option MatchClass) : (m.wrap? k).Anchored i := by
  cases k with
  | none => exact h
  | some k =>
    show (m.wrap k).Anchored i
    unfold Anchored
    rw [start_wrap, stop_wrap]
    exact h

/-- What takes a token can be put behind any match. -/
theorem of_append (hm : m.start ≤ m.stop) (hx : x.start < x.stop) (hbehind : m.stop ≤ x.start) :
    (m.append x).Anchored i := by
  by_cases hmatch : m.isMatch = true
  · right
    rw [start_append _ hmatch, stop_append _ (isMatch_of_lt hx)]
    omega
  · rw [append_of_not_isMatch _ (by simpa using hmatch)]
    exact .inr hx

end Match.Anchored

namespace MatchContext

variable {c : MatchContext} {I : MatchState → Prop}

/-- The matches of a matcher that take no token are where they were asked for. -/
def AnchoredBy (I : MatchState → Prop) (run : Matcher) : Prop :=
  ∀ ts limit i g, Meets I (run ts limit i g) (Match.Anchored i)

/-! ## 1. The longest match -/

section Longest

variable {here below : Matcher} {limit i : Nat}

theorem takes_longestFrom (hhere : ∀ ts place g, Meets I (here ts limit place g) fun _ => True)
    (hsound : Sound c False False I below) (hbelow : AnchoredBy I below) (ts : List GrammarId)
    (hi : i < limit) (gs : List GrammarId) {best : Match × Option GrammarId}
    (hbest : best.1.isMatch = true → best.1.start < best.1.stop) :
    Meets I (c.longestFrom here below ts limit i best gs) fun r =>
      r.1.isMatch = true → r.1.start < r.1.stop := by
  induction gs generalizing best with
  | nil => exact .pure hbest
  | cons g gs ih =>
    refine ((hsound.claims ts (Nat.le_of_lt hi) g).and (hbelow ts limit i g)).bind fun m hm => ?_
    obtain ⟨claims, anchored⟩ := hm
    refine .ite (fun hall => .pure fun _ => ?_) fun _ => ?_
    · -- The match goes as far as the limit, so it goes beyond the place it was asked for.
      rw [Bool.and_eq_true, beq_iff_eq] at hall
      rcases anchored with hstart | hlt
      · show m.start < m.stop
        omega
      · exact hlt
    refine .ite (fun _ => ih hbest) fun hlonger => ?_
    have takes : m.start < m.stop := by
      have : best.1.length < m.length := by simpa [Match.isLongerThan] using hlonger
      unfold Match.length at this
      omega
    refine .ite (fun _ => .pure fun _ => takes) fun _ => ?_
    refine .ite (fun _ => ih fun _ => takes) fun _ => ?_
    refine .ite (fun _ => .pure fun _ => takes) fun _ => ?_
    refine (meets_anyMatches (fun g => hhere ts _ g) ts).bind fun found _ => ?_
    exact .ite (fun _ => .pure fun _ => takes) fun _ => ih fun _ => takes

/-- Before the limit, the grammar that matches most takes a token. -/
theorem meets_longest_takes (hhere : ∀ ts place g, Meets I (here ts limit place g) fun _ => True)
    (hsound : Sound c False False I below) (hbelow : AnchoredBy I below) (ts : List GrammarId)
    (hi : i < limit) (gs : List GrammarId) :
    Meets I (c.longest here below ts limit i gs) fun r =>
      r.1.isMatch = true → r.1.start < r.1.stop := by
  unfold longest
  rw [if_neg (by omega)]
  refine takes_longestFrom hhere hsound hbelow ts hi _ fun h => ?_
  rw [Match.isMatch_empty] at h
  cases h

end Longest

/-! ## 2. Grammars of parts -/

section Parts

variable {here below below2 : Matcher} {limit start : Nat}
  (hsound : Sound c False False I below) (hsound2 : Sound c False False I below2)
  (hbelow2 : AnchoredBy I below2)

include hsound hsound2

/-- A repetition starts with a part that takes a token, or has matched nothing. -/
theorem anchored_repetitionRule (ts : List GrammarId) (allowGaps : Bool) (r : Repetition)
    (options : List GrammarId) :
    c.RepetitionRule below below2 ts limit start allowGaps r options I
      (fun s => RepetitionInvariant c False False limit start s ∧ s.matched.Anchored start)
      (fun s => RepetitionResult c False False limit start r.least s ∧
        s.matched.Anchored start) where
  ends _ h := ⟨h.1.result, h.2⟩
  tooFew _ h hfew := ⟨h.1.tooFew hfew, .empty start⟩
  round s h := (meets_longest hsound hsound2 ts limit s.next options).mono
    fun _ hm hlt counts => ⟨h.1.withPart hm hlt allowGaps counts,
      .of_append h.1.progress.tidy.start_le_stop hlt
        (Nat.le_trans h.1.progress_next.stop_le hm.le_start)⟩

theorem anchored_matchAnyNumberOf (ts : List GrammarId) (limit i : Nat) (id : GrammarId)
    (r : Repetition) (exclude : Option GrammarId) :
    Meets I (c.matchAnyNumberOf below below2 ts limit i id r exclude) (Match.Anchored i) := by
  refine meets_matchAnyNumberOf_of (meets_matchesExcluded hsound ts limit i exclude)
    (meets_repetitionLimit hsound False.elim ts limit i id)
    (fun bound _ => anchored_repetitionRule hsound hsound2 _ _ r _)
    (fun bound _ => ⟨.initial bound i, .empty i⟩) (.empty i) fun bound s _ h => ?_
  obtain ⟨hresult, hanchored⟩ := h
  rcases finishRepetition_cases (c := c) bound s with
    heq | ⟨-, first, last, -, hfirst, hlt, -, heq⟩
  · rw [heq]
    exact hanchored
  · rw [heq]
    exact .of_append hresult.claims.start_le_stop hlt (Nat.le_trans hresult.stop_le hfirst)

include hbelow2

/-- A list starts with a part that takes a token, or has matched nothing. -/
theorem anchored_delimitedRule (ts : List GrammarId) (spec : DelimitedSpec) :
    c.DelimitedRule below below2 ts limit start spec I fun s =>
      DelimitedInvariant c False False limit start s ∧ s.matched.Anchored start ∧
        s.withPending.Anchored start := by
  have tries (ts options : List GrammarId) {s : DelimitedState}
      (h : DelimitedInvariant c False False limit start s) (ht : s.Tried c limit start) :
      Meets I (c.longest below below2 ts limit s.place options) fun x =>
        Claims c False False limit s.place x.1 ∧
          (x.1.isMatch = true → (s.withPending.append x.1).Anchored start) :=
    ((meets_longest hsound hsound2 ts limit s.place options).and
      (meets_longest_takes (fun ts place g => (hsound ts limit place g).trivial) hsound2 hbelow2
        ts ht.lt options)).mono fun x hx => ⟨hx.1, fun hmatch =>
          .of_append h.progress.tidy.start_le_stop (hx.2 hmatch)
            (Nat.le_trans h.progress.stop_le hx.1.le_start)⟩
  exact {
    skipped := fun s h => ⟨h.1.skipped spec, h.2⟩
    ending := fun s h ht => (tries ts _ h.1 ht).trivial
    delimiter := fun s h ht hw => (tries ts _ h.1 ht).mono fun x hx hmatch =>
      ⟨h.1.withDelimiter hw hx.1 ht.lt hmatch, h.2.1,
        h.1.withPending_withDelimiter hw x.1 ▸ hx.2 hmatch⟩
    undelimited := fun s h ht hw => (tries _ _ h.1 ht).mono fun x hx hmatch =>
      ⟨h.1.withUndelimited hw hx.1 ht.lt hmatch, h.1.matched_withUndelimited hw x.1 ▸ hx.2 hmatch,
        h.1.withPending_withUndelimited hw x.1 ▸ hx.2 hmatch⟩
    part := fun s h ht _ => (tries _ _ h.1 ht).mono fun x hx hmatch =>
      ⟨h.1.withPart hx.1 ht.lt hmatch, hx.2 hmatch, hx.2 hmatch⟩ }

theorem anchored_matchDelimited (hI : ∀ s notes, I s → I { s with notes := notes })
    (ts : List GrammarId) (limit i : Nat) (id delimiter : GrammarId) (least : Nat) :
    Meets I (c.matchDelimited below below2 ts limit i id delimiter least) (Match.Anchored i) :=
  (anchored_delimitedRule hsound hsound2 hbelow2 ts _).meets_matchDelimited hI
    ⟨.initial limit i, .empty i, .empty i⟩ (.empty i) fun _ h => h.2

omit hbelow2

/-- A pair of brackets starts with its opening bracket. -/
theorem anchored_matchBracketed (hhere : Sound c False False I here) (hbelow : AnchoredBy I below)
    (ts : List GrammarId) (limit i : Nat) (id opening closing : GrammarId) (persists : Bool) :
    Meets I (c.matchBracketed here below below2 ts limit i id opening closing persists)
      (Match.Anchored i) := by
  unfold matchBracketed
  refine ((hsound ts limit i opening).and (hbelow ts limit i opening)).bind fun first hfirst => ?_
  refine .ite (fun _ => .pure (.empty i)) fun hmatch => ?_
  have claims := hfirst.1 (.inr (by simpa using hmatch))
  dsimp only
  refine (meets_closeBracket hhere False.elim ts limit false _ claims.tidy).bind fun r hr => ?_
  rcases r with _ | pair
  · exact .pure (.empty i)
  obtain ⟨k, between, last, rfl, closed, -⟩ := hr pair rfl
  have hopen := claims.start_le_stop
  have hclose := closed.le_start
  have hlast := closed.tidy.start_le_stop
  dsimp only
  rw [matchContent_eq]
  refine (meets_matchSequence hsound2 False.elim [closing] _ _ (c.sequenceSpec id)).bind
    fun content _ => .ite (fun _ => .pure (.empty i)) fun _ => .pure ?_
  refine hfirst.2.imp_right fun hlt => ?_
  show first.start < last.stop
  omega

end Parts

/-! ## 3. Tokens -/

section Tokens

variable (limit i : Nat)

theorem start_matchCode (type : String) (test : TokenView → Bool) :
    (c.matchCode limit i type test).start = i := by
  unfold matchCode
  split
  · split <;> rfl
  · rfl

theorem start_matchTyped (id : GrammarId) (template type : String) :
    (c.matchTyped limit i id template type).start = i := by
  unfold matchTyped
  split
  · split <;> rfl
  · rfl

theorem start_matchPattern (text anti : Option TablePattern) (type : String) :
    (c.matchPattern limit i text anti type).start = i := by
  unfold matchPattern
  split
  · rfl
  · exact start_matchCode limit i type _

theorem start_greedyFrom {below : Matcher} (hsound : Sound c False False I below)
    (ts options : List GrammarId) (including nested : Bool) (fuel at_ : Nat)
    (inner : List Match) :
    Meets I (c.greedyFrom below ts limit i options including nested fuel at_ inner)
      fun m => m.start = i := by
  induction fuel generalizing at_ inner with
  | zero => exact .pure rfl
  | succ fuel ih =>
    refine (meets_nextOutsideBrackets hsound False.elim ts limit at_ options).bind
      fun found _ => ?_
    dsimp only
    split
    · exact .pure rfl
    · refine .ite (fun _ => ih _ _) fun _ => .ite (fun _ => .pure rfl) fun _ => .pure ?_
      rfl

theorem start_matchAnything {below : Matcher} (hsound : Sound c False False I below)
    (ts : List GrammarId) (id : GrammarId) :
    Meets I (c.matchAnything below ts limit i id) fun m => m.start = i := by
  unfold matchAnything
  dsimp only
  split
  · exact .pure rfl
  · exact start_greedyFrom limit i hsound ts _ false true _ i []

end Tokens

/-! ## 4. All levels -/

/-- The states that matching can be in, with what their memo promises. -/
structure AnchoredInvariant (c : MatchContext) (s : MatchState) : Prop where
  reachable : c.Reachable s
  memo : ∀ (key : MemoKey) m, s.memo[key]? = some m → m.Anchored key.start

/-- A matcher that is sound in all states that matching can be in is sound where it keeps these. -/
theorem AnchoredBy.sound {run : Matcher} (h : AnchoredBy c.AnchoredInvariant run)
    (hrun : Sound c False False (Invariant c False False) run) :
    Sound c False False c.AnchoredInvariant run := fun ts limit i g s hs =>
  ⟨(hrun ts limit i g s hs.reachable.invariant).1, (h ts limit i g s hs).2⟩

theorem AnchoredInvariant.note {s : MatchState} (h : c.AnchoredInvariant s)
    (notes : List ParseNote) : c.AnchoredInvariant { s with notes := notes } :=
  ⟨.note notes h.reachable, h.memo⟩

/-- What is put into the memo keeps it as promised. -/
theorem AnchoredInvariant.keep {n limit i : Nat} {s s' : MatchState} {m : Match}
    {ts : List GrammarId} {g : GrammarId} (h : c.Reachable s)
    (run : (c.matchGrammar n ts limit i g).run s = (m, s')) (hm : m.Anchored i)
    (h' : c.AnchoredInvariant s') :
    c.AnchoredInvariant { s' with memo := s'.memo.insert ⟨i, limit, g, ts⟩ m } :=
  ⟨.keep h run h'.reachable, forall_memo_insert h'.memo hm⟩

theorem anchored_matchReference {n : Nat}
    (hn : AnchoredBy c.AnchoredInvariant (c.matchGrammar n)) (ts : List GrammarId) (limit i : Nat)
    (id target : GrammarId) (exclude : Option GrammarId) :
    Meets c.AnchoredInvariant (c.matchReference (c.matchGrammar n) ts limit i id target exclude)
      (Match.Anchored i) := by
  have sound := hn.sound (sound_matchGrammar False.elim False.elim n)
  unfold matchReference
  dsimp only
  refine (meets_matchesExcluded sound _ limit i exclude).bind fun excluded _ => ?_
  refine .ite (fun _ => .pure (.empty i)) fun _ => ?_
  refine meets_memoized (hn _ limit i target) (fun s m hs hm => hs.memo _ m hm) fun s hs => ?_
  obtain ⟨anchored, after⟩ := hn (pushTerminators
    (c.tables.instruction id).flags.resetTerminators (c.tables.terminatorsOf id) ts) limit i target
    s hs
  exact .keep hs.reachable rfl anchored after

theorem anchored_matchOne {here below2 : Matcher} {n : Nat}
    (hhere : Sound c False False c.AnchoredInvariant here)
    (hbelow : AnchoredBy c.AnchoredInvariant (c.matchGrammar n))
    (hsound2 : Sound c False False c.AnchoredInvariant below2)
    (hbelow2 : AnchoredBy c.AnchoredInvariant below2) :
    AnchoredBy c.AnchoredInvariant (c.matchOne here (c.matchGrammar n) below2) := by
  intro ts limit i id
  have sound := hbelow.sound (sound_matchGrammar False.elim False.elim n)
  have nothing : Meets c.AnchoredInvariant (return Match.empty i) (Match.Anchored i) :=
    .pure (.empty i)
  have shaped : Meets c.AnchoredInvariant
      (c.matchShape here (c.matchGrammar n) below2 ts limit i id) (Match.Anchored i) := by
    unfold matchShape
    cases c.tables.shape id with
    | ref name target exclude =>
      cases target with
      | none => exact nothing
      | some target => exact anchored_matchReference hbelow ts limit i id target exclude
    | sequence =>
      exact (meets_matchSequence sound False.elim ts limit i _).mono fun _ hm => .inl hm.start_eq
    | oneOf exclude => exact anchored_matchAnyNumberOf sound hsound2 ts limit i id _ exclude
    | anyNumberOf most perPart exclude =>
      exact anchored_matchAnyNumberOf sound hsound2 ts limit i id _ exclude
    | delimited delimiter least =>
      cases delimiter with
      | none => exact nothing
      | some delimiter =>
        exact anchored_matchDelimited sound hsound2 hbelow2 (fun _ notes h => h.note notes) ts
          limit i id delimiter least
    | bracketed pair =>
      rcases pair with _ | ⟨opening, closing, persists⟩
      · exact nothing
      · exact anchored_matchBracketed sound hsound2 hhere hbelow ts limit i id opening closing
          persists
    | string template type => exact .pure (.inl (start_matchCode limit i type _))
    | multiString templates type => exact .pure (.inl (start_matchCode limit i type _))
    | typed template type => exact .pure (.inl (start_matchTyped limit i id template type))
    | pattern text anti type => exact .pure (.inl (start_matchPattern limit i text anti type))
    | token =>
      refine .pure (.inl ?_)
      split <;> rfl
    | anything => exact (start_matchAnything limit i sound ts id).mono fun _ hm => .inl hm
    | marker kind condition =>
      refine .pure (.inl ?_)
      cases c.enabledMarker? id <;> rfl
    | nothing => exact nothing
    | missing => exact nothing
  exact shaped.bind fun m hm => .pure (hm.wrap? _)

theorem anchored_refuse : AnchoredBy I .refuse := fun _ _ i _ => .pure (.empty i)

/-- A match of any grammar that takes no token is where it was asked for. -/
theorem anchored_matchGrammar (n : Nat) : AnchoredBy c.AnchoredInvariant (c.matchGrammar n) := by
  have sound {n : Nat} (hn : AnchoredBy c.AnchoredInvariant (c.matchGrammar n)) :=
    hn.sound (sound_matchGrammar False.elim False.elim n)
  refine matchGrammar_induction anchored_refuse (fun _ below below2 => ?_)
    (fun n here below below2 => ?_) n
  · exact anchored_matchOne sound_refuse below (sound below2) below2
  · exact anchored_matchOne (here.sound (sound_searching False.elim False.elim n)) below
      (sound below2) below2

theorem Reachable.anchored {s : MatchState} (h : c.Reachable s) : c.AnchoredInvariant s := by
  induction h with
  | initial => exact ⟨.initial, fun key m h => by simp at h⟩
  | note notes _ ih => exact ih.note notes
  | @keep s s' m n limit i ts g hs run _ ih ih' =>
    exact .keep hs run ((anchored_matchGrammar n ts limit i g).of_run ih run).1 ih'

end MatchContext

end QueryLint
