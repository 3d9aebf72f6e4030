import QueryLint.Proofs.Match.Anchored

/-!
QueryLint.Proofs.Match.Rounds — loops that end without a bound.

The loops of matching count their rounds down from a bound, so that they are functions at all. The
bound is no part of what they do: each round that does not end its loop moves an index on, the index
never passes the limit, and there are more rounds than places. Here the rounds are taken out of the
loops. A loop without a bound runs them one after the other until one ends it, and that is a finite
run with the result of the loop with the bound.

Two facts move the indices on. A part that counts takes a token; the longest match at a place before
the limit always does. And what opens a pair of brackets takes a token, which has to be assumed: a
bracket of markers alone would be found again at the same place, for ever.

* `Ends` — rounds are run one after the other, ever further on, until one ends the loop.
* `MatchContext.Closes` — so are the rounds of closing brackets, which open loops of their own.
* `MatchContext.LoopsEnd` — all loops end without a bound as they do with it.
* `MatchContext.loopsEnd_of_sound` — so they do with sound matchers, if what opens brackets takes a
  token.
-/

namespace QueryLint

open Matching

/-! ## 1. Loops without a bound -/

/-- A run of a loop without a bound: rounds one after the other, each from where the one before left
off, until one of them ends the loop with a result. Every other round moves the index on. -/
inductive Ends {σ α : Type} (round : σ → Matching (σ ⊕ α)) (index : σ → Nat) :
    σ → MatchState → α × MatchState → Prop where
  | exit {x : σ} {s s' : MatchState} {a : α} (run : (round x).run s = (.inr a, s')) :
    Ends round index x s (a, s')
  | again {x y : σ} {s s' : MatchState} {r : α × MatchState}
    (run : (round x).run s = (.inl y, s')) (advance : index x < index y)
    (rest : Ends round index y s' r) : Ends round index x s r

section Bounded

variable {σ α : Type} {round : σ → Matching (σ ⊕ α)} {index : σ → Nat} {f : Nat → σ → Matching α}
  {I : MatchState → Prop} {P : σ → Prop} {k : Nat}

/-- A loop `f` with a bound is a run without one if rounds move the index on to `k` at most, and the
bound allows for so many rounds. -/
theorem ends_of_bounded
    (hf : ∀ n x, f (n + 1) x = round x >>= Sum.elim (f n) pure)
    (hround : ∀ x, P x → Meets I (round x) fun r => ∀ y, r = .inl y →
      P y ∧ index x < index y ∧ index y ≤ k)
    (n : Nat) {x : σ} (hx : P x) (hn : k < n + index x) (hpos : 0 < n) {s : MatchState}
    (hs : I s) : Ends round index x s ((f n x).run s) := by
  induction n generalizing x s with
  | zero => omega
  | succ n ih =>
    rw [hf]
    obtain ⟨next, hs'⟩ := hround x hx s hs
    cases hrun : (round x).run s with
    | mk r s' =>
    rw [hrun] at next hs'
    rw [run_bind_of_run hrun]
    cases r with
    | inr a => exact .exit hrun
    | inl y =>
      obtain ⟨hy, advance, hle⟩ := next y rfl
      exact .again hrun advance (ih hy (by omega) (by omega) hs')

end Bounded

namespace MatchContext

variable (c : MatchContext)

/-! ## 2. Rounds -/

/-- How far a pair of brackets has been gone through. -/
structure BracketState where
  kind : Nat
  start : Nat
  indentAt : Nat
  place : Nat
  inner : List Match

namespace BracketState

/-- After the opening bracket of a pair. -/
def opened (kind : Nat) (m : Match) : BracketState := ⟨kind, m.start, m.stop, m.stop, [m]⟩

/-- After a pair inside. -/
def passed (nested : Bool) (x : BracketState) (b : Match) : BracketState :=
  { x with place := b.stop, inner := if nested then x.inner ++ [b] else x.inner }

end BracketState

/-- The next bracket of a pair. It closes the pair, or gives it up, or opens another pair. -/
def bracketRound (run : Matcher) (ts : List GrammarId) (limit : Nat) (pairs : List BracketPair)
    (x : BracketState) : Matching ((Match × Nat) ⊕ Option Match) := do
  match ← c.nextMatch run ts limit x.place (bracketGrammars pairs) with
  | none => return .inr none
  | some (m, which) =>
    if pairs.length ≤ which then
      if which - pairs.length ≠ x.kind then return .inr none
      else
        let whole := Match.mk x.start m.stop none [(x.indentAt, .indent), (m.start, .dedent)]
          (x.inner ++ [m])
        return .inr (some (if (pairs[x.kind]?).any (·.persists) then whole.wrap .bracketed
          else whole))
    else return .inl (m, which)

/-- A run that closes brackets without a bound. Each pair inside is closed first, further on than
where it was found, and then the search goes on further yet. -/
inductive Closes (run : Matcher) (ts : List GrammarId) (limit : Nat) (pairs : List BracketPair)
    (nested : Bool) : BracketState → MatchState → Option Match × MatchState → Prop where
  | exit {x : BracketState} {s s' : MatchState} {r : Option Match}
    (found : (c.bracketRound run ts limit pairs x).run s = (.inr r, s')) :
    Closes run ts limit pairs nested x s (r, s')
  | unclosed {x : BracketState} {s s' s'' : MatchState} {m : Match} {kind : Nat}
    (found : (c.bracketRound run ts limit pairs x).run s = (.inl (m, kind), s'))
    (inwards : x.place < m.stop)
    (inside : Closes run ts limit pairs nested (.opened kind m) s' (none, s'')) :
    Closes run ts limit pairs nested x s (none, s'')
  | again {x : BracketState} {s s' s'' : MatchState} {m b : Match} {kind : Nat}
    {r : Option Match × MatchState}
    (found : (c.bracketRound run ts limit pairs x).run s = (.inl (m, kind), s'))
    (inwards : x.place < m.stop)
    (inside : Closes run ts limit pairs nested (.opened kind m) s' (some b, s''))
    (onwards : x.place < b.stop)
    (rest : Closes run ts limit pairs nested (x.passed nested b) s'' r) :
    Closes run ts limit pairs nested x s r

/-- The next match or pair of brackets of a search outside brackets. -/
def outsideRound (run : Matcher) (ts : List GrammarId) (limit start : Nat)
    (options : List GrammarId) (x : Nat × List Match) : Matching ((Nat × List Match) ⊕ Found) := do
  let pairs := c.tables.bracketPairs
  match ← c.nextMatch run ts limit x.1 (options ++ bracketGrammars pairs) with
  | none => return .inr { place := x.1, skipped := x.2 }
  | some (m, which) =>
    if which < options.length then
      return .inr { place := x.1, hit := some (m, which), skipped := x.2 }
    else if options.length + pairs.length ≤ which then return .inr { place := start }
    else
      match ← c.closeBracket run ts limit pairs true (which - options.length) m with
      | none => return .inr { place := start }
      | some b => return .inl (b.stop, x.2 ++ [b])

/-- The next terminator outside brackets, which ends the search unless it is of words and comes
after no white space. -/
def greedyRound (below : Matcher) (ts : List GrammarId) (limit i : Nat) (options : List GrammarId)
    (including nested : Bool) (x : Nat × List Match) :
    Matching ((Nat × List Match) ⊕ Match) := do
  let found ← c.nextOutsideBrackets below ts limit x.1 options
  let inner := if nested then x.2 ++ found.skipped else x.2
  match found.hit with
  | none => return .inr (.mk i limit none [] inner)
  | some (m, which) =>
    if c.isWordLike (options.getD which default) && m.start ≠ x.1 && !c.blankBefore x.1 m.start then
      return .inl (m.stop, inner)
    else if including then return .inr (.mk i m.stop none [] inner)
    else
      let stop := c.trimToCode m.start i
      let stop := if stop = i then m.start else stop
      return .inr (.mk i stop none [] (inner.filter (·.stop ≤ stop)))

/-- The next part of a repetition. -/
def repeatRound (below below2 : Matcher) (ts : List GrammarId) (limit start : Nat)
    (allowGaps : Bool) (r : Repetition) (options : List GrammarId) (s : RepetitionState) :
    Matching (RepetitionState ⊕ Option RepetitionState) := do
  if r.least ≤ s.count && (r.most.any (· ≤ s.count) || limit ≤ s.place) then
    return .inr (some s)
  else if limit ≤ s.place then return .inr none
  else
    let (m, option) ← c.longest below below2 ts limit s.next options
    if m.isEmpty then
      return .inr (some (if s.count < r.least then { s with matched := .empty start } else s))
    else
      let times := (option.map fun g => timesOf g s.counts + 1).getD 0
      if r.perPart.any (· < times) then return .inr (some s)
      else
        let matched := s.matched.append m
        return .inl {
          matched := matched
          count := s.count + 1
          counts := (option.map fun g => (g, times)).toList ++ s.counts
          place := matched.stop
          next := if allowGaps then c.skipToCode matched.stop limit else matched.stop }

/-- The next part or delimiter of a list. -/
def delimitedRound (below below2 : Matcher) (ts : List GrammarId) (limit start : Nat)
    (spec : DelimitedSpec) (s : DelimitedState) :
    Matching (DelimitedState ⊕ DelimitedState) := do
  let i := if spec.allowGaps && start < s.place then c.skipToCode s.place limit else s.place
  let s := { s with place := i }
  if limit ≤ i || (!spec.allowGaps && !c.isCodeAt i) then return .inr s
  else if (← c.longest below below2 ts limit i spec.terminators).1.isMatch then return .inr s
  else if s.wantsDelimiter then
    let (m, _) ← c.longest below below2 ts limit i [spec.delimiter]
    if m.isMatch then return .inl (s.withDelimiter m)
    else if spec.optionalDelimiter then
      let (part, _) ← c.longest below below2 (pushTerminators false [spec.delimiter] ts) limit i
        spec.parts
      if part.isMatch then
        Matching.note ("Missing delimiter before " ++ c.displayAt i)
          ((c.tokens[i]?).bind (·.segment.position))
        return .inl (s.withUndelimited part)
      else return .inr s
    else return .inr s
  else
    let (m, _) ← c.longest below below2 (pushTerminators false [spec.delimiter] ts) limit i
      spec.parts
    if m.isMatch then return .inl (s.withPart m)
    else return .inr s

variable {c}

section Rounds

variable {run below below2 : Matcher} {ts : List GrammarId} {limit start : Nat}

theorem outsideFrom_succ (options : List GrammarId) (n : Nat) (x : Nat × List Match) :
    c.outsideFrom run ts limit start options (n + 1) x.1 x.2 =
      c.outsideRound run ts limit start options x >>=
        Sum.elim (fun y => c.outsideFrom run ts limit start options n y.1 y.2) pure := by
  rw [outsideFrom, outsideRound]
  simp only [bind_assoc]
  refine bind_congr fun r => ?_
  rcases r with _ | ⟨m, which⟩
  · rfl
  dsimp only
  split
  · rfl
  split
  · rfl
  rw [bind_assoc]
  refine bind_congr fun r => ?_
  cases r <;> rfl

theorem closeBracketFrom_succ (pairs : List BracketPair) (nested : Bool) (n : Nat)
    (x : BracketState) :
    c.closeBracketFrom run ts limit pairs nested (n + 1) x.kind x.start x.indentAt x.place
        x.inner = do
      match ← c.bracketRound run ts limit pairs x with
      | .inl (m, opens) =>
        match ← c.closeBracketFrom run ts limit pairs nested n opens m.start m.stop m.stop [m] with
        | none => return none
        | some b =>
          c.closeBracketFrom run ts limit pairs nested n x.kind x.start x.indentAt b.stop
            (x.passed nested b).inner
      | .inr r => return r := by
  rw [closeBracketFrom, bracketRound]
  simp only [bind_assoc]
  refine bind_congr fun r => ?_
  rcases r with _ | ⟨m, which⟩
  · rfl
  dsimp only
  split
  · split <;> rfl
  · rfl

theorem greedyFrom_succ (options : List GrammarId) (including nested : Bool) (n : Nat)
    (x : Nat × List Match) :
    c.greedyFrom run ts limit start options including nested (n + 1) x.1 x.2 =
      c.greedyRound run ts limit start options including nested x >>=
        Sum.elim (fun y => c.greedyFrom run ts limit start options including nested n y.1 y.2)
          pure := by
  rw [greedyFrom, greedyRound]
  simp only [bind_assoc]
  refine bind_congr fun found => ?_
  cases found.hit with
  | none => rfl
  | some hit =>
    dsimp only
    split
    · rfl
    · split <;> rfl

theorem repeatFrom_succ (allowGaps : Bool) (r : Repetition) (options : List GrammarId) (n : Nat)
    (s : RepetitionState) :
    c.repeatFrom below below2 ts limit start allowGaps r options (n + 1) s =
      c.repeatRound below below2 ts limit start allowGaps r options s >>=
        Sum.elim (c.repeatFrom below below2 ts limit start allowGaps r options n) pure := by
  rw [repeatFrom, repeatRound]
  split
  · rfl
  split
  · rfl
  rw [bind_assoc]
  refine bind_congr fun (m, option) => ?_
  show (if m.isEmpty = true then _ else _) = ((if m.isEmpty = true then _ else _) >>= _)
  split
  · rfl
  · dsimp only
    split <;> rfl

theorem delimitedFrom_succ (spec : DelimitedSpec) (n : Nat) (s : DelimitedState) :
    c.delimitedFrom below below2 ts limit start spec (n + 1) s =
      c.delimitedRound below below2 ts limit start spec s >>=
        Sum.elim (c.delimitedFrom below below2 ts limit start spec n) pure := by
  rw [delimitedFrom, delimitedRound]
  dsimp only
  generalize (if (spec.allowGaps && decide (start < s.place)) = true then
    c.skipToCode s.place limit else s.place) = i
  split
  · rfl
  rw [bind_assoc]
  refine bind_congr fun ending => ?_
  split
  · rfl
  split
  · rw [bind_assoc]
    refine bind_congr fun found => ?_
    split
    · rfl
    split
    · rw [bind_assoc]
      refine bind_congr fun found => ?_
      split <;> rfl
    · rfl
  · rw [bind_assoc]
    refine bind_congr fun found => ?_
    split <;> rfl

end Rounds

/-! ## 3. Rounds move on -/

/-- What opens a pair of brackets takes a token. -/
def OpensByTaking (I : MatchState → Prop) (run : Matcher) (pairs : List BracketPair) : Prop :=
  ∀ p ∈ pairs, ∀ ts limit i, Meets I (run ts limit i p.opening) fun m =>
    m.isMatch = true → m.start < m.stop

theorem OpensByTaking.of_openings {I : MatchState → Prop} {run : Matcher}
    {pairs others : List BracketPair} (h : OpensByTaking I run pairs)
    (hothers : ∀ q ∈ others, ∃ p ∈ pairs, p.opening = q.opening) :
    OpensByTaking I run others := by
  intro q hq
  obtain ⟨p, hp, hopening⟩ := hothers q hq
  rw [← hopening]
  exact h p hp

/-- The grammar of a bracket that is numbered before the closing ones opens a pair. -/
theorem mem_of_getElem?_openings {pairs : List BracketPair} {n : Nat} {g : GrammarId}
    (h : (bracketGrammars pairs)[n]? = some g) (hn : n < pairs.length) :
    ∃ p ∈ pairs, p.opening = g :=
  have ⟨p, hp, opens⟩ := exists_opening h hn
  ⟨p, List.mem_of_getElem? hp, opens⟩

section Advance

variable {I : MatchState → Prop} {run below below2 : Matcher} {limit start : Nat}
  {pairs : List BracketPair}

/-- A search for brackets finds a sound match at a place before the limit, and one that takes a
token if it opens a pair. -/
theorem meets_opening (hrun : Sound c False False I run) (hopens : OpensByTaking I run pairs)
    (ts : List GrammarId) {place : Nat} (hplace : place < limit) (g : GrammarId) :
    Meets I (run ts limit place g) fun m => Claims c False False limit place m ∧
      ((∃ p ∈ pairs, p.opening = g) → m.isMatch = true → m.start < m.stop) := by
  have claims := hrun.claims ts (Nat.le_of_lt hplace) g
  refine claims.and (claims.trivial.imp fun hg => ?_)
  obtain ⟨p, hp, rfl⟩ := hg
  exact hopens p hp ts limit place

/-- A bracket that opens a pair inside is found further on. -/
theorem meets_bracketRound (hrun : Sound c False False I run) (hopens : OpensByTaking I run pairs)
    (ts : List GrammarId) (x : BracketState) :
    Meets I (c.bracketRound run ts limit pairs x) fun r => ∀ m opens, r = .inl (m, opens) →
      m.Tidy False ∧ x.place < m.stop ∧ m.stop ≤ limit := by
  refine (meets_nextMatch x.place (bracketGrammars pairs) fun g _ place hplace =>
    meets_opening hrun hopens ts hplace g).bind fun r hr => ?_
  rcases r with _ | ⟨m, which⟩
  · exact .pure (by simp)
  obtain ⟨g, place, hg, hle, hlt, hm, claims, takes⟩ := hr _ rfl
  dsimp only at hg hm claims takes ⊢
  refine .ite (fun _ => .ite (fun _ => .pure (by simp)) fun _ => .pure (by simp)) fun hwhich => ?_
  refine .pure ?_
  rintro m opens ⟨⟩
  have hstart := claims.le_start
  have hstop := claims.stop_le
  have htaken := takes (mem_of_getElem?_openings hg (by omega)) hm
  exact ⟨claims.tidy, by omega, by omega⟩

/-- Closing brackets ends without a bound as it does with it. -/
theorem closes_of_bounded (hrun : Sound c False False I run) (hopens : OpensByTaking I run pairs)
    (ts : List GrammarId) (nested : Bool) (n : Nat) (x : BracketState) (hn : limit < n + x.place)
    (hpos : 0 < n) {s : MatchState} (hs : I s) :
    c.Closes run ts limit pairs nested x s
      ((c.closeBracketFrom run ts limit pairs nested n x.kind x.start x.indentAt x.place
        x.inner).run s) := by
  induction n generalizing x s with
  | zero => omega
  | succ n ih =>
    rw [closeBracketFrom_succ]
    obtain ⟨next, hs'⟩ := meets_bracketRound hrun hopens ts x s hs
    cases hround : (c.bracketRound run ts limit pairs x).run s with
    | mk r s' =>
    rw [hround] at next hs'
    rw [run_bind_of_run hround]
    rcases r with ⟨m, opens⟩ | r
    case inr => exact .exit hround
    obtain ⟨tidy, inwards, hlimit⟩ := next m opens rfl
    have inside := ih (.opened opens m) (show limit < n + m.stop by omega) (by omega) hs'
    obtain ⟨closed, hs''⟩ :=
      meets_closeBracketFrom hrun False.elim ts limit nested n opens tidy s' hs'
    dsimp only [BracketState.opened] at inside ⊢
    cases hinner : (c.closeBracketFrom run ts limit pairs nested n opens m.start m.stop m.stop
      [m]).run s' with
    | mk r s'' =>
    rw [hinner] at inside closed hs''
    rw [run_bind_of_run hinner]
    cases r with
    | none => exact .unclosed hround inwards inside
    | some b =>
      obtain ⟨k, between, last, rfl, behind, -⟩ := closed b rfl
      have onwards : x.place < (pairMatch m.start m.stop k between last).stop := by
        have := behind.le_start
        have := behind.tidy.start_le_stop
        rw [stop_pairMatch]
        omega
      exact .again hround inwards inside onwards
        (ih (x.passed nested _) (show limit < n + Match.stop _ by omega) (by omega) hs'')

/-- A search outside brackets goes on behind a pair that it went over. -/
theorem meets_outsideRound (hrun : Sound c False False I run)
    (hopens : OpensByTaking I run c.tables.bracketPairs) (ts options : List GrammarId)
    (x : Nat × List Match) :
    Meets I (c.outsideRound run ts limit start options x) fun r => ∀ y, r = .inl y →
      x.1 < y.1 ∧ y.1 ≤ limit := by
  refine (meets_nextMatch x.1 (options ++ bracketGrammars c.tables.bracketPairs)
    fun g _ place hplace => meets_opening hrun hopens ts hplace g).bind fun r hr => ?_
  rcases r with _ | ⟨m, which⟩
  · exact .pure (by simp)
  obtain ⟨g, place, hg, hle, hlt, hm, claims, takes⟩ := hr _ rfl
  dsimp only at hg hm claims takes ⊢
  refine .ite (fun _ => .pure (by simp)) fun hoption => .ite (fun _ => .pure (by simp))
    fun hclosing => ?_
  refine (meets_closeBracket hrun False.elim ts limit true (which - options.length)
    claims.tidy).bind fun r hr => ?_
  rcases r with _ | b
  · exact .pure (by simp)
  obtain ⟨k, between, last, rfl, closed, -⟩ := hr _ rfl
  refine .pure ?_
  rintro y ⟨⟩
  rw [List.getElem?_append_right (by omega)] at hg
  have htaken := takes (mem_of_getElem?_openings hg (by omega)) hm
  have hstart := claims.le_start
  have hclose := closed.le_start
  have hend := closed.tidy.start_le_stop
  have hstop := closed.stop_le
  show x.1 < last.stop ∧ last.stop ≤ limit
  omega

/-- A terminator that ends nothing is behind the place the search started from. -/
theorem meets_greedyRound (hrun : Sound c False False I below) (ts options : List GrammarId)
    (including nested : Bool) (x : Nat × List Match) :
    Meets I (c.greedyRound below ts limit start options including nested x) fun r =>
      ∀ y, r = .inl y → x.1 < y.1 ∧ y.1 ≤ limit := by
  refine (meets_nextOutsideBrackets hrun False.elim ts limit x.1 options).bind
    fun found hfound => ?_
  dsimp only
  cases hhit : found.hit with
  | none => exact .pure (by simp)
  | some hit =>
    obtain ⟨g, place, -, hle, hlt, -, claims⟩ := hfound.hit hit hhit
    refine .ite (fun hword => .pure ?_) fun _ => .ite (fun _ => .pure (by simp))
      fun _ => .pure (by simp)
    rintro y ⟨⟩
    have hmoved : hit.1.start ≠ x.1 := by
      simp only [Bool.and_eq_true, decide_eq_true_eq] at hword
      exact hword.1.2
    have hplace := hfound.start_le
    have hstart := claims.le_start
    have hend := claims.start_le_stop
    have hstop := claims.stop_le
    show x.1 < hit.1.stop ∧ hit.1.stop ≤ limit
    omega

/-- A repetition goes on behind a part. -/
theorem meets_repeatRound (hbelow : Sound c False False I below)
    (hbelow2 : Sound c False False I below2) (ts : List GrammarId) (allowGaps : Bool)
    (r : Repetition) (options : List GrammarId) {x : RepetitionState}
    (hx : RepetitionInvariant c False False limit start x) :
    Meets I (c.repeatRound below below2 ts limit start allowGaps r options x) fun res =>
      ∀ y, res = .inl y → RepetitionInvariant c False False limit start y ∧
        x.place < y.place ∧ y.place ≤ max limit start := by
  refine .ite (fun _ => .pure (by simp)) fun _ => .ite (fun _ => .pure (by simp)) fun _ => ?_
  refine (meets_longest hbelow hbelow2 ts limit x.next options).bind fun found hm => ?_
  obtain ⟨m, option⟩ := found
  refine .ite (fun _ => .pure (by simp)) fun hempty => .ite (fun _ => .pure (by simp)) fun _ => ?_
  refine .pure ?_
  rintro y ⟨⟩
  have hlt : m.start < m.stop := (m.isEmpty_eq_false_iff).1 (by simpa using hempty)
  have after := hx.withPart hm hlt allowGaps
    ((option.map fun g => (g, (option.map fun g => timesOf g x.counts + 1).getD 0)).toList ++
      x.counts)
  exact ⟨after, hx.lt_stop hm hlt, after.progress.place_le⟩

/-- A list goes on behind a part or a delimiter. -/
theorem meets_delimitedRound (hbelow : Sound c False False I below)
    (hbelow2 : Sound c False False I below2) (hanchored : AnchoredBy I below2)
    (hI : ∀ s notes, I s → I { s with notes := notes }) (ts : List GrammarId)
    (spec : DelimitedSpec) {x : DelimitedState}
    (hx : DelimitedInvariant c False False limit start x) :
    Meets I (c.delimitedRound below below2 ts limit start spec x) fun r => ∀ y, r = .inl y →
      DelimitedInvariant c False False limit start y ∧ x.place < y.place ∧
        y.place ≤ max limit start := by
  unfold delimitedRound
  dsimp only
  rw [← DelimitedSpec.nextPlace]
  have hi := spec.le_nextPlace (c := c) limit start x
  have hx := hx.skipped spec
  generalize spec.nextPlace c limit start x = i at hx hi ⊢
  refine .ite (fun _ => .pure (by simp)) fun hguard => ?_
  have hlt : i < limit := by
    rw [Bool.or_eq_true, decide_eq_true_eq, not_or] at hguard
    omega
  have tries := fun (ts options : List GrammarId) =>
    (meets_longest hbelow hbelow2 ts limit i options).and
      (meets_longest_takes (fun ts place g => (hbelow ts limit place g).trivial) hbelow2 hanchored
        ts hlt options)
  have onwards {m : Match}
      (hm : Claims c False False limit i m ∧ (m.isMatch = true → m.start < m.stop))
      (hmatch : m.isMatch = true) : x.place < m.stop ∧ m.stop ≤ max limit start := by
    have hstart := hm.1.le_start
    have hstop := hm.1.stop_le
    have htaken := hm.2 hmatch
    omega
  refine (tries ts spec.terminators).bind fun ending _ => ?_
  refine .ite (fun _ => .pure (by simp)) fun _ => ?_
  refine .ite (fun hw => ?_) fun _ => ?_
  · refine (tries ts [spec.delimiter]).bind fun found hm => ?_
    refine .ite (fun hmatch => .pure ?_) fun _ => .ite (fun _ => ?_) fun _ => .pure (by simp)
    · rintro y ⟨⟩
      exact ⟨hx.withDelimiter hw hm.1 hlt hmatch, onwards hm hmatch⟩
    · refine (tries (pushTerminators false [spec.delimiter] ts) spec.parts).bind
        fun found hm => ?_
      refine .ite (fun hmatch => ?_) fun _ => .pure (by simp)
      refine (meets_note hI _ _).bind fun _ _ => .pure ?_
      rintro y ⟨⟩
      exact ⟨hx.withUndelimited hw hm.1 hlt hmatch, onwards hm hmatch⟩
  · refine (tries (pushTerminators false [spec.delimiter] ts) spec.parts).bind
      fun found hm => ?_
    refine .ite (fun hmatch => .pure ?_) fun _ => .pure (by simp)
    rintro y ⟨⟩
    exact ⟨hx.withPart hm.1 hlt hmatch, onwards hm hmatch⟩

end Advance

/-! ## 4. All loops -/

/-- From a state on, all loops end without a bound as they do with it, and the longest match takes a
token. What is searched for is matched by `run`, and what is compared at one place by `run2`. -/
structure LoopsEnd (c : MatchContext) (run run2 : Matcher) (s : MatchState) : Prop where
  /-- Pairs of brackets as they are declared. -/
  declared (ts : List GrammarId) (limit : Nat) (nested : Bool) (kind : Nat) (opening : Match) :
    c.Closes run ts limit c.tables.bracketPairs nested (.opened kind opening) s
      ((c.closeBracket run ts limit c.tables.bracketPairs nested kind opening).run s)
  /-- Pairs of brackets as a bracketed grammar sees them. -/
  bracketed (ts : List GrammarId) (limit : Nat) (opening : Match) {id op cl : GrammarId}
    {persists : Bool} (shape : c.tables.shape id = .bracketed (some (op, cl, persists))) :
    c.Closes run ts limit (c.pairsFor op cl persists).1 false
      (.opened (c.pairsFor op cl persists).2 opening) s
      ((c.closeBracket run ts limit (c.pairsFor op cl persists).1 false
        (c.pairsFor op cl persists).2 opening).run s)
  outside (ts : List GrammarId) (limit i : Nat) (options : List GrammarId) :
    Ends (c.outsideRound run ts limit i options) Prod.fst (i, []) s
      ((c.nextOutsideBrackets run ts limit i options).run s)
  greedy (ts : List GrammarId) (limit i : Nat) (options : List GrammarId)
    (including nested : Bool) :
    Ends (c.greedyRound run ts limit i options including nested) Prod.fst (i, []) s
      ((c.greedy run ts limit i options including nested).run s)
  /-- A repetition is bounded by the limit from before it was cut to a terminator. -/
  repetition (ts : List GrammarId) {limit bound : Nat} (le : bound ≤ limit) (i : Nat)
    (allowGaps : Bool) (r : Repetition) (options : List GrammarId) :
    Ends (c.repeatRound run run2 ts bound i allowGaps r options) RepetitionState.place
      { matched := .empty i, place := i, next := i } s
      ((c.repeatFrom run run2 ts bound i allowGaps r options (limit + 1)
        { matched := .empty i, place := i, next := i }).run s)
  delimited (ts : List GrammarId) (limit i : Nat) (spec : DelimitedSpec) :
    Ends (c.delimitedRound run run2 ts limit i spec) DelimitedState.place
      { matched := .empty i, place := i } s
      ((c.delimitedFrom run run2 ts limit i spec (2 * limit + 2)
        { matched := .empty i, place := i }).run s)
  longest (ts : List GrammarId) {limit i : Nat} (lt : i < limit) (options : List GrammarId)
    (found : ((c.longest run run2 ts limit i options).run s).1.1.isMatch = true) :
    ((c.longest run run2 ts limit i options).run s).1.1.start <
      ((c.longest run run2 ts limit i options).run s).1.1.stop

variable {I : MatchState → Prop} {run run2 : Matcher}

/-- All loops end with sound matchers if what opens brackets takes a token. -/
theorem loopsEnd_of_sound (hrun : Sound c False False I run) (hrun2 : Sound c False False I run2)
    (hanchored : AnchoredBy I run2) (hI : ∀ s notes, I s → I { s with notes := notes })
    (hopens : OpensByTaking I run c.tables.bracketPairs)
    (hdeclared : ∀ id opening closing persists,
      c.tables.shape id = .bracketed (some (opening, closing, persists)) →
      ∃ p ∈ c.tables.bracketPairs, c.resolve p.opening = c.resolve opening)
    {s : MatchState} (hs : I s) : c.LoopsEnd run run2 s where
  declared ts limit nested kind opening :=
    closes_of_bounded hrun hopens ts nested (limit + 2) (.opened kind opening)
      (by omega) (by omega) hs
  bracketed ts limit opening id op cl persists shape :=
    closes_of_bounded hrun (hopens.of_openings fun _ hq =>
        have ⟨p, hp, same, _⟩ := declared_of_mem_pairsFor (hdeclared id op cl persists shape) hq
        ⟨p, hp, same⟩)
      ts false (limit + 2) (.opened _ opening) (by omega) (by omega) hs
  outside ts limit i options :=
    ends_of_bounded (f := fun n x => c.outsideFrom run ts limit i options n x.1 x.2)
      (P := fun _ => True) (k := limit) (fun n x => outsideFrom_succ options n x)
      (fun x _ => (meets_outsideRound hrun hopens ts options x).mono
        fun _ hr y hy => ⟨trivial, hr y hy⟩)
      (limit + 2) trivial (by dsimp only; omega) (by omega) hs
  greedy ts limit i options including nested :=
    ends_of_bounded
      (f := fun n x => c.greedyFrom run ts limit i options including nested n x.1 x.2)
      (P := fun _ => True) (k := limit)
      (fun n x => greedyFrom_succ options including nested n x)
      (fun x _ => (meets_greedyRound hrun ts options including nested x).mono
        fun _ hr y hy => ⟨trivial, hr y hy⟩)
      (limit + 2) trivial (by dsimp only; omega) (by omega) hs
  repetition ts limit bound le i allowGaps r options :=
    ends_of_bounded (f := fun n x => c.repeatFrom run run2 ts bound i allowGaps r options n x)
      (fun n x => repeatFrom_succ allowGaps r options n x)
      (fun x hx => meets_repeatRound hrun hrun2 ts allowGaps r options hx) (limit + 1)
      (.initial bound i) (by dsimp only; omega) (by omega) hs
  delimited ts limit i spec :=
    ends_of_bounded (f := fun n x => c.delimitedFrom run run2 ts limit i spec n x)
      (fun n x => delimitedFrom_succ spec n x)
      (fun x hx => meets_delimitedRound hrun hrun2 hanchored hI ts spec hx) (2 * limit + 2)
      (.initial limit i) (by dsimp only; omega) (by omega) hs
  longest ts limit i lt options found :=
    (meets_longest_takes (fun ts place g => (hrun ts limit place g).trivial) hrun2 hanchored ts lt
      options s hs).1 found

end MatchContext

end QueryLint
