import QueryLint.Match.Context
import QueryLint.Match.Scan
import QueryLint.Proofs.Match.Tidy
import QueryLint.Proofs.Step

/-!
QueryLint.Proofs.Match.Scan — what the scans promise.

A note is kept beside the memo and changes no match. A match of a reference is looked up before it
is worked out, so a memo has to hold sound matches for what it gives to be sound.

Every scan calls a matcher at many places and puts together what it claims. Given a matcher whose
matches are sound, the scans give sound matches: between the place they started from and their
limit, with everything they hold in order.

* `Matching.meets_note`, `Matching.meets_memoized` — what the two steps promise.
* `MatchContext.Claims` — a sound match at a place.
* `MatchContext.meets_nextMatch` — a found match is one that its grammar made at a later place.
* `MatchContext.BracketRule` — what each bracket has to keep for the pair that is closed to keep it.
* `MatchContext.meets_closeBracket`, `MatchContext.meets_greedy` — brackets and terminators.
-/

namespace QueryLint.Matching

/-! ## 1. The memo -/

variable {I : MatchState → Prop}

/-- A note keeps an invariant that does not look at notes. -/
theorem meets_note (hI : ∀ s notes, I s → I { s with notes := notes }) (message : String)
    (position : Option Position) : Meets I (note message position) fun _ => True :=
  fun s hs => ⟨True.intro, hI s _ hs⟩

/-- A match that is in the memo is given, and nothing changes. -/
theorem run_memoized_of_some {key : MemoKey} {work : Matching Match} {s : MatchState} {m : Match}
    (h : s.memo[key]? = some m) : (memoized true key work).run s = (m, s) := by
  simp [memoized, h]
  rfl

/-- A match that is not in the memo is worked out and kept. -/
theorem run_memoized_of_none {key : MemoKey} {work : Matching Match} {s : MatchState}
    (h : s.memo[key]? = none) :
    (memoized true key work).run s =
      ((work.run s).1, { (work.run s).2 with
        memo := (work.run s).2.memo.insert key (work.run s).1 }) := by
  simp [memoized, h]
  rfl

/-- What a memo gives is as promised if what it holds is, and what is put into it keeps the
invariant. -/
theorem meets_memoized {on : Bool} {key : MemoKey} {work : Matching Match} {Q : Match → Prop}
    (hwork : Meets I work Q) (hmemo : ∀ s m, I s → s.memo[key]? = some m → Q m)
    (hkeep : ∀ s, I s →
      I { (work.run s).2 with memo := (work.run s).2.memo.insert key (work.run s).1 }) :
    Meets I (memoized on key work) Q := by
  cases on with
  | false => exact hwork
  | true =>
    intro s hs
    cases hm : s.memo[key]? with
    | some m =>
      rw [run_memoized_of_some hm]
      exact ⟨hmemo s m hs hm, hs⟩
    | none =>
      rw [run_memoized_of_none hm]
      exact ⟨(hwork s hs).1, hkeep s hs⟩

end QueryLint.Matching

namespace QueryLint

open Matching

namespace MatchContext

variable {c : MatchContext} {apart prompt : Prop} {I : MatchState → Prop}

/-- A sound match at `i` with a limit: it lies between the two and is tidy. A match that is prompt
starts with the code at `i`. -/
structure Claims (c : MatchContext) (apart prompt : Prop) (limit i : Nat) (m : Match) : Prop where
  tidy : m.Tidy apart
  le_start : i ≤ m.start
  stop_le : m.stop ≤ max limit i
  start_eq : prompt → i < limit → c.isCodeAt i = true → m.start = i

namespace Claims

variable {limit i : Nat} {m : Match}

theorem empty (i : Nat) : Claims c apart prompt limit i (.empty i) :=
  ⟨.empty i, Nat.le_refl i, Nat.le_max_right _ _, fun _ _ _ => rfl⟩

/-- A match that starts where it was asked for. -/
theorem of_start_eq (hm : m.Tidy apart) (hs : m.start = i) (hb : m.stop ≤ max limit i) :
    Claims c apart prompt limit i m :=
  ⟨hm, by omega, hb, fun _ _ _ => hs⟩

theorem start_le_stop (h : Claims c apart prompt limit i m) : m.start ≤ m.stop :=
  h.tidy.start_le_stop

theorem wrap (h : Claims c apart prompt limit i m) (k : MatchClass) :
    Claims c apart prompt limit i (m.wrap k) where
  tidy := h.tidy.wrap k
  le_start := by rw [Match.start_wrap]; exact h.le_start
  stop_le := by rw [Match.stop_wrap]; exact h.stop_le
  start_eq := by rw [Match.start_wrap]; exact h.start_eq

theorem wrap? (h : Claims c apart prompt limit i m) (k : Option MatchClass) :
    Claims c apart prompt limit i (m.wrap? k) := by
  cases k with
  | none => exact h
  | some k => exact h.wrap k

end Claims

/-- A matcher whose matches are sound. Beyond its limit a matcher may also say that nothing
matches. -/
def Sound (c : MatchContext) (apart prompt : Prop) (I : MatchState → Prop) (run : Matcher) :
    Prop :=
  ∀ ts limit i g, Meets I (run ts limit i g) fun m =>
    i ≤ limit ∨ m.isMatch = true → Claims c apart prompt limit i m

/-- Up to its limit a sound matcher only makes sound matches. -/
theorem Sound.claims {run : Matcher} (h : Sound c apart prompt I run) (ts : List GrammarId)
    {limit i : Nat} (hi : i ≤ limit) (g : GrammarId) :
    Meets I (run ts limit i g) (Claims c apart prompt limit i) :=
  (h ts limit i g).mono fun _ hm => hm (.inl hi)

/-! ## 2. Places of code -/

theorem le_skipToCode (i limit : Nat) : i ≤ c.skipToCode i limit := by
  fun_induction skipToCode with
  | case1 => exact Nat.le_refl _
  | case2 _ _ _ ih => omega
  | case3 => exact Nat.le_refl _

theorem skipToCode_le (i limit : Nat) : c.skipToCode i limit ≤ max limit i := by
  fun_induction skipToCode with
  | case1 => omega
  | case2 _ _ _ ih => omega
  | case3 => omega

theorem skipToCode_of_isCodeAt {i : Nat} (limit : Nat) (h : c.isCodeAt i = true) :
    c.skipToCode i limit = i := by
  unfold skipToCode
  simp [h]

/-- There is code at the place that is found. -/
theorem isCodeAt_skipToCode {i limit : Nat} (h : c.skipToCode i limit < limit) :
    c.isCodeAt (c.skipToCode i limit) = true := by
  fun_induction skipToCode with
  | case1 i _ hcode => exact hcode
  | case2 _ _ _ ih => exact ih h
  | case3 => contradiction

/-- There is no code at a place that is passed over. -/
theorem not_isCodeAt_of_lt_skipToCode {i limit k : Nat} (hi : i ≤ k)
    (hk : k < c.skipToCode i limit) : c.isCodeAt k = false := by
  fun_induction skipToCode with
  | case1 i => omega
  | case2 i _ hcode ih =>
    by_cases heq : k = i
    · rw [heq]
      simpa using hcode
    · exact ih (by omega) hk
  | case3 i => omega

theorem trimToCode_le (stop least : Nat) : c.trimToCode stop least ≤ stop := by
  fun_induction trimToCode with
  | case1 => exact Nat.le_refl _
  | case2 _ _ _ ih => omega
  | case3 => exact Nat.le_refl _

theorem le_trimToCode {stop least : Nat} (h : least ≤ stop) : least ≤ c.trimToCode stop least := by
  fun_induction trimToCode with
  | case1 => exact h
  | case2 _ _ _ ih => exact ih (by omega)
  | case3 => exact h

/-- Trimming passes over a last token that is not code. -/
theorem trimToCode_lt {stop least : Nat} (h : least < stop)
    (hlast : c.isCodeAt (stop - 1) = false) : c.trimToCode stop least < stop := by
  rw [trimToCode, dif_pos h, hlast, if_neg Bool.false_ne_true]
  have := trimToCode_le (c := c) (stop - 1) least
  omega

/-- There is no code at a place that is cut off. -/
theorem not_isCodeAt_of_trimToCode_le {stop least k : Nat} (hk : c.trimToCode stop least ≤ k)
    (hs : k < stop) : c.isCodeAt k = false := by
  fun_induction trimToCode with
  | case1 stop => omega
  | case2 stop hlt hcode ih =>
    by_cases heq : k = stop - 1
    · rw [heq]
      simpa using hcode
    · exact ih hk (by omega)
  | case3 stop => omega

/-! ## 3. Tries at one place -/

theorem meets_anyMatches {run : Matcher} {ts : List GrammarId} {limit i : Nat}
    (hrun : ∀ g, Meets I (run ts limit i g) fun _ => True) (gs : List GrammarId) :
    Meets I (anyMatches run ts limit i gs) fun _ => True := by
  induction gs with
  | nil => exact .pure trivial
  | cons g gs ih =>
    refine (hrun g).bind fun m _ => ?_
    split
    · exact .pure trivial
    · exact ih

/-- The best of several matches is as promised if all of them are. -/
theorem meets_longestFrom {here below : Matcher} {Q : Match → Prop} {ts : List GrammarId}
    {limit i : Nat} (hhere : ∀ place g, Meets I (here ts limit place g) fun _ => True)
    (gs : List GrammarId) (hbelow : ∀ g ∈ gs, Meets I (below ts limit i g) Q)
    {best : Match × Option GrammarId} (hbest : Q best.1) :
    Meets I (c.longestFrom here below ts limit i best gs) fun r => Q r.1 := by
  induction gs generalizing best with
  | nil => exact .pure hbest
  | cons g gs ih =>
    have later {best : Match × Option GrammarId} (h : Q best.1) :
        Meets I (c.longestFrom here below ts limit i best gs) fun r => Q r.1 :=
      ih (fun g hg => hbelow g (by simp [hg])) h
    refine (hbelow g (by simp)).bind fun m hm => ?_
    split
    · exact .pure hm
    split
    · exact later hbest
    split
    · exact .pure hm
    split
    · exact later hm
    dsimp only
    split
    · exact .pure hm
    refine (meets_anyMatches (hhere _) ts).bind fun found _ => ?_
    split
    · exact .pure hm
    · exact later hm

/-- Only grammars that are asked for are tried. -/
theorem mem_of_mem_prune {limit i : Nat} {gs : List GrammarId} {g : GrammarId}
    (h : g ∈ c.prune limit i gs) : g ∈ gs := by
  unfold prune at h
  split at h
  · exact h
  · exact (List.mem_filter.1 h).1

/-- The grammar that matches most matches as is promised of all. -/
theorem meets_longest_of {here below : Matcher} {Q : Match → Prop} {ts : List GrammarId}
    {limit i : Nat} (hhere : ∀ place g, Meets I (here ts limit place g) fun _ => True)
    (gs : List GrammarId) (hbelow : i < limit → ∀ g ∈ gs, Meets I (below ts limit i g) Q)
    (hempty : Q (.empty i)) :
    Meets I (c.longest here below ts limit i gs) fun r => Q r.1 := by
  unfold longest
  split
  · exact .pure hempty
  · exact meets_longestFrom hhere _ (fun g hg => hbelow (by omega) g (mem_of_mem_prune hg)) hempty

theorem meets_longest {here below : Matcher} (hhere : Sound c apart prompt I here)
    (hbelow : Sound c apart prompt I below) (ts : List GrammarId) (limit i : Nat)
    (gs : List GrammarId) :
    Meets I (c.longest here below ts limit i gs) fun r =>
      Claims c apart prompt limit i r.1 :=
  meets_longest_of (fun place g => (hhere ts limit place g).trivial) gs
    (fun hi g _ => hbelow.claims ts (Nat.le_of_lt hi) g) (.empty i)

/-! ## 4. The next match -/

/-- What a search found: a match that one of the grammars made at a place from `i` on. -/
def FoundBy (P : GrammarId → Nat → Match → Prop) (limit i : Nat) (gs : List GrammarId)
    (r : Match × Nat) : Prop :=
  ∃ g place, gs[r.2]? = some g ∧ i ≤ place ∧ place < limit ∧ r.1.isMatch = true ∧ P g place r.1

theorem meets_firstMatch {P : GrammarId → Nat → Match → Prop} {run : Matcher}
    {ts : List GrammarId} {limit i : Nat} (hi : i < limit) (v : TokenView) (gs : List GrammarId)
    (hrun : ∀ g ∈ gs, Meets I (run ts limit i g) (P g i)) (n : Nat) (rest : List Target)
    (hrest : rest.map (·.grammar) = gs.drop n) :
    Meets I (firstMatch run ts limit i v n rest) fun r =>
      ∀ x, r = some x → FoundBy P limit i gs x := by
  induction rest generalizing n with
  | nil => exact .pure (by simp)
  | cons t rest ih =>
    have hget : gs[n]? = some t.grammar := by
      have := congrArg List.head? hrest
      simpa [List.head?_drop] using this.symm
    have hdrop : rest.map (·.grammar) = gs.drop (n + 1) := by
      have := congrArg List.tail hrest
      simpa [List.tail_drop] using this
    unfold firstMatch
    split
    · refine (hrun t.grammar (List.mem_of_getElem? hget)).bind fun m hm => ?_
      split
      · next h =>
        refine .pure ?_
        rintro x ⟨⟩
        exact ⟨t.grammar, i, hget, Nat.le_refl i, hi, h, hm⟩
      · exact ih (n + 1) hdrop
    · exact ih (n + 1) hdrop

theorem FoundBy.mono {P : GrammarId → Nat → Match → Prop} {limit i j : Nat} {gs : List GrammarId}
    {r : Match × Nat} (h : FoundBy P limit j gs r) (hij : i ≤ j) : FoundBy P limit i gs r := by
  obtain ⟨g, place, hg, hle, hlt, hm, hP⟩ := h
  exact ⟨g, place, hg, by omega, hlt, hm, hP⟩

theorem meets_matchWithin {P : GrammarId → Nat → Match → Prop} {run : Matcher}
    {ts : List GrammarId} {limit : Nat} (gs : List GrammarId) (targets : List Target)
    (htargets : targets.map (·.grammar) = gs) (n i : Nat) (hn : n ≤ limit - i)
    (hrun : ∀ g ∈ gs, ∀ place, place < limit → Meets I (run ts limit place g) (P g place)) :
    Meets I (c.matchWithin run ts limit targets n i) fun r =>
      ∀ x, r = some x → FoundBy P limit i gs x := by
  induction n generalizing i with
  | zero => exact .pure (by simp)
  | succ n ih =>
    have later : Meets I (c.matchWithin run ts limit targets n (i + 1)) fun r =>
        ∀ x, r = some x → FoundBy P limit i gs x :=
      (ih (i + 1) (by omega)).mono fun r hr x hx => (hr x hx).mono (Nat.le_succ i)
    unfold matchWithin
    split
    · exact .pure (by simp)
    · next v _ =>
      split
      · exact later
      · refine (meets_firstMatch (by omega) v gs (fun g hg => hrun g hg i (by omega)) 0
          targets (by simpa using htargets)).bind fun r hr => ?_
        cases r with
        | some found => exact .pure hr
        | none => exact later

/-- A search finds a match that one of the grammars makes, at a place from `i` on. -/
theorem meets_nextMatch {P : GrammarId → Nat → Match → Prop} {run : Matcher}
    {ts : List GrammarId} {limit : Nat} (i : Nat) (gs : List GrammarId)
    (hrun : ∀ g ∈ gs, ∀ place, place < limit → Meets I (run ts limit place g) (P g place)) :
    Meets I (c.nextMatch run ts limit i gs) fun r =>
      ∀ x, r = some x → FoundBy P limit i gs x :=
  meets_matchWithin gs _ (by simp [List.map_map, Function.comp_def]) _ i (Nat.le_refl _) hrun

/-! ## 5. Brackets -/

/-- Where matches are to be kept apart, the matcher takes one token for what closes brackets. -/
def ClosesByOne (apart : Prop) (I : MatchState → Prop) (run : Matcher) (pairs : List BracketPair) :
    Prop :=
  apart → ∀ p ∈ pairs, ∀ ts limit i, Meets I (run ts limit i p.closing) Match.IsOne

/-- The match of a pair of brackets: what is `between` them, the opening bracket first, and the
`last` match, which closes it. -/
def pairMatch (start indentAt : Nat) (k : Option MatchClass) (between : List Match)
    (last : Match) : Match :=
  .mk start last.stop k [(indentAt, .indent), (last.start, .dedent)] (between ++ [last])

/-- A pair of brackets that was opened at `start` and gone through up to `i` is closed before the
limit. -/
structure Closed (apart : Prop) (limit start i : Nat) (between : List Match) (last : Match) :
    Prop where
  between_inside : Match.Inside apart start last.start between
  tidy : last.Tidy apart
  le_start : i ≤ last.start
  stop_le : last.stop ≤ limit
  one : apart → last.stop = last.start + 1

namespace Closed

variable {limit start i indentAt : Nat} {k : Option MatchClass} {between : List Match}
  {last : Match}

theorem pairMatch_tidy (h : Closed apart limit start i between last) (hs : start ≤ indentAt)
    (hi : indentAt ≤ i) : (pairMatch start indentAt k between last).Tidy apart := by
  have := h.tidy.start_le_stop
  have := h.le_start
  refine .of_inside (by omega) ?_ ?_
  · intro x hx
    simp only [List.mem_cons, List.not_mem_nil, or_false] at hx
    rcases hx with rfl | rfl <;> dsimp only <;> omega
  · exact h.between_inside.append (.single h.tidy (Nat.le_refl _) (Nat.le_refl _))
      (Nat.le_refl _) (by omega) (by omega)

/-- A pair of brackets that was opened and closed is one match. -/
theorem inside (h : Closed apart limit start i between last) (hs : start ≤ i) :
    Match.Inside apart start last.stop [pairMatch start i k between last] :=
  .single (h.pairMatch_tidy hs (Nat.le_refl _)) (Nat.le_refl _) (Nat.le_refl _)

end Closed

theorem stop_pairMatch (start indentAt : Nat) (k : Option MatchClass) (between : List Match)
    (last : Match) : (pairMatch start indentAt k between last).stop = last.stop := rfl

theorem wrap_pairMatch (start indentAt : Nat) (between : List Match) (last : Match)
    (k : MatchClass) :
    (pairMatch start indentAt none between last).wrap k =
      pairMatch start indentAt (some k) between last := by
  simp [pairMatch, Match.wrap, Match.isMatch, Match.inserts, Match.class?, Match.start, Match.stop,
    Match.children]

section Rounds

variable (c) (run : Matcher) (ts : List GrammarId) (limit : Nat) (pairs : List BracketPair)
  (nested : Bool)

/-- How each bracket that is found leads on to the one that closes a pair. `J` holds of a pair that
is not closed yet, by its number and its opening bracket, and of what has been gone through; `K` of
the whole pair. -/
def BracketRule (I : MatchState → Prop) (J : Nat → Match → Nat → List Match → Prop)
    (K : Nat → Match → Match → Prop) : Prop :=
  ∀ kind opening i inner, J kind opening i inner →
    Meets I (c.nextMatch run ts limit i (bracketGrammars pairs)) fun r => ∀ m which,
      r = some (m, which) →
        (which = pairs.length + kind → K kind opening (pairMatch opening.start opening.stop
          (if (pairs[kind]?).any (·.persists) then some .bracketed else none) inner m)) ∧
        (which < pairs.length → J which m m.stop [m] ∧ ∀ b, K which m b →
          J kind opening b.stop (if nested then inner ++ [b] else inner))

variable {c run ts limit pairs nested}

/-- What each bracket leads on, the search leads to the whole pair. -/
theorem BracketRule.meets {J : Nat → Match → Nat → List Match → Prop}
    {K : Nat → Match → Match → Prop} (h : c.BracketRule run ts limit pairs nested I J K)
    (fuel kind : Nat) {opening : Match} {i : Nat} {inner : List Match}
    (hopen : J kind opening i inner) :
    Meets I (c.closeBracketFrom run ts limit pairs nested fuel kind opening.start opening.stop i
      inner) fun r => ∀ b, r = some b → K kind opening b := by
  induction fuel generalizing kind opening i inner with
  | zero => exact .pure nofun
  | succ fuel ih =>
    refine (h kind opening i inner hopen).bind fun r hr => ?_
    rcases r with _ | ⟨m, which⟩
    · exact .pure nofun
    obtain ⟨closing, inside⟩ := hr m which rfl
    dsimp only
    refine .ite (fun hclosing => .ite (fun _ => .pure nofun) fun hsame => .pure ?_)
      fun hopening => ?_
    · have whole := closing (by omega)
      rintro b ⟨⟩
      split
      · next hpersists =>
        rw [if_pos hpersists, ← wrap_pairMatch] at whole
        exact whole
      · next hpersists =>
        rw [if_neg hpersists] at whole
        exact whole
    · obtain ⟨opens, behind⟩ := inside (by omega)
      refine (ih which opens).bind fun r hr => ?_
      rcases r with _ | b
      · exact .pure nofun
      · exact ih kind (behind b (hr b rfl))

end Rounds

/-- What holds of all brackets of the pairs holds of all grammars that a search for them asks. -/
theorem forall_mem_bracketGrammars {P : GrammarId → Prop} {pairs : List BracketPair}
    (h : ∀ p ∈ pairs, P p.opening ∧ P p.closing) : ∀ g ∈ bracketGrammars pairs, P g := by
  intro g hg
  rcases List.mem_append.1 hg with hg | hg
  · obtain ⟨p, hp, rfl⟩ := List.mem_map.1 hg
    exact (h p hp).1
  · obtain ⟨p, hp, rfl⟩ := List.mem_map.1 hg
    exact (h p hp).2

/-- A grammar that is numbered before the closing brackets opens a pair. -/
theorem exists_opening {pairs : List BracketPair} {k : Nat} {g : GrammarId}
    (h : (bracketGrammars pairs)[k]? = some g) (hk : k < pairs.length) :
    ∃ pair, pairs[k]? = some pair ∧ pair.opening = g := by
  rw [bracketGrammars, List.getElem?_append_left (by simpa using hk), List.getElem?_map] at h
  exact Option.map_eq_some_iff.1 h

/-- The grammar of a bracket that is numbered beyond the opening ones closes a pair. -/
theorem mem_of_getElem?_bracketGrammars {pairs : List BracketPair} {n : Nat} {g : GrammarId}
    (h : (bracketGrammars pairs)[n]? = some g) (hn : pairs.length ≤ n) :
    ∃ p ∈ pairs, p.closing = g := by
  rw [bracketGrammars, List.getElem?_append_right (by simpa using hn)] at h
  exact List.mem_map.1 (List.mem_of_getElem? h)

section Brackets

variable {run : Matcher} {pairs : List BracketPair}

/-- What a search for brackets finds. -/
def IsBracket (c : MatchContext) (apart prompt : Prop) (limit : Nat) (pairs : List BracketPair)
    (g : GrammarId) (place : Nat) (m : Match) : Prop :=
  Claims c apart prompt limit place m ∧
    (apart → (∃ p ∈ pairs, p.closing = g) → m.IsOne)

theorem meets_bracket (hrun : Sound c apart prompt I run)
    (hone : ClosesByOne apart I run pairs) (ts : List GrammarId) {limit place : Nat}
    (hplace : place < limit) (g : GrammarId) :
    Meets I (run ts limit place g) (IsBracket c apart prompt limit pairs g place) := by
  have claims := hrun.claims ts (Nat.le_of_lt hplace) g
  refine claims.and (claims.trivial.imp fun hapart => claims.trivial.imp fun hg => ?_)
  obtain ⟨p, hp, rfl⟩ := hg
  exact hone hapart p hp ts limit place

/-- A pair of brackets whose opening one has matched, with what has been gone through up to a
place. -/
structure Opened (apart : Prop) (nested : Bool) (opening : Match) (i : Nat) (inner : List Match) :
    Prop where
  inside : Match.Inside apart opening.start i inner
  start_le : opening.start ≤ opening.stop
  stop_le : opening.stop ≤ i
  plain : nested = false → inner = [opening]

theorem Opened.initial {nested : Bool} {opening : Match} (h : opening.Tidy apart) :
    Opened apart nested opening opening.stop [opening] :=
  ⟨.single h (Nat.le_refl _) (Nat.le_refl _), h.start_le_stop, Nat.le_refl _, fun _ => rfl⟩

/-- A matched opening bracket with all up to the bracket that closes it. -/
def IsPair (apart : Prop) (limit : Nat) (nested : Bool) (opening pair : Match) : Prop :=
  ∃ k between last, pair = pairMatch opening.start opening.stop k between last ∧
    Closed apart limit opening.start opening.stop between last ∧
    (nested = false → between = [opening])

/-- The search for the bracket that closes a pair goes on behind a pair inside. -/
theorem Opened.behind {limit i : Nat} {nested : Bool} {opening bracket pair : Match}
    {inner : List Match} (h : Opened apart nested opening i inner) (hi : i ≤ bracket.start)
    (hb : bracket.Tidy apart) (hpair : IsPair apart limit nested bracket pair) :
    Opened apart nested opening pair.stop (if nested then inner ++ [pair] else inner) := by
  obtain ⟨k, between, last, rfl, closed, -⟩ := hpair
  have hstart := h.start_le
  have hstop := h.stop_le
  have hbracket := hb.start_le_stop
  have hclose := closed.le_start
  have hlast := closed.tidy.start_le_stop
  rw [stop_pairMatch]
  refine ⟨?_, hstart, by omega, fun hnested => ?_⟩
  · split
    · exact h.inside.append (closed.inside hbracket) hi (by omega) (by omega)
    · exact h.inside.mono (Nat.le_refl _) (by omega)
  · rw [hnested]
    exact h.plain hnested

theorem bracketRule (hrun : Sound c apart prompt I run) (hone : ClosesByOne apart I run pairs)
    (ts : List GrammarId) (limit : Nat) (nested : Bool) :
    c.BracketRule run ts limit pairs nested I (fun _ => Opened apart nested)
      (fun _ => IsPair apart limit nested) := by
  intro kind opening i inner h
  refine (meets_nextMatch i (bracketGrammars pairs) fun g _ place hplace =>
    meets_bracket hrun hone ts hplace g).mono fun r hr m which hfound => ?_
  obtain ⟨g, place, hg, hle, hlt, hm, claims, one⟩ := hr _ hfound
  dsimp only at hg hm claims one
  have hstart := claims.le_start
  have hstop := claims.stop_le
  refine ⟨fun hwhich => ⟨_, inner, m, rfl, ⟨?_, claims.tidy, ?_, by omega, fun hapart => ?_⟩,
    h.plain⟩, fun _ => ⟨.initial claims.tidy, fun b hb => h.behind (by omega) claims.tidy hb⟩⟩
  · exact h.inside.mono (Nat.le_refl _) (by omega)
  · have := h.stop_le
    omega
  · exact one hapart (mem_of_getElem?_bracketGrammars hg (by omega)) hm

/-- Going on after an opening bracket ends with a closing one, if it ends with any. -/
theorem meets_closeBracketFrom (hrun : Sound c apart prompt I run)
    (hone : ClosesByOne apart I run pairs) (ts : List GrammarId) (limit : Nat) (nested : Bool)
    (fuel kind : Nat) {opening : Match} (ho : opening.Tidy apart) :
    Meets I (c.closeBracketFrom run ts limit pairs nested fuel kind opening.start opening.stop
        opening.stop [opening]) fun r => ∀ b, r = some b → IsPair apart limit nested opening b :=
  (bracketRule hrun hone ts limit nested).meets fuel kind (.initial ho)

/-- A matched opening bracket begins a pair that ends with a closing one. -/
theorem meets_closeBracket (hrun : Sound c apart prompt I run)
    (hone : ClosesByOne apart I run pairs) (ts : List GrammarId) (limit : Nat) (nested : Bool)
    (kind : Nat) {opening : Match} (ho : opening.Tidy apart) :
    Meets I (c.closeBracket run ts limit pairs nested kind opening) fun r =>
      ∀ b, r = some b → IsPair apart limit nested opening b :=
  meets_closeBracketFrom hrun hone ts limit nested (limit + 2) kind ho

end Brackets

/-! ## 6. Terminators -/

section Terminators

variable {run : Matcher}

/-- What a search outside brackets from `start` on gives: the pairs it went over, and a match after
them. -/
structure FoundOutside (c : MatchContext) (apart prompt : Prop) (limit start : Nat)
    (options : List GrammarId) (r : Found) : Prop where
  skipped : Match.Inside apart start r.place r.skipped
  start_le : start ≤ r.place
  place_le : r.place ≤ max limit start
  hit : ∀ x, r.hit = some x →
    FoundBy (fun _ => Claims c apart prompt limit) limit r.place options x

theorem FoundOutside.failed (start limit : Nat) (options : List GrammarId) :
    FoundOutside c apart prompt limit start options { place := start } :=
  ⟨.nil _ _, Nat.le_refl _, Nat.le_max_right _ _, by simp⟩

theorem meets_outsideFrom (hrun : Sound c apart prompt I run)
    (hone : ClosesByOne apart I run c.tables.bracketPairs) (ts : List GrammarId)
    (limit start : Nat) (options : List GrammarId) (fuel : Nat) {i : Nat} {skipped : List Match}
    (hskipped : Match.Inside apart start i skipped) (hs : start ≤ i) (hi : i ≤ max limit start) :
    Meets I (c.outsideFrom run ts limit start options fuel i skipped)
      (FoundOutside c apart prompt limit start options) := by
  induction fuel generalizing i skipped with
  | zero => exact .pure (.failed start limit options)
  | succ fuel ih =>
    refine (meets_nextMatch i (options ++ bracketGrammars c.tables.bracketPairs)
      fun g _ place hplace => hrun.claims ts (Nat.le_of_lt hplace) g).bind fun r hr => ?_
    rcases r with _ | ⟨m, which⟩
    · exact .pure ⟨hskipped, hs, hi, by simp⟩
    obtain ⟨g, place, hg, hle, hlt, hm, claims⟩ := hr _ rfl
    dsimp only at hg hm claims ⊢
    have hstart := claims.le_start
    split
    · next hwhich =>
      refine .pure ⟨hskipped, hs, hi, ?_⟩
      rintro x ⟨⟩
      rw [List.getElem?_append_left hwhich] at hg
      exact ⟨g, place, hg, hle, hlt, hm, claims⟩
    split
    · exact .pure (.failed start limit options)
    refine (meets_closeBracket hrun hone ts limit true (which - options.length)
      claims.tidy).bind fun r hr => ?_
    rcases r with _ | b
    · exact .pure (.failed start limit options)
    obtain ⟨k, between, last, rfl, closed, -⟩ := hr _ rfl
    have hlast := claims.start_le_stop
    have hclose := closed.le_start
    have hend := closed.tidy.start_le_stop
    have hstop := closed.stop_le
    refine ih ?_ ?_ ?_
    · rw [stop_pairMatch]
      exact hskipped.append (closed.inside hlast) (by omega) (by omega) (by omega)
    · rw [stop_pairMatch]; omega
    · rw [stop_pairMatch]; omega

/-- A search outside brackets goes over closed pairs of brackets and finds a match after them. -/
theorem meets_nextOutsideBrackets (hrun : Sound c apart prompt I run)
    (hone : ClosesByOne apart I run c.tables.bracketPairs) (ts : List GrammarId) (limit i : Nat)
    (options : List GrammarId) :
    Meets I (c.nextOutsideBrackets run ts limit i options)
      (FoundOutside c apart prompt limit i options) :=
  meets_outsideFrom hrun hone ts limit i options _ (.nil i i) (Nat.le_refl _)
    (Nat.le_max_right _ _)

/-- A match of everything from `i` up to a place. -/
theorem Claims.upTo {limit i stop : Nat} {inner : List Match}
    (hinner : Match.Inside apart i stop inner) (hi : i ≤ stop) (hs : stop ≤ limit) :
    Claims c apart prompt limit i (.mk i stop none [] inner) :=
  .of_start_eq (.of_inside hi (.nil _ _) hinner) rfl (by rw [Match.stop_mk]; omega)

theorem meets_greedyFrom (hrun : Sound c apart prompt I run)
    (hone : ClosesByOne apart I run c.tables.bracketPairs) (ts : List GrammarId) (limit i : Nat)
    (options : List GrammarId) (including nested : Bool) (fuel : Nat) {at_ : Nat}
    {inner : List Match} (hinner : Match.Inside apart i at_ inner) (hi : i ≤ at_)
    (hlimit : at_ ≤ max limit i) :
    Meets I (c.greedyFrom run ts limit i options including nested fuel at_ inner) fun m =>
      i ≤ limit ∨ m.isMatch = true → Claims c apart prompt limit i m := by
  -- Without a terminator all is taken up to the limit, which is no match beyond it.
  have all : ∀ {b : Nat} {ms : List Match}, Match.Inside apart i b ms → b ≤ max limit i →
      i ≤ limit ∨ (Match.mk i limit none [] ms).isMatch = true →
      Claims c apart prompt limit i (.mk i limit none [] ms) := by
    intro b ms hms hb h
    have hil : i ≤ limit := by
      rcases h with h | h
      · exact h
      · exact Nat.le_of_lt (Match.start_lt_stop_of_isMatch h rfl)
    exact .upTo (hms.mono (Nat.le_refl _) (by omega)) hil (Nat.le_refl _)
  induction fuel generalizing at_ inner with
  | zero => exact .pure (all hinner hlimit)
  | succ fuel ih =>
    refine (meets_nextOutsideBrackets hrun hone ts limit at_ options).bind fun found hfound => ?_
    have hplace := hfound.start_le
    have hplace' := hfound.place_le
    have inside : Match.Inside apart i found.place
        (if nested then inner ++ found.skipped else inner) := by
      split
      · exact hinner.append hfound.skipped (Nat.le_refl _) hi hplace
      · exact hinner.mono (Nat.le_refl _) hplace
    dsimp only
    cases hhit : found.hit with
    | none => exact .pure (all inside (by omega))
    | some x =>
      obtain ⟨g, place, -, hle, hlt, -, claims⟩ := hfound.hit x hhit
      have hstart := claims.le_start
      have hstop := claims.start_le_stop
      have hlimit := claims.stop_le
      dsimp only
      split
      · exact ih (inside.mono (Nat.le_refl _) (by omega)) (by omega) (by omega)
      split
      · exact .pure fun _ => .upTo (inside.mono (Nat.le_refl _) (by omega)) (by omega) (by omega)
      · have hleast : i ≤ x.1.start := by omega
        have htrim := le_trimToCode (c := c) hleast
        have htrim' := trimToCode_le (c := c) x.1.start i
        refine .pure fun _ => ?_
        split
        · exact .upTo (inside.filter_stop _) (by omega) (by omega)
        · exact .upTo (inside.filter_stop _) (by omega) (by omega)

/-- Taking everything up to a terminator is sound. -/
theorem meets_greedy (hrun : Sound c apart prompt I run)
    (hone : ClosesByOne apart I run c.tables.bracketPairs) (ts : List GrammarId) (limit i : Nat)
    (options : List GrammarId) (including nested : Bool) :
    Meets I (c.greedy run ts limit i options including nested) fun m =>
      i ≤ limit ∨ m.isMatch = true → Claims c apart prompt limit i m :=
  meets_greedyFrom hrun hone ts limit i options including nested _ (.nil i i) (Nat.le_refl _)
    (Nat.le_max_right _ _)

/-- Where a greedy grammar has to stop is not beyond its limit, nor before the place it starts
from. -/
theorem meets_trimToTerminator (hrun : Sound c apart prompt I run)
    (hone : ClosesByOne apart I run c.tables.bracketPairs) (ts : List GrammarId) (limit i : Nat)
    (terminators : List GrammarId) :
    Meets I (c.trimToTerminator run ts limit i terminators) fun n =>
      n ≤ limit ∧ (i ≤ limit → i ≤ n) := by
  unfold trimToTerminator
  split
  · exact .pure ⟨Nat.le_refl _, id⟩
  next hlimit =>
  have hi : i < limit := by
    simp only [Bool.or_eq_true, decide_eq_true_eq, not_or] at hlimit
    omega
  refine (meets_anyMatches (fun g => (hrun ts limit i g).trivial) _).bind fun found _ => ?_
  split
  · exact .pure ⟨Nat.le_of_lt hi, fun _ => Nat.le_refl _⟩
  refine (meets_nextOutsideBrackets hrun hone ts limit i terminators).bind fun r hr => ?_
  split
  · next x which hhit =>
    obtain ⟨g, place, -, hle, hlt, -, claims⟩ := hr.hit _ hhit
    have hplace := hr.start_le
    dsimp only at claims
    have hstart := claims.le_start
    have hstop := claims.start_le_stop
    have hstop' := claims.stop_le
    have htrim := trimToCode_le (c := c) x.start i
    exact .pure ⟨by omega, fun _ => le_trimToCode (by omega)⟩
  · exact .pure ⟨Nat.le_refl _, id⟩

end Terminators

end MatchContext

end QueryLint
