import QueryLint.Proofs.Match.Punctual

/-!
QueryLint.Proofs.Match.Longest — the first of the longest matches.

With no terminators around it, the search asks one option after the other at a place and keeps the
first of those that take most. It stops early at a match that ends at the limit, as nothing can be
longer. But a repetition that has given up its parts starts behind the place, where the rest that it
could not place starts: such a match ends at the limit too, and ends the search, though an option
that is never asked may take more.

* `MatchContext.matchEach` — what options make of a place, asked one after the other.
* `FirstLongest` — the first of those that take most, or nothing if none takes a token.
* `MatchContext.longest_first_unless_late` — what the search comes to.
-/

namespace QueryLint

open Matching

/-! ## 1. The first of the longest -/

/-- The first option that takes most tokens, with its match, or nothing if none takes any. -/
def FirstLongest (i : Nat) (tried : List (GrammarId × Match)) (r : Match × Option GrammarId) :
    Prop :=
  r = (.empty i, none) ∧ (∀ x ∈ tried, x.2.length = 0) ∨
  ∃ front g m back, tried = front ++ (g, m) :: back ∧ r = (m, some g) ∧ 0 < m.length ∧
    (∀ x ∈ front, x.2.length < m.length) ∧ ∀ x ∈ back, x.2.length ≤ m.length

/-- The first match to end at the limit, of an option that starts behind the place. -/
def FirstLate (limit i : Nat) (tried : List (GrammarId × Match))
    (r : Match × Option GrammarId) : Prop :=
  ∃ front g m back, tried = front ++ (g, m) :: back ∧ r = (m, some g) ∧
    (∀ x ∈ front, x.2.isMatch = true → x.2.stop ≠ limit) ∧ m.stop = limit ∧ i < m.start

namespace FirstLongest

variable {i limit : Nat} {tried : List (GrammarId × Match)} {r : Match × Option GrammarId}
  {g : GrammarId} {m : Match}

theorem nil (i : Nat) : FirstLongest i [] (.empty i, none) := .inl ⟨rfl, by simp⟩

theorem length_le (h : FirstLongest i tried r) : ∀ x ∈ tried, x.2.length ≤ r.1.length := by
  rcases h with ⟨-, none⟩ | ⟨front, g, m, back, rfl, rfl, -, hfront, hback⟩
  · intro x hx
    rw [none x hx]
    exact Nat.zero_le _
  · intro x hx
    rcases List.mem_append.1 hx with hx | hx
    · exact Nat.le_of_lt (hfront x hx)
    · rcases List.mem_cons.1 hx with rfl | hx
      · exact Nat.le_refl _
      · exact hback x hx

/-- An option that takes no more comes too late. -/
theorem concat_of_le (h : FirstLongest i tried r) (hle : m.length ≤ r.1.length) :
    FirstLongest i (tried ++ [(g, m)]) r := by
  rcases h with ⟨rfl, none⟩ | ⟨front, g', m', back, rfl, rfl, hpos, hfront, hback⟩
  · refine .inl ⟨rfl, fun x hx => ?_⟩
    rcases List.mem_append.1 hx with hx | hx
    · exact none x hx
    · rw [List.mem_singleton.1 hx]
      exact Nat.le_zero.1 (Nat.le_trans hle (Nat.le_of_eq (Nat.sub_self i)))
  · refine .inr ⟨front, g', m', back ++ [(g, m)], by simp, rfl, hpos, hfront, fun x hx => ?_⟩
    rcases List.mem_append.1 hx with hx | hx
    · exact hback x hx
    · rw [List.mem_singleton.1 hx]
      exact hle

/-- An option that takes more than all before it is the first, as long as none takes more yet. -/
theorem of_lt {back : List (GrammarId × Match)} (hpos : 0 < m.length)
    (h : ∀ x ∈ tried, x.2.length < m.length) (hback : ∀ x ∈ back, x.2.length ≤ m.length) :
    FirstLongest i (tried ++ (g, m) :: back) (m, some g) :=
  .inr ⟨tried, g, m, back, rfl, rfl, hpos, h, hback⟩

end FirstLongest

namespace MatchContext

variable {c : MatchContext}

/-! ## 2. The search -/

/-- What each option makes of a place, asked one after the other. -/
def matchEach (run : Matcher) (limit i : Nat) (gs : List GrammarId) :
    Matching (List (GrammarId × Match)) :=
  gs.mapM fun g => do return (g, ← run [] limit i g)

/-- What the search takes from a list of options with their matches. -/
def pick (limit : Nat) (best : Match × Option GrammarId) :
    List (GrammarId × Match) → Match × Option GrammarId
  | [] => best
  | (g, m) :: rest =>
    if m.isMatch && m.stop == limit then (m, some g)
    else if m.isLongerThan best.1 then pick limit (m, some g) rest
    else pick limit best rest

theorem run_matchEach_cons (run : Matcher) (limit i : Nat) (g : GrammarId) (gs : List GrammarId)
    (s : MatchState) : ((matchEach run limit i (g :: gs)).run s).1 =
      (g, ((run [] limit i g).run s).1) ::
        ((matchEach run limit i gs).run ((run [] limit i g).run s).2).1 := by
  unfold matchEach
  rw [List.mapM_cons]
  rfl

/-- With no terminators the search only picks among the matches of the options. -/
theorem run_longestFrom_nil (here below : Matcher) (limit i : Nat) (gs : List GrammarId)
    (best : Match × Option GrammarId) (s : MatchState) :
    ((c.longestFrom here below [] limit i best gs).run s).1 =
      pick limit best ((matchEach below limit i gs).run s).1 := by
  induction gs generalizing best s with
  | nil => rfl
  | cons g gs ih =>
    rw [run_matchEach_cons, pick, longestFrom, StateT.run_bind]
    generalize (below [] limit i g).run s = r
    obtain ⟨m, s'⟩ := r
    by_cases hreach : (m.isMatch && m.stop == limit) = true
    · rw [if_pos hreach]
      show ((if (m.isMatch && m.stop == limit) = true then _ else _ :
        Matching (Match × Option GrammarId)).run s').1 = _
      rw [if_pos hreach]
      rfl
    · rw [if_neg hreach]
      show ((if (m.isMatch && m.stop == limit) = true then _ else _ :
        Matching (Match × Option GrammarId)).run s').1 = _
      rw [if_neg hreach]
      by_cases hlonger : m.isLongerThan best.1 = true
      · rw [if_pos hlonger, if_neg (by simp [hlonger])]
        cases gs with
        | nil => rfl
        | cons g' gs => exact ih (m, some g) s'
      · rw [if_neg hlonger, if_pos (by simpa using hlonger)]
        exact ih best s'

/-- Where no match ends at the limit yet, the best so far is the first of the longest; it stays so
unless the first match to end at the limit starts behind the place. -/
theorem pick_spec {limit i : Nat} (hi : i < limit) {front rest : List (GrammarId × Match)}
    {best : Match × Option GrammarId} (hbest : FirstLongest i front best)
    (hfront : ∀ x ∈ front, x.2.isMatch = true → x.2.stop ≠ limit)
    (hclaims : ∀ x ∈ front ++ rest, i ≤ x.2.start ∧ x.2.stop ≤ limit) :
    FirstLongest i (front ++ rest) (pick limit best rest) ∨
      FirstLate limit i (front ++ rest) (pick limit best rest) := by
  induction rest generalizing front best with
  | nil =>
    rw [List.append_nil]
    exact .inl hbest
  | cons x rest ih =>
    obtain ⟨g, m⟩ := x
    have again {best : Match × Option GrammarId} (hbest : FirstLongest i (front ++ [(g, m)]) best)
        (hm : m.isMatch = true → m.stop ≠ limit) :
        FirstLongest i (front ++ (g, m) :: rest) (pick limit best rest) ∨
          FirstLate limit i (front ++ (g, m) :: rest) (pick limit best rest) := by
      have split : front ++ (g, m) :: rest = front ++ [(g, m)] ++ rest := by simp
      rw [split] at hclaims ⊢
      refine ih hbest (fun y hy => ?_) hclaims
      rcases List.mem_append.1 hy with hy | hy
      · exact hfront y hy
      · rw [List.mem_singleton.1 hy]
        exact hm
    obtain ⟨le_start, stop_le⟩ := hclaims (g, m) (by simp)
    rw [pick]
    split
    next hreach =>
      obtain ⟨hmatch, hstop⟩ : m.isMatch = true ∧ m.stop = limit := by simpa using hreach
      by_cases hstart : m.start = i
      · -- It takes all there is from the place on, and nothing before it does.
        have whole : m.length = limit - i := by rw [Match.length, hstop, hstart]
        refine .inl (.of_lt (by omega) (fun y hy => ?_) fun y hy => ?_)
        · have claims := hclaims y (by simp [hy])
          have apart : y.2.start < y.2.stop → y.2.stop ≠ limit := fun h =>
            hfront y hy (Match.isMatch_of_lt h)
          rw [whole, Match.length]
          by_cases h : y.2.start < y.2.stop
          · have := apart h
            omega
          · omega
        · have claims := hclaims y (by simp [hy])
          rw [whole, Match.length]
          omega
      · have behind : i < m.start := Nat.lt_of_le_of_ne le_start (Ne.symm hstart)
        exact .inr ⟨front, g, m, rest, rfl, rfl, hfront, hstop, behind⟩
    next hreach =>
      have apart : m.isMatch = true → m.stop ≠ limit := by simpa using hreach
      split
      next hlonger =>
        have hlonger : best.1.length < m.length := by simpa [Match.isLongerThan] using hlonger
        refine again (.of_lt (by omega) (fun y hy => ?_) (by simp)) apart
        exact Nat.lt_of_le_of_lt (hbest.length_le y hy) hlonger
      next hshorter =>
        have hshorter : m.length ≤ best.1.length := by simpa [Match.isLongerThan] using hshorter
        exact again (hbest.concat_of_le hshorter) apart

/-! ## 3. Options at a place -/

/-- What the options that are not pruned make of a place, asked one after the other from a state. -/
def triedAt (c : MatchContext) (n limit i : Nat) (options : List GrammarId) (s : MatchState) :
    List (GrammarId × Match) :=
  ((matchEach (c.matchGrammar n) limit i (c.prune limit i options)).run s).1

/-- A match at a place before the limit: where it starts and ends, and what it means that it starts
behind the place. -/
structure Placed (c : MatchContext) (limit i : Nat) (m : Match) : Prop where
  le_start : i ≤ m.start
  stop_le : m.stop ≤ limit
  punctual : m.hasUnparsable = false → m.start = i
  prompt : c.tables.IsPrompt → c.isCodeAt i = true → m.start = i

theorem placed_matchGrammar (n : Nat) {limit i : Nat} (hi : i < limit) (g : GrammarId) :
    Meets c.Reachable (c.matchGrammar n [] limit i g) (c.Placed limit i) := by
  intro s hs
  have claims := ((sound_matchGrammar False.elim id n).claims [] (Nat.le_of_lt hi) g s
    (hs.invariant_of (fun none : False => none.elim) id)).1
  have punctual := (punctual_matchGrammar n [] limit i g s hs.punctual).1
  have within := claims.stop_le
  refine ⟨⟨claims.le_start, by omega, punctual, fun h => claims.start_eq h hi⟩, ?_⟩
  exact (reachable_matchGrammar n [] limit i g s hs).2

theorem placed_triedAt (n : Nat) {limit i : Nat} (hi : i < limit) (options : List GrammarId)
    {s : MatchState} (hs : c.Reachable s) :
    ∀ x ∈ c.triedAt n limit i options s, c.Placed limit i x.2 :=
  (Meets.mapM (Q := fun x : GrammarId × Match => c.Placed limit i x.2) _
    (fun g _ => (placed_matchGrammar n hi g).bind fun _ hm => .pure hm) s hs).1

/-- With no terminators around it, the search at a place before the limit comes to the first of the
options that are not pruned that take most, with its match, and to none if none of them takes a
token; unless the first match to end at the limit starts behind the place. Such a match, which holds
something unparsable, ends the search. Where there is code, no match of prompt tables starts behind
the place. -/
theorem longest_first_unless_late {s : MatchState} (hs : c.Reachable s) (here : Matcher) (n : Nat)
    {limit i : Nat} (hi : i < limit) (options : List GrammarId) {r : Match × Option GrammarId}
    (hr : ((c.longest here (c.matchGrammar n) [] limit i options).run s).1 = r) :
    FirstLongest i (c.triedAt n limit i options s) r ∨
      FirstLate limit i (c.triedAt n limit i options s) r ∧ r.1.hasUnparsable = true ∧
        ¬ (c.tables.IsPrompt ∧ c.isCodeAt i = true) := by
  have placed := placed_triedAt n hi options hs
  have picked : r = pick limit (.empty i, none) (c.triedAt n limit i options s) := by
    rw [← hr, longest, if_neg (by omega), run_longestFrom_nil]
    rfl
  have spec := pick_spec hi (.nil i) (by simp)
    fun x (hx : x ∈ [] ++ c.triedAt n limit i options s) =>
      ⟨(placed x hx).le_start, (placed x hx).stop_le⟩
  rw [List.nil_append, ← picked] at spec
  refine spec.imp_right fun late => ⟨late, ?_⟩
  obtain ⟨front, g, m, back, htried, rfl, -, -, hstart⟩ := late
  have own := placed (g, m) (by rw [htried]; simp)
  refine ⟨?_, fun ⟨hprompt, hcode⟩ => absurd (own.prompt hprompt hcode) (Nat.ne_of_gt hstart)⟩
  by_contra h
  exact absurd (own.punctual (by simpa using h)) (Nat.ne_of_gt hstart)

/-- A repetition that gives up its parts, and a sequence. -/
def lateBook : GrammarBook where
  root := "Rep"
  definitions := [
    .grammar "Rep" ((Grammar.anyNumberOf [.keyword "b"]).mode .greedy),
    .grammar "Seq" (.seq [.keyword "b"])]

/-- A blank and a keyword. -/
def lateContext : MatchContext :=
  (Parser.ofBook lateBook).context
    (Segment.mk ⟨.token " " .ofBlank none, "whitespace", ["whitespace"], 0,
      some (.ofSpans (.between 0 1) (.between 0 1) ⟨1, 1⟩ true), []⟩ [] ::
      Parser.wordTokens 1 1 ["b"])

/-- What the search comes to there from a place on among options in some order. -/
def lateSearch (i : Nat) (options : List GrammarId) : Match × Option GrammarId :=
  ((lateContext.longest (lateContext.matchGrammar 4) (lateContext.matchGrammar 3) [] 2 i
    options).run {}).1

/-- At the keyword both take one token, and the one that comes first is taken. -/
theorem longest_first_unless_late_tie :
    lateContext.Reachable {} ∧ 1 < 2 ∧ (lateSearch 1 [⟨1⟩, ⟨0⟩]).2 = some ⟨1⟩ ∧
      FirstLongest 1 (lateContext.triedAt 3 2 1 [⟨1⟩, ⟨0⟩] {}) (lateSearch 1 [⟨1⟩, ⟨0⟩]) := by
  have found : (lateSearch 1 [⟨1⟩, ⟨0⟩]).2 = some ⟨1⟩ ∧
      (lateSearch 1 [⟨1⟩, ⟨0⟩]).1.hasUnparsable = false := by decide +kernel
  refine ⟨.initial, by decide, found.1, ?_⟩
  refine (longest_first_unless_late .initial (lateContext.matchGrammar 4) 3 (by decide) _
    (rfl : _ = lateSearch 1 [⟨1⟩, ⟨0⟩])).resolve_right fun late => ?_
  rw [found.2] at late
  cases late.2.1

/-- At the blank the repetition ends the search, though the sequence takes more. -/
theorem longest_misses_late :
    (lateContext.triedAt 3 2 0 [⟨0⟩, ⟨1⟩] {}).map (fun x => (x.1, x.2.start, x.2.stop)) =
      [(⟨0⟩, 1, 2), (⟨1⟩, 0, 2)] ∧
    (lateSearch 0 [⟨0⟩, ⟨1⟩]).2 = some ⟨0⟩ ∧
    ¬ FirstLongest 0 (lateContext.triedAt 3 2 0 [⟨0⟩, ⟨1⟩] {}) (lateSearch 0 [⟨0⟩, ⟨1⟩]) := by
  have found : (lateContext.triedAt 3 2 0 [⟨0⟩, ⟨1⟩] {}).map
        (fun x => (x.1, x.2.start, x.2.stop)) = [(⟨0⟩, 1, 2), (⟨1⟩, 0, 2)] ∧
      (lateSearch 0 [⟨0⟩, ⟨1⟩]).2 = some ⟨0⟩ ∧ (lateSearch 0 [⟨0⟩, ⟨1⟩]).1.length = 1 := by
    decide +kernel
  refine ⟨found.1, found.2.1, fun first => ?_⟩
  have longer : ∃ x ∈ lateContext.triedAt 3 2 0 [⟨0⟩, ⟨1⟩] {}, (x.1, x.2.start, x.2.stop) =
      ((⟨1⟩, 0, 2) : GrammarId × Nat × Nat) :=
    List.mem_map.1 (by rw [found.1]; simp)
  obtain ⟨x, hx, hspan⟩ := longer
  have two : x.2.length = 2 := by
    rw [Match.length, (Prod.mk.inj (Prod.mk.inj hspan).2).1, (Prod.mk.inj (Prod.mk.inj hspan).2).2]
  have := first.length_le x hx
  omega

end MatchContext

end QueryLint
