import QueryLint.Proofs.Match.Scan

/-!
QueryLint.Proofs.Match.Terminated — where a greedy grammar has to stop.

A greedy grammar stops before the first terminator that is not inside brackets. The search for it
tries terminators and brackets at one place after the other, and goes over a pair of brackets as a
whole. What it passes over is told here without the search: places where nothing matches that is
tried, and pairs of brackets. Behind a stray or an unclosed bracket nothing is searched, so there
the grammar may take everything.

* `MatchContext.Silent` — a place where nothing matches that is tried.
* `MatchContext.Passes` — a way over silent places and pairs of brackets.
* `MatchContext.StopsAt` — where a greedy grammar stops.
* `MatchContext.meets_trimToTerminator_stopsAt` — where the search says that it stops.
-/

namespace QueryLint

open Matching

namespace MatchContext

variable {c : MatchContext} {I : MatchState → Prop}

/-! ## 1. Silent places -/

section Silent

variable (c) (I : MatchState → Prop) (run : Matcher) (ts : List GrammarId) (limit : Nat)

/-- In some state that matching can be in, this is what a grammar makes of a place. -/
def Makes (p : Nat) (g : GrammarId) (m : Match) : Prop :=
  ∃ s s', I s ∧ (run ts limit p g).run s = (m, s')

/-- A grammar is not worth trying at a token, or it has been tried and does not match. -/
def Fails (p : Nat) (v : TokenView) (g : GrammarId) : Prop :=
  (Target.mk g (c.tables.hint? g)).worthTrying v = true →
    ∃ m, Makes I run ts limit p g m ∧ m.isMatch = false

/-- At a place none of several grammars matches. Markers are passed over. -/
def Silent (gs : List GrammarId) (p : Nat) : Prop :=
  ∀ v, c.tokens[p]? = some v → v.isMarker = false → ∀ g ∈ gs, c.Fails I run ts limit p v g

/-- At a place there is a token at which a grammar is worth trying. -/
def TriesAt (p : Nat) (g : GrammarId) : Prop :=
  ∃ v, c.tokens[p]? = some v ∧ v.isMarker = false ∧
    (Target.mk g (c.tables.hint? g)).worthTrying v = true

/-- What a search for several grammars comes to: the first match from a place on, with the number of
its grammar. -/
inductive Searched (gs : List GrammarId) (i : Nat) : Option (Match × Nat) → Prop where
  | none (silent : ∀ q, i ≤ q → q < limit → c.Silent I run ts limit gs q) : Searched gs i none
  | some {p k : Nat} {g : GrammarId} {m : Match}
    (silent : ∀ q, i ≤ q → q < p → c.Silent I run ts limit gs q) (le : i ≤ p) (lt : p < limit)
    (grammar : gs[k]? = some g) (tries : c.TriesAt p g) (makes : Makes I run ts limit p g m)
    (isMatch : m.isMatch = true) (before : c.Silent I run ts limit (gs.take k) p) :
    Searched gs i (some (m, k))

end Silent

section Search

variable {run : Matcher} {ts : List GrammarId} {limit : Nat}

theorem meets_makes {p : Nat} {g : GrammarId}
    (hrun : Meets I (run ts limit p g) fun _ => True) :
    Meets I (run ts limit p g) (Makes I run ts limit p g) :=
  fun s hs => ⟨⟨s, _, hs, rfl⟩, (hrun s hs).2⟩

/-- Of several grammars the first that matches is found. -/
theorem meets_firstMatch_first (i : Nat) (v : TokenView) (gs : List GrammarId)
    (hrun : ∀ g ∈ gs, Meets I (run ts limit i g) fun _ => True) (n : Nat) :
    Meets I (firstMatch run ts limit i v n (gs.map fun g => ⟨g, c.tables.hint? g⟩)) fun r =>
      (r = none ∧ ∀ g ∈ gs, c.Fails I run ts limit i v g) ∨
        ∃ k g m, r = some (m, n + k) ∧ gs[k]? = some g ∧
          (Target.mk g (c.tables.hint? g)).worthTrying v = true ∧ Makes I run ts limit i g m ∧
          m.isMatch = true ∧ ∀ g ∈ gs.take k, c.Fails I run ts limit i v g := by
  induction gs generalizing n with
  | nil => exact .pure (.inl ⟨rfl, by simp⟩)
  | cons g gs ih =>
    have rest := ih fun g hg => hrun g (List.mem_cons_of_mem _ hg)
    have later (hfails : c.Fails I run ts limit i v g) := (rest (n + 1)).mono fun r hr => by
      show (r = none ∧ ∀ g' ∈ g :: gs, c.Fails I run ts limit i v g') ∨
        ∃ k g' m, r = some (m, n + k) ∧ (g :: gs)[k]? = some g' ∧
          (Target.mk g' (c.tables.hint? g')).worthTrying v = true ∧
          Makes I run ts limit i g' m ∧ m.isMatch = true ∧
          ∀ h ∈ (g :: gs).take k, c.Fails I run ts limit i v h
      rcases hr with ⟨rfl, fails⟩ | ⟨k, g', m, rfl, hg', worth, makes, isMatch, fails⟩
      · exact .inl ⟨rfl, by simpa using ⟨hfails, fails⟩⟩
      · refine .inr ⟨k + 1, g', m, by rw [Nat.add_right_comm, Nat.add_assoc], by simpa using hg',
          worth, makes, isMatch, by simpa using ⟨hfails, fails⟩⟩
    rw [List.map_cons, firstMatch]
    refine .ite (fun hworth => ?_) fun hworth => later fun h => absurd h hworth
    refine (meets_makes (hrun g List.mem_cons_self)).bind fun m makes =>
      .ite (fun isMatch => .pure ?_) fun hnone => ?_
    · exact .inr ⟨0, g, m, rfl, rfl, hworth, makes, isMatch, by simp⟩
    · exact later fun _ => ⟨m, makes, by simpa using hnone⟩

/-- A search finds the first match from a place on. -/
theorem meets_nextMatch_searched (i : Nat) (gs : List GrammarId)
    (hrun : ∀ place, ∀ g ∈ gs, Meets I (run ts limit place g) fun _ => True) :
    Meets I (c.nextMatch run ts limit i gs) (c.Searched I run ts limit gs i) := by
  have within (n i : Nat) (hn : n = limit - i) :
      Meets I (c.matchWithin run ts limit (gs.map fun g => ⟨g, c.tables.hint? g⟩) n i)
        (c.Searched I run ts limit gs i) := by
    induction n generalizing i with
    | zero => exact .pure (.none fun q hi hq => by omega)
    | succ n ih =>
      have later (hsilent : c.Silent I run ts limit gs i) := (ih (i + 1) (by omega)).mono
        fun r hr => by
          show c.Searched I run ts limit gs i r
          cases hr with
          | none silent =>
            refine .none fun q hi hq => ?_
            rcases Nat.eq_or_lt_of_le hi with rfl | hi
            · exact hsilent
            · exact silent q hi hq
          | some silent le lt grammar tries makes isMatch before =>
            refine .some (fun q hi hq => ?_) (by omega) lt grammar tries makes isMatch before
            rcases Nat.eq_or_lt_of_le hi with rfl | hi
            · exact hsilent
            · exact silent q hi hq
      unfold matchWithin
      cases hv : c.tokens[i]? with
      | none =>
        refine .pure (.none fun q hi _ v hq => ?_)
        rw [Array.getElem?_eq_none_iff] at hv
        rw [Array.getElem?_eq_none_iff.2 (by omega)] at hq
        cases hq
      | some v =>
        have here {gs' : List GrammarId} (h : ∀ g ∈ gs', c.Fails I run ts limit i v g) :
            c.Silent I run ts limit gs' i := by
          intro w hw _
          obtain rfl : v = w := Option.some.inj (hv.symm.trans hw)
          exact h
        refine .ite (fun hmarker => later fun w hw hno => ?_) fun hmarker => ?_
        · obtain rfl : v = w := Option.some.inj (hv.symm.trans hw)
          rw [hmarker] at hno
          cases hno
        refine (meets_firstMatch_first i v gs (hrun i) 0).bind fun r hr => ?_
        rcases hr with ⟨rfl, fails⟩ | ⟨k, g, m, rfl, hg, worth, makes, isMatch, fails⟩
        · exact later (here fails)
        · rw [Nat.zero_add]
          exact .pure (.some (fun q hi hq => by omega) (Nat.le_refl i) (by omega) hg
            ⟨v, hv, by simpa using hmarker, worth⟩ makes isMatch (here fails))
  exact within _ i rfl

end Search

/-- What is promised of a grammar holds of what it makes of a place. -/
theorem Makes.of_meets {run : Matcher} {ts : List GrammarId} {limit p : Nat} {g : GrammarId}
    {m : Match} {Q : Match → Prop} (h : Makes I run ts limit p g m)
    (hQ : Meets I (run ts limit p g) Q) : Q m := by
  obtain ⟨s, s', hs, hrun⟩ := h
  exact (hQ.of_run hs hrun).1

theorem Silent.mono {run : Matcher} {ts gs gs' : List GrammarId} {limit p : Nat}
    (h : c.Silent I run ts limit gs p) (hsub : ∀ g ∈ gs', g ∈ gs) :
    c.Silent I run ts limit gs' p :=
  fun v hv hmarker g hg => h v hv hmarker g (hsub g hg)

/-! ## 2. Outside brackets -/

section Outside

variable (c) (I : MatchState → Prop) (run : Matcher) (ts : List GrammarId) (limit : Nat)
  (options : List GrammarId)

/-- What comes of an opening bracket: the pair that it begins, or nothing if it is not closed. -/
def Closes? (k : Nat) (opening : Match) (r : Option Match) : Prop :=
  ∃ s s', I s ∧
    (c.closeBracket run ts limit c.tables.bracketPairs true k opening).run s = (r, s')

/-- At a place no option matches, but a bracket does that opens a pair, the pair of a number. -/
def OpensAt (p k : Nat) (opening : Match) : Prop :=
  ∃ pair, c.tables.bracketPairs[k]? = some pair ∧ c.Silent I run ts limit options p ∧
    Makes I run ts limit p pair.opening opening ∧ opening.isMatch = true

/-- Outside brackets none of the options matches from a place on, before another: places are passed
over where nothing matches, and pairs of brackets as a whole. -/
inductive Passes : Nat → Nat → Prop where
  | here (a : Nat) : Passes a a
  | on {a b : Nat} (lt : a < limit)
    (silent : c.Silent I run ts limit (options ++ bracketGrammars c.tables.bracketPairs) a)
    (rest : Passes (a + 1) b) : Passes a b
  | past {a b k : Nat} {opening pair : Match} (lt : a < limit)
    (opens : c.OpensAt I run ts limit options a k opening)
    (closes : c.Closes? I run ts limit k opening (some pair)) (rest : Passes pair.stop b) :
    Passes a b

/-- What a search outside brackets comes to: a match of an option, the limit, a bracket that closes
nothing or is not closed, or brackets that take no token, behind which it would be where it was. -/
inductive Outside (a : Nat) : Option Match → Prop where
  | found {p : Nat} {g : GrammarId} {m : Match} (passes : c.Passes I run ts limit options a p)
    (lt : p < limit) (option : g ∈ options) (makes : Makes I run ts limit p g m)
    (isMatch : m.isMatch = true) : Outside a (some m)
  | limit {p : Nat} (passes : c.Passes I run ts limit options a p) (le : limit ≤ p) :
    Outside a none
  | stray {p : Nat} {pair : BracketPair} {m : Match} (passes : c.Passes I run ts limit options a p)
    (silent : c.Silent I run ts limit options p) (declared : pair ∈ c.tables.bracketPairs)
    (makes : Makes I run ts limit p pair.closing m) (isMatch : m.isMatch = true) : Outside a none
  | unclosed {p k : Nat} {opening : Match} (passes : c.Passes I run ts limit options a p)
    (opens : c.OpensAt I run ts limit options p k opening)
    (fails : c.Closes? I run ts limit k opening none) : Outside a none
  | idle {p k : Nat} {opening pair : Match} (passes : c.Passes I run ts limit options a p)
    (opens : c.OpensAt I run ts limit options p k opening)
    (closes : c.Closes? I run ts limit k opening (some pair)) (stays : pair.stop ≤ p) :
    Outside a none

end Outside

section Outside

variable {run : Matcher} {ts options : List GrammarId} {limit : Nat}

theorem Passes.trans {a b d : Nat} (h : c.Passes I run ts limit options a b)
    (h' : c.Passes I run ts limit options b d) : c.Passes I run ts limit options a d := by
  induction h with
  | here => exact h'
  | on lt silent _ ih => exact .on lt silent (ih h')
  | past lt opens closes _ ih => exact .past lt opens closes (ih h')

/-- Silent places are passed over. -/
theorem Passes.of_silent {a b : Nat} (hab : a ≤ b) (hb : b ≤ limit) (h : ∀ q, a ≤ q → q < b →
    c.Silent I run ts limit (options ++ bracketGrammars c.tables.bracketPairs) q) :
    c.Passes I run ts limit options a b := by
  induction hk : b - a generalizing a with
  | zero =>
    obtain rfl : a = b := by omega
    exact .here a
  | succ k ih =>
    exact .on (by omega) (h a (Nat.le_refl a) (by omega))
      (ih (by omega) (fun q hq => h q (by omega)) (by omega))

/-- What comes of an opening bracket, the search says. -/
theorem meets_closes? (hrun : Sound c False False I run) (k : Nat) {opening : Match}
    (ho : opening.Tidy False) :
    Meets I (c.closeBracket run ts limit c.tables.bracketPairs true k opening)
      (c.Closes? I run ts limit k opening) :=
  fun s hs => ⟨⟨s, _, hs, rfl⟩,
    (meets_closeBracket hrun False.elim ts limit true k ho s hs).2⟩

/-- A search outside brackets comes to what is outside brackets. It has steps enough to come to the
limit, unless it stays where it is. -/
theorem meets_outsideFrom_outside (hrun : Sound c False False I run) (start fuel : Nat) {a i : Nat}
    (passes : c.Passes I run ts limit options a i)
    (hfuel : limit < fuel + i ∨ c.Outside I run ts limit options a none) (skipped : List Match) :
    Meets I (c.outsideFrom run ts limit start options fuel i skipped) fun r =>
      c.Outside I run ts limit options a (r.hit.map Prod.fst) := by
  induction fuel generalizing i skipped with
  | zero => exact .pure (hfuel.elim (fun h => .limit passes (by omega)) id)
  | succ fuel ih =>
    unfold outsideFrom
    refine (meets_nextMatch_searched i (options ++ bracketGrammars c.tables.bracketPairs)
      fun place g _ => (hrun ts limit place g).trivial).bind fun r hr => ?_
    cases hr with
    | none silent =>
      refine .pure ?_
      by_cases hi : i ≤ limit
      · exact .limit (passes.trans (.of_silent hi (Nat.le_refl _) silent)) (Nat.le_refl _)
      · exact .limit passes (by omega)
    | @some p k g m silent le lt grammar _ makes isMatch before =>
      replace passes := passes.trans (.of_silent le (by omega) silent)
      dsimp only
      refine .ite (fun hoption => .pure ?_) fun hbracket => ?_
      · rw [List.getElem?_append_left hoption] at grammar
        exact .found passes lt (List.mem_of_getElem? grammar) makes isMatch
      have quiet : c.Silent I run ts limit options p := before.mono fun g hg => by
        rw [List.take_append, List.take_of_length_le (by omega)]
        exact List.mem_append_left _ hg
      rw [List.getElem?_append_right (by omega)] at grammar
      refine .ite (fun hclosing => .pure ?_) fun hopening => ?_
      · obtain ⟨pair, declared, rfl⟩ := mem_of_getElem?_bracketGrammars grammar (by omega)
        exact .stray passes quiet declared makes isMatch
      obtain ⟨pair, declared, rfl⟩ := exists_opening grammar (by omega)
      have opens : c.OpensAt I run ts limit options p (k - options.length) m :=
        ⟨pair, declared, quiet, makes, isMatch⟩
      have claims := makes.of_meets (hrun.claims ts (Nat.le_of_lt lt) pair.opening)
      refine (meets_closes? hrun (k - options.length) claims.tidy).bind fun r closes => ?_
      rcases r with _ | b
      · exact .pure (.unclosed passes opens closes)
      refine ih (passes.trans (.past lt opens closes (.here _))) ?_ _
      by_cases onwards : p < b.stop
      · exact hfuel.imp (fun h => by omega) id
      · exact .inr (.idle passes opens closes (by omega))

end Outside

/-! ## 3. Where to stop -/

section Stops

variable (c) (I : MatchState → Prop) (run : Matcher) (ts : List GrammarId) (limit : Nat)
  (terminators : List GrammarId)

/-- None of the terminators that may begin at a place matches there. -/
def Unterminated (a : Nat) : Prop :=
  ∀ g ∈ c.prune limit a terminators, ∃ m, Makes I run ts limit a g m ∧ m.isMatch = false

/-- Where a greedy grammar stops that starts at a place: right there, if a terminator matches there;
behind the last code before the first terminator outside brackets; or at the limit. -/
inductive StopsAt (a : Nat) : Nat → Prop where
  | unlimited (nothing : limit ≤ a ∨ terminators = []) : StopsAt a limit
  | atOnce {g : GrammarId} {m : Match} (lt : a < limit) (terminator : g ∈ terminators)
    (makes : Makes I run ts limit a g m) (isMatch : m.isMatch = true) : StopsAt a a
  | before {m : Match} (lt : a < limit) (goesOn : c.Unterminated I run ts limit terminators a)
    (found : c.Outside I run ts limit terminators a (some m)) :
    StopsAt a (c.trimToCode m.start a)
  | nowhere (lt : a < limit) (goesOn : c.Unterminated I run ts limit terminators a)
    (found : c.Outside I run ts limit terminators a none) : StopsAt a limit

end Stops

section Stops

variable {run : Matcher} {ts terminators : List GrammarId} {limit a : Nat}

/-- If one of several grammars matches at a place, a match of it is made there; otherwise none of
them matches. -/
theorem meets_anyMatches_makes (hrun : ∀ place g, Meets I (run ts limit place g) fun _ => True)
    (i : Nat) (gs : List GrammarId) :
    Meets I (anyMatches run ts limit i gs) fun found =>
      (found = true ∧ ∃ g ∈ gs, ∃ m, Makes I run ts limit i g m ∧ m.isMatch = true) ∨
        found = false ∧ ∀ g ∈ gs, ∃ m, Makes I run ts limit i g m ∧ m.isMatch = false := by
  induction gs with
  | nil => exact .pure (.inr ⟨rfl, by simp⟩)
  | cons g gs ih =>
    refine (meets_makes (hrun i g)).bind fun m makes =>
      .ite (fun isMatch => .pure ?_) fun hnone => ?_
    · exact .inl ⟨rfl, g, by simp, m, makes, isMatch⟩
    · refine ih.mono fun found hfound => ?_
      rcases hfound with ⟨rfl, g', hg', made⟩ | ⟨rfl, fails⟩
      · exact .inl ⟨rfl, g', by simp [hg'], made⟩
      · exact .inr ⟨rfl, by simpa using ⟨⟨m, makes, by simpa using hnone⟩, fails⟩⟩

/-- The search for a terminator says where to stop. -/
theorem meets_trimToTerminator_stopsAt (hrun : Sound c False False I run) (a : Nat) :
    Meets I (c.trimToTerminator run ts limit a terminators)
      (c.StopsAt I run ts limit terminators a) := by
  unfold trimToTerminator
  refine .ite (fun hnothing => .pure (.unlimited ?_)) fun hlimited => ?_
  · simpa using hnothing
  have lt : a < limit := by
    simp only [Bool.or_eq_true, decide_eq_true_eq, not_or] at hlimited
    omega
  refine (meets_anyMatches_makes (fun place g => (hrun ts limit place g).trivial) a
    (c.prune limit a terminators)).bind fun found hfound => ?_
  rcases hfound with ⟨rfl, g, hg, m, makes, isMatch⟩ | ⟨rfl, goesOn⟩
  · exact .pure (.atOnce lt (mem_of_mem_prune hg) makes isMatch)
  rw [if_neg Bool.false_ne_true]
  refine (meets_outsideFrom_outside hrun a (limit + 2) (.here a) (.inl (by omega)) []).bind
    fun r hr => ?_
  rcases hhit : r.hit with _ | ⟨m, k⟩ <;> rw [hhit] at hr
  · exact .pure (.nowhere lt goesOn hr)
  · exact .pure (.before lt goesOn hr)

end Stops

end MatchContext

end QueryLint
