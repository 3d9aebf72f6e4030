import QueryLint.Proofs.Match.Ahead

/-!
QueryLint.Proofs.Match.Glued — two searches for a terminator.

A grammar that takes everything looks for its terminator in one way, and a grammar that is matched
greedily part by part in another. Both stop behind the last code before the first terminator outside
brackets. But the first way passes over a terminator of words that is glued to what comes before it,
as a name is to its dot, and searches on; the second takes any. So they stop at the same place
unless the first terminator is glued: then the second stops before it, and the first takes it in.

* `MatchContext.firstTerminator` — the first terminator outside brackets.
* `MatchContext.Glued` — a terminator of words with no white space before it.
* `MatchContext.trimToTerminator_eq_greedy_unless_glued` — where the two searches stop.
-/

namespace QueryLint

open Matching

namespace MatchContext

variable {c : MatchContext}

/-! ## 1. Trimming -/

/-- There is code before the place that trimming comes to. -/
theorem isCodeAt_of_lt_trimToCode {stop least : Nat} (h : least < c.trimToCode stop least) :
    c.isCodeAt (c.trimToCode stop least - 1) = true := by
  fun_induction trimToCode with
  | case1 _ _ hcode => exact hcode
  | case2 _ _ _ ih => exact ih h
  | case3 => contradiction

/-- Trimming does not cut off code. -/
theorem lt_trimToCode {stop least p : Nat} (hp : p < stop) (hcode : c.isCodeAt p = true) :
    p < c.trimToCode stop least := by
  by_contra hle
  rw [not_isCodeAt_of_trimToCode_le (Nat.le_of_not_lt hle) hp] at hcode
  cases hcode

/-! ## 2. The first terminator -/

section First

variable (c) (n : Nat) (ts : List GrammarId) (limit i : Nat) (options : List GrammarId)

/-- The first terminator outside brackets from a place on, with its number. -/
def firstTerminator : Option (Match × Nat) :=
  (Scan.plain (·.nextOutsideBrackets · ts limit i options) c n).hit

/-- A terminator of words, away from where the search for it starts, with no white space before
it. -/
def Glued (x : Match × Nat) : Prop :=
  c.isWordLike (options.getD x.2 default) = true ∧ x.1.start ≠ i ∧ c.blankBefore i x.1.start = false

instance (x : Match × Nat) : Decidable (c.Glued i options x) :=
  inferInstanceAs (Decidable (_ ∧ _))

/-- Where a search stops that takes any terminator: behind the last code before the first. -/
def stopBefore (hit : Option (Match × Nat)) : Nat :=
  (hit.map fun x => c.trimToCode x.1.start i).getD limit

end First

section First

variable {n : Nat} {ts : List GrammarId} {limit i : Nat} {options : List GrammarId}
  {x : Match × Nat}

/-- What a search outside brackets finds, one of its targets makes of a place from its start on. -/
theorem meets_outsideFrom_foundBy (start fuel : Nat) {p : Nat} (hp : i ≤ p) (skipped : List Match) :
    Meets (fun _ => True)
      (c.unmemoized.outsideFrom (c.unmemoized.matchGrammar n) ts limit start options fuel p skipped)
      fun r => ∀ x, r.hit = some x →
        FoundBy (fun g q m => m = c.plainMatch n ts limit q g) limit i options x := by
  induction fuel generalizing p skipped with
  | zero => exact .pure (by simp)
  | succ fuel ih =>
    unfold outsideFrom
    refine (meets_nextMatch_firstFound p
      (options ++ bracketGrammars c.unmemoized.tables.bracketPairs)).bind fun r hr => ?_
    cases hr with
    | nowhere => exact .pure (by simp)
    | @somewhere q k g before le grammar found first =>
      have claims := claims_plainMatch n ts c found.1 g
      dsimp only
      refine .ite (fun hoption => .pure ?_) fun _ => .ite (fun _ => .pure (by simp)) fun _ => ?_
      · rintro x ⟨⟩
        rw [List.getElem?_append_left hoption] at grammar
        exact ⟨g, q, grammar, by omega, found.1, found.2.2, rfl⟩
      refine (meets_closeBracket (sound_unmemoized n) False.elim ts limit true
        (k - options.length) claims.tidy).bind fun r hr => ?_
      rcases r with _ | b
      · exact .pure (by simp)
      obtain ⟨cls, between, last, rfl, closed, -⟩ := hr _ rfl
      have := claims.le_start
      have := claims.start_le_stop
      have := closed.le_start
      have := closed.tidy.start_le_stop
      exact ih (by rw [stop_pairMatch]; omega) _

/-- From whatever state, the search finds the first terminator. -/
theorem meets_nextOutsideBrackets_first (i : Nat) :
    Meets (fun _ => True)
      (c.unmemoized.nextOutsideBrackets (c.unmemoized.matchGrammar n) ts limit i options)
      fun r => r.hit = c.firstTerminator n ts limit i options :=
  ((Scan.keepsPace_nextOutsideBrackets ts limit i options).meets_plain n).mono
    fun _ h => congrArg Found.hit h

theorem firstTerminator_foundBy (h : c.firstTerminator n ts limit i options = some x) :
    FoundBy (fun g q m => m = c.plainMatch n ts limit q g) limit i options x :=
  (meets_outsideFrom_foundBy i _ (Nat.le_refl i) [] {} trivial).1 x h

/-- The first terminator lies between the start of the search and its limit. -/
theorem firstTerminator_within (h : c.firstTerminator n ts limit i options = some x) :
    i ≤ x.1.start ∧ x.1.start ≤ x.1.stop ∧ x.1.stop ≤ limit := by
  obtain ⟨g, p, -, le, lt, -, heq⟩ := firstTerminator_foundBy h
  have claims := claims_plainMatch n ts c lt g
  rw [← heq] at claims
  have := claims.le_start
  have := claims.stop_le
  exact ⟨by omega, claims.start_le_stop, by omega⟩

/-- If no terminator matches where the search starts, the first lies behind. -/
theorem lt_start_of_firstTerminator (h : c.firstTerminator n ts limit i options = some x)
    (hquiet : ∀ g ∈ options, (c.plainMatch n ts limit i g).isMatch = false) : i < x.1.start := by
  obtain ⟨g, p, grammar, le, lt, isMatch, heq⟩ := firstTerminator_foundBy h
  have claims := claims_plainMatch n ts c lt g
  rw [← heq] at claims
  have := claims.le_start
  have : p ≠ i := by
    rintro rfl
    rw [heq, hquiet g (List.mem_of_getElem? grammar)] at isMatch
    cases isMatch
  omega

end First

/-! ## 3. Where the searches stop -/

section Stops

variable {n : Nat} {ts : List GrammarId} {limit i : Nat} {options : List GrammarId}

/-- A search that takes any terminator stops before the first, if none matches where it starts. -/
theorem meets_trimToTerminator_first (hi : i < limit)
    (hquiet : ∀ g ∈ options, (c.plainMatch n ts limit i g).isMatch = false) :
    Meets (fun _ => True)
      (c.unmemoized.trimToTerminator (c.unmemoized.matchGrammar n) ts limit i options)
      (· = c.stopBefore limit i (c.firstTerminator n ts limit i options)) := by
  unfold trimToTerminator
  refine .ite (fun hnothing => .pure ?_) fun _ => ?_
  · have empty : options = [] := by simpa [Nat.not_le.2 hi] using hnothing
    cases hfirst : c.firstTerminator n ts limit i options with
    | none => rfl
    | some x =>
      obtain ⟨g, p, grammar, -⟩ := firstTerminator_foundBy hfirst
      rw [empty] at grammar
      cases grammar
  refine (meets_anyMatches_makes (fun p g => (meets_plainMatch n ts limit p g).trivial) i _).bind
    fun found hfound => ?_
  rcases hfound with ⟨-, g, hg, m, makes, isMatch⟩ | ⟨rfl, -⟩
  · rw [(makes_iff_eq_plainMatch n ts).1 makes, hquiet g (mem_of_mem_prune hg)] at isMatch
    cases isMatch
  rw [if_neg Bool.false_ne_true]
  refine (meets_nextOutsideBrackets_first i).bind fun r hr => ?_
  rw [← hr]
  rcases r.hit with _ | ⟨m, k⟩
  · exact .pure rfl
  · exact .pure (trimToCode_unmemoized m.start i)

/-- Where a search goes on behind a place, no code before that is left behind. -/
theorem meets_greedyFrom_takes (nested : Bool) (fuel : Nat) {at_ : Nat} (hat : i ≤ at_)
    (inner : List Match) :
    Meets (fun _ => True)
      (c.unmemoized.greedyFrom (c.unmemoized.matchGrammar n) ts limit i options false nested fuel
        at_ inner) fun m => ∀ p, i ≤ p → p < at_ → p < limit → c.isCodeAt p = true → p < m.stop := by
  induction fuel generalizing at_ inner with
  | zero => exact .pure fun p _ _ hp _ => hp
  | succ fuel ih =>
    unfold greedyFrom
    refine (meets_nextOutsideBrackets_first at_).bind fun r hr => ?_
    dsimp only
    rcases hhit : r.hit with _ | ⟨m, k⟩
    · exact .pure fun p _ _ hp _ => hp
    obtain ⟨hstart, hstop, -⟩ := firstTerminator_within (hr.symm.trans hhit)
    dsimp only at hstart hstop ⊢
    refine .ite (fun _ => ?_) fun _ => ?_
    · exact (ih (by omega) _).mono fun t ht p hp hlt => ht p hp (by omega)
    rw [if_neg Bool.false_ne_true, trimToCode_unmemoized]
    refine .pure fun p hp hlt _ hcode => ?_
    rw [Match.stop_mk]
    split
    · omega
    · exact lt_trimToCode (by omega) hcode

/-- Taking everything stops before the first terminator that is not glued. A glued one is taken. -/
theorem meets_greedy_first (hcode : c.isCodeAt i = true)
    (hquiet : ∀ g ∈ options, (c.plainMatch n ts limit i g).isMatch = false) (nested : Bool) :
    Meets (fun _ => True)
      (c.unmemoized.greedy (c.unmemoized.matchGrammar n) ts limit i options false nested) fun m =>
        ((∀ x, c.firstTerminator n ts limit i options = some x → ¬ c.Glued i options x) →
          m.stop = c.stopBefore limit i (c.firstTerminator n ts limit i options)) ∧
        ∀ x, c.firstTerminator n ts limit i options = some x → c.Glued i options x →
          ∀ p, i ≤ p → p < x.1.stop → c.isCodeAt p = true → p < m.stop := by
  unfold greedy greedyFrom
  refine (meets_nextOutsideBrackets_first i).bind fun r hr => ?_
  dsimp only
  rw [← hr]
  rcases hhit : r.hit with _ | ⟨m, k⟩
  · exact .pure ⟨fun _ => rfl, by simp⟩
  have hfirst := hr.symm.trans hhit
  obtain ⟨-, hstop, hlimit⟩ := firstTerminator_within hfirst
  have hlt := lt_start_of_firstTerminator hfirst hquiet
  have glued_iff : c.Glued i options (m, k) ↔
      (c.unmemoized.isWordLike (options.getD k default) && decide (m.start ≠ i) &&
        !c.unmemoized.blankBefore i m.start) = true := by
    simp [Glued, and_assoc]
  dsimp only at hstop hlimit hlt ⊢
  refine .ite (fun hglued => ?_) fun hfree => ?_
  · refine (meets_greedyFrom_takes nested _ (by omega) _).mono fun t ht => ⟨fun h => ?_, ?_⟩
    · exact absurd (glued_iff.2 hglued) (h _ rfl)
    · rintro x ⟨⟩ - p hp hlt
      exact ht p hp hlt (Nat.lt_of_lt_of_le hlt hlimit)
  rw [if_neg Bool.false_ne_true, trimToCode_unmemoized]
  refine .pure ⟨fun _ => ?_, ?_⟩
  · have : i < c.trimToCode m.start i := lt_trimToCode hlt hcode
    rw [Match.stop_mk, if_neg (by omega)]
    rfl
  · rintro x ⟨⟩ hglued
    exact absurd (glued_iff.1 hglued) hfree

/-- Where the two searches for a terminator stop that start at code where none matches. They stop at
the same place if the first terminator outside brackets is not glued. If it is, the search that
takes any stops before it, and the other takes the code of it: they stop at different places. -/
theorem trimToTerminator_eq_greedy_unless_glued (hi : i < limit) (hcode : c.isCodeAt i = true)
    (hquiet : ∀ g ∈ options, (c.plainMatch n ts limit i g).isMatch = false) {nested : Bool}
    {s s' : MatchState} (hs : c.Earlier s) (hs' : c.Earlier s')
    (hn : ¬ Scan.Trips (·.trimToTerminator · ts limit i options) c n)
    (hn' : ¬ Scan.Trips (·.greedy · ts limit i options false nested) c n) {stop : Nat}
    {taken : Match}
    (hstop : ((c.trimToTerminator (c.matchGrammar n) ts limit i options).run s).1 = stop)
    (htaken : ((c.greedy (c.matchGrammar n) ts limit i options false nested).run s').1 = taken) :
    i < stop ∧ stop ≤ taken.stop ∧
      ((∀ x, c.firstTerminator n ts limit i options = some x → ¬ c.Glued i options x) →
        stop = taken.stop) ∧
      ∀ x, c.firstTerminator n ts limit i options = some x → c.Glued i options x →
        stop ≤ x.1.start ∧
          ∀ p, x.1.start ≤ p → p < x.1.stop → c.isCodeAt p = true → p < taken.stop := by
  have stops : stop = c.stopBefore limit i (c.firstTerminator n ts limit i options) := by
    rw [← hstop, (Scan.keepsPace_trimToTerminator ts limit i options).run_eq_plain hs.sincere hn]
    exact (meets_trimToTerminator_first hi hquiet {} trivial).1
  have plain : ((c.unmemoized.greedy (c.unmemoized.matchGrammar n) ts limit i options false
      nested).run {}).1 = taken :=
    ((Scan.keepsPace_greedy ts limit i options false nested).run_eq_plain hs'.sincere
      hn').symm.trans htaken
  obtain ⟨same, code⟩ := (meets_greedy_first hcode hquiet nested {} trivial).1
  rw [plain] at same code
  cases hfirst : c.firstTerminator n ts limit i options with
  | none =>
    rw [hfirst] at stops same
    replace same := same (by simp)
    have agree := stops.trans same.symm
    exact ⟨stops ▸ hi, Nat.le_of_eq agree, fun _ => agree, by simp⟩
  | some x =>
    rw [hfirst] at stops same code
    have hlt := lt_start_of_firstTerminator hfirst hquiet
    obtain ⟨-, hwithin, -⟩ := firstTerminator_within hfirst
    replace stops : stop = c.trimToCode x.1.start i := stops
    have behind : i < stop := stops ▸ lt_trimToCode hlt hcode
    have before : stop ≤ x.1.start := stops ▸ trimToCode_le x.1.start i
    have last : c.isCodeAt (stop - 1) = true := by
      rw [stops] at behind ⊢
      exact isCodeAt_of_lt_trimToCode behind
    by_cases hglued : c.Glued i options x
    · have reached := code x rfl hglued (stop - 1) (by omega) (by omega) last
      refine ⟨behind, by omega, fun h => absurd hglued (h x rfl), ?_⟩
      rintro y ⟨⟩ -
      exact ⟨before, fun p hp hlt => code x rfl hglued p (by omega) hlt⟩
    · have agree := stops.trans (same fun y hy => Option.some.inj hy ▸ hglued).symm
      refine ⟨behind, Nat.le_of_eq agree, fun _ => agree, ?_⟩
      rintro y ⟨⟩ hy
      exact absurd hy hglued

/-- The keyword that ends a list of columns, as a grammar. -/
def fromBook : GrammarBook where
  root := "From"
  definitions := [.grammar "From" (.keyword "from")]

/-- A column of that name behind a dot. -/
def dottedContext : MatchContext :=
  (Parser.ofBook fromBook).context (Parser.wordTokens 0 0 ["a", ".", "from"])

/-- Where a search stops that takes any terminator, if it starts at the column. -/
def dottedStop : Nat :=
  ((dottedContext.trimToTerminator (dottedContext.matchGrammar 3) [] 3 0
    [dottedContext.tables.root]).run {}).1

/-- What is taken there up to a terminator. -/
def dottedTaken : Match :=
  ((dottedContext.greedy (dottedContext.matchGrammar 3) [] 3 0 [dottedContext.tables.root] false
    true).run {}).1

theorem dottedContext_quiet : ∀ g ∈ [dottedContext.tables.root],
    (dottedContext.plainMatch 3 [] 3 0 g).isMatch = false := by
  decide +kernel

/-- The keyword behind the dot is glued to it, and the two searches stop on both sides of it. -/
theorem trimToTerminator_eq_greedy_unless_glued_dotted :
    (∃ x, dottedContext.firstTerminator 3 [] 3 0 [dottedContext.tables.root] = some x ∧
      dottedContext.Glued 0 [dottedContext.tables.root] x ∧ dottedStop ≤ x.1.start) ∧
      dottedStop ≤ 2 ∧ 2 < dottedTaken.stop := by
  let options := [dottedContext.tables.root]
  have taken : ((dottedContext.greedy (dottedContext.matchGrammar 3) [] 3 0 options false true).run
    {}).1 = dottedTaken := rfl
  have told := trimToTerminator_eq_greedy_unless_glued (by decide) (by decide +kernel)
    dottedContext_quiet .fresh .fresh (by decide +kernel) (by decide +kernel) rfl taken
  have checked : ∀ x ∈ dottedContext.firstTerminator 3 [] 3 0 options,
      dottedContext.Glued 0 options x ∧ x.1.start = 2 ∧ x.1.stop = 3 := by decide +kernel
  obtain ⟨x, hx⟩ : ∃ x, dottedContext.firstTerminator 3 [] 3 0 options = some x :=
    Option.isSome_iff_exists.1 (by decide +kernel)
  obtain ⟨glued, starts, stops⟩ := checked x hx
  obtain ⟨before, takes⟩ := told.2.2.2 x hx glued
  refine ⟨⟨x, hx, glued, before⟩, starts ▸ before, ?_⟩
  exact takes 2 (Nat.le_of_eq starts) (by omega) (by decide +kernel)

/-- A terminator of words, code at which it does not match, and two searches that disagree: of all
three tokens, one stops before the last and the other takes them all. -/
theorem trimToTerminator_ne_greedy_dotted :
    fromBook.compile = .ok dottedContext.tables ∧
      dottedContext.isWordLike dottedContext.tables.root = true ∧
      dottedContext.isCodeAt 0 = true ∧
      (∀ g ∈ [dottedContext.tables.root], (dottedContext.plainMatch 3 [] 3 0 g).isMatch = false) ∧
      dottedStop = 2 ∧ dottedTaken.stop = 3 :=
  ⟨Parser.compile_eq_ofBook (by decide +kernel), by decide +kernel, by decide +kernel,
    dottedContext_quiet, by decide +kernel, by decide +kernel⟩

end Stops

end MatchContext

end QueryLint
