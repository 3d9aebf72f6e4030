import QueryLint.Proofs.Match.Terminated
import QueryLint.Proofs.Match.Transparent

/-!
QueryLint.Proofs.Match.Ahead — what is seen ahead, without a memo.

A scan calls a matcher at some places and goes on from what it makes of them. Within a match it is
run by a matcher with a memo, in the midst of other matches. What it comes to is told here without
either: by what each grammar makes of each place, worked out from nothing.

* `MatchContext.plainMatch` — what a grammar makes of a place, without a memo.
* `Scan` — anything that looks ahead with a matcher, and what it comes to without a memo.
* `Scan.KeepsPace.run_eq_plain` — with a memo it comes to the same.
* `Scan.KeepsPace.meets_plain` — without one, the state it is run in makes no difference.
* `MatchContext.FirstFound` — what the search for the next match comes to.
-/

namespace QueryLint

namespace MatchContext

variable {c : MatchContext} {α : Type}

/-! ## 1. Scans -/

@[simp] theorem tables_unmemoized : c.unmemoized.tables = c.tables := rfl

@[simp] theorem trimToCode_unmemoized (stop least : Nat) :
    c.unmemoized.trimToCode stop least = c.trimToCode stop least :=
  trimToCode_varied (abreast_self : c.Abreast Eq c.tokens) stop least

@[simp] theorem blankBefore_unmemoized (start i : Nat) :
    c.unmemoized.blankBefore start i = c.blankBefore start i :=
  blankBefore_varied (abreast_self : c.Abreast Eq c.tokens) start i

@[simp] theorem isWordLike_unmemoized (g : GrammarId) :
    c.unmemoized.isWordLike g = c.isWordLike g := rfl

/-- What looks ahead: it calls a matcher in a context. -/
abbrev Scan (α : Type) := MatchContext → Matcher → Matching α

/-- What a grammar makes of a place, worked out without a memo. -/
def plainMatch (c : MatchContext) (n : Nat) (ts : List GrammarId) (limit i : Nat)
    (g : GrammarId) : Match :=
  ((c.unmemoized.matchGrammar n ts limit i g).run {}).1

namespace Scan

/-- What a scan comes to with so many levels, worked out without a memo. -/
def plain (scan : Scan α) (c : MatchContext) (n : Nat) : α :=
  ((scan c.unmemoized (c.unmemoized.matchGrammar n)).run {}).1

/-- A scan reaches the limit of depth, if it is worked out without a memo. -/
def Trips (scan : Scan α) (c : MatchContext) (n : Nat) : Prop :=
  ((scan c.unmemoized (c.unmemoized.guarded n)).run {}).2.Tripped

instance (scan : Scan α) (c : MatchContext) (n : Nat) : Decidable (scan.Trips c n) :=
  inferInstanceAs (Decidable (MatchState.Tripped _))

/-- With matchers that keep side by side, with the memo or without it, a scan comes to the same. -/
def KeepsPace (scan : Scan α) : Prop :=
  ∀ (b : Bond) (c : MatchContext) (memoize : Bool) (run run' : Matcher), Paired b Eq run run' →
    Alongside b Eq (scan c run) (scan (c.varied c.tokens c.tables.segmentTypes memoize) run')

variable {scan : Scan α}

/-- States that hold the same memo, whatever notes are kept in them. -/
theorem paired_guarded (n : Nat) :
    Paired (depthBond False False fun s t => s.memo = t.memo) Eq (c.matchGrammar n)
      (c.guarded n) := fun ts limit i g =>
  ⟨fun _ h => h.1.elim, fun _ h => h.1.elim,
    fun _ _ h => .inr (.inr (run_guarded n ts limit i g h))⟩

/-- Without a memo, what a matcher finds does not depend on what is kept. -/
theorem paired_unmemoized (n : Nat) :
    Paired (depthBond False False fun _ _ => True) Eq (c.unmemoized.matchGrammar n)
      (c.unmemoized.matchGrammar n) := by
  rw [← matchOver_refuse]
  exact paired_matchOver (c := c.unmemoized) (d := c.unmemoized) rfl .ofEq abreast_self
    segmentsAlike_self (notesPaired_self (fun _ _ _ h => h) _) (fun _ _ _ _ => .pure rfl)
    (fun _ h => h) n

namespace KeepsPace

variable (h : scan.KeepsPace)
include h

/-- The note of depth does not change what a scan comes to. -/
theorem run_eq_guarded (n : Nat) {s t : MatchState} (hst : s.memo = t.memo) :
    ((scan c (c.matchGrammar n)).run s).1 = ((scan c (c.guarded n)).run t).1 := by
  rcases (h _ c c.memoize _ _ (paired_guarded n)).agree s t hst with hlost | hlost | ⟨heq, -⟩
  · exact hlost.1.elim
  · exact hlost.1.elim
  · exact heq

/-- With a sincere memo a scan comes to what it does without one, if that does not reach the limit
of depth. -/
theorem run_eq_plain {s : MatchState} (hs : c.Sincere s.memo) {n : Nat}
    (hn : ¬ scan.Trips c n) : ((scan c (c.matchGrammar n)).run s).1 = scan.plain c n := by
  have hpaired : Paired (c.sincereBond False) Eq (c.guarded n) (c.unmemoized.guarded n) :=
    paired_matchOver (c := c) (d := c.unmemoized) rfl .ofEq abreast_self segmentsAlike_self
      (notesPaired_self keepsNotes_besideSincere _) (paired_trip keepsNotes_besideSincere)
      (fun _ => memoPaired_sincere) n
  have hbeside : c.BesideSincere { memo := s.memo } {} := ⟨hs, fun h => by cases h⟩
  rw [h.run_eq_guarded (s := s) n (t := { memo := s.memo }) rfl, plain,
    h.run_eq_guarded (s := {}) n (t := {}) rfl]
  rcases (h _ c false _ _ hpaired).agree _ _ hbeside with hlost | hlost | ⟨heq, -⟩
  · exact hlost.1.elim
  · exact absurd hlost.2 hn
  · exact heq

/-- Without a memo a scan comes to the same in every state. -/
theorem meets_plain (n : Nat) :
    Meets (fun _ => True) (scan c.unmemoized (c.unmemoized.matchGrammar n))
      (· = scan.plain c n) := by
  intro s _
  rcases (h _ c.unmemoized false _ _ (paired_unmemoized n)).agree s {} trivial with
    hlost | hlost | ⟨heq, -⟩
  · exact hlost.1.elim
  · exact hlost.1.elim
  · exact ⟨heq, trivial⟩

end KeepsPace

/-! ## 2. The scans -/

theorem keepsPace_match (ts : List GrammarId) (limit i : Nat) (g : GrammarId) :
    KeepsPace fun _ run => run ts limit i g := fun _ _ _ _ _ hrun => hrun ts limit i g

theorem keepsPace_nextMatch (ts : List GrammarId) (limit i : Nat) (gs : List GrammarId) :
    KeepsPace (·.nextMatch · ts limit i gs) := by
  intro b c memoize run run' hrun
  refine (alongside_nextMatch .ofEq abreast_self hrun ts limit i gs).mono fun r r' hr => ?_
  cases hr with
  | none => rfl
  | some h => exact congrArg some (Prod.ext h.1 h.2)

theorem keepsPace_nextOutsideBrackets (ts : List GrammarId) (limit i : Nat)
    (gs : List GrammarId) : KeepsPace (·.nextOutsideBrackets · ts limit i gs) := by
  intro b c memoize run run' hrun
  refine (alongside_nextOutsideBrackets .ofEq abreast_self hrun ts limit i gs).mono
    fun f f' hf => ?_
  obtain ⟨place, hit, skipped⟩ := f
  obtain ⟨place', hit', skipped'⟩ := f'
  obtain ⟨hplace, hhit, hskipped⟩ := hf
  cases hhit with
  | none => rw [Found.mk.injEq]; exact ⟨hplace, rfl, List.forall₂_eq_eq_eq ▸ hskipped⟩
  | some h =>
    rw [Found.mk.injEq]
    exact ⟨hplace, congrArg some (Prod.ext h.1 h.2), List.forall₂_eq_eq_eq ▸ hskipped⟩

theorem keepsPace_greedy (ts : List GrammarId) (limit i : Nat) (gs : List GrammarId)
    (including nested : Bool) : KeepsPace (·.greedy · ts limit i gs including nested) := by
  intro b c memoize run run' hrun
  exact (alongside_greedy .ofEq abreast_self hrun ts limit i gs including nested).mono
    fun _ _ h => Likeness.ofEq.ofLoose h

theorem keepsPace_trimToTerminator (ts : List GrammarId) (limit i : Nat) (gs : List GrammarId) :
    KeepsPace (·.trimToTerminator · ts limit i gs) := fun _ _ _ _ _ hrun =>
  alongside_trimToTerminator .ofEq abreast_self hrun ts limit i gs

end Scan

/-! ## 3. Plain matches -/

section Plain

variable (n : Nat) (ts : List GrammarId)

/-- In whatever state, a grammar makes the same of a place without a memo. -/
theorem meets_plainMatch (limit i : Nat) (g : GrammarId) :
    Meets (fun _ => True) (c.unmemoized.matchGrammar n ts limit i g)
      (· = c.plainMatch n ts limit i g) :=
  (Scan.keepsPace_match ts limit i g).meets_plain n

/-- Plain matches are all that grammars make without a memo. -/
theorem makes_iff_eq_plainMatch {limit i : Nat} {g : GrammarId} {m : Match} :
    Makes (fun _ => True) (c.unmemoized.matchGrammar n) ts limit i g m ↔
      m = c.plainMatch n ts limit i g :=
  ⟨fun h => h.of_meets (meets_plainMatch n ts limit i g),
    fun h => ⟨{}, _, trivial, by rw [h]; rfl⟩⟩

/-- Without a memo matching is sound in whatever state it is. -/
theorem sound_unmemoized :
    Sound c.unmemoized False False (fun _ => True) (c.unmemoized.matchGrammar n) := by
  intro ts limit i g
  refine (meets_plainMatch n ts limit i g).mono fun m hm => ?_
  rw [hm]
  exact (sound_matchGrammar (c := c.unmemoized) False.elim False.elim n ts limit i g {} .initial).1

/-- A plain match at a place before a limit lies between the two. -/
theorem claims_plainMatch (c : MatchContext) {limit i : Nat} (hi : i < limit) (g : GrammarId) :
    Claims c.unmemoized False False limit i (c.plainMatch n ts limit i g) :=
  ((sound_unmemoized n).claims ts (Nat.le_of_lt hi) g {} trivial).1

end Plain

/-! ## 4. The next match -/

section Next

variable (c) (n : Nat) (ts : List GrammarId) (limit : Nat)

/-- A grammar is found at a place: it is worth trying there, and it matches. -/
def FoundAt (p : Nat) (g : GrammarId) : Prop :=
  p < limit ∧ c.TriesAt p g ∧ (c.plainMatch n ts limit p g).isMatch = true

/-- The first of several grammars that is found from a place on. -/
inductive FirstFound (gs : List GrammarId) (i : Nat) : Option (Match × Nat) → Prop where
  | nowhere (before : ∀ q, i ≤ q → ∀ g ∈ gs, ¬ c.FoundAt n ts limit q g) : FirstFound gs i none
  | somewhere {p k : Nat} {g : GrammarId}
    (before : ∀ q, i ≤ q → q < p → ∀ g ∈ gs, ¬ c.FoundAt n ts limit q g) (le : i ≤ p)
    (grammar : gs[k]? = some g) (found : c.FoundAt n ts limit p g)
    (first : ∀ g ∈ gs.take k, ¬ c.FoundAt n ts limit p g) :
    FirstFound gs i (some (c.plainMatch n ts limit p g, k))

end Next

section Next

variable {n limit : Nat} {ts : List GrammarId}

/-- A place is silent where nothing is found. -/
theorem silent_iff {gs : List GrammarId} {p : Nat} (hp : p < limit) :
    c.unmemoized.Silent (fun _ => True) (c.unmemoized.matchGrammar n) ts limit gs p ↔
      ∀ g ∈ gs, ¬ c.FoundAt n ts limit p g := by
  constructor
  · rintro silent g hg ⟨-, ⟨v, hv, hmarker, hworth⟩, isMatch⟩
    obtain ⟨m, makes, fails⟩ := silent v hv hmarker g hg hworth
    rw [(makes_iff_eq_plainMatch n ts).1 makes, isMatch] at fails
    cases fails
  · intro none v hv hmarker g hg hworth
    refine ⟨_, (makes_iff_eq_plainMatch n ts).2 rfl, ?_⟩
    have unfound := none g hg
    simpa [FoundAt, hp, show c.TriesAt p g from ⟨v, hv, hmarker, hworth⟩] using unfound

/-- The next match is that of the first grammar that is found. -/
theorem meets_nextMatch_firstFound (i : Nat) (gs : List GrammarId) :
    Meets (fun _ => True)
      (c.unmemoized.nextMatch (c.unmemoized.matchGrammar n) ts limit i gs)
      (c.FirstFound n ts limit gs i) := by
  refine (meets_nextMatch_searched i gs fun p g _ =>
    (meets_plainMatch n ts limit p g).trivial).mono fun r hr => ?_
  cases hr with
  | none silent =>
    exact .nowhere fun q hi g hg found => (silent_iff found.1).1 (silent q hi found.1) g hg found
  | some silent le lt grammar tries makes isMatch before =>
    rw [(makes_iff_eq_plainMatch n ts).1 makes] at isMatch ⊢
    exact .somewhere (fun q hi hq => (silent_iff (by omega)).1 (silent q hi hq)) le grammar
      ⟨lt, tries, isMatch⟩ ((silent_iff lt).1 before)

end Next

end MatchContext

end QueryLint
