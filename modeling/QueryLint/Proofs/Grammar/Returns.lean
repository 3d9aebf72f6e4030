import QueryLint.Proofs.Grammar.Brackets
import QueryLint.Proofs.Match.Rounds
import QueryLint.Proofs.Parse

/-!
QueryLint.Proofs.Grammar.Returns — matching comes back, whatever the grammar.

A grammar may begin with itself, terminators are grammars too, and a match may take no token. What
keeps matching from going on for ever is two things that have nothing to do with each other.

* Calls inside calls have fewer levels left, and with none left nothing is called. The search for
  brackets is the one call that stays on its level. But what it looks for are references, which go a
  level deeper before they call anything; so a level can be told by its own matcher and the two
  below.
* Loops go on at the same level, and so need an end of their own. Every round moves on in the
  tokens. That is so where what opens a pair of brackets takes a token.

* `Tables.OpenersTakeTokens` — what opens brackets does not match by its markers alone.
* `GrammarBook.matchGrammar_eq` — a level by its own matcher and the two below.
* `GrammarBook.matchGrammar_returns` — both together, for the tables of any book.
-/

namespace QueryLint

open Matching

/-- Wherever it matches, what opens a declared pair of brackets takes a token. -/
def Tables.OpenersTakeTokens (t : Tables) : Prop :=
  ∀ c : MatchContext, c.tables = t → ∀ p ∈ t.bracketPairs, ∀ n ts limit i s, c.Reachable s →
    ((c.matchGrammar n ts limit i p.opening).run s).1.isMatch = true →
      ((c.matchGrammar n ts limit i p.opening).run s).1.start <
        ((c.matchGrammar n ts limit i p.opening).run s).1.stop

/-- What opens every declared pair of brackets refers to a terminal grammar. -/
def Tables.OpenersAreTerminal (t : Tables) : Prop :=
  ∀ p ∈ t.bracketPairs, (t.instruction p.opening).kind = .ref ∧
    t.parameter p.opening 1 ≠ GrammarId.absent ∧
    (t.instruction ⟨t.parameter p.opening 1⟩).kind.isTerminal = true

instance (t : Tables) : Decidable t.OpenersAreTerminal :=
  inferInstanceAs (Decidable (∀ p ∈ t.bracketPairs, _))

/-- Brackets whose opening ones are terminals take tokens. -/
theorem Tables.openersTakeTokens_of_terminal {t : Tables} (h : t.OpenersAreTerminal) :
    t.OpenersTakeTokens := by
  rintro c rfl p hp n ts limit i s hs hmatch
  obtain ⟨hkind, hslot, hterminal⟩ := h p hp
  have one := MatchContext.takesOneToken_of_terminal (shape_of_reference hkind hslot) hterminal
    n ts limit i s hs hmatch
  omega

namespace MatchContext

variable {c : MatchContext}

/-! ## 1. The search for brackets -/

section Searches

variable {run run' : Matcher} {ts : List GrammarId} {limit : Nat}

theorem firstMatch_congr {i : Nat} (v : TokenView) (n : Nat) (targets : List Target)
    (h : ∀ t ∈ targets, run ts limit i t.grammar = run' ts limit i t.grammar) :
    firstMatch run ts limit i v n targets = firstMatch run' ts limit i v n targets := by
  induction targets generalizing n with
  | nil => rfl
  | cons t targets ih =>
    have later := ih (n + 1) fun t ht => h t (by simp [ht])
    rw [firstMatch, firstMatch, h t (by simp), later]

/-- A search only calls the grammars it looks for. -/
theorem nextMatch_congr (i : Nat) {gs : List GrammarId}
    (h : ∀ g ∈ gs, ∀ place, run ts limit place g = run' ts limit place g) :
    c.nextMatch run ts limit i gs = c.nextMatch run' ts limit i gs := by
  have within (n : Nat) (i : Nat) :
      c.matchWithin run ts limit (gs.map fun g => ⟨g, c.tables.hint? g⟩) n i =
        c.matchWithin run' ts limit (gs.map fun g => ⟨g, c.tables.hint? g⟩) n i := by
    induction n generalizing i with
    | zero => rfl
    | succ n ih =>
      have first (v : TokenView) := firstMatch_congr (i := i) v 0
        (gs.map fun g => ⟨g, c.tables.hint? g⟩) fun t ht => by
          obtain ⟨g, hg, rfl⟩ := List.mem_map.1 ht
          exact h g hg i
      rw [matchWithin, matchWithin]
      simp only [first, ih]
  exact within _ i

/-- Closing brackets only calls what opens and what closes them. -/
theorem closeBracketFrom_congr {pairs : List BracketPair} (nested : Bool)
    (h : ∀ g ∈ bracketGrammars pairs, ∀ place, run ts limit place g = run' ts limit place g)
    (n kind start indentAt i : Nat) (inner : List Match) :
    c.closeBracketFrom run ts limit pairs nested n kind start indentAt i inner =
      c.closeBracketFrom run' ts limit pairs nested n kind start indentAt i inner := by
  induction n generalizing kind start indentAt i inner with
  | zero => rfl
  | succ n ih =>
    rw [closeBracketFrom, closeBracketFrom, nextMatch_congr i h]
    simp only [ih]

end Searches

/-- On its own level a grammar calls only what opens and what closes brackets. -/
theorem matchOne_congr {here here' below below2 : Matcher}
    (h : ∀ id opening closing persists,
      c.tables.shape id = .bracketed (some (opening, closing, persists)) →
      ∀ g ∈ bracketGrammars (c.pairsFor opening closing persists).1, ∀ ts limit i,
        here ts limit i g = here' ts limit i g) :
    c.matchOne here below below2 = c.matchOne here' below below2 := by
  funext ts limit i id
  have shaped : c.matchShape here below below2 ts limit i id =
      c.matchShape here' below below2 ts limit i id := by
    unfold matchShape
    split <;> try rfl
    next opening closing persists hshape =>
    unfold matchBracketed closeBracket
    refine bind_congr fun first => ?_
    dsimp only
    rw [closeBracketFrom_congr false fun g hg place => h id _ _ _ hshape g hg ts limit place]
  unfold matchOne
  rw [shaped]

end MatchContext

namespace GrammarBook

variable {b : GrammarBook} {t : Tables} {c : MatchContext}

/-- On their own level the brackets of a grammar only call levels below: they are references. -/
theorem matchGrammar_bracket (h : b.compile = .ok t) (hc : c.tables = t)
    {id opening closing : GrammarId} {persists : Bool}
    (hshape : c.tables.shape id = .bracketed (some (opening, closing, persists))) {g : GrammarId}
    (hg : g ∈ MatchContext.bracketGrammars (c.pairsFor opening closing persists).1) (n : Nat)
    (ts : List GrammarId) (limit i : Nat) :
    c.matchGrammar (n + 1) ts limit i g =
      c.matchOne .refuse (c.matchGrammar n) (c.matchGrammar (n - 1)) ts limit i g := by
  subst hc
  obtain ⟨p, hp, target, ho, ho'⟩ := declared_of_compile h hshape
  have declared : ∃ p ∈ c.tables.bracketPairs, c.resolve p.opening = c.resolve opening :=
    ⟨p, hp, resolve_eq_of_refersTo ho ho'⟩
  have kind : (c.tables.instruction g).kind = .ref := by
    simp only [MatchContext.bracketGrammars, List.mem_append, List.mem_map] at hg
    rcases hg with ⟨q, hq, rfl⟩ | ⟨q, hq, rfl⟩ <;>
      obtain ⟨p, hp, hopening, hclosing⟩ := MatchContext.declared_of_mem_pairsFor declared hq
    · rw [← hopening]
      exact (kind_of_mem_bracketPairs h hp).1
    · rw [← hclosing]
      exact (kind_of_mem_bracketPairs h hp).2
  rw [MatchContext.matchGrammar_succ, MatchContext.matchLevel]
  exact MatchContext.matchOne_of_ref kind .refuse ts limit i

/-- A level by its own matcher and the two below it. The search for brackets is a call of the level
itself, since all it calls are references. -/
theorem matchGrammar_eq (h : b.compile = .ok t) (hc : c.tables = t) (n : Nat) :
    c.matchGrammar (n + 1) =
      c.matchOne (c.matchGrammar (n + 1)) (c.matchGrammar n) (c.matchGrammar (n - 1)) := by
  have searching : c.matchOne (c.matchGrammar (n + 1)) (c.matchGrammar n)
        (c.matchGrammar (n - 1)) =
      c.matchOne (c.searching n) (c.matchGrammar n) (c.matchGrammar (n - 1)) :=
    MatchContext.matchOne_congr fun _ _ _ _ hshape _ hg ts limit i =>
      matchGrammar_bracket h hc hshape hg n ts limit i
  rw [searching]
  exact MatchContext.matchGrammar_succ n

/-! ## 2. All calls come back -/

/-- Matching comes back, for the tables of any book of which no opening bracket matches by its
markers alone: whatever the tokens, the terminators and the limit of depth, and from every state
that matching can be in. With no level left nothing is called. Otherwise a grammar calls its own
level for brackets only, which are references, and levels below for everything else; its loops end
without a bound, as they do with the bounds they have; and it leaves a state that matching can be
in. -/
theorem matchGrammar_returns (h : b.compile = .ok t) (hopens : t.OpenersTakeTokens)
    (hc : c.tables = t) :
    c.matchGrammar 0 = .refuse ∧
      (∀ n, c.matchGrammar (n + 1) =
        c.matchOne (c.matchGrammar (n + 1)) (c.matchGrammar n) (c.matchGrammar (n - 1))) ∧
      (∀ id opening closing persists,
        c.tables.shape id = .bracketed (some (opening, closing, persists)) →
        ∀ g ∈ MatchContext.bracketGrammars (c.pairsFor opening closing persists).1,
          ∀ n ts limit i, c.matchGrammar (n + 1) ts limit i g =
            c.matchOne .refuse (c.matchGrammar n) (c.matchGrammar (n - 1)) ts limit i g) ∧
      ∀ n s, c.Reachable s → c.LoopsEnd (c.matchGrammar n) (c.matchGrammar (n - 1)) s ∧
        ∀ ts limit i g, c.Reachable ((c.matchGrammar n ts limit i g).run s).2 := by
  refine ⟨rfl, matchGrammar_eq h hc,
    fun id opening closing persists hshape g hg => matchGrammar_bracket h hc hshape hg,
    fun n s hs => ⟨?_, fun ts limit i g => (MatchContext.reachable_matchGrammar n ts limit i g s
      hs).2⟩⟩
  have anchored (n : Nat) := MatchContext.anchored_matchGrammar (c := c) n
  have sound (n : Nat) := (anchored n).sound
    (MatchContext.sound_matchGrammar False.elim False.elim n)
  subst hc
  refine MatchContext.loopsEnd_of_sound (sound n) (sound (n - 1)) (anchored (n - 1))
    (fun _ notes hs => hs.note notes) (fun p hp ts limit i s hs => ?_)
    (fun id opening closing persists hshape => ?_) hs.anchored
  · exact ⟨hopens c rfl p hp n ts limit i s hs.reachable, (anchored n ts limit i p.opening s hs).2⟩
  · obtain ⟨p, hp, target, ho, ho'⟩ := declared_of_compile h hshape
    exact ⟨p, hp, resolve_eq_of_refersTo ho ho'⟩

/-- A grammar that begins with itself, directly and by way of another, with brackets around it. -/
def recursiveBook : GrammarBook where
  root := "Root"
  definitions := [
    .grammar "Root" (.oneOf [.ref "Root", .ref "Other", .bracketed [.ref "Root"], .keyword "a"]),
    .grammar "Other" (.seq [.ref "Root", .keyword "a"]),
    .grammar "Start" (.string "(" "start_bracket"),
    .grammar "End" (.string ")" "end_bracket")]
  brackets := [⟨"round", "Start", "End", true⟩]

theorem matchGrammar_returns_recursive :
    recursiveBook.compile = .ok (Parser.ofBook recursiveBook).dialect.tables ∧
      (Parser.ofBook recursiveBook).dialect.tables.OpenersTakeTokens ∧
      ((Parser.ofBook recursiveBook).context (Parser.wordTokens 0 0 ["(", "a", ")"])).LoopsEnd
        (((Parser.ofBook recursiveBook).context
          (Parser.wordTokens 0 0 ["(", "a", ")"])).matchGrammar 9)
        (((Parser.ofBook recursiveBook).context
          (Parser.wordTokens 0 0 ["(", "a", ")"])).matchGrammar 8) {} := by
  have compiled : recursiveBook.compile.isOk = true := by decide +kernel
  have terminal : (Parser.tablesOf recursiveBook).OpenersAreTerminal := by decide +kernel
  have opens := Tables.openersTakeTokens_of_terminal terminal
  exact ⟨Parser.compile_eq_ofBook compiled, opens,
    ((matchGrammar_returns (Parser.compile_eq_ofBook compiled) opens rfl).2.2.2 9 {} .initial).1⟩

end GrammarBook

end QueryLint
