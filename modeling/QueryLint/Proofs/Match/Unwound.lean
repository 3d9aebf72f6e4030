import QueryLint.Proofs.Match.Delimited
import QueryLint.Proofs.Match.Overlooked

/-!
QueryLint.Proofs.Match.Unwound — brackets are closed as a stack is unwound.

The search for the end of a pair of brackets calls itself for every pair inside, and looks for
brackets of all kinds at once. What it comes to is what a stack machine comes to that reads the
tokens one by one: it pushes the pair of an opening bracket, pops it at the closing one, and fails
at any other closing bracket. That holds for brackets whose texts are all different and single
words: a bracket with a blank in its text is overlooked, wherever it stands.

* `unwind` — the stack machine.
* `Tables.WordBrackets` — brackets of different texts that are single words.
* `MatchContext.bracketAt` — the bracket at a place, by its text.
* `MatchContext.closeBracket_unwinds` — where a pair of brackets ends.
-/

namespace QueryLint

open Matching

/-! ## 1. The stack machine -/

/-- A bracket, with the number of its pair. -/
inductive Bracket where
  | opening (kind : Nat)
  | closing (kind : Nat)
  deriving DecidableEq, Repr

namespace Bracket

/-- What a token does to the stack of the pairs that are open, the innermost on top: an opening
bracket is pushed, and only the closing bracket of the same pair takes it off. -/
def step : Option Bracket → List Nat → Option (List Nat)
  | none, kinds => some kinds
  | some (.opening k), kinds => some (k :: kinds)
  | some (.closing _), [] => none
  | some (.closing k), kind :: kinds => if k = kind then some kinds else none

/-- What lies deeper in the stack makes no difference. -/
theorem step_append (b : Option Bracket) (kind : Nat) (kinds more : List Nat) :
    step b (kind :: (kinds ++ more)) = (step b (kind :: kinds)).map (· ++ more) := by
  rcases b with _ | k | k
  · rfl
  · rfl
  · by_cases hk : k = kind <;> simp [step, hk]

/-- A bracket by its number among all the opening and then all the closing ones. -/
def numbered (count k : Nat) : Bracket := if k < count then .opening k else .closing (k - count)

theorem numbered_opening {count k : Nat} (h : k < count) : numbered count k = .opening k :=
  if_pos h

theorem numbered_closing {count k : Nat} (h : count ≤ k) :
    numbered count k = .closing (k - count) :=
  if_neg (Nat.not_lt.2 h)

end Bracket

/-- How many tokens are read until all pairs on the stack are closed; none if a bracket closes
another pair, or if the tokens end before. -/
def unwind : List Nat → List (Option Bracket) → Option Nat
  | [], _ => some 0
  | _ :: _, [] => none
  | kind :: kinds, b :: bs =>
    (Bracket.step b (kind :: kinds)).bind fun kinds => (unwind kinds bs).map (· + 1)

/-- The pairs on top are closed first, and the rest by the tokens behind. -/
theorem unwind_append (kinds more : List Nat) (bs : List (Option Bracket)) :
    unwind (kinds ++ more) bs =
      (unwind kinds bs).bind fun a => (unwind more (bs.drop a)).map (a + ·) := by
  induction bs generalizing kinds with
  | nil => cases kinds <;> simp [unwind]
  | cons b bs ih =>
    cases kinds with
    | nil => simp [unwind]
    | cons kind kinds =>
      rw [List.cons_append, unwind, unwind, Bracket.step_append]
      cases Bracket.step b (kind :: kinds) with
      | none => rfl
      | some kinds =>
        rw [Option.map_some, Option.bind_some, Option.bind_some, ih]
        cases unwind kinds bs with
        | none => rfl
        | some a =>
          rw [Option.bind_some, Option.map_some, Option.bind_some, List.drop_succ_cons,
            Option.map_map]
          exact congrArg (Option.map · _) (funext fun x => Nat.add_right_comm a x 1)

/-- At most as many tokens are read as there are. -/
theorem unwind_le_length {kinds : List Nat} {bs : List (Option Bracket)} {a : Nat}
    (h : unwind kinds bs = some a) : a ≤ bs.length := by
  induction bs generalizing kinds a with
  | nil => cases kinds <;> simp_all [unwind]
  | cons b bs ih =>
    cases kinds with
    | nil =>
      cases h
      exact Nat.zero_le _
    | cons kind kinds =>
      obtain ⟨kinds, -, hrest⟩ := Option.bind_eq_some_iff.1 h
      obtain ⟨a, hread, rfl⟩ := Option.map_eq_some_iff.1 hrest
      exact Nat.succ_le_succ (ih hread)

/-! ## 2. Places -/

section Places

variable (reading : Nat → Option Bracket) (limit : Nat)

/-- The brackets from a place on, as they are read. -/
def bracketsFrom (i : Nat) : List (Option Bracket) := (List.range' i (limit - i)).map reading

/-- The place where all pairs on the stack are closed, if the tokens from a place on are read. -/
def closedBy (kinds : List Nat) (i : Nat) : Option Nat :=
  (unwind kinds (bracketsFrom reading limit i)).map (i + ·)

variable {reading limit} {kind i p : Nat} {kinds more : List Nat}

@[simp] theorem closedBy_nil : closedBy reading limit [] i = some i := by
  cases h : bracketsFrom reading limit i <;> simp [closedBy, unwind, h]

theorem closedBy_of_le (h : limit ≤ i) : closedBy reading limit (kind :: kinds) i = none := by
  simp [closedBy, bracketsFrom, Nat.sub_eq_zero_of_le h, unwind]

theorem le_of_closedBy {a : Nat} (h : closedBy reading limit kinds i = some a) : i ≤ a := by
  obtain ⟨n, -, rfl⟩ := Option.map_eq_some_iff.1 h
  exact Nat.le_add_right i n

theorem closedBy_le {a : Nat} (h : closedBy reading limit kinds i = some a)
    (hi : i ≤ limit) : a ≤ limit := by
  obtain ⟨n, hn, rfl⟩ := Option.map_eq_some_iff.1 h
  have := unwind_le_length hn
  simp only [bracketsFrom, List.length_map, List.length_range'] at this
  omega

theorem bracketsFrom_of_lt (h : i < limit) :
    bracketsFrom reading limit i = reading i :: bracketsFrom reading limit (i + 1) := by
  rw [bracketsFrom, show limit - i = (limit - (i + 1)) + 1 by omega, List.range'_succ,
    List.map_cons, bracketsFrom]

theorem drop_bracketsFrom (a : Nat) :
    (bracketsFrom reading limit i).drop a = bracketsFrom reading limit (i + a) := by
  rw [bracketsFrom, bracketsFrom, ← List.map_drop, List.drop_range', Nat.mul_one,
    Nat.sub_add_eq]

/-- The token at a place is read first. -/
theorem closedBy_of_lt (h : i < limit) :
    closedBy reading limit (kind :: kinds) i =
      (Bracket.step (reading i) (kind :: kinds)).bind (closedBy reading limit · (i + 1)) := by
  rw [closedBy, bracketsFrom_of_lt h, unwind]
  cases Bracket.step (reading i) (kind :: kinds) with
  | none => rfl
  | some kinds =>
    rw [Option.bind_some, Option.bind_some, closedBy, Option.map_map]
    exact congrArg (Option.map · _) (funext fun x => by simp only [Function.comp_apply]; omega)

/-- The pairs on top are closed first, and the rest from there on. -/
theorem closedBy_append :
    closedBy reading limit (kinds ++ more) i =
      (closedBy reading limit kinds i).bind (closedBy reading limit more) := by
  rw [closedBy, unwind_append, closedBy]
  cases unwind kinds (bracketsFrom reading limit i) with
  | none => rfl
  | some a =>
    rw [Option.bind_some, Option.map_some, Option.bind_some, drop_bracketsFrom, closedBy,
      Option.map_map]
    exact congrArg (Option.map · _) (funext fun x => (Nat.add_assoc i a x).symm)

/-- Where there are no brackets, nothing is closed. -/
theorem closedBy_of_quiet (hip : i ≤ p) (hp : p ≤ limit)
    (quiet : ∀ q, i ≤ q → q < p → reading q = none) :
    closedBy reading limit (kind :: kinds) i = closedBy reading limit (kind :: kinds) p := by
  induction hd : p - i generalizing i with
  | zero =>
    obtain rfl : i = p := by omega
    rfl
  | succ d ih =>
    rw [closedBy_of_lt (by omega), quiet i (Nat.le_refl i) (by omega)]
    exact ih (by omega) (fun q hq => quiet q (by omega)) (by omega)

end Places

/-! ## 3. Brackets by their texts -/

namespace Tables

variable (t : Tables)

/-- The text that a grammar spells: it matches code of that text and nothing else, itself or by way
of references that exclude nothing, so many of them at most. -/
def spelled? : Nat → GrammarId → Option String
  | 0, _ => none
  | n + 1, g =>
    match t.shape g with
    | .string template _ => some template
    | .ref _ (some target) none => spelled? n target
    | _ => none

/-- Brackets that are spelled, with texts that are all different and single words. -/
structure WordBrackets (n : Nat) (pairs : List BracketPair) : Prop where
  words : ∀ g ∈ MatchContext.bracketGrammars pairs,
    (t.spelled? n g).any (fun text => Text.firstWord text == text) = true
  distinct : ((MatchContext.bracketGrammars pairs).map (t.spelled? n)).Nodup

instance (n : Nat) (pairs : List BracketPair) : Decidable (t.WordBrackets n pairs) :=
  decidable_of_iff (_ ∧ _) ⟨fun h => ⟨h.1, h.2⟩, fun h => ⟨h.words, h.distinct⟩⟩

/-- The bracket of a text. -/
def bracket? (n : Nat) (pairs : List BracketPair) (text : String) : Option Bracket :=
  ((MatchContext.bracketGrammars pairs).findIdx? (t.spelled? n · == some text)).map
    (Bracket.numbered pairs.length)

variable {t} {n k : Nat} {pairs : List BracketPair} {g : GrammarId} {text : String}

/-- Brackets of different texts are told by their texts. -/
theorem WordBrackets.bracket?_eq (h : t.WordBrackets n pairs)
    (hg : (MatchContext.bracketGrammars pairs)[k]? = some g) (htext : t.spelled? n g = some text) :
    t.bracket? n pairs text = some (.numbered pairs.length k) := by
  have found : (MatchContext.bracketGrammars pairs).findIdx? (t.spelled? n · == some text) =
      some k := by
    obtain ⟨hk, rfl⟩ := List.getElem?_eq_some_iff.1 hg
    rw [List.findIdx?_eq_some_iff_getElem]
    refine ⟨hk, by simpa using htext, fun j hjk heq => Nat.ne_of_lt hjk ?_⟩
    have hj := Nat.lt_trans hjk hk
    have same : ((MatchContext.bracketGrammars pairs).map (t.spelled? n))[j]? =
        ((MatchContext.bracketGrammars pairs).map (t.spelled? n))[k]? := by
      rw [List.getElem?_map, List.getElem?_map, List.getElem?_eq_getElem hk,
        List.getElem?_eq_getElem hj, Option.map_some, Option.map_some, htext,
        eq_of_beq heq]
    refine (List.getElem?_inj ?_ h.distinct).1 same
    rwa [List.length_map]
  rw [bracket?, found]
  rfl

theorem exists_of_bracket? {b : Bracket} (h : t.bracket? n pairs text = some b) :
    ∃ g ∈ MatchContext.bracketGrammars pairs, t.spelled? n g = some text := by
  obtain ⟨k, hk, -⟩ := Option.map_eq_some_iff.1 h
  obtain ⟨hlt, htext, -⟩ := List.findIdx?_eq_some_iff_getElem.1 hk
  exact ⟨_, List.getElem_mem hlt, eq_of_beq htext⟩

theorem WordBrackets.firstWord_eq (h : t.WordBrackets n pairs)
    (hg : g ∈ MatchContext.bracketGrammars pairs) (htext : t.spelled? n g = some text) :
    Text.firstWord text = text := by
  have word := h.words g hg
  rw [htext] at word
  exact eq_of_beq word

/-- The hint of a grammar admits the text that it spells. -/
theorem admits_of_spelled (hexplained : t.HintsExplained) (h : t.spelled? n g = some text)
    (types : List String) : t.admits g text types = true := by
  induction n generalizing g with
  | zero => cases h
  | succ n ih =>
    cases hhint : t.hint? g with
    | none => simp [admits, hhint]
    | some hint =>
      have explained := hexplained g (by rw [hhint]; rfl)
      unfold HintExplained at explained
      unfold spelled? at h
      split at h
      · next hshape =>
        rw [hshape] at explained
        cases h
        exact explained _
      · next target hshape =>
        rw [hshape] at explained
        exact (explained target rfl).admits _ _ (ih h)
      · cases h

end Tables

namespace MatchContext

variable {c : MatchContext} {I : MatchState → Prop}

/-- There is code of a text at a place before a limit. -/
def ReadsText (c : MatchContext) (limit i : Nat) (text : String) : Prop :=
  ∃ v, c.token? limit i = some v ∧ v.isCode = true ∧ v.upper = text

/-- The bracket at a place, by its text. -/
def bracketAt (c : MatchContext) (n : Nat) (pairs : List BracketPair) (i : Nat) : Option Bracket :=
  ((c.tokens[i]?).filter (·.isCode)).bind fun v => c.tables.bracket? n pairs v.upper

theorem bracketAt_of_token {n limit i : Nat} {pairs : List BracketPair} {v : TokenView}
    (hv : c.token? limit i = some v) (hcode : v.isCode = true) :
    c.bracketAt n pairs i = c.tables.bracket? n pairs v.upper := by
  obtain ⟨-, hv⟩ := token?_eq_some limit i hv
  simp [bracketAt, hv, Option.filter, hcode]

theorem exists_of_bracketAt {n i : Nat} {pairs : List BracketPair} {b : Bracket}
    (h : c.bracketAt n pairs i = some b) :
    ∃ v, c.tokens[i]? = some v ∧ v.isCode = true ∧ c.tables.bracket? n pairs v.upper = some b := by
  obtain ⟨v, hv, hb⟩ := Option.bind_eq_some_iff.1 h
  obtain ⟨hv, hcode⟩ := Option.filter_eq_some_iff.1 hv
  exact ⟨v, hv, hcode, hb⟩

/-! ## 4. Spelled grammars -/

theorem takesIf_matchCode (limit i : Nat) (text type : String) :
    (c.matchCode limit i type (·.upper == text)).TakesIf (c.ReadsText limit i text) i := by
  unfold matchCode ReadsText
  cases hv : c.token? limit i with
  | none => exact .empty (by simp) i
  | some v =>
    dsimp only
    split
    · next h =>
      rw [Bool.and_eq_true, beq_iff_eq] at h
      have spans : (Match.token i type none).Reaches i (i + 1) := ⟨Nat.lt_succ_self i, rfl, rfl⟩
      exact ⟨⟨fun _ => ⟨v, rfl, h⟩, fun _ => spans.isMatch⟩, fun _ => spans⟩
    · next h =>
      refine .empty (fun ⟨w, hw, reads⟩ => h ?_) i
      cases hw
      simpa using reads

/-- Without a memo, a spelled grammar matches code of its text, and nothing is kept. -/
theorem exists_run_of_spelled (hmemo : c.memoize = false) (beyond : Matcher) {n : Nat}
    {g : GrammarId} {text : String} (h : c.tables.spelled? n g = some text) (ts : List GrammarId)
    (limit i : Nat) :
    ∃ m, m.TakesIf (c.ReadsText limit i text) i ∧ c.matchOver beyond n ts limit i g = pure m := by
  induction n generalizing g ts with
  | zero => cases h
  | succ n ih =>
    rw [matchOver_succ, matchLevel]
    unfold matchOne matchShape
    unfold Tables.spelled? at h
    split at h
    · next template type hshape =>
      cases h
      rw [hshape]
      exact ⟨_, (takesIf_matchCode limit i _ type).wrap? _, rfl⟩
    · next name target hshape =>
      rw [hshape]
      dsimp only
      unfold matchReference
      dsimp only
      obtain ⟨m, hm, hrun⟩ := ih h (pushTerminators
        (c.tables.instruction g).flags.resetTerminators (c.tables.terminatorsOf g) ts)
      refine ⟨_, hm.wrap? ((c.tables.segmentType? g).map (.node · g)), ?_⟩
      rw [hmemo, memoized, if_neg Bool.false_ne_true, hrun]
      rfl
    · cases h

/-- A matcher that tells brackets by their texts. -/
def ReadsBrackets (c : MatchContext) (I : MatchState → Prop) (n : Nat) (pairs : List BracketPair)
    (run : Matcher) : Prop :=
  ∀ g ∈ bracketGrammars pairs, ∀ text, c.tables.spelled? n g = some text → ∀ ts limit i,
    Meets I (run ts limit i g) (Match.TakesIf (c.ReadsText limit i text) i)

theorem readsBrackets_unmemoized (n : Nat) (pairs : List BracketPair) :
    c.unmemoized.ReadsBrackets (fun _ => True) n pairs (c.unmemoized.matchGrammar n) := by
  intro g _ text htext ts limit i s _
  obtain ⟨m, hm, hrun⟩ := exists_run_of_spelled (c := c.unmemoized) rfl .refuse htext ts limit i
  rw [← matchOver_refuse, hrun]
  exact ⟨hm, trivial⟩

/-- A sincere memo says the same of brackets as their texts, and stays sincere: brackets are nowhere
too deep. -/
theorem readsBrackets_matchGrammar (n : Nat) (pairs : List BracketPair) :
    c.ReadsBrackets (fun s => c.Sincere s.memo) n pairs (c.matchGrammar n) := by
  intro g hg text htext ts limit i s hs
  have shallow : ¬ c.unmemoized.Trips n ts limit i g {} := by
    obtain ⟨m, -, hrun⟩ := exists_run_of_spelled (c := c.unmemoized) rfl .trip htext ts limit i
    unfold Trips guarded
    rw [hrun]
    exact List.not_mem_nil
  have plain := run_unmemoized_of_sincere hs shallow
  have within := (run_of_sincere (s := { memo := s.memo }) (t := {}) ⟨hs, fun h => by cases h⟩
    shallow).2
  refine ⟨?_, ?_⟩
  · rw [plain]
    exact (readsBrackets_unmemoized n pairs g hg text htext ts limit i {} trivial).1
  · show c.Sincere ((c.matchGrammar n ts limit i g).run s).2.memo
    rw [(run_guarded n ts limit i g (s := s) (t := { memo := s.memo }) rfl).2]
    exact sincere_guarded (s := { memo := s.memo }) hs within

/-! ## 5. The search for brackets -/

/-- What the next bracket is, with its match and its number. -/
inductive NextBracket (reading : Nat → Option Bracket) (limit count i : Nat) :
    Option (Match × Nat) → Prop where
  | none (quiet : ∀ q, i ≤ q → q < limit → reading q = none) :
    NextBracket reading limit count i none
  | some {p k : Nat} {m : Match} (quiet : ∀ q, i ≤ q → q < p → reading q = none) (le : i ≤ p)
    (lt : p < limit) (reads : reading p = some (.numbered count k)) (takes : m.Reaches p (p + 1)) :
    NextBracket reading limit count i (some (m, k))

section Search

variable {n : Nat} {pairs : List BracketPair} {run : Matcher} {ts gs : List GrammarId} {limit : Nat}
  (hwords : c.tables.WordBrackets n pairs) (hreads : c.ReadsBrackets I n pairs run)

include hwords hreads

variable (ts limit) in
theorem meets_bracketGrammar {g : GrammarId} (hg : g ∈ bracketGrammars pairs) (p : Nat) :
    ∃ text, c.tables.spelled? n g = some text ∧
      Meets I (run ts limit p g) (Match.TakesIf (c.ReadsText limit p text) p) := by
  obtain ⟨text, htext, -⟩ := (Option.any_eq_true _ _).1 (hwords.words g hg)
  exact ⟨text, htext, hreads g hg text htext ts limit p⟩

/-- A bracket that matches is the bracket at the place, and it is all that is taken. -/
theorem bracketAt_of_makes {p k : Nat} {g : GrammarId} {m : Match}
    (hg : (bracketGrammars pairs)[k]? = some g) (makes : Makes I run ts limit p g m)
    (isMatch : m.isMatch = true) :
    c.bracketAt n pairs p = some (.numbered pairs.length k) ∧ m.Reaches p (p + 1) := by
  obtain ⟨text, htext, takes⟩ := meets_bracketGrammar ts limit hwords hreads
    (List.mem_of_getElem? hg) p
  have takes := makes.of_meets takes
  obtain ⟨v, hv, hcode, rfl⟩ := takes.isMatch_iff.1 isMatch
  rw [bracketAt_of_token hv hcode, hwords.bracket?_eq hg htext]
  exact ⟨rfl, takes.spans isMatch⟩

variable (hexplained : c.tables.HintsExplained) (hviews : c.ViewsSegments)

include hexplained hviews

/-- Where none of the brackets matches that are worth trying, there is no bracket: their texts are
single words, so all of them are. -/
theorem bracketAt_of_silent {p : Nat} (silent : c.Silent I run ts limit gs p)
    (hsub : ∀ g ∈ bracketGrammars pairs, g ∈ gs) (hp : p < limit) :
    c.bracketAt n pairs p = none := by
  rw [Option.eq_none_iff_forall_ne_some]
  intro b hb
  obtain ⟨v, hv, hcode, hb⟩ := exists_of_bracketAt hb
  obtain ⟨g, hg, htext⟩ := Tables.exists_of_bracket? hb
  have worth := worthTrying_of_admits (Tables.admits_of_spelled hexplained htext _) hcode
    ((hviews.firstWord_eq hv).trans (hwords.firstWord_eq hg htext))
  obtain ⟨m, makes, fails⟩ := silent v hv (hviews.isMarker_eq_false hv hcode) g (hsub g hg) worth
  have takes := makes.of_meets (hreads g hg _ htext ts limit p)
  rw [takes.isMatch_iff.2 ⟨v, by rw [token?, if_pos hp, hv], hcode, rfl⟩] at fails
  cases fails

/-- The search for brackets finds the next one. -/
theorem meets_nextMatch_bracket (i : Nat) :
    Meets I (c.nextMatch run ts limit i (bracketGrammars pairs))
      (NextBracket (c.bracketAt n pairs) limit pairs.length i) := by
  have quiet {q : Nat} (hq : q < limit)
      (silent : c.Silent I run ts limit (bracketGrammars pairs) q) :=
    bracketAt_of_silent hwords hreads hexplained hviews silent (fun _ h => h) hq
  refine (meets_nextMatch_searched i (bracketGrammars pairs) fun p g hg => ?_).mono fun r hr => ?_
  · obtain ⟨text, -, takes⟩ := meets_bracketGrammar ts limit hwords hreads hg p
    exact takes.trivial
  cases hr with
  | none silent => exact .none fun q hi hq => quiet hq (silent q hi hq)
  | some silent le lt grammar _ makes isMatch before =>
    obtain ⟨reads, takes⟩ := bracketAt_of_makes hwords hreads grammar makes isMatch
    exact .some (fun q hi hq => quiet (by omega) (silent q hi hq)) le lt reads takes

/-! ## 6. The end of a pair -/

/-- What comes of a pair of brackets that has been gone through up to a place, with matches in it so
far: it is closed where the stack is empty, by a match of the one token before. -/
structure Unwinds (reading : Nat → Option Bracket) (limit start indentAt kind i : Nat)
    (nested : Bool) (inner : List Match) (r : Option Match) : Prop where
  stop : r.map (·.stop) = closedBy reading limit [kind] i
  closed : ∀ pair, r = some pair → ∃ k between last,
    pair = pairMatch start indentAt k (inner ++ between) last ∧
      last.Reaches (pair.stop - 1) pair.stop ∧ (nested = false → between = [])

omit hwords hreads hexplained hviews in
/-- The bracket that closes the pair ends it. -/
theorem Unwinds.closing {reading : Nat → Option Bracket} {start indentAt kind i p : Nat}
    {nested : Bool} {inner : List Match} {m : Match} (persists : Bool)
    (hclosed : closedBy reading limit [kind] i = some (p + 1)) (takes : m.Reaches p (p + 1)) :
    Unwinds reading limit start indentAt kind i nested inner
      (some (if persists then (pairMatch start indentAt none inner m).wrap .bracketed
        else pairMatch start indentAt none inner m)) := by
  obtain ⟨k, hk⟩ : ∃ k, (if persists then (pairMatch start indentAt none inner m).wrap .bracketed
      else pairMatch start indentAt none inner m) = pairMatch start indentAt k inner m := by
    split
    · exact ⟨_, wrap_pairMatch start indentAt inner m .bracketed⟩
    · exact ⟨none, rfl⟩
  rw [hk]
  refine ⟨?_, ?_⟩
  · rw [hclosed, Option.map_some, stop_pairMatch, takes.stop_eq]
  · rintro pair ⟨⟩
    refine ⟨k, [], m, by rw [List.append_nil], ?_, fun _ => rfl⟩
    rw [stop_pairMatch, takes.stop_eq]
    exact takes

omit hwords hreads hexplained hviews in
/-- Behind a pair inside, the search goes on. -/
theorem Unwinds.behind {reading : Nat → Option Bracket} {start indentAt kind i j : Nat}
    {nested : Bool} {inner : List Match} {pair : Match} {r : Option Match}
    (h : Unwinds reading limit start indentAt kind j nested
      (if nested then inner ++ [pair] else inner) r)
    (hclosed : closedBy reading limit [kind] i = closedBy reading limit [kind] j) :
    Unwinds reading limit start indentAt kind i nested inner r := by
  refine ⟨h.stop.trans hclosed.symm, fun whole hwhole => ?_⟩
  obtain ⟨k, between, last, heq, takes, plain⟩ := h.closed whole hwhole
  refine ⟨k, (if nested then [pair] else []) ++ between, last, ?_, takes, fun hn => ?_⟩
  · rw [heq, ← List.append_assoc]
    cases nested <;> simp
  · simp [hn, plain hn]

/-- Going on after an opening bracket comes to what a stack is unwound to. -/
theorem meets_closeBracketFrom_unwinds (nested : Bool) (fuel : Nat) {kind start indentAt i : Nat}
    {inner : List Match} (hfuel : limit < fuel + i) :
    Meets I (c.closeBracketFrom run ts limit pairs nested fuel kind start indentAt i inner)
      (Unwinds (c.bracketAt n pairs) limit start indentAt kind i nested inner) := by
  induction fuel generalizing kind start indentAt i inner with
  | zero => exact .pure ⟨(closedBy_of_le (by omega)).symm, by simp⟩
  | succ fuel ih =>
    unfold closeBracketFrom
    refine (meets_nextMatch_bracket hwords hreads hexplained hviews i).bind fun r hr => ?_
    cases hr with
    | none quiet =>
      have never : closedBy (c.bracketAt n pairs) limit [kind] i = none := by
        by_cases hi : i ≤ limit
        · rw [closedBy_of_quiet hi (Nat.le_refl _) quiet, closedBy_of_le (Nat.le_refl _)]
        · exact closedBy_of_le (by omega)
      exact .pure ⟨never.symm, by simp⟩
    | @some p k m quiet le lt reads takes =>
      have here : closedBy (c.bracketAt n pairs) limit [kind] i =
          (Bracket.step (some (.numbered pairs.length k)) [kind]).bind
            (closedBy (c.bracketAt n pairs) limit · (p + 1)) := by
        rw [closedBy_of_quiet le (Nat.le_of_lt lt) quiet, closedBy_of_lt lt, reads]
      dsimp only
      refine .ite (fun hclosing => ?_) fun hopening => ?_
      · rw [Bracket.numbered_closing (by omega), Bracket.step] at here
        refine .ite (fun hother => .pure ⟨?_, by simp⟩) fun hsame => .pure (.closing _ ?_ takes)
        · rw [here, if_neg hother]
          rfl
        · rw [here, if_pos (by omega), Option.bind_some, closedBy_nil]
      · rw [Bracket.numbered_opening (by omega), Bracket.step, Option.bind_some,
          show [k, kind] = [k] ++ [kind] from rfl, closedBy_append] at here
        rw [takes.stop_eq]
        refine (ih (by omega)).bind fun r inside => ?_
        rcases r with _ | pair
        · refine .pure ⟨?_, by simp⟩
          rw [here, ← inside.stop]
          rfl
        have closed : closedBy (c.bracketAt n pairs) limit [k] (p + 1) = some pair.stop :=
          inside.stop.symm
        have := le_of_closedBy closed
        refine (ih (by omega)).mono fun r behind => behind.behind ?_
        rw [here, closed, Option.bind_some]

variable (ts limit) in
/-- A pair of brackets ends where a stack is unwound. -/
theorem meets_closeBracket_unwinds (nested : Bool) (kind : Nat) (opening : Match) :
    Meets I (c.closeBracket run ts limit pairs nested kind opening)
      (Unwinds (c.bracketAt n pairs) limit opening.start opening.stop kind opening.stop nested
        [opening]) :=
  meets_closeBracketFrom_unwinds hwords hreads hexplained hviews nested _ (by omega)

end Search

/-- Where a pair of brackets ends that a matched opening bracket begins: right behind the token that
empties a stack, if the tokens are read from the opening bracket on, each opening bracket pushed and
taken off by the closing one of its pair. There is no end if the tokens come to theirs before, or
another bracket comes where one is to be closed. The opening bracket comes first in the pair and the
closing one last. -/
theorem closeBracket_unwinds {b : GrammarBook} (hb : b.compile = .ok c.tables)
    (hviews : c.ViewsSegments) {n : Nat} {pairs : List BracketPair}
    (hwords : c.tables.WordBrackets n pairs) {s : MatchState} (hs : c.Earlier s)
    {ts : List GrammarId} {limit kind : Nat} {nested : Bool} {opening : Match} {r : Option Match}
    (hr : ((c.closeBracket (c.matchGrammar n) ts limit pairs nested kind opening).run s).1 = r) :
    r.map (·.stop) = closedBy (c.bracketAt n pairs) limit [kind] opening.stop ∧
      ∀ pair, r = some pair → pair.start = opening.start ∧ ∃ between closing,
        pair.children = opening :: (between ++ [closing]) ∧
          closing.Reaches (pair.stop - 1) pair.stop := by
  have explained := GrammarBook.hintsExplained_of_compile hb
  obtain ⟨unwinds, -⟩ := meets_closeBracket_unwinds ts limit hwords
    (readsBrackets_matchGrammar n pairs) explained hviews nested kind opening s hs.sincere
  rw [hr] at unwinds
  refine ⟨unwinds.stop, fun pair hpair => ?_⟩
  obtain ⟨k, between, last, rfl, takes, -⟩ := unwinds.closed pair hpair
  exact ⟨rfl, between, last, by simp [pairMatch, Match.children], takes⟩

/-- Round and square brackets. -/
def twoPairsBook : GrammarBook where
  root := "Root"
  definitions := [
    .grammar "Root" (.keyword "a"),
    .grammar "StartRound" (.string "(" "start_bracket"),
    .grammar "EndRound" (.string ")" "end_bracket"),
    .grammar "StartSquare" (.string "[" "start_bracket"),
    .grammar "EndSquare" (.string "]" "end_bracket")]
  brackets := [⟨"round", "StartRound", "EndRound", true⟩,
    ⟨"square", "StartSquare", "EndSquare", false⟩]

/-- Tokens with these brackets declared. -/
def twoPairsContext (texts : List String) : MatchContext :=
  (Parser.ofBook twoPairsBook).context (Parser.wordTokens 0 0 texts)

/-- Where a round bracket is closed that is the first of some tokens. -/
def roundEnd (texts : List String) : Option Nat :=
  let c := twoPairsContext texts
  (((c.closeBracket (c.matchGrammar 3) [] c.size c.tables.bracketPairs true 0
    (.token 0 "start_bracket" none)).run {}).1).map (·.stop)

/-- Around a pair of square brackets a round bracket is closed; where they cross each other it is
not. -/
theorem closeBracket_unwinds_crossing :
    twoPairsBook.compile = .ok (Parser.tablesOf twoPairsBook) ∧
      (Parser.tablesOf twoPairsBook).WordBrackets 3 (Parser.tablesOf twoPairsBook).bracketPairs ∧
      roundEnd ["(", "[", "a", "]", ")", "a"] = some 5 ∧
      roundEnd ["(", "[", "a", ")", "]"] = none := by
  have compiled : twoPairsBook.compile = .ok (Parser.tablesOf twoPairsBook) :=
    Parser.compile_eq_ofBook (by decide +kernel)
  have words : (Parser.tablesOf twoPairsBook).WordBrackets 3
      (Parser.tablesOf twoPairsBook).bracketPairs := by decide +kernel
  have ends (texts : List String) : roundEnd texts = closedBy ((twoPairsContext texts).bracketAt 3
      (twoPairsContext texts).tables.bracketPairs) (twoPairsContext texts).size [0] 1 :=
    (closeBracket_unwinds (c := twoPairsContext texts) compiled (viewsSegments_ofSegments _ _ _)
      words .fresh rfl).1
  refine ⟨compiled, words, ?_, ?_⟩
  · rw [ends]
    decide +kernel
  · rw [ends]
    decide +kernel

/-- Brackets of different texts with blanks in them. -/
def spacedPairBook : GrammarBook where
  root := "Root"
  definitions := [
    .grammar "Root" (.keyword "x"),
    .grammar "Open" (.string "'a b'" "start_bracket"),
    .grammar "Close" (.string "'c d'" "end_bracket")]
  brackets := [⟨"quoted", "Open", "Close", true⟩]

/-- A pair of these brackets around a word, and the word again behind them. -/
def spacedPairContext : MatchContext :=
  (Parser.ofBook spacedPairBook).context (Parser.wordTokens 0 0 ["'a b'", "x", "'c d'", "x"])

/-- Such a pair is not closed, though its closing bracket comes in its place. -/
theorem closeBracket_misses_spaced :
    spacedPairBook.compile = .ok spacedPairContext.tables ∧
      (bracketGrammars spacedPairContext.tables.bracketPairs).map
        (spacedPairContext.tables.spelled? 3) = [some "'A B'", some "'C D'"] ∧
      closedBy (spacedPairContext.bracketAt 3 spacedPairContext.tables.bracketPairs) 3 [0] 1 =
        some 3 ∧
      ((spacedPairContext.closeBracket (spacedPairContext.matchGrammar 3) [] 3
        spacedPairContext.tables.bracketPairs true 0
        (.token 0 "start_bracket" none)).run {}).1.isNone = true :=
  ⟨Parser.compile_eq_ofBook (by decide +kernel), by decide +kernel, by decide +kernel,
    by decide +kernel⟩

end MatchContext

end QueryLint
