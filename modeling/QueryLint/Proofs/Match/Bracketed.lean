import QueryLint.Proofs.Match.Counted
import QueryLint.Proofs.Match.Transparent
import QueryLint.Proofs.Parse

/-!
QueryLint.Proofs.Match.Bracketed — whether a bracketed grammar claims a token twice.

A bracketed grammar puts three matches into one: those of its brackets and the content between
them. Where the content has to end is worked out from the end of the closing bracket, as if that
were one token. Where it is more than one, the content may reach into it. The last token of the
closing bracket is safe from that, and so is the opening bracket.

* `MatchContext.BracketedFrom` — a match of a bracketed grammar with its three parts.
* `MatchContext.PartsInPlace` — how far the parts reach.
* `MatchContext.matchBracketed_times` — which of the parts are disjoint, and how often the segments
  of the match carry a token. They carry each once where closing brackets take one token.
-/

namespace QueryLint

open Segment

namespace MatchContext

variable {c : MatchContext} {apart prompt : Prop} {here below below2 : Matcher}
  {ts : List GrammarId} {limit i : Nat} {id opening closing : GrammarId} {persists : Bool}
  {s : MatchState} {first content last m : Match}

/-! ## 1. The parts of a match -/

/-- A match of a bracketed grammar that comes from the match of the opening bracket, the content,
and the match of the bracket that closes the pair. -/
inductive BracketedFrom (c : MatchContext) (here below below2 : Matcher) (ts : List GrammarId)
    (limit i : Nat) (id opening closing : GrammarId) (persists : Bool) (s : MatchState) :
    Match → Match → Match → Match → Prop
  | mk {first found last : Match} {k : Option MatchClass} {s₁ s₂ s₃ : MatchState}
    (opens : (below ts limit i opening).run s = (first, s₁)) (isMatch : first.isMatch = true)
    (closes : (c.closeBracket here ts limit (c.pairsFor opening closing persists).1 false
      (c.pairsFor opening closing persists).2 first).run s₁ =
        (some (pairMatch first.start first.stop k [first] last), s₂))
    (holds : (c.matchSequence below2 [closing] (c.contentLimit id first.stop last.stop)
      (c.contentStart id first.stop last.stop) (c.sequenceSpec id)).run s₂ = (found, s₃)) :
    BracketedFrom c here below below2 ts limit i id opening closing persists s
      (putBetween (pairMatch first.start first.stop k [first] last)
        (c.fillContent id last.stop found))
      first (c.fillContent id last.stop found) last

theorem BracketedFrom.children_eq
    (h : c.BracketedFrom here below below2 ts limit i id opening closing persists s m first content
      last) : m.children = first :: last :: content.outerChildren := by
  cases h
  rfl

/-- How far the parts of a match of a bracketed grammar reach. -/
structure PartsInPlace (c : MatchContext) (apart prompt : Prop) (limit i : Nat)
    (first content last : Match) : Prop where
  claims : Claims c apart prompt limit i first
  closed : Closed apart limit first.start first.stop [first] last
  tidy : content.Tidy apart
  le_start : first.stop ≤ content.start
  stop_le : content.stop ≤ max (last.stop - 1) first.stop

/-- A pair of brackets is known by the match that closes it. -/
theorem eq_of_pairMatch_eq {start start' at_ at' : Nat} {k k' : Option MatchClass}
    {between between' : List Match} {x y : Match}
    (h : pairMatch start at_ k between x = pairMatch start' at' k' between' y) : x = y := by
  have hchildren : between ++ [x] = between' ++ [y] := congrArg Match.children h
  have hlast := congrArg List.getLast? hchildren
  simpa using hlast

/-- A bracketed grammar that matches puts its match together from three parts. -/
theorem matchBracketed_cases (hhere : Sound c False False (Invariant c False False) here)
    (hbelow : Sound c False False (Invariant c False False) below) (hs : Invariant c False False s)
    (hm : ((c.matchBracketed here below below2 ts limit i id opening closing persists).run s).1 = m)
    (hmatch : m.isMatch = true) :
    ∃ first content last, c.BracketedFrom here below below2 ts limit i id opening closing persists s
      m first content last := by
  have nothing : Match.empty i ≠ m := by
    rintro rfl
    rw [Match.isMatch_empty] at hmatch
    cases hmatch
  unfold matchBracketed at hm
  rcases hfirst : (below ts limit i opening).run s with ⟨first, s₁⟩
  obtain ⟨claims, hs₁⟩ := (hbelow ts limit i opening).of_run hs hfirst
  rw [run_bind_of_run hfirst] at hm
  split at hm
  · exact absurd hm nothing
  next hone =>
  have hone : first.isMatch = true := by simpa using hone
  dsimp only at hm
  rcases hpair : (c.closeBracket here ts limit (c.pairsFor opening closing persists).1 false
    (c.pairsFor opening closing persists).2 first).run s₁ with ⟨pair, s₂⟩
  rw [run_bind_of_run hpair] at hm
  rcases pair with _ | pair
  · exact absurd hm nothing
  have tidy := (claims (.inr hone)).tidy
  obtain ⟨k, between, last, rfl, -, hbetween⟩ :=
    ((meets_closeBracket hhere False.elim ts limit false _ tidy).of_run hs₁ hpair).1 pair rfl
  obtain rfl := hbetween rfl
  dsimp only at hm
  rw [matchContent_eq, stop_pairMatch] at hm
  rcases hfound : (c.matchSequence below2 [closing] (c.contentLimit id first.stop last.stop)
    (c.contentStart id first.stop last.stop) (c.sequenceSpec id)).run s₂ with ⟨found, s₃⟩
  rw [run_bind_of_run hfound] at hm
  split at hm
  · exact absurd hm nothing
  · subst hm
    exact ⟨first, _, last, .mk hfirst hone hpair hfound⟩

/-- The parts of a match reach no further than the places that are worked out for them. -/
theorem BracketedFrom.inPlace {n : Nat} (hapart : apart → c.ExactBrackets)
    (hprompt : prompt → c.tables.IsPrompt)
    (hdeclared : apart → ∃ p ∈ c.tables.bracketPairs, c.resolve p.opening = c.resolve opening)
    (hs : Invariant c apart prompt s)
    (h : c.BracketedFrom (c.searching n) (c.matchGrammar n) (c.matchGrammar (n - 1)) ts limit i id
      opening closing persists s m first content last) :
    c.PartsInPlace apart prompt limit i first content last ∧ Claims c apart prompt limit i m := by
  obtain @⟨first, found, last, k, s₁, s₂, s₃, opens, isMatch, closes, holds⟩ := h
  have reachable (s : MatchState) (hs : Invariant c apart prompt s) : c.Reachable s := hs.reachable
  have here := sound_searching hapart hprompt n
  have below2 := sound_matchGrammar hapart hprompt (n - 1)
  have searchingOne : ClosesByOne apart (Invariant c apart prompt) (c.searching n)
      (c.pairsFor opening closing persists).1 :=
    (closesByOne_searching reachable here hapart).of_closings fun h _ hq =>
      closing_of_mem_pairsFor (hdeclared h) hq
  obtain ⟨claims, hs₁⟩ := (sound_matchGrammar hapart hprompt n ts limit i opening).of_run hs opens
  have claims := claims (.inr isMatch)
  obtain ⟨pairs_close, hs₂⟩ :=
    (meets_closeBracket here searchingOne ts limit false _ claims.tidy).of_run hs₁ closes
  obtain ⟨_, _, last', hpair, closed, hbetween⟩ := pairs_close _ rfl
  obtain rfl := hbetween rfl
  obtain rfl := eq_of_pairMatch_eq hpair
  obtain ⟨starts, -⟩ := (meets_matchSequence below2
    (closesByOne_matchGrammar reachable below2 hapart) _ _ _ _).of_run hs₂ holds
  obtain ⟨tidy, le_start, stop_le⟩ := starts.fillContent
  exact ⟨⟨claims, closed, tidy, le_start, stop_le⟩, closed.putBetween k claims tidy le_start stop_le⟩

/-! ## 2. Disjoint parts -/

namespace PartsInPlace

theorem opening_content (h : c.PartsInPlace apart prompt limit i first content last) :
    first.Disjoint content := .of_le h.le_start

theorem opening_closing (h : c.PartsInPlace apart prompt limit i first content last) :
    first.Disjoint last := .of_le h.closed.le_start

/-- The content stays before the last token of the closing bracket. -/
theorem lt_of_content_takes (h : c.PartsInPlace apart prompt limit i first content last) {p : Nat}
    (hp : content.Takes p) : p + 1 < last.stop := by
  have := h.le_start
  have := h.stop_le
  have := hp.1
  have := hp.2
  omega

/-- The content and the closing bracket are disjoint exactly if the content ends in time. -/
theorem content_closing_iff (h : c.PartsInPlace apart prompt limit i first content last) :
    content.Disjoint last ↔ content.stop ≤ content.start ∨ content.stop ≤ last.start := by
  have := h.stop_le
  have := h.closed.le_start
  have := h.closed.tidy.start_le_stop
  exact Match.disjoint_iff_of_stop_le (by omega)

/-- A closing bracket of one token is disjoint from the content. -/
theorem content_closing (h : c.PartsInPlace apart prompt limit i first content last)
    (hone : last.stop ≤ last.start + 1) : content.Disjoint last := by
  have := h.stop_le
  have := h.closed.le_start
  exact .of_le (by omega)

/-- What is inside the content takes no token that the content does not take. -/
theorem takes_of_mem_outerChildren
    (h : c.PartsInPlace apart prompt limit i first content last) {x : Match}
    (hx : x ∈ content.outerChildren) {p : Nat} (hp : x.Takes p) : content.Takes p := by
  have := h.tidy.outerChildren_inside.bounds x hx
  have := hp.1
  have := hp.2
  exact ⟨by omega, by omega⟩

end PartsInPlace

/-! ## 3. Tokens that are taken twice -/

/-- A pair of brackets takes a token as often as its three parts do. -/
theorem times_putBetween {k : Option MatchClass} {p : Nat} (hfirst : first.start ≤ p)
    (hlast : p < last.stop) :
    (putBetween (pairMatch first.start first.stop k [first] last) content).times p =
      max 1 (first.times p + last.times p + Match.timesAll p content.outerChildren) := by
  have htakes : (putBetween (pairMatch first.start first.stop k [first] last) content).Takes p :=
    ⟨hfirst, hlast⟩
  rw [Match.times_of_takes htakes]
  show max 1 (Match.timesAll p ([first, last] ++ content.outerChildren)) = _
  simp [Nat.add_assoc]

theorem takesOnce_putBetween_iff {k : Option MatchClass} :
    (putBetween (pairMatch first.start first.stop k [first] last) content).TakesOnce ↔
      ∀ p, first.start ≤ p → p < last.stop →
        first.times p + last.times p + Match.timesAll p content.outerChildren ≤ 1 := by
  constructor
  · intro once p hp hp'
    have := once p ⟨hp, hp'⟩
    rw [times_putBetween hp hp'] at this
    omega
  · intro sum p hp
    obtain ⟨hp, hp'⟩ : first.start ≤ p ∧ p < last.stop := hp
    have := sum p hp hp'
    rw [times_putBetween hp hp']
    omega

/-- A pair of brackets takes no token twice exactly if none of its parts does and nothing inside
the content takes a token of the closing bracket. -/
theorem PartsInPlace.takesOnce_iff (h : c.PartsInPlace apart prompt limit i first content last)
    {k : Option MatchClass} :
    (putBetween (pairMatch first.start first.stop k [first] last) content).TakesOnce ↔
      first.TakesOnce ∧ content.TakesOnce ∧ last.TakesOnce ∧
        ∀ x ∈ content.outerChildren, x.Disjoint last := by
  have hopen := h.claims.start_le_stop
  have hclose := h.closed.le_start
  have hend := h.closed.tidy.start_le_stop
  have hfrom := h.le_start
  have hto := h.stop_le
  rw [takesOnce_putBetween_iff, Match.takesOnce_iff_outerChildren (m := content)]
  constructor
  · intro sum
    refine ⟨?_, ?_, ?_, ?_⟩
    · intro p hp
      have := sum p hp.1 (Nat.lt_of_lt_of_le hp.2 (by omega))
      have := Match.one_le_times hp
      omega
    · intro p hp
      have := sum p (Nat.le_trans (by omega) hp.1) (Nat.lt_of_succ_lt (h.lt_of_content_takes hp))
      omega
    · intro p hp
      have := sum p (Nat.le_trans (by omega) hp.1) hp.2
      have := Match.one_le_times hp
      omega
    · intro x hx p hxp hp
      have := sum p (Nat.le_trans (by omega) hp.1) hp.2
      have := Match.one_le_times hp
      have htaken : Match.timesAll p content.outerChildren ≠ 0 := fun hnone =>
        Match.timesAll_eq_zero_iff.1 hnone x hx hxp
      omega
  · rintro ⟨hfirst, hcontent, hlast, hdisjoint⟩ p - -
    have outer_of_not_takes (hp : ¬ content.Takes p) :
        Match.timesAll p content.outerChildren = 0 :=
      Match.timesAll_eq_zero_iff.2 fun x hx hxp => hp (h.takes_of_mem_outerChildren hx hxp)
    -- the token is in the opening bracket, in the closing one, or in neither
    by_cases hp₁ : first.Takes p
    · have one := hfirst p hp₁
      have := Match.times_of_not_takes (h.opening_closing p hp₁)
      have := outer_of_not_takes (h.opening_content p hp₁)
      omega
    have none₁ := Match.times_of_not_takes hp₁
    by_cases hp₂ : last.Takes p
    · have one := hlast p hp₂
      have outer : Match.timesAll p content.outerChildren = 0 :=
        Match.timesAll_eq_zero_iff.2 fun x hx hxp => hdisjoint x hx p hxp hp₂
      omega
    have none₂ := Match.times_of_not_takes hp₂
    by_cases hp₃ : content.Takes p
    · have one := hcontent p hp₃
      omega
    · have := outer_of_not_takes hp₃
      omega

/-! ## 4. Closing brackets of one token and of two -/

/-- A greedy grammar in round brackets that wants a keyword between them, with a grammar for what
closes them. -/
def bracketBook (closing : Grammar) : GrammarBook where
  root := "Root"
  definitions := [
    .grammar "Root" ((Grammar.bracketed [.keyword "a"]).mode .greedy),
    .grammar "Start" (.string "(" "start_bracket"),
    .grammar "End" closing]
  brackets := [⟨"round", "Start", "End", true⟩]

/-- A parenthesis closes the brackets. -/
def oneCloser : Grammar := .string ")" "end_bracket"

/-- A parenthesis with a semicolon after it closes the brackets. -/
def twoClosers : Grammar := .seq [oneCloser, .string ";" "end_bracket"]

/-- The keyword in brackets that one token closes. -/
def oneTokens : List Segment := Parser.wordTokens 0 0 ["(", "a", ")"]

/-- The keyword in brackets that two tokens close. -/
def twoTokens : List Segment := Parser.wordTokens 0 0 ["(", "a", ")", ";"]

def oneContext : MatchContext := (Parser.ofBook (bracketBook oneCloser)).context oneTokens

def twoContext : MatchContext := (Parser.ofBook (bracketBook twoClosers)).context twoTokens

/-- What the grammar makes of the one closing token, worked out without a memo. Nine levels are more
than it takes. -/
def oneMatch : Match :=
  ((oneContext.unmemoized.matchGrammar 9 [] 3 0 oneContext.tables.root).run {}).1

/-- What the grammar makes of the two closing tokens, worked out without a memo, and with as many
levels. -/
def twoMatch : Match :=
  ((twoContext.unmemoized.matchGrammar 9 [] 4 0 twoContext.tables.root).run {}).1

/-- A bracketed grammar that makes no segment matches what its brackets and content do. -/
theorem matchGrammar_of_bracketed {n : Nat}
    (hshape : c.tables.shape id = .bracketed (some (opening, closing, persists)))
    (htype : c.tables.segmentType? id = none) :
    c.matchGrammar (n + 1) ts limit i id =
      c.matchBracketed (c.searching n) (c.matchGrammar n) (c.matchGrammar (n - 1)) ts limit i id
        opening closing persists := by
  rw [matchGrammar_succ, matchLevel]
  unfold matchOne matchShape
  rw [hshape, htype]
  rfl

/-- Without a memo a bracketed grammar matches the same, if that does not reach the limit. -/
theorem run_matchBracketed {n : Nat} (ts : List GrammarId) (limit i : Nat)
    (hshape : c.tables.shape id = .bracketed (some (opening, closing, persists)))
    (htype : c.tables.segmentType? id = none) (hn : ¬ c.unmemoized.Trips (n + 1) ts limit i id {}) :
    ((c.matchBracketed (c.searching n) (c.matchGrammar n) (c.matchGrammar (n - 1)) ts limit i id
        opening closing persists).run {}).1 =
      ((c.unmemoized.matchGrammar (n + 1) ts limit i id).run {}).1 := by
  rw [← matchGrammar_of_bracketed hshape htype]
  exact run_unmemoized_of_sincere .empty hn

theorem exists_brackets {t : Tables}
    (h : (match t.shape id with | .bracketed b => b.isSome | _ => false) = true) :
    ∃ opening closing persists, t.shape id = .bracketed (some (opening, closing, persists)) := by
  split at h
  · next b hb =>
    obtain ⟨⟨opening, closing, persists⟩, rfl⟩ := Option.isSome_iff_exists.1 h
    exact ⟨opening, closing, persists, hb⟩
  · cases h

/-! ## 5. Bracketed grammars -/

/-- A match of a bracketed grammar, in whatever mode it is, is put together from three parts. The
opening bracket is disjoint from the content and from the closing bracket. The content stays before
the last token of the closing bracket, but it is disjoint from it exactly if it takes nothing or
ends before it. The segments of the match carry each token as often as the match takes it, which is
once for all of them exactly if it is once for each part and nothing inside the content takes a
token of the closing bracket. That is so, and the tokens stay in order, in every dialect whose
closing brackets take one token. -/
theorem matchBracketed_times {book : GrammarBook} (hbook : book.compile = .ok c.tables) {n : Nat}
    (hshape : c.tables.shape id = .bracketed (some (opening, closing, persists)))
    (hs : c.Reachable s)
    (hm : ((c.matchBracketed (c.searching n) (c.matchGrammar n) (c.matchGrammar (n - 1)) ts limit i
      id opening closing persists).run s).1 = m)
    (hmatch : m.isMatch = true) {fresh : Nat} {tokens : Array Segment}
    (hlex : IsLexed fresh tokens.toList) :
    ∃ first content last,
      c.BracketedFrom (c.searching n) (c.matchGrammar n) (c.matchGrammar (n - 1)) ts limit i id
        opening closing persists s m first content last ∧
      first.Disjoint content ∧ first.Disjoint last ∧
      (content.Disjoint last ↔ content.stop ≤ content.start ∨ content.stop ≤ last.start) ∧
      (∀ p, content.Takes p → p + 1 < last.stop) ∧
      Match.CarriesTimes fresh tokens ((m.apply tokens).run fresh).1 (fun p => m.times p) ∧
      (m.TakesOnce ↔ first.TakesOnce ∧ content.TakesOnce ∧ last.TakesOnce ∧
        ∀ x ∈ content.outerChildren, x.Disjoint last) ∧
      (c.tables.ClosersTakeOneToken → content.Disjoint last ∧
        Carries fresh ((m.apply tokens).run fresh).1
          (Match.tokensIn tokens m.start m.stop)) := by
  obtain ⟨first, content, last, parts⟩ := matchBracketed_cases
    (sound_searching False.elim False.elim n) (sound_matchGrammar False.elim False.elim n)
    hs.invariant hm hmatch
  obtain ⟨inPlace, claims⟩ := parts.inPlace False.elim False.elim False.elim hs.invariant
  have once : m.TakesOnce ↔ first.TakesOnce ∧ content.TakesOnce ∧ last.TakesOnce ∧
      ∀ x ∈ content.outerChildren, x.Disjoint last := by
    cases parts
    exact inPlace.takesOnce_iff
  have applied := (Match.meets_apply_times hlex claims.tidy fresh (Nat.le_refl fresh)).1
  refine ⟨first, content, last, parts, inPlace.opening_content, inPlace.opening_closing,
    inPlace.content_closing_iff, fun p => inPlace.lt_of_content_takes, applied, once,
    fun hone => ?_⟩
  have brackets : c.ExactBrackets := GrammarBook.exactBrackets_of_compile hbook hone rfl
  obtain ⟨apart, tidy⟩ : c.PartsInPlace True False limit i first content last ∧
      Claims c True False limit i m :=
    parts.inPlace (fun _ => brackets) False.elim
      (fun _ => brackets.declared id opening closing persists hshape)
      (hs.invariant_of (fun _ => brackets) False.elim)
  have closing_one := apart.closed.one trivial
  exact ⟨apart.content_closing (by omega),
    (Match.meets_apply hlex tidy.tidy fresh (Nat.le_refl fresh)).1⟩

/-- The parenthesis that closes the brackets is claimed once. -/
theorem matchBracketed_times_one :
    ∃ opening closing persists first content last,
      oneContext.BracketedFrom (oneContext.searching 8) (oneContext.matchGrammar 8)
        (oneContext.matchGrammar 7) [] 3 0 oneContext.tables.root opening closing persists {}
        oneMatch first content last ∧
      content.Disjoint last ∧
      Carries 3 ((oneMatch.apply oneTokens.toArray).run 3).1
        (Match.tokensIn oneTokens.toArray oneMatch.start oneMatch.stop) := by
  have compiled : (bracketBook oneCloser).compile.isOk = true := by decide +kernel
  have terminal : oneContext.tables.ClosersAreTerminal := by decide +kernel
  have lexed : IsLexed 3 oneTokens.toArray.toList := ⟨by decide, by decide, by decide⟩
  have bracketed : (match oneContext.tables.shape oneContext.tables.root with
    | .bracketed b => b.isSome | _ => false) = true := by decide +kernel
  obtain ⟨opening, closing, persists, hshape⟩ := exists_brackets bracketed
  have run : ((oneContext.matchBracketed (oneContext.searching 8) (oneContext.matchGrammar 8)
      (oneContext.matchGrammar 7) [] 3 0 oneContext.tables.root opening closing persists).run
        {}).1 = oneMatch :=
    run_matchBracketed [] 3 0 hshape (by decide +kernel) (by decide +kernel)
  have isMatch : oneMatch.isMatch = true := by decide +kernel
  obtain ⟨first, content, last, parts, -, -, -, -, -, -, one⟩ :=
    matchBracketed_times (Parser.compile_eq_ofBook compiled) hshape .initial run isMatch lexed
  have once := one (Tables.closersTakeOneToken_of_terminal terminal)
  exact ⟨opening, closing, persists, first, content, last, parts, once⟩

/-- Of the two tokens that close the brackets the content claims the first as well, as a token that
it could not place. It is in the segments of the match twice. -/
theorem matchBracketed_takes_twice :
    (bracketBook twoClosers).compile = .ok twoContext.tables ∧ IsLexed 4 twoTokens ∧
    ∃ opening closing persists first content last,
      twoContext.tables.shape twoContext.tables.root =
        .bracketed (some (opening, closing, persists)) ∧
      ((twoContext.matchBracketed (twoContext.searching 8) (twoContext.matchGrammar 8)
        (twoContext.matchGrammar 7) [] 4 0 twoContext.tables.root opening closing persists).run
          {}).1 = twoMatch ∧
      twoContext.BracketedFrom (twoContext.searching 8) (twoContext.matchGrammar 8)
        (twoContext.matchGrammar 7) [] 4 0 twoContext.tables.root opening closing persists {}
        twoMatch first content last ∧
      twoMatch.start = 0 ∧ twoMatch.stop = 4 ∧ ¬ content.Disjoint last ∧ twoMatch.times 2 = 2 ∧
      rawAll ((twoMatch.apply twoTokens.toArray).run 4).1 = "(a);)" ∧
      rawAll twoTokens = "(a);" := by
  have compiled : (bracketBook twoClosers).compile.isOk = true := by decide +kernel
  have bracketed : (match twoContext.tables.shape twoContext.tables.root with
    | .bracketed b => b.isSome | _ => false) = true := by decide +kernel
  obtain ⟨opening, closing, persists, hshape⟩ := exists_brackets bracketed
  have run : ((twoContext.matchBracketed (twoContext.searching 8) (twoContext.matchGrammar 8)
      (twoContext.matchGrammar 7) [] 4 0 twoContext.tables.root opening closing persists).run
        {}).1 = twoMatch :=
    run_matchBracketed [] 4 0 hshape (by decide +kernel) (by decide +kernel)
  have isMatch : twoMatch.isMatch = true := by decide +kernel
  obtain ⟨first, content, last, parts⟩ := matchBracketed_cases
    (sound_searching False.elim False.elim 8) (sound_matchGrammar False.elim False.elim 8)
    .initial run isMatch
  have inPlace := (parts.inPlace False.elim False.elim False.elim .initial).1
  -- the second match is the closing bracket, and the fourth is what the content could not place
  have both : (twoMatch.children[1]?.any fun x => decide (x.Takes 2)) = true ∧
      (twoMatch.children[3]?.any fun x => decide (x.Takes 2)) = true := by decide +kernel
  rw [parts.children_eq] at both
  obtain ⟨closes, inner⟩ := both
  have closes : last.Takes 2 := by simpa using closes
  obtain ⟨x, hx, hinner⟩ := (Option.any_eq_true _ _).1 inner
  have hx : content.outerChildren[1]? = some x := by simpa using hx
  have holds : content.Takes 2 :=
    inPlace.takes_of_mem_outerChildren (List.mem_of_getElem? hx) (of_decide_eq_true hinner)
  have overlap : ¬ content.Disjoint last := fun disjoint => disjoint 2 holds closes
  exact ⟨Parser.compile_eq_ofBook compiled, ⟨by decide, by decide, by decide⟩, opening, closing,
    persists, first, content, last, hshape, run, parts, by decide +kernel, by decide +kernel,
    overlap, by decide +kernel, by decide +kernel, by decide +kernel⟩

end MatchContext

end QueryLint
