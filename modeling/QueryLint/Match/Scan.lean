import QueryLint.Match.Context

/-!
QueryLint.Match.Scan — looking ahead among the tokens.

Grammars that take everything up to a terminator have to find it, and a terminator inside brackets
does not count. These scans try a few grammars at many places; hints keep the tries few.

* `longest` — the grammar that matches most at a place.
* `nextMatch` — the first place where one of several grammars matches.
* `closeBracket` — the end of a pair of brackets.
* `nextOutsideBrackets`, `greedy`, `trimToTerminator` — terminators outside brackets.
-/

namespace QueryLint

namespace MatchContext

variable (c : MatchContext)

/-! ## 1. Places of code -/

/-- The first place of code from `i` on, or `limit` if there is none before it. -/
def skipToCode (i limit : Nat) : Nat :=
  if _h : i < limit then
    if c.isCodeAt i then i else skipToCode (i + 1) limit
  else i
termination_by limit - i

/-- The place after the last code before `stop`, or `least` if there is none after it. -/
def trimToCode (stop least : Nat) : Nat :=
  if _h : least < stop then
    if c.isCodeAt (stop - 1) then stop else trimToCode (stop - 1) least
  else stop
termination_by stop - least

/-- The first token from `i` on, before `limit`, that is more than white space. -/
def nextSolid? (limit i : Nat) : Option TokenView :=
  if _h : i < limit then
    match c.tokens[i]? with
    | some v => if v.isAllBlank then nextSolid? limit (i + 1) else some v
    | none => none
  else none
termination_by limit - i

/-! ## 2. Pruning and the longest match -/

/-- The grammars that can begin at a place, as far as their hints say. -/
def prune (limit i : Nat) (options : List GrammarId) : List GrammarId :=
  match c.nextSolid? limit i with
  | none => options
  | some v => options.filter fun g => c.tables.admits g v.upper v.segment.classTypes

/-- Whether one of several grammars matches at a place. -/
def anyMatches (run : Matcher) (ts : List GrammarId) (limit i : Nat) :
    List GrammarId → Matching Bool
  | [] => return false
  | g :: rest => do
    if (← run ts limit i g).isMatch then return true
    else anyMatches run ts limit i rest

/-- The best match of a list of grammars and one found before them. A match of all there is ends
the search, and so does a better match with a terminator after it. -/
def longestFrom (here below : Matcher) (ts : List GrammarId) (limit i : Nat)
    (best : Match × Option GrammarId) : List GrammarId → Matching (Match × Option GrammarId)
  | [] => return best
  | g :: rest => do
    let m ← below ts limit i g
    if m.isMatch && m.stop == limit then return (m, some g)
    else if !m.isLongerThan best.1 then longestFrom here below ts limit i best rest
    else if rest.isEmpty then return (m, some g)
    else if ts.isEmpty then longestFrom here below ts limit i (m, some g) rest
    else do
      let next := c.skipToCode m.stop limit
      if next = limit then return (m, some g)
      else if ← anyMatches here ts limit next ts then return (m, some g)
      else longestFrom here below ts limit i (m, some g) rest

/-- The grammar that matches most at a place, the first of several, with its match. -/
def longest (here below : Matcher) (ts : List GrammarId) (limit i : Nat)
    (options : List GrammarId) : Matching (Match × Option GrammarId) :=
  if limit ≤ i then return (.empty i, none)
  else c.longestFrom here below ts limit i (.empty i, none) (c.prune limit i options)

/-! ## 3. The next match -/

/-- A grammar with its hint. -/
structure Target where
  grammar : GrammarId
  hint : Option (List String × List String)

/-- A grammar is worth trying at a token. Without a hint it is tried at code only. -/
def Target.worthTrying (t : Target) (v : TokenView) : Bool :=
  match t.hint with
  | some (raws, types) => raws.contains v.firstWord || types.any v.segment.isType
  | none => v.isCode

/-- The first of several grammars that matches at a place, with its number. -/
def firstMatch (run : Matcher) (ts : List GrammarId) (limit i : Nat) (v : TokenView) :
    Nat → List Target → Matching (Option (Match × Nat))
  | _, [] => return none
  | n, t :: rest => do
    if t.worthTrying v then
      let m ← run ts limit i t.grammar
      if m.isMatch then return some (m, n)
      else firstMatch run ts limit i v (n + 1) rest
    else firstMatch run ts limit i v (n + 1) rest

/-- The first match at one of the next `n` places from `i` on. -/
def matchWithin (run : Matcher) (ts : List GrammarId) (limit : Nat) (targets : List Target) :
    Nat → Nat → Matching (Option (Match × Nat))
  | 0, _ => return none
  | n + 1, i => do
    match c.tokens[i]? with
    | none => return none
    | some v =>
      if v.isMarker then matchWithin run ts limit targets n (i + 1)
      else
        match ← firstMatch run ts limit i v 0 targets with
        | some found => return some found
        | none => matchWithin run ts limit targets n (i + 1)

/-- The first place from `i` on where one of several grammars matches, with the number of the
grammar. -/
def nextMatch (run : Matcher) (ts : List GrammarId) (limit i : Nat) (options : List GrammarId) :
    Matching (Option (Match × Nat)) :=
  c.matchWithin run ts limit (options.map fun g => ⟨g, c.tables.hint? g⟩) (limit - i) i

/-! ## 4. Brackets -/

/-- The grammars of all opening and then all closing brackets. -/
def bracketGrammars (pairs : List BracketPair) : List GrammarId :=
  pairs.map (·.opening) ++ pairs.map (·.closing)

/-- Go on after an opening bracket to the one that closes it. `kind` is the number of its pair, and
`inner` holds the opening bracket and, if they are wanted, the pairs of brackets inside so far.
Every pair takes a token, so there are fewer than there are tokens. -/
def closeBracketFrom (run : Matcher) (ts : List GrammarId) (limit : Nat)
    (pairs : List BracketPair) (nested : Bool) :
    Nat → Nat → Nat → Nat → Nat → List Match → Matching (Option Match)
  | 0, _, _, _, _, _ => return none
  | fuel + 1, kind, start, indentAt, i, inner => do
    match ← c.nextMatch run ts limit i (bracketGrammars pairs) with
    | none => return none
    | some (m, which) =>
      if pairs.length ≤ which then
        if which - pairs.length ≠ kind then return none
        else
          let whole := Match.mk start m.stop none [(indentAt, .indent), (m.start, .dedent)]
            (inner ++ [m])
          return some (if (pairs[kind]?).any (·.persists) then whole.wrap .bracketed else whole)
      else
        match ← closeBracketFrom run ts limit pairs nested fuel which m.start m.stop m.stop [m] with
        | none => return none
        | some b =>
          closeBracketFrom run ts limit pairs nested fuel kind start indentAt b.stop
            (if nested then inner ++ [b] else inner)

/-- The whole pair of brackets that a matched opening bracket begins; none if it is not closed, or
by another bracket. Pairs inside are part of the match only if they are wanted. -/
def closeBracket (run : Matcher) (ts : List GrammarId) (limit : Nat) (pairs : List BracketPair)
    (nested : Bool) (kind : Nat) (opening : Match) : Matching (Option Match) :=
  c.closeBracketFrom run ts limit pairs nested (limit + 2) kind opening.start opening.stop
    opening.stop [opening]

/-- What a search outside brackets found: the match with the number of its grammar, the pairs of
brackets before it, and the place where the search ended if it found nothing. -/
structure Found where
  place : Nat
  hit : Option (Match × Nat) := none
  skipped : List Match := []

/-- Search on from `i`, over the pairs of brackets in `skipped` so far. -/
def outsideFrom (run : Matcher) (ts : List GrammarId) (limit start : Nat)
    (options : List GrammarId) : Nat → Nat → List Match → Matching Found
  | 0, _, _ => return { place := start }
  | fuel + 1, i, skipped => do
    let pairs := c.tables.bracketPairs
    match ← c.nextMatch run ts limit i (options ++ bracketGrammars pairs) with
    | none => return { place := i, skipped := skipped }
    | some (m, which) =>
      if which < options.length then
        return { place := i, hit := some (m, which), skipped := skipped }
      else if options.length + pairs.length ≤ which then return { place := start }
      else
        match ← c.closeBracket run ts limit pairs true (which - options.length) m with
        | none => return { place := start }
        | some b => outsideFrom run ts limit start options fuel b.stop (skipped ++ [b])

/-- The first match of several grammars outside brackets. There is none after a bracket that closes
nothing or is not closed. -/
def nextOutsideBrackets (run : Matcher) (ts : List GrammarId) (limit i : Nat)
    (options : List GrammarId) : Matching Found :=
  c.outsideFrom run ts limit i options (limit + 2) i []

/-! ## 5. Terminators -/

/-- A grammar of words only, by its hint. -/
def isWordLike (g : GrammarId) : Bool :=
  match c.tables.hint? g with
  | some (raws, []) => raws.all fun s => s.toList.all Text.isAlphabetic
  | _ => false

/-- The last token before a place and not before `start`, markers aside, is white space. -/
def blankBefore (start : Nat) : Nat → Bool
  | 0 => false
  | i + 1 =>
    if i < start then false
    else
      match c.tokens[i]? with
      | none => false
      | some v =>
        if v.isMarker then blankBefore start i
        else v.segment.isType "whitespace" || v.segment.isType "newline"

/-- Everything from `i` up to the first terminator, which may be included. `at_` is the place to
search on from, and `inner` holds the pairs of brackets so far. A terminator of words counts only
after white space, so that a name after a dot ends nothing. -/
def greedyFrom (below : Matcher) (ts : List GrammarId) (limit i : Nat) (options : List GrammarId)
    (including nested : Bool) : Nat → Nat → List Match → Matching Match
  | 0, _, inner => return .mk i limit none [] inner
  | fuel + 1, at_, inner => do
    let found ← c.nextOutsideBrackets below ts limit at_ options
    let inner := if nested then inner ++ found.skipped else inner
    match found.hit with
    | none => return .mk i limit none [] inner
    | some (m, which) =>
      if c.isWordLike (options.getD which default) && m.start ≠ at_ &&
          !c.blankBefore at_ m.start then
        greedyFrom below ts limit i options including nested fuel m.stop inner
      else if including then return .mk i m.stop none [] inner
      else
        let stop := c.trimToCode m.start i
        let stop := if stop = i then m.start else stop
        return .mk i stop none [] (inner.filter (·.stop ≤ stop))

/-- Everything from `i` up to the first terminator outside brackets. -/
def greedy (below : Matcher) (ts : List GrammarId) (limit i : Nat) (options : List GrammarId)
    (including nested : Bool) : Matching Match :=
  c.greedyFrom below ts limit i options including nested (limit + 2) i []

/-- Where a greedy grammar that starts at `i` has to stop; `i` itself if a terminator starts
there. -/
def trimToTerminator (below : Matcher) (ts : List GrammarId) (limit i : Nat)
    (terminators : List GrammarId) : Matching Nat := do
  if limit ≤ i || terminators.isEmpty then return limit
  else if ← anyMatches below ts limit i (c.prune limit i terminators) then return i
  else
    match (← c.nextOutsideBrackets below ts limit i terminators).hit with
    | some (m, _) => return c.trimToCode m.start i
    | none => return limit

end MatchContext

end QueryLint
