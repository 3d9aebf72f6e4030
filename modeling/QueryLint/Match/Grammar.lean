import QueryLint.Match.Scan

/-!
QueryLint.Match.Grammar — matching grammars.

A grammar that refers to others matches them one level deeper, and beyond a number of levels nothing
matches. Three matchers stand for the levels in question: `here` for the level of the grammar
itself, `below` for the next and `below2` for the one after it. Only the search for brackets stays
on its level: what opens or closes a bracket is a reference, which goes deeper by itself.

Grammars never fail on bad input. A strict one matches nothing then; a greedy one takes all it may
and says what it could not place.

* `matchSequence`, `matchAnyNumberOf`, `matchDelimited`, `matchBracketed` — grammars of parts.
* `matchGrammar` — any grammar, with so many levels left.
-/

namespace QueryLint

/-- What is said of a part of a greedy grammar that is left over. -/
def nothingHere : String := "Nothing here."

namespace MatchContext

variable (c : MatchContext)

/-! ## 1. Terminators and tokens -/

/-- The terminators of a grammar and then those around it, unless it hides them. -/
def allTerminators (own : List GrammarId) (reset : Bool) (ts : List GrammarId) :
    List GrammarId :=
  own ++ (if reset then [] else ts.filter (!own.contains ·))

/-- Follow references to the grammar they name. The chain is no longer than the tables. -/
def resolve (id : GrammarId) : GrammarId :=
  follow c.tables.size id
where
  /-- Follow so many references. -/
  follow : Nat → GrammarId → GrammarId
    | 0, id => id
    | n + 1, id =>
      match c.tables.shape id with
      | .ref _ (some target) _ => follow n target
      | _ => id

/-- The marker that a marker grammar puts in under the settings. -/
def enabledMarker? (id : GrammarId) : Option MarkerKind :=
  match c.tables.shape id with
  | .marker kind none => kind
  | .marker kind (some (key, value)) => if c.setting? key = some value then kind else none
  | _ => none

/-- Code whose text in upper case satisfies a test, as a token of a type. -/
def matchCode (limit i : Nat) (type : String) (test : TokenView → Bool) : Match :=
  match c.token? limit i with
  | some v => if v.isCode && test v then .token i type none else .empty i
  | none => .empty i

/-- A token by a type it counts as, with its normalised text if the grammar normalises. -/
def matchTyped (limit i : Nat) (id : GrammarId) (template type : String) : Match :=
  match c.token? limit i with
  | some v =>
    if v.segment.isType template then
      let trim := c.tables.trim id
      let fold := c.tables.casefold id
      .token i type
        (if trim.isEmpty && fold == .none then none
        else some (fold.apply (trim.foldl Text.trimCopies v.segment.raw)))
    else .empty i
  | none => .empty i

/-- A token whose whole text matches a pattern, but not another. -/
def matchPattern (limit i : Nat) (text anti : Option TablePattern) (type : String) : Match :=
  match text with
  | none => .empty i
  | some p =>
    c.matchCode limit i type fun v =>
      let raw := v.segment.raw
      !raw.isEmpty && p.pattern.isMatch raw && !anti.any (·.pattern.isMatch raw)

/-- Tokens of code that a greedy grammar leaves over between two places. -/
def leftover (start stop : Nat) : Option Match :=
  let first := c.skipToCode start stop
  let last := c.trimToCode stop first
  if first < last then some (.unparsable first last nothingHere) else none

/-! ## 2. Sequences -/

/-- A sequence, also as the content of brackets. -/
structure SequenceSpec where
  parts : List GrammarId
  mode : ParseMode
  allowGaps : Bool
  terminators : List GrammarId
  reset : Bool

/-- How far a sequence has been matched. -/
structure SequenceState where
  /-- The place after what is matched. -/
  place : Nat
  limit : Nat
  inserts : List (Nat × MarkerKind) := []
  children : List Match := []
  /-- Markers that wait for the next part, since they go before or after the gap to it. -/
  waiting : List MarkerKind := []
  /-- Nothing has been matched yet. -/
  isFirst : Bool := true

namespace SequenceState

/-- The markers that wait, put in at a place. -/
def placed (s : SequenceState) (i : Nat) : List (Nat × MarkerKind) :=
  s.inserts ++ s.waiting.map (i, ·)

/-- Where waiting markers go: before the gap to the next part, at `i`, unless one of them lowers the
indentation. -/
def waitingPlace (s : SequenceState) (i : Nat) : Nat :=
  if s.waiting.all (0 ≤ ·.indentation) then s.place else i

end SequenceState

/-- The specification of a sequence grammar. -/
def sequenceSpec (id : GrammarId) : SequenceSpec :=
  let i := c.tables.instruction id
  ⟨c.tables.parts id, i.mode, i.flags.allowGaps, c.tables.terminatorsOf id,
    i.flags.resetTerminators⟩

/-- The match of a sequence of which all parts have been dealt with. What a greedy one leaves over
could not be placed. -/
def finishSequence (spec : SequenceSpec) (start : Nat) (s : SequenceState) : Match :=
  let inserts := s.placed s.place
  match (if spec.mode ≠ .strict then c.leftover s.place s.limit else none) with
  | some m => .mk start m.stop none inserts (s.children ++ [m])
  | none => .mk start s.place none inserts s.children

/-- The match of a sequence that needs another part where nothing is left. -/
def endedSequence (spec : SequenceSpec) (start : Nat) (s : SequenceState) (part : GrammarId) :
    Match :=
  if spec.mode = .strict || s.place = start then .empty start
  else
    (Match.mk start s.place none (s.placed s.place) s.children).wrap (.unparsable
      (c.tables.describe part ++ " after " ++ c.displayAt (s.place - 1) ++ ". Found nothing."))

/-- The match of a sequence of which a part does not match at `i`. -/
def failedSequence (spec : SequenceSpec) (start : Nat) (s : SequenceState) (part : GrammarId)
    (i : Nat) : Match :=
  let wanted := c.tables.describe part
  let found := ". Found " ++ c.displayAt i
  match spec.mode, decide (s.place = start) with
  | .strict, _ | .greedyOnceStarted, true => .empty start
  | .greedy, true => .unparsable start s.limit (wanted ++ " to start sequence" ++ found)
  | _, false =>
    .mk start s.limit none s.inserts (s.children ++
      [.unparsable i s.limit (wanted ++ " after " ++ c.displayAt (s.place - 1) ++ found)])

/-- Match the parts of a sequence that are left. -/
def sequenceFrom (below : Matcher) (ts : List GrammarId) (limit start : Nat)
    (spec : SequenceSpec) : SequenceState → List GrammarId → Matching Match
  | s, [] => return c.finishSequence spec start s
  | s, g :: rest => do
    let inst := c.tables.instruction g
    if inst.kind = .marker then
      sequenceFrom below ts limit start spec
        { s with waiting := s.waiting ++ (c.enabledMarker? g).toList } rest
    else
      let i := if spec.allowGaps then c.skipToCode s.place s.limit else s.place
      if s.limit ≤ i then
        if inst.isOptional then sequenceFrom below ts limit start spec s rest
        else return c.endedSequence spec start s g
      else
        let m ← below (pushTerminators spec.reset spec.terminators ts) s.limit i g
        if !m.isMatch then
          if inst.isOptional then sequenceFrom below ts limit start spec s rest
          else return c.failedSequence spec start s g i
        else
          let bound ←
            if s.isFirst && spec.mode == .greedyOnceStarted then
              c.trimToTerminator below ts limit m.stop
                (allTerminators spec.terminators spec.reset ts)
            else pure s.limit
          sequenceFrom below ts limit start spec {
            place := m.stop
            limit := bound
            inserts := s.placed (s.waitingPlace i) ++ m.outerInserts
            children := s.children ++ m.outerChildren
            isFirst := false } rest

/-- All parts in order. -/
def matchSequence (below : Matcher) (ts : List GrammarId) (limit i : Nat) (spec : SequenceSpec) :
    Matching Match := do
  let bound ←
    if spec.mode = .greedy then
      c.trimToTerminator below ts limit i (allTerminators spec.terminators spec.reset ts)
    else pure limit
  c.sequenceFrom below ts limit i spec { place := i, limit := bound } spec.parts

/-! ## 3. Choices and repetitions -/

/-- Bounds of a repetition. -/
structure Repetition where
  least : Nat
  most : Option Nat
  perPart : Option Nat

/-- How far a repetition has been matched. -/
structure RepetitionState where
  matched : Match
  count : Nat := 0
  counts : List (GrammarId × Nat) := []
  /-- The place after what is matched, and the place to go on from. -/
  place : Nat
  next : Nat

/-- How often a grammar has been matched. -/
def timesOf (g : GrammarId) (counts : List (GrammarId × Nat)) : Nat := (counts.lookup g).getD 0

/-- Match on until there are enough repetitions or no part matches. A match of nothing, if there are
too few. -/
def repeatFrom (below below2 : Matcher) (ts : List GrammarId) (limit start : Nat)
    (allowGaps : Bool) (r : Repetition) (options : List GrammarId) :
    Nat → RepetitionState → Matching (Option RepetitionState)
  | 0, s => return some s
  | fuel + 1, s => do
    if r.least ≤ s.count && (r.most.any (· ≤ s.count) || limit ≤ s.place) then return some s
    else if limit ≤ s.place then return none
    else
      let (m, option) ← c.longest below below2 ts limit s.next options
      if m.isEmpty then
        return some (if s.count < r.least then { s with matched := .empty start } else s)
      else
        let times := (option.map fun g => timesOf g s.counts + 1).getD 0
        if r.perPart.any (· < times) then return some s
        else
          let matched := s.matched.append m
          repeatFrom below below2 ts limit start allowGaps r options fuel {
            matched := matched
            count := s.count + 1
            counts := (option.map fun g => (g, times)).toList ++ s.counts
            place := matched.stop
            next := if allowGaps then c.skipToCode matched.stop limit else matched.stop }

/-- What a grammar excludes, if it excludes anything, matches at a place. -/
def matchesExcluded (below : Matcher) (ts : List GrammarId) (limit i : Nat) :
    Option GrammarId → Matching Bool
  | none => return false
  | some x => do return (← below ts limit i x).isMatch

/-- Any number of parts, each the one that matches most. -/
def matchAnyNumberOf (below below2 : Matcher) (ts : List GrammarId) (limit i : Nat)
    (id : GrammarId) (r : Repetition) (exclude : Option GrammarId) : Matching Match := do
  if ← matchesExcluded below ts limit i exclude then return .empty i
  else
    let inst := c.tables.instruction id
    let own := c.tables.terminatorsOf id
    let reset := inst.flags.resetTerminators
    let bound ←
      if inst.mode = .greedy then c.trimToTerminator below ts limit i (allTerminators own reset ts)
      else pure limit
    match ← c.repeatFrom below below2 (pushTerminators reset own ts) bound i inst.flags.allowGaps r
        (c.tables.parts id) (limit + 1) { matched := .empty i, place := i, next := i } with
    | none => return .empty i
    | some s =>
      match (if inst.mode = .greedy then c.leftover s.place bound else none) with
      | some m => return s.matched.append m
      | none => return s.matched

/-! ## 4. Delimited parts -/

/-- A list of parts with delimiters. -/
structure DelimitedSpec where
  delimiter : GrammarId
  parts : List GrammarId
  /-- What ends the list. -/
  terminators : List GrammarId
  allowGaps : Bool
  optionalDelimiter : Bool

/-- How far a delimited list has been matched. -/
structure DelimitedState where
  matched : Match
  /-- A delimiter that counts only if a part follows. -/
  pending : Option Match := none
  delimiters : Nat := 0
  /-- A delimiter comes next. -/
  wantsDelimiter : Bool := false
  place : Nat

namespace DelimitedState

/-- After a delimiter. -/
def withDelimiter (s : DelimitedState) (m : Match) : DelimitedState :=
  { s with pending := some m, place := m.stop, wantsDelimiter := false }

/-- After a part. The delimiter before it counts now. -/
def withPart (s : DelimitedState) (m : Match) : DelimitedState :=
  let before := (s.pending.map s.matched.append).getD s.matched
  { matched := before.append m
    pending := none
    delimiters := s.delimiters + (if s.pending.isSome then 1 else 0)
    place := m.stop
    wantsDelimiter := true }

/-- After a part that no delimiter came before. -/
def withUndelimited (s : DelimitedState) (m : Match) : DelimitedState :=
  { s with matched := s.matched.append m, pending := none, place := m.stop }

end DelimitedState

/-- Match on until the list ends. -/
def delimitedFrom (below below2 : Matcher) (ts : List GrammarId) (limit start : Nat)
    (spec : DelimitedSpec) : Nat → DelimitedState → Matching DelimitedState
  | 0, s => return s
  | fuel + 1, s => do
    let i := if spec.allowGaps && start < s.place then c.skipToCode s.place limit else s.place
    let s := { s with place := i }
    if limit ≤ i || (!spec.allowGaps && !c.isCodeAt i) then return s
    else if (← c.longest below below2 ts limit i spec.terminators).1.isMatch then return s
    else if s.wantsDelimiter then
      let (m, _) ← c.longest below below2 ts limit i [spec.delimiter]
      if m.isMatch then delimitedFrom below below2 ts limit start spec fuel (s.withDelimiter m)
      else if spec.optionalDelimiter then
        let (part, _) ← c.longest below below2 (pushTerminators false [spec.delimiter] ts) limit i
          spec.parts
        if part.isMatch then
          Matching.note ("Missing delimiter before " ++ c.displayAt i)
            ((c.tokens[i]?).bind (·.segment.position))
          delimitedFrom below below2 ts limit start spec fuel (s.withUndelimited part)
        else return s
      else return s
    else
      let (m, _) ← c.longest below below2 (pushTerminators false [spec.delimiter] ts) limit i
        spec.parts
      if m.isMatch then delimitedFrom below below2 ts limit start spec fuel (s.withPart m)
      else return s

/-- Parts with delimiters between them. The delimiter of the list is no terminator of it, even
where a list of the same kind around it says so. -/
def matchDelimited (below below2 : Matcher) (ts : List GrammarId) (limit i : Nat)
    (id delimiter : GrammarId) (least : Nat) : Matching Match := do
  let flags := (c.tables.instruction id).flags
  let target := c.resolve delimiter
  let s ← c.delimitedFrom below below2 ts limit i {
      delimiter := delimiter
      parts := c.tables.parts id
      terminators := c.tables.terminatorsOf id ++ ts.filter (c.resolve · ≠ target)
      allowGaps := flags.allowGaps
      optionalDelimiter := flags.optionalDelimiter }
    (2 * limit + 2) { matched := .empty i, place := i }
  if s.delimiters < least then return .empty i
  else if flags.allowTrailing && !s.wantsDelimiter then
    return (s.pending.map s.matched.append).getD s.matched
  else return s.matched

/-! ## 5. Brackets -/

/-- The pairs of brackets as a bracketed grammar sees them, and the number of its own pair. The
grammar says whether its brackets make a segment; a pair that is not declared comes last. -/
def pairsFor (opening closing : GrammarId) (persists : Bool) : List BracketPair × Nat :=
  let pairs := c.tables.bracketPairs
  let target := c.resolve opening
  match pairs.findIdx? (fun p => c.resolve p.opening == target) with
  | some n => (pairs.modify n ({ · with persists := persists }), n)
  | none => (pairs ++ [⟨"inline", opening, closing, persists⟩], pairs.length)

/-- The content of a pair of brackets that has been found, put into the pair. The brackets are one
token each. -/
def matchContent (below2 : Matcher) (i : Nat) (id closing : GrammarId) (contentStart : Nat)
    (pair : Match) : Matching Match := do
  let spec := c.sequenceSpec id
  let closer := pair.stop - 1
  let first := if spec.allowGaps then c.skipToCode contentStart closer else contentStart
  let stop := if spec.allowGaps then c.trimToCode closer first else closer
  let content ← c.matchSequence below2 [closing] stop first spec
  if content.stop ≠ stop && spec.mode == .strict then return .empty i
  else
    let content :=
      if !spec.allowGaps && content.stop < closer then
        content.append (.unparsable content.stop closer (c.tables.describe id))
      else content
    return .mk pair.start pair.stop pair.class? (pair.inserts ++ content.outerInserts)
      (pair.children ++ content.outerChildren)

/-- All parts in order between a pair of brackets. -/
def matchBracketed (here below below2 : Matcher) (ts : List GrammarId) (limit i : Nat)
    (id opening closing : GrammarId) (persists : Bool) : Matching Match := do
  let first ← below ts limit i opening
  if !first.isMatch then return .empty i
  else
    let (pairs, kind) := c.pairsFor opening closing persists
    match ← c.closeBracket here ts limit pairs false kind first with
    | none => return .empty i
    | some pair => c.matchContent below2 i id closing first.stop pair

/-! ## 6. References and everything else -/

/-- The grammar that a reference names, unless what it excludes matches. -/
def matchReference (below : Matcher) (ts : List GrammarId) (limit i : Nat) (id target : GrammarId)
    (exclude : Option GrammarId) : Matching Match := do
  let ts := pushTerminators (c.tables.instruction id).flags.resetTerminators
    (c.tables.terminatorsOf id) ts
  if ← matchesExcluded below ts limit i exclude then return .empty i
  else Matching.memoized c.memoize ⟨i, limit, target, ts⟩ (below ts limit i target)

/-- Everything up to a terminator, or up to the limit if there are none. -/
def matchAnything (below : Matcher) (ts : List GrammarId) (limit i : Nat) (id : GrammarId) :
    Matching Match :=
  let terminators := allTerminators (c.tables.terminatorsOf id)
    (c.tables.instruction id).flags.resetTerminators ts
  if terminators.isEmpty then return .range i (max limit i)
  else c.greedy below ts limit i terminators false true

/-- A grammar before its match is put into a segment. -/
def matchShape (here below below2 : Matcher) (ts : List GrammarId) (limit i : Nat)
    (id : GrammarId) : Matching Match :=
  match c.tables.shape id with
  | .ref _ (some target) exclude => c.matchReference below ts limit i id target exclude
  | .ref _ none _ => return .empty i
  | .sequence => c.matchSequence below ts limit i (c.sequenceSpec id)
  | .oneOf exclude => c.matchAnyNumberOf below below2 ts limit i id ⟨1, some 1, none⟩ exclude
  | .anyNumberOf most perPart exclude =>
    c.matchAnyNumberOf below below2 ts limit i id
      ⟨(c.tables.instruction id).least, most, perPart⟩ exclude
  | .delimited (some delimiter) least => c.matchDelimited below below2 ts limit i id delimiter least
  | .delimited none _ => return .empty i
  | .bracketed (some (opening, closing, persists)) =>
    c.matchBracketed here below below2 ts limit i id opening closing persists
  | .bracketed none => return .empty i
  | .string template type => return c.matchCode limit i type (·.upper == template)
  | .multiString templates type =>
    return c.matchCode limit i type fun v => templates.contains v.upper
  | .typed template type => return c.matchTyped limit i id template type
  | .pattern text anti type => return c.matchPattern limit i text anti type
  | .token => return (if (c.token? limit i).any (·.isCode) then .range i (i + 1) else .empty i)
  | .anything => c.matchAnything below ts limit i id
  | .marker _ _ => return ((c.enabledMarker? id).map (Match.marker i)).getD (.empty i)
  | .nothing | .missing => return .empty i

/-- A grammar, its match put into a segment if it is a segment grammar. -/
def matchOne (here below below2 : Matcher) : Matcher := fun ts limit i id => do
  let m ← c.matchShape here below below2 ts limit i id
  return m.wrap? ((c.tables.segmentType? id).map (.node · id))

/-- A grammar with the matchers of the next two levels. -/
def matchLevel (below below2 : Matcher) : Matcher :=
  c.matchOne (c.matchOne .refuse below below2) below below2

/-- Match a grammar with so many levels left: with terminators, up to a limit, from a place on. -/
def matchGrammar : Nat → Matcher
  | 0, _, _, i, _ => return .empty i
  | 1, ts, limit, i, id => c.matchLevel .refuse .refuse ts limit i id
  | n + 2, ts, limit, i, id =>
    c.matchLevel (matchGrammar (n + 1)) (matchGrammar n) ts limit i id

end MatchContext

end QueryLint
