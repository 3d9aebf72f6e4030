import QueryLint.Match.Grammar
import QueryLint.Proofs.Segment.Renamed

/-!
QueryLint.Proofs.Match.Renamed — matching tokens with other identities.

Matching asks tokens for their text, their types and their positions, and counts them. It never asks
for their identities, so tokens with other identities are matched alike, with the same notes.

* `MatchContext.renamed` — the same context over tokens with other identities.
* `matchGrammar_renamed` — grammars find the same.
-/

namespace QueryLint

variable {ρ : Renaming}

/-! ## 1. Renamed tokens -/

/-- The view of a token with another identity. -/
def TokenView.renamed (ρ : Renaming) (v : TokenView) : TokenView :=
  { v with segment := v.segment.renamed ρ }

theorem TokenView.ofSegment_renamed (s : Segment) :
    ofSegment (s.renamed ρ) = (ofSegment s).renamed ρ := by
  simp [ofSegment, TokenView.renamed]

namespace MatchContext

/-- The same context over tokens with other identities. -/
def renamed (ρ : Renaming) (c : MatchContext) : MatchContext :=
  { c with tokens := c.tokens.map (·.renamed ρ) }

theorem ofSegments_renamed (t : Tables) (ss : List Segment) (settings : List (String × String)) :
    ofSegments t (ss.map (Segment.renamed ρ)) settings = (ofSegments t ss settings).renamed ρ := by
  simp [ofSegments, renamed, Function.comp_def, TokenView.ofSegment_renamed]

variable {c : MatchContext}

@[simp] theorem tables_renamed : (c.renamed ρ).tables = c.tables := rfl

@[simp] theorem memoize_renamed : (c.renamed ρ).memoize = c.memoize := rfl

@[simp] theorem size_renamed : (c.renamed ρ).size = c.size := by simp [size, renamed]

@[simp] theorem getElem?_renamed (i : Nat) :
    (c.renamed ρ).tokens[i]? = (c.tokens[i]?).map (·.renamed ρ) := by
  simp [renamed]

@[simp] theorem token?_renamed (limit i : Nat) :
    (c.renamed ρ).token? limit i = (c.token? limit i).map (·.renamed ρ) := by
  unfold token?
  split
  · exact getElem?_renamed i
  · rfl

@[simp] theorem isCodeAt_renamed (i : Nat) : (c.renamed ρ).isCodeAt i = c.isCodeAt i := by
  rw [isCodeAt, isCodeAt, getElem?_renamed, Option.any_map]
  rfl

@[simp] theorem displayAt_renamed (i : Nat) : (c.renamed ρ).displayAt i = c.displayAt i := by
  simp [displayAt, Function.comp_def, TokenView.renamed]

@[simp] theorem setting?_renamed (key : String) :
    (c.renamed ρ).setting? key = c.setting? key := rfl

/-! ## 2. Scans -/

variable {run here below below2 : Matcher}

@[simp] theorem skipToCode_renamed (i limit : Nat) :
    (c.renamed ρ).skipToCode i limit = c.skipToCode i limit := by
  fun_induction c.skipToCode i limit with
  | case1 i hi hcode => rw [skipToCode, dif_pos hi, isCodeAt_renamed, if_pos hcode]
  | case2 i hi hcode ih => rw [skipToCode, dif_pos hi, isCodeAt_renamed, if_neg hcode, ih]
  | case3 i hi => rw [skipToCode, dif_neg hi]

@[simp] theorem trimToCode_renamed (stop least : Nat) :
    (c.renamed ρ).trimToCode stop least = c.trimToCode stop least := by
  fun_induction c.trimToCode stop least with
  | case1 stop hi hcode => rw [trimToCode, dif_pos hi, isCodeAt_renamed, if_pos hcode]
  | case2 stop hi hcode ih => rw [trimToCode, dif_pos hi, isCodeAt_renamed, if_neg hcode, ih]
  | case3 stop hi => rw [trimToCode, dif_neg hi]

@[simp] theorem nextSolid?_renamed (limit i : Nat) :
    (c.renamed ρ).nextSolid? limit i = (c.nextSolid? limit i).map (·.renamed ρ) := by
  fun_induction c.nextSolid? limit i with
  | case1 i hi v hv hblank ih =>
    rw [nextSolid?, dif_pos hi, getElem?_renamed, hv, Option.map_some]
    exact (if_pos hblank).trans ih
  | case2 i hi v hv hblank =>
    rw [nextSolid?, dif_pos hi, getElem?_renamed, hv, Option.map_some]
    exact if_neg hblank
  | case3 i hi hv => rw [nextSolid?, dif_pos hi, getElem?_renamed, hv]; rfl
  | case4 i hi => rw [nextSolid?, dif_neg hi]; rfl

@[simp] theorem prune_renamed (limit i : Nat) (options : List GrammarId) :
    (c.renamed ρ).prune limit i options = c.prune limit i options := by
  rw [prune, prune, nextSolid?_renamed]
  cases c.nextSolid? limit i with
  | none => rfl
  | some v => simp [TokenView.renamed]

@[simp] theorem longestFrom_renamed (ts : List GrammarId) (limit i : Nat)
    (best : Match × Option GrammarId) (gs : List GrammarId) :
    (c.renamed ρ).longestFrom here below ts limit i best gs =
      c.longestFrom here below ts limit i best gs := by
  induction gs generalizing best with
  | nil => rfl
  | cons g gs ih => simp only [longestFrom, ih, skipToCode_renamed]

@[simp] theorem longest_renamed :
    (c.renamed ρ).longest here below = c.longest here below := by
  funext ts limit i options
  simp only [longest, prune_renamed, longestFrom_renamed]

@[simp] theorem firstMatch_renamed (ts : List GrammarId) (limit i : Nat) (v : TokenView) (n : Nat)
    (targets : List Target) :
    firstMatch run ts limit i (v.renamed ρ) n targets = firstMatch run ts limit i v n targets := by
  induction targets generalizing n with
  | nil => rfl
  | cons t targets ih =>
    have worth : t.worthTrying (v.renamed ρ) = t.worthTrying v := by
      unfold Target.worthTrying
      split
      · simp [TokenView.renamed]
      · rfl
    simp only [firstMatch, worth, ih]

@[simp] theorem matchWithin_renamed (ts : List GrammarId) (limit : Nat) (targets : List Target)
    (n i : Nat) :
    (c.renamed ρ).matchWithin run ts limit targets n i =
      c.matchWithin run ts limit targets n i := by
  induction n generalizing i with
  | zero => rfl
  | succ n ih =>
    rw [matchWithin, matchWithin, getElem?_renamed]
    cases c.tokens[i]? with
    | none => rfl
    | some v =>
      have marker : (v.renamed ρ).isMarker = v.isMarker := rfl
      simp only [Option.map_some, ih, marker, firstMatch_renamed]

@[simp] theorem nextMatch_renamed : (c.renamed ρ).nextMatch run = c.nextMatch run := by
  funext ts limit i options
  simp only [nextMatch, tables_renamed, matchWithin_renamed]

@[simp] theorem closeBracketFrom_renamed (ts : List GrammarId) (limit : Nat)
    (pairs : List BracketPair) (nested : Bool) (fuel kind start indentAt i : Nat)
    (inner : List Match) :
    (c.renamed ρ).closeBracketFrom run ts limit pairs nested fuel kind start indentAt i inner =
      c.closeBracketFrom run ts limit pairs nested fuel kind start indentAt i inner := by
  induction fuel generalizing kind start indentAt i inner with
  | zero => rfl
  | succ fuel ih => simp only [closeBracketFrom, nextMatch_renamed, ih]

@[simp] theorem closeBracket_renamed :
    (c.renamed ρ).closeBracket run = c.closeBracket run := by
  funext ts limit pairs nested kind opening
  simp only [closeBracket, closeBracketFrom_renamed]

@[simp] theorem outsideFrom_renamed (ts : List GrammarId) (limit start : Nat)
    (options : List GrammarId) (fuel i : Nat) (skipped : List Match) :
    (c.renamed ρ).outsideFrom run ts limit start options fuel i skipped =
      c.outsideFrom run ts limit start options fuel i skipped := by
  induction fuel generalizing i skipped with
  | zero => rfl
  | succ fuel ih =>
    simp only [outsideFrom, tables_renamed, nextMatch_renamed, closeBracket_renamed, ih]

@[simp] theorem nextOutsideBrackets_renamed :
    (c.renamed ρ).nextOutsideBrackets run = c.nextOutsideBrackets run := by
  funext ts limit i options
  simp only [nextOutsideBrackets, outsideFrom_renamed]

@[simp] theorem isWordLike_renamed : (c.renamed ρ).isWordLike = c.isWordLike := rfl

@[simp] theorem blankBefore_renamed (start i : Nat) :
    (c.renamed ρ).blankBefore start i = c.blankBefore start i := by
  induction i with
  | zero => rfl
  | succ i ih =>
    rw [blankBefore, blankBefore, getElem?_renamed, ih]
    cases c.tokens[i]? with
    | none => rfl
    | some v => simp [TokenView.renamed]

@[simp] theorem greedyFrom_renamed (ts : List GrammarId) (limit i : Nat)
    (options : List GrammarId) (including nested : Bool) (fuel at_ : Nat) (inner : List Match) :
    (c.renamed ρ).greedyFrom below ts limit i options including nested fuel at_ inner =
      c.greedyFrom below ts limit i options including nested fuel at_ inner := by
  induction fuel generalizing at_ inner with
  | zero => rfl
  | succ fuel ih =>
    simp only [greedyFrom, nextOutsideBrackets_renamed, isWordLike_renamed, blankBefore_renamed,
      trimToCode_renamed, ih]

@[simp] theorem greedy_renamed : (c.renamed ρ).greedy below = c.greedy below := by
  funext ts limit i options including nested
  simp only [greedy, greedyFrom_renamed]

@[simp] theorem trimToTerminator_renamed :
    (c.renamed ρ).trimToTerminator below = c.trimToTerminator below := by
  funext ts limit i terminators
  simp only [trimToTerminator, prune_renamed, nextOutsideBrackets_renamed, trimToCode_renamed]

/-! ## 3. Tokens and sequences -/

@[simp] theorem resolve_renamed : (c.renamed ρ).resolve = c.resolve := by
  have follow (n : Nat) (id : GrammarId) :
      resolve.follow (c.renamed ρ) n id = resolve.follow c n id := by
    induction n generalizing id with
    | zero => rfl
    | succ n ih => simp only [resolve.follow, tables_renamed, ih]
  funext id
  rw [resolve, resolve, follow]
  rfl

@[simp] theorem enabledMarker?_renamed : (c.renamed ρ).enabledMarker? = c.enabledMarker? := rfl

theorem matchCode_renamed {limit i : Nat} {type : String} {test test' : TokenView → Bool}
    (h : ∀ v : TokenView, test' (v.renamed ρ) = test v) :
    (c.renamed ρ).matchCode limit i type test' = c.matchCode limit i type test := by
  rw [matchCode, matchCode, token?_renamed]
  cases c.token? limit i with
  | none => rfl
  | some v =>
    have code : (v.renamed ρ).isCode = v.isCode := rfl
    simp only [Option.map_some, code, h]

@[simp] theorem matchTyped_renamed (limit i : Nat) (id : GrammarId) (template type : String) :
    (c.renamed ρ).matchTyped limit i id template type = c.matchTyped limit i id template type := by
  rw [matchTyped, matchTyped, token?_renamed]
  cases c.token? limit i with
  | none => rfl
  | some v => simp [TokenView.renamed]

@[simp] theorem matchPattern_renamed (limit i : Nat) (text anti : Option TablePattern)
    (type : String) :
    (c.renamed ρ).matchPattern limit i text anti type = c.matchPattern limit i text anti type := by
  cases text with
  | none => rfl
  | some p => exact matchCode_renamed fun v => by simp [TokenView.renamed]

@[simp] theorem leftover_renamed : (c.renamed ρ).leftover = c.leftover := by
  funext start stop
  simp only [leftover, skipToCode_renamed, trimToCode_renamed]

@[simp] theorem finishSequence_renamed : (c.renamed ρ).finishSequence = c.finishSequence := by
  funext spec start s
  simp only [finishSequence, leftover_renamed]

@[simp] theorem endedSequence_renamed : (c.renamed ρ).endedSequence = c.endedSequence := by
  funext spec start s part
  simp only [endedSequence, tables_renamed, displayAt_renamed]

@[simp] theorem failedSequence_renamed : (c.renamed ρ).failedSequence = c.failedSequence := by
  funext spec start s part i
  simp only [failedSequence, tables_renamed, displayAt_renamed]

@[simp] theorem sequenceSpec_renamed : (c.renamed ρ).sequenceSpec = c.sequenceSpec := rfl

@[simp] theorem sequenceFrom_renamed (ts : List GrammarId) (limit start : Nat)
    (spec : SequenceSpec) (s : SequenceState) (parts : List GrammarId) :
    (c.renamed ρ).sequenceFrom below ts limit start spec s parts =
      c.sequenceFrom below ts limit start spec s parts := by
  induction parts generalizing s with
  | nil => simp only [sequenceFrom, finishSequence_renamed]
  | cons g rest ih =>
    simp only [sequenceFrom, ih, tables_renamed, enabledMarker?_renamed, skipToCode_renamed,
      endedSequence_renamed, failedSequence_renamed, trimToTerminator_renamed]

@[simp] theorem matchSequence_renamed :
    (c.renamed ρ).matchSequence below = c.matchSequence below := by
  funext ts limit i spec
  simp only [matchSequence, trimToTerminator_renamed, sequenceFrom_renamed]

/-! ## 4. Repetitions, lists and brackets -/

@[simp] theorem repeatFrom_renamed (ts : List GrammarId) (limit start : Nat) (allowGaps : Bool)
    (r : Repetition) (options : List GrammarId) (fuel : Nat) (s : RepetitionState) :
    (c.renamed ρ).repeatFrom below below2 ts limit start allowGaps r options fuel s =
      c.repeatFrom below below2 ts limit start allowGaps r options fuel s := by
  induction fuel generalizing s with
  | zero => rfl
  | succ fuel ih => simp only [repeatFrom, longest_renamed, skipToCode_renamed, ih]

@[simp] theorem matchAnyNumberOf_renamed :
    (c.renamed ρ).matchAnyNumberOf below below2 = c.matchAnyNumberOf below below2 := by
  funext ts limit i id r exclude
  simp only [matchAnyNumberOf, tables_renamed, trimToTerminator_renamed, repeatFrom_renamed,
    leftover_renamed]

@[simp] theorem delimitedFrom_renamed (ts : List GrammarId) (limit start : Nat)
    (spec : DelimitedSpec) (fuel : Nat) (s : DelimitedState) :
    (c.renamed ρ).delimitedFrom below below2 ts limit start spec fuel s =
      c.delimitedFrom below below2 ts limit start spec fuel s := by
  induction fuel generalizing s with
  | zero => rfl
  | succ fuel ih =>
    have position (i : Nat) : (c.renamed ρ).tokens[i]?.bind (·.segment.position) =
        c.tokens[i]?.bind (·.segment.position) := by
      rw [getElem?_renamed]
      cases c.tokens[i]? <;> simp [TokenView.renamed]
    simp only [delimitedFrom, skipToCode_renamed, isCodeAt_renamed, longest_renamed,
      displayAt_renamed, position, ih]

@[simp] theorem matchDelimited_renamed :
    (c.renamed ρ).matchDelimited below below2 = c.matchDelimited below below2 := by
  funext ts limit i id delimiter least
  unfold matchDelimited
  rw [resolve_renamed, tables_renamed]
  simp only [delimitedFrom_renamed]

@[simp] theorem pairsFor_renamed : (c.renamed ρ).pairsFor = c.pairsFor := by
  funext opening closing persists
  simp only [pairsFor, tables_renamed, resolve_renamed]

@[simp] theorem matchContent_renamed :
    (c.renamed ρ).matchContent below2 = c.matchContent below2 := by
  funext i id closing contentStart pair
  unfold matchContent
  dsimp only
  rw [skipToCode_renamed, trimToCode_renamed, matchSequence_renamed, sequenceSpec_renamed,
    tables_renamed]

@[simp] theorem matchBracketed_renamed :
    (c.renamed ρ).matchBracketed here below below2 = c.matchBracketed here below below2 := by
  funext ts limit i id opening closing persists
  simp only [matchBracketed, pairsFor_renamed, closeBracket_renamed, matchContent_renamed]

/-! ## 5. All grammars -/

@[simp] theorem matchReference_renamed :
    (c.renamed ρ).matchReference below = c.matchReference below := by
  funext ts limit i id target exclude
  simp only [matchReference, tables_renamed, memoize_renamed]

@[simp] theorem matchAnything_renamed :
    (c.renamed ρ).matchAnything below = c.matchAnything below := by
  funext ts limit i id
  simp only [matchAnything, tables_renamed, greedy_renamed]

theorem matchShape_renamed (ts : List GrammarId) (limit i : Nat) (id : GrammarId) :
    (c.renamed ρ).matchShape here below below2 ts limit i id =
      c.matchShape here below below2 ts limit i id := by
  have found {m m' : Match} (h : m = m') : (return m : Matching Match) = return m' := h ▸ rfl
  unfold matchShape
  rw [tables_renamed]
  cases c.tables.shape id with
  | ref name target exclude =>
    cases target with
    | none => rfl
    | some target => rw [matchReference_renamed]
  | sequence => rw [matchSequence_renamed, sequenceSpec_renamed]
  | oneOf exclude => rw [matchAnyNumberOf_renamed]
  | anyNumberOf most perPart exclude => rw [matchAnyNumberOf_renamed]
  | delimited delimiter least =>
    cases delimiter with
    | none => rfl
    | some delimiter => rw [matchDelimited_renamed]
  | bracketed pair =>
    rcases pair with _ | ⟨opening, closing, persists⟩
    · rfl
    · rw [matchBracketed_renamed]
  | string template type => exact found (matchCode_renamed fun _ => rfl)
  | multiString templates type => exact found (matchCode_renamed fun _ => rfl)
  | typed template type => exact found (matchTyped_renamed limit i id template type)
  | pattern text anti type => exact found (matchPattern_renamed limit i text anti type)
  | token =>
    dsimp only
    rw [token?_renamed, Option.any_map]
    rfl
  | anything => rw [matchAnything_renamed]
  | marker kind condition => rfl
  | nothing | missing => rfl

theorem matchOne_renamed :
    (c.renamed ρ).matchOne here below below2 = c.matchOne here below below2 := by
  funext ts limit i id
  simp only [matchOne, matchShape_renamed, tables_renamed]

theorem matchLevel_renamed :
    (c.renamed ρ).matchLevel below below2 = c.matchLevel below below2 := by
  rw [matchLevel, matchLevel, matchOne_renamed, matchOne_renamed]

/-- Grammars match tokens alike, whatever their identities. -/
theorem matchGrammar_renamed (n : Nat) : (c.renamed ρ).matchGrammar n = c.matchGrammar n := by
  match n with
  | 0 => rfl
  | 1 =>
    funext ts limit i id
    rw [matchGrammar, matchGrammar, matchLevel_renamed]
  | n + 2 =>
    funext ts limit i id
    rw [matchGrammar, matchGrammar, matchGrammar_renamed (n + 1), matchGrammar_renamed n,
      matchLevel_renamed]

end MatchContext

end QueryLint
