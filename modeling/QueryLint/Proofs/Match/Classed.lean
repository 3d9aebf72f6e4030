import QueryLint.Proofs.Match.Grammar

/-!
QueryLint.Proofs.Match.Classed — what matches are put into.

Of all that is put around tokens, grammars name nothing but the types of segments and of tokens.
Brackets and what could not be placed are put in by the matchers themselves. So if all that the
grammars of a dialect name is of some kind, and brackets and unparsable sections are, then nothing
else is found in a match: no matcher looks into a match that it puts together with others.

* `Tables.Classes` — the classes that the grammars of a dialect name are of a kind.
* `Tables.Gives` — a grammar gives a type.
* `MatchContext.classed_matchGrammar` — then those of all matches are.
-/

namespace QueryLint

open Matching

/-! ## 1. What grammars name -/

/-- The type that a grammar gives to the token that it takes. -/
def Shape.tokenType? : Shape → Option String
  | .string _ type | .multiString _ type | .typed _ type | .pattern _ _ type => some type
  | _ => none

/-- Brackets and unparsable sections are of a kind, and so are the types that the grammars of a
dialect name. -/
structure Tables.Classes (t : Tables) (Q : MatchClass → Prop) : Prop where
  bracketed : Q .bracketed
  unparsable : ∀ expected, Q (.unparsable expected)
  node : ∀ id type, t.segmentType? id = some type → Q (.node type id)
  token : ∀ id type, (t.shape id).tokenType? = some type →
    ∀ normalized, Q (.token type normalized)

/-- The type that a grammar gives to what it puts tokens into. -/
def MatchClass.type? : MatchClass → Option String
  | node type _ | token type _ => some type
  | bracketed | unparsable _ => none

/-- A grammar gives a type: to the segment that it makes, or to the token that it takes. -/
def Tables.Gives (t : Tables) (type : String) (id : GrammarId) : Prop :=
  t.segmentType? id = some type ∨ (t.shape id).tokenType? = some type

instance (t : Tables) (type : String) (id : GrammarId) : Decidable (t.Gives type id) :=
  inferInstanceAs (Decidable (_ ∨ _))

/-- A type is given by none if it is given by none of the instructions. -/
theorem Tables.not_gives {t : Tables} {type : String} (known : ∀ n < t.size, ¬ t.Gives type ⟨n⟩)
    (hsize : t.segmentTypes.size ≤ t.size) (id : GrammarId) : ¬ t.Gives type id := by
  by_cases hid : id.index < t.size
  · exact known id.index hid
  have beyond : t.segmentTypes[id.index]? = none := Array.getElem?_eq_none (by omega)
  have kind : (t.instruction id).kind = .missing :=
    Classical.byContradiction fun hkind => hid (Tables.lt_size_of_kind hkind)
  have missing : t.shape id = .missing := by
    rw [Tables.shape]
    simp only [kind]
  rintro (h | h)
  · rw [Tables.segmentType?, beyond] at h
    cases h
  · rw [missing] at h
    cases h

/-- A type that no grammar gives is not named by any. -/
theorem Tables.classes_of_not_gives {t : Tables} {type : String} (h : ∀ id, ¬ t.Gives type id) :
    t.Classes (·.type? ≠ some type) where
  bracketed := by simp [MatchClass.type?]
  unparsable expected := by simp [MatchClass.type?]
  node id type' htype hgiven := h id (.inl (htype.trans hgiven))
  token id type' htype normalized hgiven := h id (.inr (htype.trans hgiven))

namespace MatchContext

variable {c : MatchContext} {Q : MatchClass → Prop} {I : MatchState → Prop}

/-- The matches of a matcher are of classes of a kind. -/
def ClassesBy (Q : MatchClass → Prop) (I : MatchState → Prop) (run : Matcher) : Prop :=
  ∀ ts limit i g, Meets I (run ts limit i g) (Match.Classed Q)

theorem classesBy_refuse : ClassesBy Q I .refuse := fun _ _ i _ => .pure (.empty i)

theorem classed_unparsable (hQ : c.tables.Classes Q) (a b : Nat) (expected : String) :
    (Match.unparsable a b expected).Classed Q := .plain a b (hQ.unparsable expected)

/-! ## 2. Scans -/

section Scans

variable {here below run : Matcher}

theorem classed_longest (hhere : ClassesBy Q I here) (hbelow : ClassesBy Q I below)
    (ts : List GrammarId) (limit i : Nat) (options : List GrammarId) :
    Meets I (c.longest here below ts limit i options) fun r => r.1.Classed Q :=
  meets_longest_of (fun place g => (hhere ts limit place g).trivial) options
    (fun _ g _ => hbelow ts limit i g) (.empty i)

variable (hrun : ClassesBy Q I run)

include hrun

theorem classed_nextMatch (ts : List GrammarId) (limit i : Nat) (options : List GrammarId) :
    Meets I (c.nextMatch run ts limit i options) fun r =>
      ∀ x, r = some x → x.1.Classed Q :=
  (meets_nextMatch i options fun g _ place _ => hrun ts limit place g).mono
    fun _ hr x hx => have ⟨_, _, _, _, _, _, hclassed⟩ := hr x hx; hclassed

variable (hQ : c.tables.Classes Q)

include hQ

theorem classed_bracketRule (ts : List GrammarId) (limit : Nat) (pairs : List BracketPair)
    (nested : Bool) :
    c.BracketRule run ts limit pairs nested I (fun _ _ _ inner => ∀ m ∈ inner, m.Classed Q)
      (fun _ _ b => b.Classed Q) := by
  intro kind opening i inner hinner
  refine (classed_nextMatch hrun ts limit i (bracketGrammars pairs)).mono
    fun r hr m which hfound => ?_
  have hm : m.Classed Q := hr _ hfound
  refine ⟨fun _ => ?_, fun _ => ⟨List.forall_mem_singleton.2 hm, fun b hb => ?_⟩⟩
  · have all : ∀ x ∈ inner ++ [m], x.Classed Q :=
      List.forall_mem_append.2 ⟨hinner, List.forall_mem_singleton.2 hm⟩
    refine .mk (fun k hk => ?_) all
    split at hk
    · cases hk
      exact hQ.bracketed
    · cases hk
  · split
    · exact List.forall_mem_append.2 ⟨hinner, List.forall_mem_singleton.2 hb⟩
    · exact hinner

theorem classed_closeBracket (ts : List GrammarId) (limit : Nat) (pairs : List BracketPair)
    (nested : Bool) (kind : Nat) {opening : Match} (ho : opening.Classed Q) :
    Meets I (c.closeBracket run ts limit pairs nested kind opening) fun r =>
      ∀ b, r = some b → b.Classed Q :=
  (classed_bracketRule hrun hQ ts limit pairs nested).meets (limit + 2) kind
    (List.forall_mem_singleton.2 ho)

theorem classed_outsideFrom (ts : List GrammarId) (limit start : Nat) (options : List GrammarId)
    (fuel i : Nat) {skipped : List Match} (hskipped : ∀ m ∈ skipped, m.Classed Q) :
    Meets I (c.outsideFrom run ts limit start options fuel i skipped) fun r =>
      ∀ m ∈ r.skipped, m.Classed Q := by
  induction fuel generalizing i skipped with
  | zero => exact .pure (by simp)
  | succ fuel ih =>
    refine (classed_nextMatch hrun ts limit i
      (options ++ bracketGrammars c.tables.bracketPairs)).bind fun r hr => ?_
    rcases r with _ | ⟨m, which⟩
    · exact .pure hskipped
    have hm : m.Classed Q := hr _ rfl
    dsimp only
    split
    · exact .pure hskipped
    split
    · exact .pure (by simp)
    refine (classed_closeBracket hrun hQ ts limit _ true _ hm).bind fun r hr => ?_
    rcases r with _ | b
    · exact .pure (by simp)
    · exact ih _ (List.forall_mem_append.2 ⟨hskipped, List.forall_mem_singleton.2 (hr b rfl)⟩)

theorem classed_greedyFrom (ts : List GrammarId) (limit i : Nat) (options : List GrammarId)
    (including nested : Bool) (fuel at_ : Nat) {inner : List Match}
    (hinner : ∀ m ∈ inner, m.Classed Q) :
    Meets I (c.greedyFrom run ts limit i options including nested fuel at_ inner)
      (Match.Classed Q) := by
  induction fuel generalizing at_ inner with
  | zero => exact .pure (.loose _ _ _ hinner)
  | succ fuel ih =>
    refine (classed_outsideFrom hrun hQ ts limit at_ options _ at_
      (List.forall_mem_nil (Match.Classed Q))).bind fun found hfound => ?_
    have all : ∀ m ∈ (if nested then inner ++ found.skipped else inner), m.Classed Q := by
      split
      · exact List.forall_mem_append.2 ⟨hinner, hfound⟩
      · exact hinner
    dsimp only
    split
    · exact .pure (.loose _ _ _ all)
    · refine .ite (fun _ => ih _ all) fun _ => .ite (fun _ => .pure (.loose _ _ _ all)) fun _ => ?_
      exact .pure (.loose _ _ _ fun m hm => all m (List.mem_filter.1 hm).1)

theorem classed_matchAnything (ts : List GrammarId) (limit i : Nat) (id : GrammarId) :
    Meets I (c.matchAnything run ts limit i id) (Match.Classed Q) := by
  unfold matchAnything
  dsimp only
  split
  · exact .pure (.loose _ _ _ (by simp))
  · exact classed_greedyFrom hrun hQ ts limit i _ false true _ i (by simp)

/-- Where a greedy grammar has to stop is no match, but finding it keeps the memo. -/
theorem classed_trimToTerminator (ts : List GrammarId) (limit i : Nat)
    (terminators : List GrammarId) :
    Meets I (c.trimToTerminator run ts limit i terminators) fun _ => True := by
  unfold trimToTerminator
  split
  · exact .pure trivial
  refine (meets_anyMatches (fun g => (hrun ts limit i g).trivial) _).bind fun found _ => ?_
  split
  · exact .pure trivial
  refine (classed_outsideFrom hrun hQ ts limit i terminators _ i
    (List.forall_mem_nil (Match.Classed Q))).bind fun found _ => ?_
  split <;> exact .pure trivial

end Scans

/-! ## 3. Grammars of parts -/

section Parts

variable {here below below2 : Matcher} (hQ : c.tables.Classes Q) (hbelow : ClassesBy Q I below)

theorem classed_finishSequence (hQ : c.tables.Classes Q) (spec : SequenceSpec) (start : Nat)
    {s : SequenceState} (h : ∀ m ∈ s.children, m.Classed Q) :
    (c.finishSequence spec start s).Classed Q := by
  rcases finishSequence_cases (c := c) spec start s with heq | ⟨first, last, -, -, -, -, heq⟩
  · rw [heq]
    exact .loose _ _ _ h
  · rw [heq]
    exact .loose _ _ _ (List.forall_mem_append.2
      ⟨h, List.forall_mem_singleton.2 (classed_unparsable hQ _ _ _)⟩)

theorem classed_endedSequence (hQ : c.tables.Classes Q) (spec : SequenceSpec) (start : Nat)
    {s : SequenceState} (h : ∀ m ∈ s.children, m.Classed Q) (part : GrammarId) :
    (c.endedSequence spec start s part).Classed Q := by
  unfold endedSequence
  split
  · exact .empty start
  · exact (Match.Classed.loose _ _ _ h).wrap (hQ.unparsable _)

theorem classed_failedSequence (hQ : c.tables.Classes Q) (spec : SequenceSpec) (start : Nat)
    {s : SequenceState} (h : ∀ m ∈ s.children, m.Classed Q) (part : GrammarId) (i : Nat) :
    (c.failedSequence spec start s part i).Classed Q := by
  unfold failedSequence
  dsimp only
  split
  · exact .empty start
  · exact .empty start
  · exact classed_unparsable hQ _ _ _
  · exact .loose _ _ _ (List.forall_mem_append.2
      ⟨h, List.forall_mem_singleton.2 (classed_unparsable hQ _ _ _)⟩)

theorem classed_matchesExcluded (hbelow : ClassesBy Q I below) (ts : List GrammarId)
    (limit i : Nat) (exclude : Option GrammarId) :
    Meets I (matchesExcluded below ts limit i exclude) fun _ => True := by
  cases exclude with
  | none => exact .pure trivial
  | some x => exact (hbelow ts limit i x).bind fun m _ => .pure trivial

include hQ hbelow

/-- Each part leads a sequence of such matches on. -/
theorem classed_sequenceRule (ts : List GrammarId) (limit start : Nat) (spec : SequenceSpec) :
    c.SequenceRule below ts limit start spec I (fun s _ => ∀ m ∈ s.children, m.Classed Q)
      (Match.Classed Q) where
  finished _ h := classed_finishSequence hQ spec start h
  marker _ _ _ h _ := h
  leftOut _ _ _ h _ _ := h
  ended _ g _ h _ := classed_endedSequence hQ spec start h g
  part s g _ h _ _ := (hbelow _ s.limit _ g).mono fun m hm => by
    have next : ∀ x ∈ s.children ++ m.outerChildren, x.Classed Q :=
      List.forall_mem_append.2 ⟨h, hm.outerChildren⟩
    refine ⟨fun _ => classed_failedSequence hQ spec start h g _, fun _ => ?_⟩
    refine .ite (fun _ => ?_) fun _ => .pure next
    exact (classed_trimToTerminator hbelow hQ ts limit m.stop _).mono fun _ _ => next

theorem classed_matchSequence (ts : List GrammarId) (limit i : Nat) (spec : SequenceSpec) :
    Meets I (c.matchSequence below ts limit i spec) (Match.Classed Q) :=
  (classed_sequenceRule hQ hbelow ts limit i spec).meets_matchSequence <|
    .ite (fun _ => (classed_trimToTerminator hbelow hQ ts limit i _).mono fun _ _ => nofun)
      fun _ => .pure nofun

theorem classed_matchContent (i : Nat) (id closing : GrammarId) (start : Nat) {pair : Match}
    (hpair : pair.Classed Q) :
    Meets I (c.matchContent below i id closing start pair) (Match.Classed Q) := by
  rw [matchContent_eq]
  refine (classed_matchSequence hQ hbelow [closing] _ _ (c.sequenceSpec id)).bind
    fun content hcontent => ?_
  have filled : (c.fillContent id pair.stop content).Classed Q := by
    unfold fillContent
    split
    · exact hcontent.append (classed_unparsable hQ _ _ _)
    · exact hcontent
  split
  · exact .pure (.empty i)
  · exact .pure (.mk hpair.own
      (List.forall_mem_append.2 ⟨hpair.children, filled.outerChildren⟩))

theorem classed_matchBracketed (hhere : ClassesBy Q I here) (hbelow2 : ClassesBy Q I below2)
    (ts : List GrammarId) (limit i : Nat) (id opening closing : GrammarId) (persists : Bool) :
    Meets I (c.matchBracketed here below below2 ts limit i id opening closing persists)
      (Match.Classed Q) := by
  unfold matchBracketed
  refine (hbelow ts limit i opening).bind fun first hfirst => ?_
  split
  · exact .pure (.empty i)
  dsimp only
  refine (classed_closeBracket hhere hQ ts limit _ false _ hfirst).bind fun r hr => ?_
  rcases r with _ | pair
  · exact .pure (.empty i)
  · exact classed_matchContent hQ hbelow2 i id closing first.stop (hr pair rfl)

/-! ## 4. Repetitions and lists -/

variable (hbelow2 : ClassesBy Q I below2)

include hbelow2

omit hQ in
/-- Each round leads a repetition of such matches on. -/
theorem classed_repetitionRule (ts : List GrammarId) (limit start : Nat) (allowGaps : Bool)
    (r : Repetition) (options : List GrammarId) :
    c.RepetitionRule below below2 ts limit start allowGaps r options I
      (·.matched.Classed Q) (·.matched.Classed Q) where
  ends _ h := h
  tooFew _ _ _ := .empty start
  round s h := (classed_longest hbelow hbelow2 ts limit s.next options).mono
    fun _ hm _ _ => h.append hm

theorem classed_matchAnyNumberOf (ts : List GrammarId) (limit i : Nat) (id : GrammarId)
    (r : Repetition) (exclude : Option GrammarId) :
    Meets I (c.matchAnyNumberOf below below2 ts limit i id r exclude) (Match.Classed Q) := by
  have bounds : Meets I (c.repetitionLimit below ts limit i id) fun _ => True :=
    .ite (fun _ => classed_trimToTerminator hbelow hQ ts limit i _) fun _ => .pure trivial
  refine meets_matchAnyNumberOf_of (classed_matchesExcluded hbelow ts limit i exclude) bounds
    (fun bound _ => classed_repetitionRule hbelow hbelow2 _ bound i _ r _)
    (fun _ _ => .empty i) (.empty i) fun bound s _ hs => ?_
  rcases finishRepetition_cases (c := c) bound s with
    heq | ⟨-, first, last, -, -, -, -, heq⟩
  · rw [heq]
    exact hs
  · rw [heq]
    exact hs.append (classed_unparsable hQ _ _ _)

/-- What a list has matched so far, and the delimiter that waits. -/
structure DelimitedClassed (Q : MatchClass → Prop) (s : DelimitedState) : Prop where
  matched : s.matched.Classed Q
  pending : ∀ m, s.pending = some m → m.Classed Q

omit hQ hbelow hbelow2 in
theorem DelimitedClassed.withPending {s : DelimitedState} (h : DelimitedClassed Q s) :
    s.withPending.Classed Q := by
  unfold DelimitedState.withPending
  cases hp : s.pending with
  | none => exact h.matched
  | some m => exact h.matched.append (h.pending m hp)

omit hQ in
/-- Each part and delimiter leads a list of such matches on. -/
theorem classed_delimitedRule (ts : List GrammarId) (limit start : Nat) (spec : DelimitedSpec) :
    c.DelimitedRule below below2 ts limit start spec I (DelimitedClassed Q) where
  skipped _ h := ⟨h.matched, h.pending⟩
  ending s _ _ := (classed_longest hbelow hbelow2 ts limit s.place _).trivial
  delimiter s h _ _ := by
    refine (classed_longest hbelow hbelow2 ts limit s.place _).mono
      fun x hx _ => ⟨h.matched, ?_⟩
    rintro m ⟨⟩
    exact hx
  undelimited s h _ _ := (classed_longest hbelow hbelow2 _ limit s.place _).mono
    fun _ hx _ => ⟨h.matched.append hx, nofun⟩
  part s h _ _ := (classed_longest hbelow hbelow2 _ limit s.place _).mono
    fun _ hx _ => ⟨h.withPending.append hx, nofun⟩

omit hQ in
theorem classed_matchDelimited (hI : ∀ s notes, I s → I { s with notes := notes })
    (ts : List GrammarId) (limit i : Nat) (id delimiter : GrammarId) (least : Nat) :
    Meets I (c.matchDelimited below below2 ts limit i id delimiter least) (Match.Classed Q) :=
  (classed_delimitedRule hbelow hbelow2 ts limit i (c.delimitedSpec ts id
    delimiter)).meets_matchDelimited hI ⟨.empty i, nofun⟩ (.empty i)
      fun _ h => ⟨h.matched, h.withPending⟩

end Parts

/-! ## 5. All levels -/

/-- All matches in the memo are of classes of a kind. -/
def MemoClassed (Q : MatchClass → Prop) (s : MatchState) : Prop :=
  ∀ (key : MemoKey) m, s.memo[key]? = some m → m.Classed Q

theorem memoClassed_initial : MemoClassed Q {} := fun key m h => by simp at h

theorem MemoClassed.insert {s : MatchState} (h : MemoClassed Q s) (key : MemoKey) {m : Match}
    (hm : m.Classed Q) : MemoClassed Q { s with memo := s.memo.insert key m } :=
  forall_memo_insert h hm

theorem classed_matchReference {below : Matcher} (hbelow : ClassesBy Q (MemoClassed Q) below)
    (ts : List GrammarId) (limit i : Nat) (id target : GrammarId) (exclude : Option GrammarId) :
    Meets (MemoClassed Q) (c.matchReference below ts limit i id target exclude)
      (Match.Classed Q) := by
  unfold matchReference
  dsimp only
  refine (classed_matchesExcluded hbelow _ limit i exclude).bind fun excluded _ => ?_
  split
  · exact .pure (.empty i)
  · refine meets_memoized (hbelow _ limit i target) (fun s m hs hm => hs _ m hm) fun s hs => ?_
    obtain ⟨hm, hs'⟩ := hbelow _ limit i target s hs
    exact hs'.insert _ hm

theorem classed_matchCode (hQ : c.tables.Classes Q) (limit i : Nat) {id : GrammarId}
    {type : String} (htype : (c.tables.shape id).tokenType? = some type)
    (test : TokenView → Bool) : (c.matchCode limit i type test).Classed Q := by
  unfold matchCode
  split
  · split
    · exact .plain _ _ (hQ.token id type htype none)
    · exact .empty i
  · exact .empty i

section Level

variable {here below below2 : Matcher} (hQ : c.tables.Classes Q)
  (hhere : ClassesBy Q (MemoClassed Q) here) (hbelow : ClassesBy Q (MemoClassed Q) below)
  (hbelow2 : ClassesBy Q (MemoClassed Q) below2)

include hQ hhere hbelow hbelow2

theorem classed_matchShape (ts : List GrammarId) (limit i : Nat) (id : GrammarId) :
    Meets (MemoClassed Q) (c.matchShape here below below2 ts limit i id) (Match.Classed Q) := by
  have nothing : Meets (MemoClassed Q) (return Match.empty i) (Match.Classed Q) :=
    .pure (.empty i)
  have note : ∀ (s : MatchState) notes, MemoClassed Q s →
      MemoClassed Q { s with notes := notes } := fun _ _ h => h
  unfold matchShape
  cases hshape : c.tables.shape id with
  | ref name target exclude =>
    cases target with
    | none => exact nothing
    | some target => exact classed_matchReference hbelow ts limit i id target exclude
  | sequence => exact classed_matchSequence hQ hbelow ts limit i _
  | oneOf exclude => exact classed_matchAnyNumberOf hQ hbelow hbelow2 ts limit i id _ exclude
  | anyNumberOf most perPart exclude =>
    exact classed_matchAnyNumberOf hQ hbelow hbelow2 ts limit i id _ exclude
  | delimited delimiter least =>
    cases delimiter with
    | none => exact nothing
    | some delimiter =>
      exact classed_matchDelimited hbelow hbelow2 note ts limit i id delimiter least
  | bracketed pair =>
    rcases pair with _ | ⟨opening, closing, persists⟩
    · exact nothing
    · exact classed_matchBracketed hQ hbelow hhere hbelow2 ts limit i id opening closing persists
  | string template type => exact .pure (classed_matchCode hQ limit i (by rw [hshape]; rfl) _)
  | multiString templates type =>
    exact .pure (classed_matchCode hQ limit i (by rw [hshape]; rfl) _)
  | typed template type =>
    refine .pure ?_
    unfold matchTyped
    split
    · split
      · exact .plain _ _ (hQ.token id type (by rw [hshape]; rfl) _)
      · exact .empty i
    · exact .empty i
  | pattern text anti type =>
    refine .pure ?_
    unfold matchPattern
    split
    · exact .empty i
    · exact classed_matchCode hQ limit i (by rw [hshape]; rfl) _
  | token =>
    refine .pure ?_
    split
    · exact .loose _ _ _ (by simp)
    · exact .empty i
  | anything => exact classed_matchAnything hbelow hQ ts limit i id
  | marker kind condition =>
    refine .pure ?_
    cases c.enabledMarker? id with
    | none => exact .empty i
    | some k => exact .loose _ _ _ (by simp)
  | nothing => exact nothing
  | missing => exact nothing

theorem classed_matchOne : ClassesBy Q (MemoClassed Q) (c.matchOne here below below2) := by
  intro ts limit i id
  refine (classed_matchShape hQ hhere hbelow hbelow2 ts limit i id).bind fun m hm =>
    .pure (hm.wrap? fun k hk => ?_)
  obtain ⟨type, htype, rfl⟩ := Option.map_eq_some_iff.1 hk
  exact hQ.node id type htype

end Level

/-- All matches are of the classes that the grammars name, brackets or unparsable. -/
theorem classed_matchGrammar (hQ : c.tables.Classes Q) (n : Nat) :
    ClassesBy Q (MemoClassed Q) (c.matchGrammar n) :=
  matchGrammar_induction classesBy_refuse
    (fun _ below below2 => classed_matchOne hQ classesBy_refuse below below2)
    (fun _ here below below2 => classed_matchOne hQ here below below2) n

end MatchContext

end QueryLint
