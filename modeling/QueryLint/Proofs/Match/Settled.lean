import QueryLint.Proofs.Grammar.Brackets
import QueryLint.Proofs.Match.Holds

/-!
QueryLint.Proofs.Match.Settled — no code of a match is left over.

Every grammar goes through the tokens from the place it was asked at, and it accounts for the code
it goes over: what its parts do not take, it puts into something unparsable. Blanks between parts
are passed over, so the invariant of every loop is that the code up to the place it has come to is
accounted for.

Brackets are the exception. A grammar in brackets that is not strict may leave code over behind its
content, and where gaps are allowed nothing is made of that. Such code stands between the brackets
and in nothing else.

* `MatchContext.Settles` — a match accounts for the code it goes over.
* `MatchContext.settles_matchSequence`, … — so do the matches of grammars of parts.
* `MatchContext.settling_matchGrammar` — so do those of all grammars.
-/

namespace QueryLint

open Matching

namespace Tables

/-- Whatever takes code as it is makes a segment. -/
def TracesAll (t : Tables) : Prop :=
  ∀ id, t.takesAsIs id = true → (t.segmentType? id).isSome = true

/-- Lax grammars are allowed for, and their brackets make segments. -/
def LaxBracketsShow (t : Tables) (lax : Bool) : Prop :=
  ∀ id, t.isLax id = true → lax = true ∧ ∀ opening closing persists,
    t.shape id = .bracketed (some (opening, closing, persists)) → persists = true

end Tables

namespace MatchContext

variable {c : MatchContext} {lax : Bool} {I : MatchState → Prop}

/-- A match accounts for the code from the place it was asked at up to its end. -/
def Settles (c : MatchContext) (lax : Bool) (i : Nat) (m : Match) : Prop :=
  c.Covers lax i m.stop [m]

/-- The matches of a matcher account for the code they go over. -/
def SettlesBy (c : MatchContext) (lax : Bool) (I : MatchState → Prop) (run : Matcher) : Prop :=
  ∀ ts limit i g, Meets I (run ts limit i g) (c.Settles lax i)

namespace Settles

variable {i : Nat} {m : Match}

theorem empty (i : Nat) : c.Settles lax i (.empty i) := .of_le (Nat.le_refl i)

theorem wrap? (h : c.Settles lax i m) (k : Option MatchClass) :
    c.Settles lax i (m.wrap? k) := by
  have hstop : (m.wrap? k).stop = m.stop := by
    cases k with
    | none => rfl
    | some k => exact Match.stop_wrap m k
  rw [Settles, hstop]
  exact Covers.wrap? h k

end Settles

/-! ## 1. Sequences -/

section Sequences

variable {below : Matcher} {limit start : Nat}

/-- What is left over behind the parts of a sequence is put into something unparsable. -/
theorem settles_finishSequence (spec : SequenceSpec) {s : SequenceState}
    (h : c.Covers lax start s.place s.children) :
    c.Settles lax start (c.finishSequence spec start s) := by
  rcases finishSequence_cases (c := c) spec start s with
    heq | ⟨first, last, hfirst, -, -, -, heq⟩
  · rw [heq]
    exact h.within
  · rw [heq]
    have before := h.skip s.limit
    rw [← hfirst] at before
    exact (before.append (.unparsable first last nothingHere)).within

theorem settles_endedSequence (spec : SequenceSpec) {s : SequenceState}
    (h : c.Covers lax start s.place s.children) (part : GrammarId) :
    c.Settles lax start (c.endedSequence spec start s part) := by
  unfold endedSequence
  split
  · exact .empty start
  · have whole : c.Settles lax start (.mk start s.place none (s.placed s.place) s.children) :=
      h.within
    exact whole.wrap? (some _)

/-- What a sequence goes over after a part that does not match is put into something unparsable. -/
theorem settles_failedSequence (spec : SequenceSpec) {s : SequenceState} {i : Nat}
    (h : c.Covers lax start i s.children) (part : GrammarId) :
    c.Settles lax start (c.failedSequence spec start s part i) := by
  unfold failedSequence
  dsimp only
  split
  · exact .empty start
  · exact .empty start
  · exact .unparsable start s.limit _
  · exact (h.append (.unparsable i s.limit _)).within

/-- The code that a sequence passes over to its next part is none. -/
theorem Covers.nextPlace (spec : SequenceSpec) {s : SequenceState} {ms : List Match}
    (h : c.Covers lax start s.place ms) : c.Covers lax start (spec.nextPlace c s) ms := by
  unfold SequenceSpec.nextPlace
  split
  · exact h.skip s.limit
  · exact h

/-- The children of a sequence account for the code up to the place it has come to. -/
theorem settles_sequenceRule (hsound : Sound c True False I below)
    (hone : ClosesByOne True I below c.tables.bracketPairs) (hsettles : c.SettlesBy lax I below)
    (ts : List GrammarId) (spec : SequenceSpec) :
    c.SequenceRule below ts limit start spec I
      (fun s _ => SequenceInvariant True limit start s ∧ c.Covers lax start s.place s.children)
      (c.Settles lax start) where
  finished _ h := settles_finishSequence spec h.2
  marker _ _ _ h _ := ⟨h.1.withWaiting _, h.2⟩
  leftOut _ _ _ h _ _ := h
  ended _ g _ h _ := settles_endedSequence spec h.2 g
  part s g _ h _ hlt := by
    have covers := h.2.nextPlace spec
    refine ((hsound.claims _ (Nat.le_of_lt hlt) g).and (hsettles _ s.limit _ g)).mono
      fun m hm => ⟨fun _ => settles_failedSequence spec covers g, fun _ => ?_⟩
    exact (h.1.meets_withPart hsound hone ts hlt hm.1).mono fun _ hbound =>
      ⟨hbound, covers.append hm.2.outerChildren⟩

theorem settles_matchSequence (hsound : Sound c True False I below)
    (hone : ClosesByOne True I below c.tables.bracketPairs) (hsettles : c.SettlesBy lax I below)
    (ts : List GrammarId) (limit i : Nat) (spec : SequenceSpec) :
    Meets I (c.matchSequence below ts limit i spec) (c.Settles lax i) :=
  (settles_sequenceRule hsound hone hsettles ts spec).meets_matchSequence <|
    (meets_firstLimit hsound hone ts limit i spec).mono fun _ hn =>
      ⟨.initial hn, .of_le (Nat.le_refl i)⟩

end Sequences

/-! ## 2. Repetitions and lists -/

section Repetitions

variable {below below2 : Matcher} {limit start : Nat}
  (hsound : Sound c True False I below) (hsound2 : Sound c True False I below2)
  (hsettles2 : c.SettlesBy lax I below2)

/-- How a repetition ends. With one part at least, nothing is given up that it went over. -/
structure RepetitionSettled (c : MatchContext) (lax : Bool) (start least : Nat)
    (s : RepetitionState) : Prop where
  matched : c.Settles lax start s.matched
  place : least ≤ 1 → c.Covers lax start s.place [s.matched]

include hsound hsound2 hsettles2

theorem settles_longest (ts : List GrammarId) (limit i : Nat) (options : List GrammarId) :
    Meets I (c.longest below below2 ts limit i options) fun r =>
      Claims c True False limit i r.1 ∧ c.Settles lax i r.1 :=
  (meets_longest hsound hsound2 ts limit i options).and
    (meets_longest_of (fun place g => (hsound ts limit place g).trivial) options
      (fun _ g _ => hsettles2 ts limit i g) (.empty i))

/-- A round accounts for the code from where it starts up to its end. -/
theorem settles_repetitionRule (ts : List GrammarId) (allowGaps : Bool) (r : Repetition)
    (options : List GrammarId) :
    c.RepetitionRule below below2 ts limit start allowGaps r options I
      (fun s => RepetitionInvariant c True False limit start s ∧
        c.Covers lax start s.place [s.matched])
      (fun s => RepetitionResult c True False limit start r.least s ∧
        RepetitionSettled c lax start r.least s) where
  ends _ h := ⟨h.1.result, h.2.mono h.1.progress.stop_le, fun _ => h.2⟩
  tooFew _ h hfew := ⟨h.1.tooFew hfew, .empty start, fun hleast =>
    .of_le (Nat.le_of_eq (h.1.fresh (by omega)))⟩
  round s h := by
    obtain ⟨hs, hcovers⟩ := h
    have next : c.Covers lax start s.next [s.matched] := by
      rcases hs.next_eq with hnext | hnext
      · rwa [hnext]
      · rw [hnext]
        exact hcovers.skip limit
    refine (settles_longest hsound hsound2 hsettles2 ts limit s.next options).mono
      fun x hx hlt counts => ⟨hs.withPart hx.1 hlt allowGaps counts, ?_⟩
    show c.Covers lax start (s.matched.append x.1).stop [s.matched.append x.1]
    rw [Match.stop_append _ (Match.isMatch_of_lt hlt)]
    exact next.joined hx.2 hs.progress.tidy hx.1.tidy

/-- A repetition that needs no more than one part, or that is strict, accounts for what it goes
over. -/
theorem settles_matchAnyNumberOf (hone : ClosesByOne True I below c.tables.bracketPairs)
    (ts : List GrammarId) (limit i : Nat) (id : GrammarId) (r : Repetition)
    (exclude : Option GrammarId)
    (hleast : (c.tables.instruction id).mode = .greedy → r.least ≤ 1) :
    Meets I (c.matchAnyNumberOf below below2 ts limit i id r exclude) (c.Settles lax i) := by
  refine meets_matchAnyNumberOf_of (meets_matchesExcluded hsound ts limit i exclude)
    (meets_repetitionLimit hsound hone ts limit i id)
    (fun bound _ => settles_repetitionRule hsound hsound2 hsettles2 _ _ r _)
    (fun bound _ => ⟨.initial bound i, .of_le (Nat.le_refl i)⟩) (.empty i)
    fun bound s _ h => ?_
  obtain ⟨hresult, hsettled⟩ := h
  rcases finishRepetition_cases (c := c) bound s with
    heq | ⟨hmode, first, last, hfirst, -, hlt, -, heq⟩
  · rw [heq]
    exact hsettled.matched
  · have before := (hsettled.place (hleast hmode)).skip bound
    rw [← hfirst] at before
    have rest : (Match.unparsable first last nothingHere).isMatch = true :=
      Match.isMatch_of_lt hlt
    rw [heq, Settles, Match.stop_append _ rest]
    exact before.joined (.unparsable first last nothingHere) hresult.claims.tidy
      (.plain _ (Nat.le_of_lt hlt))

/-- A list accounts for the code up to the place it has come to, with the delimiter that waits. -/
structure DelimitedSettled (c : MatchContext) (lax : Bool) (start : Nat) (s : DelimitedState) :
    Prop where
  matched : c.Settles lax start s.matched
  place : c.Covers lax start s.place [s.withPending]

omit hsound hsound2 hsettles2 in
theorem DelimitedSettled.skipped {s : DelimitedState} (h : DelimitedSettled c lax start s)
    (spec : DelimitedSpec) :
    DelimitedSettled c lax start { s with place := spec.nextPlace c limit start s } := by
  refine ⟨h.matched, ?_⟩
  show c.Covers lax start (spec.nextPlace c limit start s) [s.withPending]
  unfold DelimitedSpec.nextPlace
  split
  · exact h.place.skip limit
  · exact h.place

/-- A part or delimiter accounts for the code from where it is tried up to its end. -/
theorem settles_delimitedRule (ts : List GrammarId) (spec : DelimitedSpec) :
    c.DelimitedRule below below2 ts limit start spec I fun s =>
      DelimitedInvariant c True False limit start s ∧ DelimitedSettled c lax start s := by
  have tries (ts options : List GrammarId) {s : DelimitedState}
      (h : DelimitedInvariant c True False limit start s ∧ DelimitedSettled c lax start s) :
      Meets I (c.longest below below2 ts limit s.place options) fun x =>
        Claims c True False limit s.place x.1 ∧ (x.1.isMatch = true →
          c.Settles lax start (s.withPending.append x.1) ∧
          c.Covers lax start x.1.stop [s.withPending.append x.1]) := by
    refine (settles_longest hsound hsound2 hsettles2 ts limit s.place options).mono fun x hx => ?_
    have next : c.Covers lax start x.1.stop [s.withPending.append x.1] :=
      h.2.place.joined hx.2 h.1.progress.tidy hx.1.tidy
    refine ⟨hx.1, fun hmatch => ⟨?_, next⟩⟩
    rwa [Settles, Match.stop_append _ hmatch]
  exact {
    skipped := fun s h => ⟨h.1.skipped spec, h.2.skipped spec⟩
    ending := fun s h _ => (tries ts _ h).trivial
    delimiter := fun s h ht hw => (tries ts _ h).mono fun x hx hmatch =>
      ⟨h.1.withDelimiter hw hx.1 ht.lt hmatch, h.2.matched,
        h.1.withPending_withDelimiter hw x.1 ▸ (hx.2 hmatch).2⟩
    undelimited := fun s h ht hw => (tries _ _ h).mono fun x hx hmatch =>
      ⟨h.1.withUndelimited hw hx.1 ht.lt hmatch,
        h.1.matched_withUndelimited hw x.1 ▸ (hx.2 hmatch).1,
        h.1.withPending_withUndelimited hw x.1 ▸ (hx.2 hmatch).2⟩
    part := fun s h ht _ => (tries _ _ h).mono fun x hx hmatch =>
      ⟨h.1.withPart hx.1 ht.lt hmatch, (hx.2 hmatch).1, (hx.2 hmatch).2⟩ }

theorem settles_matchDelimited (hI : ∀ s notes, I s → I { s with notes := notes })
    (ts : List GrammarId) (limit i : Nat) (id delimiter : GrammarId) (least : Nat) :
    Meets I (c.matchDelimited below below2 ts limit i id delimiter least) (c.Settles lax i) :=
  (settles_delimitedRule hsound hsound2 hsettles2 ts _).meets_matchDelimited hI
    ⟨.initial limit i, .empty i, .of_le (Nat.le_refl i)⟩ (.empty i)
    fun _ h => ⟨h.2.matched, h.2.place.mono h.1.progress.stop_le⟩

end Repetitions

/-! ## 3. Brackets -/

section Brackets

variable {run : Matcher} {pairs : List BracketPair}

/-- The closing bracket of a pair accounts for its own code, and the pair makes a segment if it is
to persist. -/
def ClosedBy (c : MatchContext) (lax : Bool) (pairs : List BracketPair) (kind : Nat)
    (pair : Match) : Prop :=
  (∀ last ∈ pair.children.getLast?, c.Covers lax last.start last.stop [last]) ∧
    ((pairs[kind]?).any (·.persists) = true → pair.class? = some .bracketed)

theorem closedBy_bracketRule (hsound : Sound c True False I run)
    (hsettles : c.SettlesBy lax I run) (ts : List GrammarId) (limit : Nat) (nested : Bool) :
    c.BracketRule run ts limit pairs nested I (fun _ _ _ _ => True)
      (fun kind _ b => ClosedBy c lax pairs kind b) := by
  intro kind opening i inner _
  refine (meets_nextMatch i (bracketGrammars pairs) fun g _ place hplace =>
    (hsound.claims ts (Nat.le_of_lt hplace) g).and (hsettles ts limit place g)).mono
      fun r hr m which hfound => ⟨fun _ => ⟨?_, ?_⟩, fun _ => ⟨trivial, fun _ _ => trivial⟩⟩
  · obtain ⟨g, place, -, -, -, -, claims, settled⟩ := hr _ hfound
    have last : c.Covers lax m.start m.stop [m] := fun k ha hb hcode =>
      settled k (Nat.le_trans claims.le_start ha) hb hcode
    simpa [pairMatch, Match.children] using last
  · intro hpersists
    rw [if_pos hpersists]
    rfl

/-- The pair of a bracketed grammar persists if the grammar says so. -/
theorem persists_pairsFor (opening closing : GrammarId) (persists : Bool) :
    ((c.pairsFor opening closing persists).1[(c.pairsFor opening closing persists).2]?).any
      (·.persists) = persists := by
  unfold pairsFor
  dsimp only
  split
  · next n hn =>
    obtain ⟨hlt, -⟩ := List.findIdx?_eq_some_iff_getElem.1 hn
    simp [hlt]
  · simp

/-- Brackets and what is between them account for the code of the whole, up to where the content
ends and from there on by what is asked of the rest. -/
theorem covers_pair {i first mid : Nat} {opening last : Match} {k : Option MatchClass}
    {is : List (Nat × MarkerKind)} {ms : List Match} (hopening : c.Covers lax i first [opening])
    (hcontent : c.Covers lax first mid ms) (hlast : c.Covers lax last.start last.stop [last])
    (hstart : opening.start ≤ mid)
    (hrest : ∀ n, mid ≤ n → n < last.start →
      c.tables.settles lax n (.mk opening.start last.stop k is ([opening, last] ++ ms)) = true) :
    c.Covers lax i last.stop [.mk opening.start last.stop k is ([opening, last] ++ ms)] := by
  intro n hi hn hcode
  rw [Match.anyHolds_cons, Match.anyHolds_nil, Bool.or_false]
  have known : c.Covers lax i mid ([opening, last] ++ ms) :=
    (hopening.append hcontent).subset (by simp +contextual)
  by_cases hmid : n < mid
  · exact Match.holds_of_children (known n hi hmid hcode)
  by_cases hclosing : n < last.start
  · refine Match.holds_self ?_ hn (hrest n (by omega) hclosing)
    show opening.start ≤ n
    omega
  · have closing : c.Covers lax last.start last.stop ([opening, last] ++ ms) :=
      hlast.subset (by simp)
    exact Match.holds_of_children (closing n (by omega) hn hcode)

/-- What a pair of brackets goes over is accounted for by the brackets and by the content between
them. What a lax grammar leaves over stands between brackets that make a segment. -/
theorem settles_matchContent {below : Matcher} (hsound : Sound c True False I below)
    (hone : ClosesByOne True I below c.tables.bracketPairs) (hsettles : c.SettlesBy lax I below)
    (limit i : Nat) {id closing : GrammarId} {opening last : Match} {k : Option MatchClass}
    (hid : (c.tables.instruction id).kind = .bracketed)
    (hlax : c.tables.isLax id = true → lax = true ∧ k = some .bracketed)
    (ho : Claims c True False limit i opening) (hopening : c.Settles lax i opening)
    (h : Closed True limit opening.start opening.stop [opening] last)
    (hlast : c.Covers lax last.start last.stop [last]) :
    Meets I (c.matchContent below i id closing opening.stop
        (pairMatch opening.start opening.stop k [opening] last)) (c.Settles lax i) := by
  have hopen := ho.start_le_stop
  have hstart := h.le_start
  have hend := h.one trivial
  have closer : (pairMatch opening.start opening.stop k [opening] last).stop - 1 = last.start := by
    show last.stop - 1 = last.start
    omega
  unfold matchContent
  dsimp only
  rw [closer]
  generalize hfirst : (if (c.sequenceSpec id).allowGaps = true then
    c.skipToCode opening.stop last.start else opening.stop) = first
  have before : c.Covers lax i first [opening] ∧ opening.stop ≤ first := by
    rw [← hfirst]
    split
    · exact ⟨hopening.skip last.start, le_skipToCode _ _⟩
    · exact ⟨hopening, Nat.le_refl _⟩
  generalize hstop : (if (c.sequenceSpec id).allowGaps = true then
    c.trimToCode last.start first else last.start) = stop
  refine ((meets_matchSequence hsound hone [closing] stop first (c.sequenceSpec id)).and
    (settles_matchSequence hsound hone hsettles [closing] stop first (c.sequenceSpec id))).bind
      fun content hboth => .ite (fun _ => .pure (.empty i)) fun hstrict => .pure ?_
  obtain ⟨hcontent, settled⟩ := hboth
  have hfrom := hcontent.start_eq
  have hto := hcontent.tidy.start_le_stop
  -- Where the content is filled up to the closing bracket, nothing is left to ask of the rest.
  have filled {filled : Match} {is : List (Nat × MarkerKind)}
      (hfilled : c.Covers lax first last.start [filled]) : c.Covers lax i last.stop
        [.mk opening.start last.stop k is ([opening, last] ++ filled.outerChildren)] :=
    covers_pair before.1 hfilled.outerChildren hlast (by omega) fun n hn hlt => by omega
  cases hgaps : (c.sequenceSpec id).allowGaps with
  | false =>
    rw [hgaps] at hstop
    by_cases hlt : content.stop < last.start
    · rw [if_pos (by simpa using hlt)]
      exact filled (settled.joined (.unparsable content.stop last.start _) hcontent.tidy
        (.plain _ (Nat.le_of_lt hlt)))
    · rw [if_neg (by simpa using hlt)]
      exact filled (settled.mono (by omega))
  | true =>
    rw [hgaps] at hstop
    rw [if_neg (by simp)]
    by_cases hmode : (c.sequenceSpec id).mode = .strict
    · have whole : content.stop = c.trimToCode last.start first := by
        rw [show c.trimToCode last.start first = stop from hstop]
        simpa [hmode] using hstrict
      rw [Settles, whole] at settled
      exact filled settled.trimmed
    · obtain ⟨hshow, rfl⟩ := hlax (by
        simp only [Tables.isLax, hid, Bool.and_eq_true]
        exact ⟨⟨rfl, hgaps⟩, bne_iff_ne.2 hmode⟩)
      refine covers_pair before.1 settled.outerChildren hlast (by omega) fun n hn hlt => ?_
      have inside := hcontent.tidy.outerChildren_inside
      have bare : Match.bares n (.mk opening.start last.stop (some .bracketed)
          ([(opening.stop, .indent), (last.start, .dedent)] ++ content.outerInserts)
          ([opening, last] ++ content.outerChildren)) = true := by
        simp only [Match.bares, Match.class?, Match.children, beq_self_eq_true, Bool.true_and,
          List.all_append, List.all_cons, List.all_nil, Bool.and_true, Bool.and_eq_true,
          Bool.or_eq_true, decide_eq_true_eq, List.all_eq_true]
        refine ⟨⟨by omega, by omega⟩, fun x hx => ?_⟩
        have := inside.bounds x hx
        omega
      rw [hshow]
      exact Bool.or_eq_true_iff.2 (.inr bare)

theorem settles_matchBracketed {here below below2 : Matcher} (hhere : Sound c True False I here)
    (hbelow : Sound c True False I below) (hbelow2 : Sound c True False I below2)
    (hhereOne : ClosesByOne True I here c.tables.bracketPairs)
    (hbelow2One : ClosesByOne True I below2 c.tables.bracketPairs)
    (hhereSettles : c.SettlesBy lax I here) (hsettles : c.SettlesBy lax I below)
    (hsettles2 : c.SettlesBy lax I below2) (ts : List GrammarId) (limit i : Nat)
    {id opening closing : GrammarId} {persists : Bool}
    (hshape : c.tables.shape id = .bracketed (some (opening, closing, persists)))
    (hdeclared : ∃ p ∈ c.tables.bracketPairs, c.resolve p.opening = c.resolve opening)
    (hlax : c.tables.LaxBracketsShow lax) :
    Meets I (c.matchBracketed here below below2 ts limit i id opening closing persists)
      (c.Settles lax i) := by
  unfold matchBracketed
  refine ((hbelow ts limit i opening).and (hsettles ts limit i opening)).bind
    fun first hboth => ?_
  obtain ⟨hfirst, settled⟩ := hboth
  split
  · exact .pure (.empty i)
  next hmatch =>
  have hfirst := hfirst (.inr (by simpa using hmatch))
  have hone : ClosesByOne True I here (c.pairsFor opening closing persists).1 :=
    hhereOne.of_closings fun _ _ hq => closing_of_mem_pairsFor hdeclared hq
  dsimp only
  refine ((meets_closeBracket hhere hone ts limit false _ hfirst.tidy).and
    ((closedBy_bracketRule hhere hhereSettles ts limit false).meets (limit + 2) _
      trivial)).bind fun r hr => ?_
  rcases r with _ | pair
  · exact .pure (.empty i)
  obtain ⟨k, between, last, rfl, closed, hbetween⟩ := hr.1 pair rfl
  obtain rfl := hbetween rfl
  obtain ⟨hlast, hclass⟩ := hr.2 _ rfl
  refine settles_matchContent hbelow2 hbelow2One hsettles2 limit i
    (GrammarBook.kind_of_shape_bracketed hshape) (fun hid => ?_) hfirst settled closed
    (hlast last (by simp [pairMatch, Match.children]))
  obtain ⟨hshow, hpersists⟩ := hlax id hid
  obtain rfl := hpersists _ _ _ hshape
  exact ⟨hshow, hclass (persists_pairsFor opening closing true)⟩

end Brackets

/-! ## 4. Tokens -/

section Tokens

variable (limit i : Nat)

theorem Settles.token (type : String) (normalized : Option String) :
    c.Settles lax i (.token i type normalized) := by
  intro k ha hb _
  rw [Match.anyHolds_cons, Match.holds_self ha hb]
  · rfl
  · simp [Tables.settles, Tables.isClaim, Match.token, Match.class?]

theorem settles_matchCode (type : String) (test : TokenView → Bool) :
    c.Settles lax i (c.matchCode limit i type test) := by
  unfold matchCode
  split
  · split
    · exact .token i type none
    · exact .empty i
  · exact .empty i

theorem settles_matchTyped (id : GrammarId) (template type : String) :
    c.Settles lax i (c.matchTyped limit i id template type) := by
  unfold matchTyped
  split
  · split
    · exact .token i type _
    · exact .empty i
  · exact .empty i

theorem settles_matchPattern (text anti : Option TablePattern) (type : String) :
    c.Settles lax i (c.matchPattern limit i text anti type) := by
  unfold matchPattern
  split
  · exact .empty i
  · exact settles_matchCode limit i type _

theorem settles_marker (id : GrammarId) :
    c.Settles lax i (((c.enabledMarker? id).map (Match.marker i)).getD (.empty i)) := by
  cases c.enabledMarker? id with
  | none => exact .empty i
  | some kind => exact .of_le (Nat.le_refl i)

/-- A match of tokens that stay as they are, from the place it was asked at. -/
inductive Plain (i : Nat) : Match → Prop where
  | mk (b : Nat) (cs : List Match) : Plain i (.mk i b none [] cs)

/-- Code that is taken as it is is accounted for by the segment that it is put into. -/
theorem Plain.settles {i : Nat} {m : Match} (h : Plain i m) {id : GrammarId} (type : String)
    (hid : c.tables.takesAsIs id = true) : c.Settles lax i (m.wrap (.node type id)) := by
  cases h with
  | mk b cs =>
    by_cases hmatch : (Match.mk i b none [] cs).isMatch = true
    · simp only [Match.wrap, hmatch, Match.class?, Option.isNone_none]
      intro k ha hb _
      rw [Match.anyHolds_cons, Match.holds_self ha hb]
      · rfl
      · simp [Tables.settles, Tables.isClaim, Match.class?, hid]
    · rw [Match.wrap, if_pos (by simpa using hmatch)]
      refine .of_le (Nat.le_of_not_lt fun hlt => hmatch (Match.isMatch_of_lt hlt))

theorem plain_anyToken :
    Plain i (if (c.token? limit i).any (·.isCode) then .range i (i + 1) else .empty i) := by
  split
  · exact .mk (i + 1) []
  · exact .mk i []

theorem plain_greedyFrom {below : Matcher} (hsound : Sound c True False I below)
    (hone : ClosesByOne True I below c.tables.bracketPairs) (ts : List GrammarId)
    (options : List GrammarId) (including nested : Bool) (fuel at_ : Nat) (inner : List Match) :
    Meets I (c.greedyFrom below ts limit i options including nested fuel at_ inner) (Plain i) := by
  induction fuel generalizing at_ inner with
  | zero => exact .pure (.mk limit inner)
  | succ fuel ih =>
    refine (meets_nextOutsideBrackets hsound hone ts limit at_ options).bind fun found _ => ?_
    dsimp only
    split
    · exact .pure (.mk limit _)
    · refine .ite (fun _ => ih _ _) fun _ => .ite (fun _ => .pure (.mk _ _)) fun _ => ?_
      exact .pure (.mk _ _)

theorem plain_matchAnything {below : Matcher} (hsound : Sound c True False I below)
    (hone : ClosesByOne True I below c.tables.bracketPairs) (ts : List GrammarId)
    (id : GrammarId) : Meets I (c.matchAnything below ts limit i id) (Plain i) := by
  unfold matchAnything
  dsimp only
  split
  · exact .pure (.mk _ [])
  · exact plain_greedyFrom limit i hsound hone ts _ false true _ i []

end Tokens

/-! ## 5. All levels -/

/-- The states that matching can be in, with what their memo promises. -/
structure SettledInvariant (c : MatchContext) (lax : Bool) (s : MatchState) : Prop where
  sound : Invariant c True False s
  memo : ∀ (key : MemoKey) m, s.memo[key]? = some m → c.Settles lax key.start m

/-- Sound matches that account for the code they go over. -/
def SoundSettling (c : MatchContext) (lax : Bool) (I : MatchState → Prop) (run : Matcher) : Prop :=
  Sound c True False I run ∧ c.SettlesBy lax I run

namespace SettledInvariant

variable {s : MatchState}

theorem initial : c.SettledInvariant lax {} := ⟨.initial, fun key m h => by simp at h⟩

theorem note (h : c.SettledInvariant lax s) (notes : List ParseNote) :
    c.SettledInvariant lax { s with notes := notes } := ⟨h.sound.note notes, h.memo⟩

end SettledInvariant

section References

variable {n : Nat} (hn : c.SoundSettling lax (c.SettledInvariant lax) (c.matchGrammar n))

include hn

/-- What is put into the memo keeps it as promised. -/
theorem SettledInvariant.keep {s : MatchState} (h : c.SettledInvariant lax s) (ts : List GrammarId)
    (limit i : Nat) (g : GrammarId) :
    c.SettledInvariant lax { ((c.matchGrammar n ts limit i g).run s).2 with
      memo := ((c.matchGrammar n ts limit i g).run s).2.memo.insert ⟨i, limit, g, ts⟩
        ((c.matchGrammar n ts limit i g).run s).1 } := by
  obtain ⟨claims, after⟩ := hn.1 ts limit i g s h
  exact ⟨h.sound.keep rfl after.sound claims,
    forall_memo_insert after.memo (hn.2 ts limit i g s h).1⟩

theorem settles_matchReference (ts : List GrammarId) (limit i : Nat) (id target : GrammarId)
    (exclude : Option GrammarId) :
    Meets (c.SettledInvariant lax)
      (c.matchReference (c.matchGrammar n) ts limit i id target exclude) fun m =>
        (i ≤ limit ∨ m.isMatch = true → Claims c True False limit i m) ∧ c.Settles lax i m := by
  unfold matchReference
  dsimp only
  refine (meets_matchesExcluded hn.1 _ limit i exclude).bind fun excluded _ => ?_
  split
  · exact .pure ⟨fun _ => .empty i, .empty i⟩
  · exact meets_memoized ((hn.1 _ limit i target).and (hn.2 _ limit i target))
      (fun s m hs hm => ⟨hs.sound.memo _ m hm, hs.memo _ m hm⟩)
      fun s hs => hs.keep hn _ limit i target

end References

section Level

variable {here below2 : Matcher} {n : Nat} (hexact : c.ExactBrackets)
  (hprompt : c.tables.IsPrompt) (htraces : c.tables.TracesAll)
  (hlax : c.tables.LaxBracketsShow lax)
  (hhere : c.SoundSettling lax (c.SettledInvariant lax) here)
  (hhereOne : ClosesByOne True (c.SettledInvariant lax) here c.tables.bracketPairs)
  (hbelow : c.SoundSettling lax (c.SettledInvariant lax) (c.matchGrammar n))
  (hbelowOne : ClosesByOne True (c.SettledInvariant lax) (c.matchGrammar n) c.tables.bracketPairs)
  (hbelow2 : c.SoundSettling lax (c.SettledInvariant lax) below2)
  (hbelow2One : ClosesByOne True (c.SettledInvariant lax) below2 c.tables.bracketPairs)

include hexact hprompt hlax hhere hhereOne hbelow hbelowOne hbelow2 hbelow2One

/-- A grammar accounts for the code it goes over, or takes it as it is. -/
theorem settles_matchShape (ts : List GrammarId) (limit i : Nat) (id : GrammarId) :
    Meets (c.SettledInvariant lax) (c.matchShape here (c.matchGrammar n) below2 ts limit i id)
      fun m => if c.tables.takesAsIs id then Plain i m else c.Settles lax i m := by
  have note : ∀ (s : MatchState) notes, c.SettledInvariant lax s →
      c.SettledInvariant lax { s with notes := notes } := fun _ notes h => h.note notes
  have nothing : Meets (c.SettledInvariant lax) (return Match.empty i) (c.Settles lax i) :=
    .pure (.empty i)
  unfold Tables.takesAsIs matchShape
  cases hshape : c.tables.shape id with
  | ref name target exclude =>
    cases target with
    | none => exact nothing
    | some target =>
      exact (settles_matchReference hbelow ts limit i id target exclude).mono fun m hm => hm.2
  | sequence => exact settles_matchSequence hbelow.1 hbelowOne hbelow.2 ts limit i _
  | oneOf exclude =>
    exact settles_matchAnyNumberOf hbelow.1 hbelow2.1 hbelow2.2 hbelowOne ts limit i id _ exclude
      fun _ => Nat.le_refl 1
  | anyNumberOf most perPart exclude =>
    exact settles_matchAnyNumberOf hbelow.1 hbelow2.1 hbelow2.2 hbelowOne ts limit i id _ exclude
      (hprompt id (kind_of_shape_anyNumberOf hshape))
  | delimited delimiter least =>
    cases delimiter with
    | none => exact nothing
    | some delimiter =>
      exact settles_matchDelimited hbelow.1 hbelow2.1 hbelow2.2 note ts limit i id delimiter least
  | bracketed pair =>
    rcases pair with _ | ⟨opening, closing, persists⟩
    · exact nothing
    · exact settles_matchBracketed hhere.1 hbelow.1 hbelow2.1 hhereOne hbelow2One hhere.2 hbelow.2
        hbelow2.2 ts limit i hshape (hexact.declared id _ _ _ hshape) hlax
  | string template type => exact .pure (settles_matchCode limit i type _)
  | multiString templates type => exact .pure (settles_matchCode limit i type _)
  | typed template type => exact .pure (settles_matchTyped limit i id template type)
  | pattern text anti type => exact .pure (settles_matchPattern limit i text anti type)
  | token => exact .pure (plain_anyToken limit i)
  | anything => exact plain_matchAnything limit i hbelow.1 hbelowOne ts id
  | marker kind condition => exact .pure (settles_marker i id)
  | nothing => exact nothing
  | missing => exact nothing

include htraces

/-- A grammar accounts for the code it goes over, by its parts or by its segment. -/
theorem soundSettling_matchOne :
    c.SoundSettling lax (c.SettledInvariant lax) (c.matchOne here (c.matchGrammar n) below2) := by
  refine ⟨sound_matchOne hhere.1 hhereOne hbelow.1 hbelowOne hbelow2.1 hbelow2One
    (fun _ notes h => h.note notes) (fun ts limit i id target exclude =>
      (settles_matchReference hbelow ts limit i id target exclude).mono fun m hm => hm.1)
    (fun _ => hexact) fun h => h.elim, fun ts limit i id => ?_⟩
  refine (settles_matchShape hexact hprompt hlax hhere hhereOne hbelow hbelowOne hbelow2 hbelow2One
    ts limit i id).bind fun m hm => .pure ?_
  split at hm
  · next hid =>
    obtain ⟨type, htype⟩ := Option.isSome_iff_exists.1 (htraces id hid)
    rw [htype]
    exact hm.settles type hid
  · exact hm.wrap? _

end Level

/-- All matches account for the code they go over, where brackets are exact, no greedy repetition
needs two parts, and whatever takes code as it is makes a segment. -/
theorem settling_matchGrammar (hexact : c.ExactBrackets) (hprompt : c.tables.IsPrompt)
    (htraces : c.tables.TracesAll) (hlax : c.tables.LaxBracketsShow lax) (n : Nat) :
    c.SoundSettling lax (c.SettledInvariant lax) (c.matchGrammar n) := by
  have reachable (s : MatchState) (hs : c.SettledInvariant lax s) : c.Reachable s :=
    hs.sound.reachable
  have one {n : Nat} (hn : c.SoundSettling lax (c.SettledInvariant lax) (c.matchGrammar n)) :=
    closesByOne_matchGrammar reachable hn.1 fun _ => hexact
  have refuse : c.SoundSettling lax (c.SettledInvariant lax) .refuse :=
    ⟨sound_refuse, fun _ _ i _ => .pure (.empty i)⟩
  refine matchGrammar_induction refuse (fun _ below below2 => ?_)
    (fun _ here below below2 => ?_) n
  · exact soundSettling_matchOne hexact hprompt htraces hlax refuse (closesByOne_refuse _) below
      (one below) below2 (one below2)
  · exact soundSettling_matchOne hexact hprompt htraces hlax here
      (closesByOne_searching reachable here.1 fun _ => hexact) below (one below) below2
      (one below2)

end MatchContext

end QueryLint
