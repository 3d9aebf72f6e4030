import QueryLint.Proofs.Match.Grammar
import QueryLint.Proofs.Match.Steady

/-!
QueryLint.Proofs.Match.Even — the markers of matches are balanced.

Only sequences put in markers, and they put in all of them, whether the optional parts among them
match or not, or they end with something unparsable. So the markers of a sequence are balanced if
those it names under the settings are, and every other grammar puts together what its parts match.

What has to be known of a grammar is what it names. It is asked of a set of grammars that is closed
under what they name, and that the brackets of the dialect belong to: these are looked for inside
everything that is taken as it is.

* `MatchContext.EvenParts` — what is asked of the parts of a sequence.
* `MatchContext.EvenGrammars` — a set of grammars that name markers in sequences only, balanced.
* `MatchContext.evens_matchSequence`, … — matches of grammars of parts are even.
* `MatchContext.even_matchGrammar` — so are those of all grammars of the set.
-/

namespace QueryLint

open Matching

namespace MatchContext

variable {c : MatchContext} {P : GrammarId → Prop} {I : MatchState → Prop}

/-! ## 1. Grammars -/

/-- The markers among the parts of a sequence, under the settings. -/
def markersOf (c : MatchContext) (ids : List GrammarId) : List MarkerKind :=
  (ids.filter fun g => (c.tables.instruction g).kind = .marker).flatMap fun g =>
    (c.enabledMarker? g).toList

/-- The markers among the parts of a sequence are balanced, and the other parts are in the set. -/
structure EvenParts (c : MatchContext) (P : GrammarId → Prop) (ids : List GrammarId) : Prop where
  parts : ∀ g ∈ ids, (c.tables.instruction g).kind ≠ .marker → P g
  markers : Returns 0 (c.markersOf ids)

/-- What a grammar names is in the set, and it names markers in sequences only, balanced. -/
def NamesEven (c : MatchContext) (P : GrammarId → Prop) (id : GrammarId) : Prop :=
  match c.tables.shape id with
  | .ref _ (some target) _ => P target
  | .sequence => c.EvenParts P (c.tables.parts id)
  | .oneOf _ | .anyNumberOf _ _ _ => ∀ g ∈ c.tables.parts id, P g
  | .delimited (some delimiter) _ => P delimiter ∧ ∀ g ∈ c.tables.parts id, P g
  | .bracketed (some (opening, closing, _)) =>
    P opening ∧ P closing ∧ c.EvenParts P (c.tables.parts id)
  | .marker _ _ => c.enabledMarker? id = none
  | _ => True

/-- A set of grammars that name each other and balanced markers, with all brackets among them. -/
structure EvenGrammars (c : MatchContext) (P : GrammarId → Prop) : Prop where
  names : ∀ id, P id → c.NamesEven P id
  brackets : ∀ p ∈ c.tables.bracketPairs, P p.opening ∧ P p.closing

/-- The matches of a matcher are even for the grammars of the set. -/
def EvensBy (P : GrammarId → Prop) (I : MatchState → Prop) (run : Matcher) : Prop :=
  ∀ ts limit i g, P g → Meets I (run ts limit i g) Match.Even

theorem evensBy_refuse : EvensBy P I .refuse := fun _ _ i _ _ => .pure (.empty i)

theorem markersOf_cons_marker {g : GrammarId} (h : (c.tables.instruction g).kind = .marker)
    (ids : List GrammarId) :
    c.markersOf (g :: ids) = (c.enabledMarker? g).toList ++ c.markersOf ids := by
  rw [markersOf, List.filter_cons_of_pos (by simpa using h), List.flatMap_cons]
  rfl

theorem markersOf_cons_part {g : GrammarId} (h : (c.tables.instruction g).kind ≠ .marker)
    (ids : List GrammarId) : c.markersOf (g :: ids) = c.markersOf ids := by
  rw [markersOf, List.filter_cons_of_neg (by simpa using h)]
  rfl

/-! ## 2. Sequences -/

/-- How the markers of a sequence stand between two parts. All that it has put in and all that wait
or are still to come are balanced, unless something in it could not be placed. -/
structure SequenceEven (c : MatchContext) (s : SequenceState) (rest : List GrammarId) :
    Prop where
  children : ∀ m ∈ s.children, m.Even
  markers : (∃ k, Match.anyHolds Match.isUnparsable k s.children = true) ∨
    Match.Steady s.inserts ∧
      Returns (Match.change s.inserts) (s.waiting ++ c.markersOf rest)

namespace SequenceEven

variable {limit start : Nat} {s : SequenceState} {rest : List GrammarId}

/-- A part that is skipped leaves the markers as they are. -/
theorem skip {g : GrammarId} (h : c.SequenceEven s (g :: rest))
    (hg : (c.tables.instruction g).kind ≠ .marker) : c.SequenceEven s rest := by
  refine ⟨h.children, ?_⟩
  have := h.markers
  rwa [markersOf_cons_part hg] at this

/-- A marker waits for the next part. -/
theorem wait {g : GrammarId} (h : c.SequenceEven s (g :: rest))
    (hg : (c.tables.instruction g).kind = .marker) :
    c.SequenceEven { s with waiting := s.waiting ++ (c.enabledMarker? g).toList } rest := by
  refine ⟨h.children, ?_⟩
  have := h.markers
  rwa [markersOf_cons_marker hg, ← List.append_assoc] at this

/-- A part that has matched is put behind the markers that wait for it. -/
theorem withPart {g : GrammarId} {i bound : Nat} {m : Match} (h : c.SequenceEven s (g :: rest))
    (hg : (c.tables.instruction g).kind ≠ .marker)
    (hs : SequenceInvariant False limit start s) (hi : s.place ≤ i) (hm : m.Even) :
    c.SequenceEven (s.withPart i bound m) rest := by
  refine ⟨List.forall_mem_append.2 ⟨h.children, hm.outerChildren⟩, ?_⟩
  unfold SequenceState.withPart
  dsimp only
  have waiting : s.place ≤ s.waitingPlace i := by
    unfold SequenceState.waitingPlace
    split
    · exact Nat.le_refl _
    · exact hi
  rcases (h.skip hg).markers with ⟨k, hk⟩ | ⟨steady, returns⟩
  · exact .inl ⟨k, by simp [hk]⟩
  have before : ∀ x ∈ s.inserts, x.1 ≤ s.waitingPlace i := fun x hx =>
    Nat.le_trans (hs.inserts x hx).2 waiting
  obtain ⟨steady, returns⟩ := steady.putAll before returns
  rcases hm.outer with ⟨k, hk⟩ | ⟨steady', zero⟩
  · exact .inl ⟨k, by simp [hk]⟩
  · refine .inr ⟨steady.append steady', ?_⟩
    rw [Match.change_append, zero, Int.add_zero]
    exact returns

/-- When all parts have been dealt with, the markers that still wait complete the others. -/
theorem placed (h : c.SequenceEven s []) (hs : SequenceInvariant False limit start s) :
    Match.MarkersEven s.children (s.placed s.place) := by
  refine h.markers.imp_right fun ⟨steady, returns⟩ => ?_
  obtain ⟨steady, returns⟩ := steady.putAll (fun x hx => (hs.inserts x hx).2) returns
  exact ⟨steady, returns⟩

theorem finish (h : c.SequenceEven s []) (hs : SequenceInvariant False limit start s)
    (spec : SequenceSpec) : (c.finishSequence spec start s).Even := by
  rcases finishSequence_cases (c := c) spec start s with
    heq | ⟨first, last, -, -, hlt, -, heq⟩
  · rw [heq]
    exact .of_parts (h.placed hs) h.children
  · rw [heq]
    exact .of_parts (.of_unparsable s.children _ hlt _)
      (List.forall_mem_append.2 ⟨h.children, List.forall_mem_singleton.2 (.unparsable _ _ _)⟩)

theorem ended (h : c.SequenceEven s rest) (hs : SequenceInvariant False limit start s)
    (spec : SequenceSpec) (part : GrammarId) : (c.endedSequence spec start s part).Even := by
  unfold endedSequence
  split
  · exact .empty start
  · next hstarted =>
    have hplace : s.place ≠ start := by
      simp only [Bool.or_eq_true, decide_eq_true_eq, not_or] at hstarted
      exact hstarted.2
    have := hs.start_le
    exact .wrap_unparsable (by omega) h.children _

theorem failed (h : c.SequenceEven s rest) (spec : SequenceSpec) (part : GrammarId) {i : Nat}
    (hi : i < s.limit) : (c.failedSequence spec start s part i).Even := by
  unfold failedSequence
  dsimp only
  split
  · exact .empty start
  · exact .empty start
  · exact .unparsable start s.limit _
  · exact .of_parts (.of_unparsable s.children _ hi _)
      (List.forall_mem_append.2 ⟨h.children, List.forall_mem_singleton.2 (.unparsable _ _ _)⟩)

end SequenceEven

section Sequences

variable {below : Matcher} (hsound : Sound c False False I below) (hevens : EvensBy P I below)

include hsound hevens

/-- Each part leads an even sequence on. -/
theorem evens_sequenceRule (ts : List GrammarId) (limit start : Nat) (spec : SequenceSpec) :
    c.SequenceRule below ts limit start spec I
      (fun s gs => SequenceInvariant False limit start s ∧ c.SequenceEven s gs ∧
        ∀ g ∈ gs, (c.tables.instruction g).kind ≠ .marker → P g) Match.Even where
  finished _ h := h.2.1.finish h.1 spec
  marker _ _ _ h hmarker :=
    ⟨h.1.withWaiting _, h.2.1.wait hmarker, (List.forall_mem_cons.1 h.2.2).2⟩
  leftOut _ _ _ h hpart _ := ⟨h.1, h.2.1.skip hpart, (List.forall_mem_cons.1 h.2.2).2⟩
  ended _ g _ h _ := h.2.1.ended h.1 spec g
  part s g gs h hpart hlt := by
    obtain ⟨hs, heven, hparts⟩ := h
    obtain ⟨hg, hrest⟩ := List.forall_mem_cons.1 hparts
    refine ((hsound.claims _ (Nat.le_of_lt hlt) g).and (hevens _ s.limit _ g (hg hpart))).mono
      fun m hm => ⟨fun _ => heven.failed spec g hlt, fun _ => ?_⟩
    exact (hs.meets_withPart hsound False.elim ts hlt hm.1).mono fun _ hbound =>
      ⟨hbound, heven.withPart hpart hs (spec.le_nextPlace s) hm.2, hrest⟩

theorem evens_matchSequence (ts : List GrammarId) (limit i : Nat) (spec : SequenceSpec)
    (hparts : c.EvenParts P spec.parts) :
    Meets I (c.matchSequence below ts limit i spec) Match.Even :=
  (evens_sequenceRule hsound hevens ts limit i spec).meets_matchSequence <|
    (meets_firstLimit hsound False.elim ts limit i spec).mono fun _ hn =>
      ⟨.initial hn, ⟨by simp, .inr ⟨.nil, hparts.markers⟩⟩, hparts.parts⟩

end Sequences

/-! ## 3. Repetitions and lists -/

section Repetitions

variable {below below2 : Matcher} (hsound : Sound c False False I below)
  (hevens2 : EvensBy P I below2)

include hsound hevens2

theorem evens_longest (ts : List GrammarId) (limit i : Nat) {options : List GrammarId}
    (hoptions : ∀ g ∈ options, P g) :
    Meets I (c.longest below below2 ts limit i options) fun r => r.1.Even :=
  meets_longest_of (fun place g => (hsound ts limit place g).trivial) options
    (fun _ g hg => hevens2 ts limit i g (hoptions g hg)) (.empty i)

/-- Each round leads an even repetition on. -/
theorem evens_repetitionRule (ts : List GrammarId) (limit start : Nat) (allowGaps : Bool)
    (r : Repetition) {options : List GrammarId} (hoptions : ∀ g ∈ options, P g) :
    c.RepetitionRule below below2 ts limit start allowGaps r options I
      (·.matched.Even) (·.matched.Even) where
  ends _ h := h
  tooFew _ _ _ := .empty start
  round s h := (evens_longest hsound hevens2 ts limit s.next hoptions).mono
    fun _ hm _ _ => h.append hm

theorem evens_matchAnyNumberOf (ts : List GrammarId) (limit i : Nat) (id : GrammarId)
    (r : Repetition) (exclude : Option GrammarId) (hparts : ∀ g ∈ c.tables.parts id, P g) :
    Meets I (c.matchAnyNumberOf below below2 ts limit i id r exclude) Match.Even := by
  refine meets_matchAnyNumberOf_of (meets_matchesExcluded hsound ts limit i exclude)
    (meets_repetitionLimit hsound False.elim ts limit i id)
    (fun bound _ => evens_repetitionRule hsound hevens2 _ bound i _ r hparts)
    (fun _ _ => .empty i) (.empty i) fun bound s _ hs => ?_
  rcases finishRepetition_cases (c := c) bound s with
    heq | ⟨-, first, last, -, -, -, -, heq⟩
  · rw [heq]
    exact hs
  · rw [heq]
    exact hs.append (.unparsable first last nothingHere)

/-- What a list has matched so far, and the delimiter that waits. -/
structure DelimitedEven (s : DelimitedState) : Prop where
  matched : s.matched.Even
  pending : ∀ m, s.pending = some m → m.Even

omit hsound hevens2 in
theorem DelimitedEven.withPending {s : DelimitedState} (h : DelimitedEven s) :
    s.withPending.Even := by
  unfold DelimitedState.withPending
  cases hp : s.pending with
  | none => exact h.matched
  | some m => exact h.matched.append (h.pending m hp)

/-- Each part and delimiter leads an even list on. -/
theorem evens_delimitedRule (hsound2 : Sound c False False I below2) (ts : List GrammarId)
    (limit start : Nat) (spec : DelimitedSpec) (hdelimiter : P spec.delimiter)
    (hparts : ∀ g ∈ spec.parts, P g) :
    c.DelimitedRule below below2 ts limit start spec I DelimitedEven where
  skipped _ h := ⟨h.matched, h.pending⟩
  ending s _ _ := (meets_longest hsound hsound2 ts limit s.place _).trivial
  delimiter s h _ _ := by
    refine (evens_longest hsound hevens2 ts limit s.place (by simpa using hdelimiter)).mono
      fun x hx _ => ⟨h.matched, ?_⟩
    rintro m ⟨⟩
    exact hx
  undelimited s h _ _ := (evens_longest hsound hevens2 _ limit s.place hparts).mono
    fun _ hx _ => ⟨h.matched.append hx, nofun⟩
  part s h _ _ := (evens_longest hsound hevens2 _ limit s.place hparts).mono
    fun _ hx _ => ⟨h.withPending.append hx, nofun⟩

theorem evens_matchDelimited (hI : ∀ s notes, I s → I { s with notes := notes })
    (hsound2 : Sound c False False I below2) (ts : List GrammarId) (limit i : Nat)
    {id delimiter : GrammarId} (least : Nat) (hdelimiter : P delimiter)
    (hparts : ∀ g ∈ c.tables.parts id, P g) :
    Meets I (c.matchDelimited below below2 ts limit i id delimiter least) Match.Even :=
  (evens_delimitedRule hsound hevens2 hsound2 ts limit i (c.delimitedSpec ts id delimiter)
    hdelimiter hparts).meets_matchDelimited hI ⟨.empty i, nofun⟩ (.empty i)
      fun _ h => ⟨h.matched, h.withPending⟩

end Repetitions

/-! ## 4. Brackets and what is taken as it is -/

section Brackets

variable {run : Matcher} (hsound : Sound c False False I run) (hevens : EvensBy P I run)

/-- A pair of brackets is even if all in it is: the marker before the closing bracket takes back the
one after the opening bracket. -/
theorem even_pairMatch {limit start i indentAt : Nat} {k : Option MatchClass}
    {between : List Match} {last : Match} (h : Closed False limit start i between last)
    (hindent : indentAt ≤ i)
    (children : ∀ m ∈ (pairMatch start indentAt k between last).children, m.Even) :
    (pairMatch start indentAt k between last).Even :=
  .of_parts (.inr ⟨.pair (Nat.le_trans hindent h.le_start), rfl⟩) children

include hsound hevens

theorem evens_bracketRule {pairs : List BracketPair}
    (hpairs : ∀ p ∈ pairs, P p.opening ∧ P p.closing) (ts : List GrammarId) (limit : Nat)
    (nested : Bool) :
    c.BracketRule run ts limit pairs nested I
      (fun _ opening i inner => Opened False nested opening i inner ∧ ∀ m ∈ inner, m.Even)
      (fun _ opening b => IsPair False limit nested opening b ∧ ∀ m ∈ b.children, m.Even) := by
  intro kind opening i inner h
  obtain ⟨hopened, hinner⟩ := h
  have found := meets_nextMatch (c := c) i (bracketGrammars pairs) fun g hg place _ =>
    hevens ts limit place g (forall_mem_bracketGrammars hpairs g hg)
  refine ((bracketRule hsound False.elim ts limit nested kind opening i inner hopened).and
    found).mono fun r hr m which hfound => ?_
  obtain ⟨closing, inside⟩ := hr.1 m which hfound
  obtain ⟨g, place, -, -, -, -, even⟩ := hr.2 _ hfound
  refine ⟨fun hwhich => ⟨closing hwhich, ?_⟩, fun hwhich => ⟨⟨(inside hwhich).1, ?_⟩, ?_⟩⟩
  · exact List.forall_mem_append.2 ⟨hinner, List.forall_mem_singleton.2 even⟩
  · exact List.forall_mem_singleton.2 even
  · rintro b ⟨hpair, children⟩
    refine ⟨(inside hwhich).2 b hpair, ?_⟩
    obtain ⟨k, between, last, rfl, closed, -⟩ := hpair
    split
    · exact List.forall_mem_append.2 ⟨hinner, List.forall_mem_singleton.2
        (even_pairMatch closed (Nat.le_refl _) children)⟩
    · exact hinner

/-- A pair of brackets is found with all in it even. -/
theorem evens_closeBracket {pairs : List BracketPair}
    (hpairs : ∀ p ∈ pairs, P p.opening ∧ P p.closing) (ts : List GrammarId) (limit : Nat)
    (nested : Bool) (kind : Nat) {opening : Match} (tidy : opening.Tidy False)
    (ho : opening.Even) :
    Meets I (c.closeBracket run ts limit pairs nested kind opening) fun r => ∀ b, r = some b →
      IsPair False limit nested opening b ∧ ∀ m ∈ b.children, m.Even :=
  (evens_bracketRule hsound hevens hpairs ts limit nested).meets (limit + 2) kind
    ⟨.initial tidy, List.forall_mem_singleton.2 ho⟩

variable (hbrackets : ∀ p ∈ c.tables.bracketPairs, P p.opening ∧ P p.closing)

include hbrackets

/-- The pairs of brackets that a search goes over are even, whatever it looks for. -/
theorem evens_outsideFrom (ts : List GrammarId) (limit start : Nat) (options : List GrammarId)
    (fuel i : Nat) {skipped : List Match} (hskipped : ∀ m ∈ skipped, m.Even) :
    Meets I (c.outsideFrom run ts limit start options fuel i skipped) fun r =>
      ∀ m ∈ r.skipped, m.Even := by
  induction fuel generalizing i skipped with
  | zero => exact .pure (by simp)
  | succ fuel ih =>
    refine (meets_nextMatch i (options ++ bracketGrammars c.tables.bracketPairs)
      fun g _ place hplace => (hsound.claims ts (Nat.le_of_lt hplace) g).and
        ((hsound ts limit place g).trivial.imp (hevens ts limit place g))).bind fun r hr => ?_
    rcases r with _ | ⟨m, which⟩
    · exact .pure hskipped
    obtain ⟨g, place, hg, -, -, -, claims, even⟩ := hr _ rfl
    dsimp only at hg claims even ⊢
    split
    · exact .pure hskipped
    next hbracket =>
    split
    · exact .pure (by simp)
    have bracket : P g := by
      rw [List.getElem?_append_right (by omega)] at hg
      exact forall_mem_bracketGrammars hbrackets g (List.mem_of_getElem? hg)
    refine (evens_closeBracket hsound hevens hbrackets ts limit true _ claims.tidy
      (even bracket)).bind fun r hr => ?_
    rcases r with _ | b
    · exact .pure (by simp)
    obtain ⟨⟨k, between, last, rfl, closed, -⟩, children⟩ := hr b rfl
    exact ih _ (List.forall_mem_append.2 ⟨hskipped, List.forall_mem_singleton.2
      (even_pairMatch closed (Nat.le_refl _) children)⟩)

/-- What is taken as it is up to a terminator has no markers but those of brackets inside. -/
theorem evens_greedyFrom (ts : List GrammarId) (limit i : Nat) (options : List GrammarId)
    (including nested : Bool) (fuel at_ : Nat) {inner : List Match}
    (hinner : ∀ m ∈ inner, m.Even) :
    Meets I (c.greedyFrom run ts limit i options including nested fuel at_ inner) Match.Even := by
  induction fuel generalizing at_ inner with
  | zero => exact .pure (.plain _ _ _ hinner)
  | succ fuel ih =>
    refine (evens_outsideFrom hsound hevens hbrackets ts limit at_ options _ at_
      (List.forall_mem_nil Match.Even)).bind fun found hfound => ?_
    have all : ∀ m ∈ (if nested then inner ++ found.skipped else inner), m.Even := by
      split
      · exact List.forall_mem_append.2 ⟨hinner, hfound⟩
      · exact hinner
    dsimp only
    split
    · exact .pure (.plain _ _ _ all)
    · refine .ite (fun _ => ih _ all) fun _ => .ite (fun _ => .pure (.plain _ _ _ all)) fun _ => ?_
      exact .pure (.plain _ _ _ fun m hm => all m (List.mem_filter.1 hm).1)

theorem evens_matchAnything (ts : List GrammarId) (limit i : Nat) (id : GrammarId) :
    Meets I (c.matchAnything run ts limit i id) Match.Even := by
  unfold matchAnything
  dsimp only
  split
  · exact .pure (.plain _ _ _ (by simp))
  · exact evens_greedyFrom hsound hevens hbrackets ts limit i _ false true _ i (by simp)

omit hsound hevens in
/-- The brackets of a grammar and those of the dialect are the pairs that it sees. -/
theorem forall_mem_pairsFor {opening closing : GrammarId} (ho : P opening) (hc : P closing)
    (persists : Bool) :
    ∀ p ∈ (c.pairsFor opening closing persists).1, P p.opening ∧ P p.closing := by
  intro p hp
  unfold pairsFor at hp
  dsimp only at hp
  split at hp
  · obtain ⟨k, hk, rfl⟩ := List.getElem_of_mem hp
    rw [List.length_modify] at hk
    have known := hbrackets c.tables.bracketPairs[k] (List.getElem_mem hk)
    rw [List.getElem_modify]
    split <;> exact known
  · rcases List.mem_append.1 hp with hp | hp
    · exact hbrackets p hp
    · obtain rfl := List.mem_singleton.1 hp
      exact ⟨ho, hc⟩

end Brackets

section Bracketed

variable {here below below2 : Matcher}

/-- A pair of brackets and its content are even together. -/
theorem Closed.even_putBetween {limit start i : Nat} {k : Option MatchClass}
    {between : List Match} {last content : Match} (h : Closed False limit start i between last)
    (children : ∀ m ∈ between ++ [last], m.Even) (hcontent : content.Even) :
    (MatchContext.putBetween (pairMatch start i k between last) content).Even := by
  have pair : Match.MarkersEven (between ++ [last]) [(i, .indent), (last.start, .dedent)] :=
    .inr ⟨.pair h.le_start, rfl⟩
  exact .of_parts (pair.append hcontent.outer)
    (List.forall_mem_append.2 ⟨children, hcontent.outerChildren⟩)

theorem evens_matchContent (hsound : Sound c False False I below) (hevens : EvensBy P I below)
    (limit i : Nat) {id : GrammarId} (closing : GrammarId)
    (hparts : c.EvenParts P (c.tables.parts id)) {opening last : Match} (k : Option MatchClass)
    (h : Closed False limit opening.start opening.stop [opening] last)
    (children : ∀ m ∈ [opening] ++ [last], m.Even) :
    Meets I (c.matchContent below i id closing opening.stop
        (pairMatch opening.start opening.stop k [opening] last)) Match.Even := by
  rw [matchContent_eq]
  refine (evens_matchSequence hsound hevens [closing] _ _ (c.sequenceSpec id) hparts).bind
    fun content hcontent => ?_
  split
  · exact .pure (.empty i)
  · refine .pure (h.even_putBetween children ?_)
    unfold fillContent
    split
    · exact hcontent.append (.unparsable _ _ _)
    · exact hcontent

theorem evens_matchBracketed (hhere : Sound c False False I here)
    (hbelow : Sound c False False I below) (hbelow2 : Sound c False False I below2)
    (hhereEvens : EvensBy P I here) (hevens : EvensBy P I below) (hevens2 : EvensBy P I below2)
    (hbrackets : ∀ p ∈ c.tables.bracketPairs, P p.opening ∧ P p.closing) (ts : List GrammarId)
    (limit i : Nat) {id opening closing : GrammarId} (persists : Bool) (ho : P opening)
    (hc : P closing) (hparts : c.EvenParts P (c.tables.parts id)) :
    Meets I (c.matchBracketed here below below2 ts limit i id opening closing persists)
      Match.Even := by
  unfold matchBracketed
  refine ((hbelow ts limit i opening).and (hevens ts limit i opening ho)).bind
    fun first hboth => ?_
  obtain ⟨hfirst, even⟩ := hboth
  split
  · exact .pure (.empty i)
  next hmatch =>
  have hfirst := hfirst (.inr (by simpa using hmatch))
  dsimp only
  refine (evens_closeBracket hhere hhereEvens (forall_mem_pairsFor hbrackets ho hc persists) ts
    limit false _ hfirst.tidy even).bind fun r hr => ?_
  rcases r with _ | pair
  · exact .pure (.empty i)
  obtain ⟨⟨k, between, last, rfl, closed, hbetween⟩, children⟩ := hr pair rfl
  obtain rfl := hbetween rfl
  exact evens_matchContent hbelow2 hevens2 limit i closing hparts k closed children

end Bracketed

/-! ## 5. All levels -/

/-- The states that matching can be in, with what their memo promises. -/
structure EvenInvariant (c : MatchContext) (P : GrammarId → Prop) (s : MatchState) : Prop where
  sound : Invariant c False False s
  memo : ∀ (key : MemoKey) m, s.memo[key]? = some m → P key.grammar → m.Even

/-- Sound matches that are even for the grammars of the set. -/
def SoundEven (c : MatchContext) (P : GrammarId → Prop) (I : MatchState → Prop) (run : Matcher) :
    Prop :=
  Sound c False False I run ∧ EvensBy P I run

namespace EvenInvariant

variable {s : MatchState}

theorem initial : c.EvenInvariant P {} := ⟨.initial, fun key m h => by simp at h⟩

theorem note (h : c.EvenInvariant P s) (notes : List ParseNote) :
    c.EvenInvariant P { s with notes := notes } := ⟨h.sound.note notes, h.memo⟩

/-- What is put into the memo keeps it as promised. -/
theorem keep {n : Nat} (hn : c.SoundEven P (c.EvenInvariant P) (c.matchGrammar n))
    (h : c.EvenInvariant P s) (ts : List GrammarId) (limit i : Nat) (g : GrammarId) :
    c.EvenInvariant P { ((c.matchGrammar n ts limit i g).run s).2 with
      memo := ((c.matchGrammar n ts limit i g).run s).2.memo.insert ⟨i, limit, g, ts⟩
        ((c.matchGrammar n ts limit i g).run s).1 } := by
  obtain ⟨claims, after⟩ := hn.1 ts limit i g s h
  exact ⟨h.sound.keep rfl after.sound claims,
    forall_memo_insert after.memo fun hg => (hn.2 ts limit i g hg s h).1⟩

end EvenInvariant

theorem evens_matchReference {n : Nat}
    (hn : c.SoundEven P (c.EvenInvariant P) (c.matchGrammar n)) (ts : List GrammarId)
    (limit i : Nat) (id target : GrammarId) (exclude : Option GrammarId) :
    Meets (c.EvenInvariant P)
      (c.matchReference (c.matchGrammar n) ts limit i id target exclude) fun m =>
        (i ≤ limit ∨ m.isMatch = true → Claims c False False limit i m) ∧ (P target → m.Even) := by
  unfold matchReference
  dsimp only
  refine (meets_matchesExcluded hn.1 _ limit i exclude).bind fun excluded _ => ?_
  split
  · exact .pure ⟨fun _ => .empty i, fun _ => .empty i⟩
  · exact meets_memoized ((hn.1 _ limit i target).and
      ((hn.1 _ limit i target).trivial.imp (hn.2 _ limit i target)))
      (fun s m hs hm => ⟨hs.sound.memo _ m hm, hs.memo _ m hm⟩)
      fun s hs => hs.keep hn _ limit i target

section Level

variable {here below2 : Matcher} {n : Nat} (hP : c.EvenGrammars P)
  (hhere : c.SoundEven P (c.EvenInvariant P) here)
  (hbelow : c.SoundEven P (c.EvenInvariant P) (c.matchGrammar n))
  (hbelow2 : c.SoundEven P (c.EvenInvariant P) below2)

include hP hhere hbelow hbelow2

theorem evens_matchShape (ts : List GrammarId) (limit i : Nat) {id : GrammarId} (hid : P id) :
    Meets (c.EvenInvariant P) (c.matchShape here (c.matchGrammar n) below2 ts limit i id)
      Match.Even := by
  have note : ∀ (s : MatchState) notes, c.EvenInvariant P s →
      c.EvenInvariant P { s with notes := notes } := fun _ notes h => h.note notes
  have nothing : Meets (c.EvenInvariant P) (return Match.empty i) Match.Even := .pure (.empty i)
  have code (type : String) (test : TokenView → Bool) : (c.matchCode limit i type test).Even := by
    unfold matchCode
    split
    · split
      · exact .plain _ _ _ (by simp)
      · exact .empty i
    · exact .empty i
  have names := hP.names id hid
  unfold NamesEven at names
  unfold matchShape
  cases hshape : c.tables.shape id with
  | ref name target exclude =>
    cases target with
    | none => exact nothing
    | some target =>
      rw [hshape] at names
      exact (evens_matchReference hbelow ts limit i id target exclude).mono fun m hm => hm.2 names
  | sequence =>
    rw [hshape] at names
    exact evens_matchSequence hbelow.1 hbelow.2 ts limit i _ names
  | oneOf exclude =>
    rw [hshape] at names
    exact evens_matchAnyNumberOf hbelow.1 hbelow2.2 ts limit i id _ exclude names
  | anyNumberOf most perPart exclude =>
    rw [hshape] at names
    exact evens_matchAnyNumberOf hbelow.1 hbelow2.2 ts limit i id _ exclude names
  | delimited delimiter least =>
    cases delimiter with
    | none => exact nothing
    | some delimiter =>
      rw [hshape] at names
      exact evens_matchDelimited hbelow.1 hbelow2.2 note hbelow2.1 ts limit i least names.1 names.2
  | bracketed pair =>
    rcases pair with _ | ⟨opening, closing, persists⟩
    · exact nothing
    · rw [hshape] at names
      exact evens_matchBracketed hhere.1 hbelow.1 hbelow2.1 hhere.2 hbelow.2 hbelow2.2 hP.brackets
        ts limit i persists names.1 names.2.1 names.2.2
  | string template type => exact .pure (code type _)
  | multiString templates type => exact .pure (code type _)
  | typed template type =>
    refine .pure ?_
    unfold matchTyped
    split
    · split
      · exact .plain _ _ _ (by simp)
      · exact .empty i
    · exact .empty i
  | pattern text anti type =>
    refine .pure ?_
    unfold matchPattern
    split
    · exact .empty i
    · exact code type _
  | token =>
    refine .pure ?_
    split
    · exact .plain _ _ _ (by simp)
    · exact .empty i
  | anything => exact evens_matchAnything hbelow.1 hbelow.2 hP.brackets ts limit i id
  | marker kind condition =>
    rw [hshape] at names
    exact .pure (by rw [names]; exact .empty i)
  | nothing => exact nothing
  | missing => exact nothing

theorem soundEven_matchOne :
    c.SoundEven P (c.EvenInvariant P) (c.matchOne here (c.matchGrammar n) below2) := by
  refine ⟨sound_matchOne hhere.1 False.elim hbelow.1 False.elim hbelow2.1 False.elim
    (fun _ notes h => h.note notes) (fun ts limit i id target exclude =>
      (evens_matchReference hbelow ts limit i id target exclude).mono fun m hm => hm.1)
    False.elim False.elim, fun ts limit i id hid => ?_⟩
  exact (evens_matchShape hP hhere hbelow hbelow2 ts limit i hid).bind fun m hm =>
    .pure (hm.wrap? _)

end Level

/-- All matches of grammars of the set are even. -/
theorem even_matchGrammar (hP : c.EvenGrammars P) (n : Nat) :
    c.SoundEven P (c.EvenInvariant P) (c.matchGrammar n) := by
  have refuse : c.SoundEven P (c.EvenInvariant P) .refuse := ⟨sound_refuse, evensBy_refuse⟩
  exact matchGrammar_induction refuse
    (fun _ below below2 => soundEven_matchOne hP refuse below below2)
    (fun _ here below below2 => soundEven_matchOne hP here below below2) n

end MatchContext

end QueryLint
