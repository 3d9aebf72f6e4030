import QueryLint.Match.Grammar
import QueryLint.Proofs.Match.Scan

/-!
QueryLint.Proofs.Match.Sequence — sequences, and the content of brackets.

A sequence starts where it was asked to start, whatever of it matches. While its parts are matched
one after the other, everything it holds so far lies between its start and the place it has come
to, and that place never passes the limit.

* `MatchContext.SequenceRule` — how each part leads a sequence on; what follows of a whole sequence.
* `MatchContext.SequenceInvariant` — how a sequence stands between two of its parts.
* `MatchContext.meets_matchSequence` — a sequence is a sound match from its start.
* `MatchContext.meets_matchContent` — a pair of brackets with its content is one too.
-/

namespace QueryLint

open Matching

namespace MatchContext

variable {c : MatchContext} {apart prompt : Prop} {I : MatchState → Prop}

/-! ## 1. What is left over -/

/-- What is left over is a match between two places. -/
theorem leftover_eq_some {start stop : Nat} {m : Match} (h : c.leftover start stop = some m) :
    ∃ first last, m = .unparsable first last nothingHere ∧ first = c.skipToCode start stop ∧
      start ≤ first ∧ first < last ∧ last ≤ stop := by
  unfold leftover at h
  dsimp only at h
  split at h
  · next hlt =>
    cases h
    have hskip := le_skipToCode (c := c) start stop
    have htrim := trimToCode_le (c := c) stop (c.skipToCode start stop)
    exact ⟨_, _, rfl, rfl, hskip, hlt, htrim⟩
  · cases h

/-- A sequence ends behind its last part, or behind what is left over there. -/
theorem finishSequence_cases (spec : SequenceSpec) (start : Nat) (s : SequenceState) :
    c.finishSequence spec start s = .mk start s.place none (s.placed s.place) s.children ∨
      ∃ first last, first = c.skipToCode s.place s.limit ∧ s.place ≤ first ∧ first < last ∧
        last ≤ s.limit ∧ c.finishSequence spec start s =
          .mk start last none (s.placed s.place)
            (s.children ++ [.unparsable first last nothingHere]) := by
  unfold finishSequence
  dsimp only
  split
  · next m hm =>
    have hleft : c.leftover s.place s.limit = some m := by
      split at hm
      · exact hm
      · cases hm
    obtain ⟨first, last, rfl, hfirst, hle, hlt, hlast⟩ := leftover_eq_some hleft
    exact .inr ⟨first, last, hfirst, hle, hlt, hlast, rfl⟩
  · exact .inl rfl

/-! ## 2. From part to part -/

/-- Where the next part of a sequence is asked for. -/
def SequenceSpec.nextPlace (spec : SequenceSpec) (c : MatchContext) (s : SequenceState) : Nat :=
  if spec.allowGaps then c.skipToCode s.place s.limit else s.place

theorem SequenceSpec.le_nextPlace (spec : SequenceSpec) (s : SequenceState) :
    s.place ≤ spec.nextPlace c s := by
  unfold nextPlace
  split
  · exact le_skipToCode _ _
  · exact Nat.le_refl _

theorem SequenceSpec.nextPlace_of_gapless {spec : SequenceSpec} (h : spec.allowGaps = false)
    (s : SequenceState) : spec.nextPlace c s = s.place := by
  rw [nextPlace, h, if_neg Bool.false_ne_true]

/-- Where gaps are allowed, parts are asked for at code. -/
theorem SequenceSpec.isCodeAt_nextPlace {spec : SequenceSpec} (h : spec.allowGaps = true)
    {s : SequenceState} (hlt : spec.nextPlace c s < s.limit) :
    c.isCodeAt (spec.nextPlace c s) = true := by
  rw [nextPlace, h, if_pos rfl] at hlt ⊢
  exact isCodeAt_skipToCode hlt

/-- After a part that has matched at `i`, with the limit of the parts to come. -/
def SequenceState.withPart (s : SequenceState) (i bound : Nat) (m : Match) : SequenceState where
  place := m.stop
  limit := bound
  inserts := s.placed (s.waitingPlace i) ++ m.outerInserts
  children := s.children ++ m.outerChildren
  isFirst := false

/-- What follows a choice of two steps follows the one that is chosen. -/
theorem bind_ite {α β : Type} {p : Prop} [Decidable p] (x y : Matching α) (f : α → Matching β) :
    (if p then x >>= f else y >>= f) = (if p then x else y) >>= f := by
  split <;> rfl

section Turns

variable (c) (below : Matcher) (ts : List GrammarId) (limit start : Nat) (spec : SequenceSpec)

/-- How far the first part of a sequence may look. -/
def firstLimit : Matching Nat :=
  if spec.mode = .greedy then
    c.trimToTerminator below ts limit start (allTerminators spec.terminators spec.reset ts)
  else pure limit

/-- How far the parts after one that has matched may look: with the first match of a sequence that
is greedy once started, up to the terminator. -/
def nextLimit (s : SequenceState) (m : Match) : Matching Nat :=
  if s.isFirst && spec.mode == .greedyOnceStarted then
    c.trimToTerminator below ts limit m.stop (allTerminators spec.terminators spec.reset ts)
  else pure s.limit

/-- How each part leads a sequence on. `J` holds between two parts, of the sequence and the parts
that are left, and `Q` of what is matched in the end. -/
structure SequenceRule (I : MatchState → Prop) (J : SequenceState → List GrammarId → Prop)
    (Q : Match → Prop) : Prop where
  finished : ∀ s, J s [] → Q (c.finishSequence spec start s)
  marker : ∀ s g gs, J s (g :: gs) → (c.tables.instruction g).kind = .marker →
    J { s with waiting := s.waiting ++ (c.enabledMarker? g).toList } gs
  leftOut : ∀ s g gs, J s (g :: gs) → (c.tables.instruction g).kind ≠ .marker →
    (c.tables.instruction g).isOptional = true → J s gs
  ended : ∀ s g gs, J s (g :: gs) → (c.tables.instruction g).kind ≠ .marker →
    Q (c.endedSequence spec start s g)
  part : ∀ s g gs, J s (g :: gs) → (c.tables.instruction g).kind ≠ .marker →
    spec.nextPlace c s < s.limit →
    Meets I (below (pushTerminators spec.reset spec.terminators ts) s.limit
      (spec.nextPlace c s) g) fun m =>
        (m.isMatch = false → Q (c.failedSequence spec start s g (spec.nextPlace c s))) ∧
        (m.isMatch = true → Meets I (c.nextLimit below ts limit spec s m) fun bound =>
          J (s.withPart (spec.nextPlace c s) bound m) gs)

end Turns

namespace SequenceRule

variable {below : Matcher} {ts : List GrammarId} {limit start : Nat} {spec : SequenceSpec}
  {J : SequenceState → List GrammarId → Prop} {Q : Match → Prop}

/-- What each part leads on, the sequence leads to its end. -/
theorem meets (h : c.SequenceRule below ts limit start spec I J Q) (parts : List GrammarId)
    {s : SequenceState} (hs : J s parts) :
    Meets I (c.sequenceFrom below ts limit start spec s parts) Q := by
  induction parts generalizing s with
  | nil => exact .pure (h.finished s hs)
  | cons g gs ih =>
    unfold sequenceFrom
    dsimp only
    refine .ite (fun hmarker => ih (h.marker s g gs hs hmarker)) fun hpart => ?_
    have without (hoptional : (c.tables.instruction g).isOptional = true) :
        Meets I (c.sequenceFrom below ts limit start spec s gs) Q :=
      ih (h.leftOut s g gs hs hpart hoptional)
    rw [← SequenceSpec.nextPlace]
    refine .ite (fun _ => ?_) fun hlt => ?_
    · exact .ite without fun _ => .pure (h.ended s g gs hs hpart)
    refine (h.part s g gs hs hpart (Nat.lt_of_not_le hlt)).bind fun m hm => ?_
    refine .ite (fun hnone => ?_) fun hmatch => ?_
    · exact .ite without fun _ => .pure (hm.1 (by simpa using hnone))
    · rw [bind_ite]
      exact (hm.2 (by simpa using hmatch)).bind fun bound hbound => ih hbound

theorem meets_matchSequence (h : c.SequenceRule below ts limit start spec I J Q)
    (first : Meets I (c.firstLimit below ts limit start spec) fun bound =>
      J { place := start, limit := bound } spec.parts) :
    Meets I (c.matchSequence below ts limit start spec) Q := by
  unfold matchSequence
  dsimp only
  rw [bind_ite]
  exact first.bind fun bound hbound => h.meets spec.parts hbound

end SequenceRule

/-! ## 3. Sequences -/

/-- A sequence that starts at `start` and has come to a place: all it holds lies between the two,
and it has not passed its limit. -/
structure SequenceInvariant (apart : Prop) (limit start : Nat) (s : SequenceState) : Prop where
  start_le : start ≤ s.place
  place_le : s.place ≤ max s.limit start
  limit_le : s.limit ≤ limit
  inserts : Match.MarkersInside start s.place s.inserts
  children : Match.Inside apart start s.place s.children

/-- A sound match that starts where it was asked to. -/
structure StartsAt (apart : Prop) (limit i : Nat) (m : Match) : Prop where
  tidy : m.Tidy apart
  start_eq : m.start = i
  stop_le : m.stop ≤ max limit i

theorem StartsAt.claims {limit i : Nat} {m : Match} (h : StartsAt apart limit i m) :
    Claims c apart prompt limit i m :=
  .of_start_eq h.tidy h.start_eq h.stop_le

theorem StartsAt.empty (limit i : Nat) : StartsAt apart limit i (.empty i) :=
  ⟨.empty i, rfl, Nat.le_max_right _ _⟩

namespace SequenceInvariant

variable {limit start : Nat} {s : SequenceState}

theorem initial {bound : Nat} (h : bound ≤ limit) :
    SequenceInvariant apart limit start { place := start, limit := bound } :=
  ⟨Nat.le_refl _, Nat.le_max_right _ _, h, .nil _ _, .nil _ _⟩

/-- Waiting markers can be put in anywhere after the start. -/
theorem placed (h : SequenceInvariant apart limit start s) {i stop : Nat} (hs : s.place ≤ stop)
    (hi : start ≤ i) (his : i ≤ stop) : Match.MarkersInside start stop (s.placed i) :=
  (h.inserts.mono (Nat.le_refl _) hs).append (.all_at _ hi his)

theorem finish (h : SequenceInvariant apart limit start s) (spec : SequenceSpec) :
    StartsAt apart limit start (c.finishSequence spec start s) := by
  have hstart := h.start_le
  have hplace := h.place_le
  have hlimit := h.limit_le
  rcases finishSequence_cases (c := c) spec start s with
    heq | ⟨first, last, -, hfirst, hlt, hlast, heq⟩
  · rw [heq]
    exact ⟨.of_inside hstart (h.placed (Nat.le_refl _) hstart (Nat.le_refl _)) h.children, rfl,
      by rw [Match.stop_mk]; omega⟩
  · rw [heq]
    have unparsed : Match.Inside apart first last [.unparsable first last nothingHere] :=
      .single (.plain _ (Nat.le_of_lt hlt)) (Nat.le_refl _) (Nat.le_refl _)
    refine ⟨.of_inside (by omega) (h.placed (by omega) hstart (by omega))
      (h.children.append unparsed hfirst hstart (Nat.le_of_lt hlt)), rfl, ?_⟩
    rw [Match.stop_mk]
    omega

theorem ended (h : SequenceInvariant apart limit start s) (spec : SequenceSpec)
    (part : GrammarId) : StartsAt apart limit start (c.endedSequence spec start s part) := by
  have hstart := h.start_le
  have hplace := h.place_le
  have hlimit := h.limit_le
  unfold endedSequence
  split
  · exact .empty _ _
  · refine ⟨.wrap (.of_inside hstart (h.placed (Nat.le_refl _) hstart (Nat.le_refl _))
      h.children) _, ?_, ?_⟩
    · rw [Match.start_wrap, Match.start_mk]
    · rw [Match.stop_wrap, Match.stop_mk]
      omega

theorem failed (h : SequenceInvariant apart limit start s) (spec : SequenceSpec)
    (part : GrammarId) {i : Nat} (hi : s.place ≤ i) (hlt : i < s.limit) :
    StartsAt apart limit start (c.failedSequence spec start s part i) := by
  have hstart := h.start_le
  have hlimit := h.limit_le
  have hle : start ≤ s.limit := by omega
  have whole (expected : String) (inner : List Match)
      (hinner : Match.Inside apart start s.limit inner) (k : Option MatchClass)
      (inserts : List (Nat × MarkerKind)) (hk : Match.MarkersInside start s.limit inserts) :
      StartsAt apart limit start (.mk start s.limit k inserts inner) :=
    ⟨.of_inside hle hk hinner, rfl, by rw [Match.stop_mk]; omega⟩
  have unparsed (expected : String) :
      Match.Inside apart i s.limit [.unparsable i s.limit expected] :=
    .single (.plain _ (Nat.le_of_lt hlt)) (Nat.le_refl _) (Nat.le_refl _)
  unfold failedSequence
  dsimp only
  split
  · exact .empty _ _
  · exact .empty _ _
  · exact whole "" [] (.nil _ _) _ [] (.nil _ _)
  · exact whole "" _ (h.children.append (unparsed _) hi hstart (Nat.le_of_lt hlt)) _ _
      (h.inserts.mono (Nat.le_refl _) (by omega))

/-- Markers that wait change nothing else. -/
theorem withWaiting (h : SequenceInvariant apart limit start s) (waiting : List MarkerKind) :
    SequenceInvariant apart limit start { s with waiting := waiting } :=
  ⟨h.start_le, h.place_le, h.limit_le, h.inserts, h.children⟩

/-- A part that has matched takes the sequence on to its end. -/
theorem withPart (h : SequenceInvariant apart limit start s) {i bound : Nat} {m : Match}
    (hi : s.place ≤ i) (hm : Claims c apart prompt s.limit i m)
    (hb : bound ≤ limit) (hmb : m.stop ≤ bound) :
    SequenceInvariant apart limit start (s.withPart i bound m) := by
  have hstart := h.start_le
  have hfrom := hm.le_start
  have hto := hm.start_le_stop
  have waiting : start ≤ s.waitingPlace i ∧ s.waitingPlace i ≤ m.stop := by
    unfold SequenceState.waitingPlace
    split <;> omega
  have before : start ≤ m.stop := by omega
  refine ⟨before, Nat.le_trans hmb (Nat.le_max_left _ _), hb, ?_, ?_⟩
  · exact (h.placed (by omega) waiting.1 waiting.2).append
      (hm.tidy.outerInserts_inside.mono (by omega) (Nat.le_refl _))
  · exact h.children.append hm.tidy.outerChildren_inside (by omega) hstart hto

end SequenceInvariant

section Parts

variable {below : Matcher}

/-- A sequence looks no further than it was asked to. -/
theorem meets_firstLimit (hbelow : Sound c apart prompt I below)
    (hone : ClosesByOne apart I below c.tables.bracketPairs) (ts : List GrammarId)
    (limit start : Nat) (spec : SequenceSpec) :
    Meets I (c.firstLimit below ts limit start spec) (· ≤ limit) :=
  .ite (fun _ => (meets_trimToTerminator hbelow hone ts limit start _).mono fun _ hn => hn.1)
    fun _ => .pure (Nat.le_refl limit)

/-- A part that has matched takes a sequence on, as far as the parts to come may look. -/
theorem SequenceInvariant.meets_withPart (hbelow : Sound c apart prompt I below)
    (hone : ClosesByOne apart I below c.tables.bracketPairs) (ts : List GrammarId)
    {limit start : Nat} {spec : SequenceSpec} {s : SequenceState}
    (h : SequenceInvariant apart limit start s) (hlt : spec.nextPlace c s < s.limit) {m : Match}
    (hm : Claims c apart prompt s.limit (spec.nextPlace c s) m) :
    Meets I (c.nextLimit below ts limit spec s m) fun bound =>
      SequenceInvariant apart limit start (s.withPart (spec.nextPlace c s) bound m) := by
  have hlimit := h.limit_le
  have hstop : m.stop ≤ s.limit := by
    have := hm.stop_le
    omega
  have bounds : Meets I (c.nextLimit below ts limit spec s m) fun n => n ≤ limit ∧ m.stop ≤ n :=
    .ite (fun _ => (meets_trimToTerminator hbelow hone ts limit m.stop _).mono
      fun n hn => ⟨hn.1, hn.2 (by omega)⟩) fun _ => .pure ⟨hlimit, hstop⟩
  exact bounds.mono fun n hn => h.withPart (spec.le_nextPlace s) hm hn.1 hn.2

/-- A sequence is a sound match from its start. -/
theorem meets_matchSequence (hbelow : Sound c apart prompt I below)
    (hone : ClosesByOne apart I below c.tables.bracketPairs) (ts : List GrammarId)
    (limit i : Nat) (spec : SequenceSpec) :
    Meets I (c.matchSequence below ts limit i spec) (StartsAt apart limit i) := by
  have rule : c.SequenceRule below ts limit i spec I
      (fun s _ => SequenceInvariant apart limit i s) (StartsAt apart limit i) := {
    finished := fun s hs => hs.finish spec
    marker := fun s g gs hs _ => hs.withWaiting _
    leftOut := fun s g gs hs _ _ => hs
    ended := fun s g gs hs _ => hs.ended spec g
    part := fun s g gs hs _ hlt => (hbelow.claims _ (Nat.le_of_lt hlt) g).mono fun m hm =>
      ⟨fun _ => hs.failed spec g (spec.le_nextPlace s) hlt,
        fun _ => hs.meets_withPart hbelow hone ts hlt hm⟩ }
  exact rule.meets_matchSequence ((meets_firstLimit hbelow hone ts limit i spec).mono
    fun _ hn => .initial hn)

/-! ## 4. The content of brackets -/

variable (c) in
/-- Where the content of brackets starts, from the end of the opening bracket and that of the
closing one. -/
def contentStart (id : GrammarId) (start stop : Nat) : Nat :=
  if (c.sequenceSpec id).allowGaps then c.skipToCode start (stop - 1) else start

variable (c) in
/-- The place that the content of brackets may not pass. -/
def contentLimit (id : GrammarId) (start stop : Nat) : Nat :=
  if (c.sequenceSpec id).allowGaps then c.trimToCode (stop - 1) (c.contentStart id start stop)
  else stop - 1

variable (c) in
/-- The content of brackets, with what is left over before the closing bracket put behind it where
no gaps are allowed. -/
def fillContent (id : GrammarId) (stop : Nat) (content : Match) : Match :=
  if !(c.sequenceSpec id).allowGaps && decide (content.stop < stop - 1) then
    content.append (.unparsable content.stop (stop - 1) (c.tables.describe id))
  else content

/-- A pair of brackets with its content. The brackets come before their content. -/
def putBetween (pair content : Match) : Match :=
  .mk pair.start pair.stop pair.class? (pair.inserts ++ content.outerInserts)
    (pair.children ++ content.outerChildren)

/-- The content of brackets is matched, filled up, and put between them. -/
theorem matchContent_eq (below : Matcher) (i : Nat) (id closing : GrammarId) (start : Nat)
    (pair : Match) :
    c.matchContent below i id closing start pair = do
      let content ← c.matchSequence below [closing] (c.contentLimit id start pair.stop)
        (c.contentStart id start pair.stop) (c.sequenceSpec id)
      if content.stop ≠ c.contentLimit id start pair.stop && (c.sequenceSpec id).mode == .strict
      then return .empty i
      else return putBetween pair (c.fillContent id pair.stop content) := rfl

theorem contentStart_bounds (id : GrammarId) (start stop : Nat) :
    start ≤ c.contentStart id start stop ∧
      c.contentStart id start stop ≤ max (stop - 1) start := by
  unfold contentStart
  split
  · exact ⟨le_skipToCode _ _, skipToCode_le _ _⟩
  · exact ⟨Nat.le_refl _, Nat.le_max_right _ _⟩

theorem contentLimit_le (id : GrammarId) (start stop : Nat) :
    c.contentLimit id start stop ≤ stop - 1 := by
  unfold contentLimit
  split
  · exact trimToCode_le _ _
  · exact Nat.le_refl _

/-- Content that is matched where it may be stays there when it is filled up. -/
theorem StartsAt.fillContent {id : GrammarId} {start stop : Nat} {content : Match}
    (h : StartsAt apart (c.contentLimit id start stop) (c.contentStart id start stop) content) :
    (c.fillContent id stop content).Tidy apart ∧ start ≤ (c.fillContent id stop content).start ∧
      (c.fillContent id stop content).stop ≤ max (stop - 1) start := by
  have hstart := h.start_eq
  have hcontent := h.tidy.start_le_stop
  have hstop := h.stop_le
  have hfirst := contentStart_bounds (c := c) id start stop
  have hlimit := contentLimit_le (c := c) id start stop
  unfold MatchContext.fillContent
  split
  · next hlt =>
    rw [Bool.and_eq_true, decide_eq_true_eq] at hlt
    have rest : (Match.unparsable content.stop (stop - 1) (c.tables.describe id)).isMatch = true :=
      Match.isMatch_of_lt hlt.2
    refine ⟨h.tidy.append (.plain _ (Nat.le_of_lt hlt.2)) (Nat.le_refl _), ?_, ?_⟩
    · by_cases hm : content.isMatch = true
      · rw [Match.start_append _ hm]
        omega
      · rw [Match.append_of_not_isMatch _ (by simpa using hm)]
        show start ≤ content.stop
        omega
    · rw [Match.stop_append _ rest]
      exact Nat.le_max_left _ _
  · exact ⟨h.tidy, by omega, by omega⟩

/-- The brackets come before their content in a match, so a closing bracket of more than one token
could claim what the content claims. -/
theorem Closed.with_content {limit : Nat} {opening last : Match} (ho : opening.Tidy apart)
    (h : Closed apart limit opening.start opening.stop [opening] last) {ms : List Match}
    (hms : Match.Inside apart opening.stop (max (last.stop - 1) opening.stop) ms) :
    Match.Inside apart opening.start last.stop ([opening, last] ++ ms) := by
  have hopen := ho.start_le_stop
  have hstart := h.le_start
  have hlast := h.tidy.start_le_stop
  have brackets : Match.Inside apart opening.start last.stop [opening, last] :=
    h.between_inside.append (.single h.tidy (Nat.le_refl _) (Nat.le_refl _)) (Nat.le_refl _)
      (by omega) hlast
  refine ⟨?_, ?_, fun hapart => ?_⟩
  · intro m hm
    rcases List.mem_append.1 hm with hm | hm
    · exact brackets.bounds m hm
    · have := hms.bounds m hm
      omega
  · intro m hm
    exact (List.mem_append.1 hm).elim (brackets.tidy m) (hms.tidy m)
  · refine List.pairwise_append.2
      ⟨brackets.pairwise hapart, hms.pairwise hapart, fun a ha b hb => ?_⟩
    have hone := h.one hapart
    have hb := hms.bounds b hb
    simp only [List.mem_cons, List.not_mem_nil, or_false] at ha
    rcases ha with rfl | rfl
    · exact .inl hb.1
    · exact .inr (by omega)

/-- A pair of brackets with its content is a sound match from its opening bracket. -/
theorem Closed.putBetween {limit i : Nat} {opening last content : Match} (k : Option MatchClass)
    (ho : Claims c apart prompt limit i opening)
    (h : Closed apart limit opening.start opening.stop [opening] last)
    (hc : content.Tidy apart) (hstart : opening.stop ≤ content.start)
    (hstop : content.stop ≤ max (last.stop - 1) opening.stop) :
    Claims c apart prompt limit i
      (MatchContext.putBetween (pairMatch opening.start opening.stop k [opening] last)
        content) := by
  have hopen := ho.start_le_stop
  have hclose := h.le_start
  have hlast := h.tidy.start_le_stop
  have hlimit := h.stop_le
  have indents : Match.MarkersInside opening.start last.stop
      [(opening.stop, .indent), (last.start, .dedent)] :=
    (h.pairMatch_tidy (k := k) hopen (Nat.le_refl _)).inserts_inside
  have markers := indents.append (hc.outerInserts_inside.mono (by omega) (by omega))
  have inside := h.with_content ho.tidy (hc.outerChildren_inside.mono hstart hstop)
  have start_le : opening.start ≤ last.stop := by omega
  exact ⟨.of_inside start_le markers inside, ho.le_start,
    show last.stop ≤ max limit i by omega, ho.start_eq⟩

/-- A pair of brackets is a sound match with whatever is matched as its content. -/
theorem meets_matchContent (hbelow : Sound c apart prompt I below)
    (hone : ClosesByOne apart I below c.tables.bracketPairs) (limit i : Nat)
    (id closing : GrammarId) {opening last : Match} (k : Option MatchClass)
    (ho : Claims c apart prompt limit i opening)
    (h : Closed apart limit opening.start opening.stop [opening] last) :
    Meets I (c.matchContent below i id closing opening.stop
        (pairMatch opening.start opening.stop k [opening] last))
      (Claims c apart prompt limit i) := by
  rw [matchContent_eq]
  refine (meets_matchSequence hbelow hone [closing] _ _ (c.sequenceSpec id)).bind
    fun content hcontent => ?_
  split
  · exact .pure (.empty i)
  · obtain ⟨tidy, hstart, hstop⟩ := hcontent.fillContent
    exact .pure (h.putBetween k ho tidy hstart hstop)

end Parts

end MatchContext

end QueryLint
