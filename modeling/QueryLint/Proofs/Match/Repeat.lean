import QueryLint.Proofs.Match.Sequence

/-!
QueryLint.Proofs.Match.Repeat — repetitions and delimited lists.

Both grow one match by the parts that are found, each put behind what has been matched so far. Such
a match starts with its first part, so where it starts is known as long as something has matched or
nothing has been passed over.

* `MatchContext.Progress` — what has been matched from a place on.
* `MatchContext.RepetitionRule`, `MatchContext.DelimitedRule` — what a round of a repetition, and a
  part or delimiter of a list, has to keep for the whole to keep it.
* `MatchContext.meets_matchAnyNumberOf`, `MatchContext.meets_matchDelimited` — sound matches.
-/

namespace QueryLint

open Matching

namespace MatchContext

variable {c : MatchContext} {apart prompt : Prop} {I : MatchState → Prop}

/-! ## 1. What has been matched so far -/

/-- What has been matched from `start` on up to a place. Where matches are prompt and there is code
at the start, it starts there, unless nothing has matched yet. -/
structure Progress (c : MatchContext) (apart prompt : Prop) (limit start place : Nat) (m : Match) :
    Prop where
  tidy : m.Tidy apart
  le_start : start ≤ m.start
  stop_le : m.stop ≤ place
  place_le : place ≤ max limit start
  start_eq : prompt → c.isCodeAt start = true →
    m.start = start ∧ (m.isMatch = true ∨ place = start)

namespace Progress

variable {limit start place : Nat} {m : Match}

theorem empty (limit start : Nat) :
    Progress c apart prompt limit start start (.empty start) :=
  ⟨.empty start, Nat.le_refl _, Nat.le_refl _, Nat.le_max_right _ _,
    fun _ _ => ⟨rfl, .inr rfl⟩⟩

theorem start_le_place (h : Progress c apart prompt limit start place m) : start ≤ place := by
  have := h.tidy.start_le_stop
  have := h.le_start
  have := h.stop_le
  omega

/-- Blanks after what has been matched are passed over. -/
theorem moved (h : Progress c apart prompt limit start place m) {i : Nat} (hi : place ≤ i)
    (hl : i ≤ max limit start) (hs : c.isCodeAt start = true → place = start → i = start) :
    Progress c apart prompt limit start i m where
  tidy := h.tidy
  le_start := h.le_start
  stop_le := Nat.le_trans h.stop_le hi
  place_le := hl
  start_eq hp hc := by
    obtain ⟨hstart, hm | hplace⟩ := h.start_eq hp hc
    · exact ⟨hstart, .inl hm⟩
    · exact ⟨hstart, .inr (hs hc hplace)⟩

/-- What has been matched, as a sound match. -/
theorem claims (h : Progress c apart prompt limit start place m) :
    Claims c apart prompt limit start m :=
  ⟨h.tidy, h.le_start, Nat.le_trans h.stop_le h.place_le, fun hp _ hc => (h.start_eq hp hc).1⟩

/-- The next part is put behind what has been matched. -/
theorem append (h : Progress c apart prompt limit start place m) {x : Match}
    (hx : Claims c apart prompt limit place x) (hlt : place < limit) (hm : x.isMatch = true) :
    Progress c apart prompt limit start x.stop (m.append x) := by
  have hplace := h.start_le_place
  have hfrom := hx.le_start
  have hstop := hx.stop_le
  have hbehind : m.stop ≤ x.start := Nat.le_trans h.stop_le hfrom
  refine ⟨h.tidy.append hx.tidy hbehind, ?_, ?_, by omega, fun hp hc => ?_⟩
  · by_cases hmatch : m.isMatch = true
    · rw [Match.start_append _ hmatch]
      exact h.le_start
    · rw [Match.append_of_not_isMatch _ (by simpa using hmatch)]
      omega
  · exact Nat.le_of_eq (Match.stop_append _ hm)
  · obtain ⟨hstart, hfirst⟩ := h.start_eq hp hc
    by_cases hmatch : m.isMatch = true
    · refine ⟨by rw [Match.start_append _ hmatch, hstart], ?_⟩
      by_cases happend : (m.append x).isMatch = true
      · exact .inl happend
      · -- Markers alone, all of them at the start: no token has been taken yet.
        have := Match.stop_le_of_append_not_isMatch hm (by simpa using happend)
        have := hx.start_le_stop
        exact .inr (by omega)
    · have hnone : m.isMatch = false := by simpa using hmatch
      have hplace : place = start := by simpa [hnone] using hfirst
      have : x.start = start := by
        rw [← hplace]
        exact hx.start_eq hp hlt (by rw [hplace]; exact hc)
      rw [Match.append_of_not_isMatch _ hnone]
      exact ⟨this, .inl hm⟩

end Progress

/-! ## 2. From round to round -/

/-- After a round that takes what has been found, with what the options have been counted to. -/
def RepetitionState.onward (s : RepetitionState) (c : MatchContext) (limit : Nat)
    (allowGaps : Bool) (m : Match) (counts : List (GrammarId × Nat)) : RepetitionState where
  matched := s.matched.append m
  count := s.count + 1
  counts := counts
  place := (s.matched.append m).stop
  next := if allowGaps then c.skipToCode (s.matched.append m).stop limit
    else (s.matched.append m).stop

section Rounds

variable (c) (below below2 : Matcher) (ts : List GrammarId) (limit start : Nat) (allowGaps : Bool)
  (r : Repetition) (options : List GrammarId)

/-- How each round leads a repetition on. `J` holds between two rounds, and `K` in the end. -/
structure RepetitionRule (I : MatchState → Prop) (J K : RepetitionState → Prop) : Prop where
  ends : ∀ s, J s → K s
  tooFew : ∀ s, J s → s.count < r.least → K { s with matched := .empty start }
  round : ∀ s, J s → Meets I (c.longest below below2 ts limit s.next options) fun x =>
    x.1.start < x.1.stop → ∀ counts, J (s.onward c limit allowGaps x.1 counts)

variable {c below below2 ts limit start allowGaps r options}

/-- What each round leads on, the repetition leads to its end. -/
theorem RepetitionRule.meets {J K : RepetitionState → Prop}
    (h : c.RepetitionRule below below2 ts limit start allowGaps r options I J K) (fuel : Nat)
    {s : RepetitionState} (hs : J s) :
    Meets I (c.repeatFrom below below2 ts limit start allowGaps r options fuel s) fun x =>
      ∀ s', x = some s' → K s' := by
  have known {s : RepetitionState} (hs : K s) : ∀ s', some s = some s' → K s' := by
    rintro s' ⟨⟩
    exact hs
  induction fuel generalizing s with
  | zero => exact .pure (known (h.ends s hs))
  | succ fuel ih =>
    unfold repeatFrom
    refine .ite (fun _ => .pure (known (h.ends s hs))) fun _ => ?_
    refine .ite (fun _ => .pure nofun) fun _ => ?_
    refine (h.round s hs).bind fun found hfound => ?_
    obtain ⟨m, option⟩ := found
    dsimp only at hfound ⊢
    refine .ite (fun _ => .pure ?_) fun htakes => ?_
    · split
      · next hfew => exact known (h.tooFew s hs hfew)
      · exact known (h.ends s hs)
    refine .ite (fun _ => .pure (known (h.ends s hs))) fun _ => ?_
    exact ih (hfound ((m.isEmpty_eq_false_iff).1 (by simpa using htakes)) _)

end Rounds

section Whole

variable (c) (below below2 : Matcher) (ts : List GrammarId) (limit i : Nat) (id : GrammarId)
  (r : Repetition) (exclude : Option GrammarId)

/-- How far a repetition may look. -/
def repetitionLimit : Matching Nat :=
  if (c.tables.instruction id).mode = .greedy then
    c.trimToTerminator below ts limit i
      (allTerminators (c.tables.terminatorsOf id)
        (c.tables.instruction id).flags.resetTerminators ts)
  else pure limit

/-- The terminators for the options of a repetition. -/
def repetitionTerminators : List GrammarId :=
  pushTerminators (c.tables.instruction id).flags.resetTerminators (c.tables.terminatorsOf id) ts

/-- What becomes of the rounds: a greedy repetition puts what is left over behind them. -/
def finishRepetition (bound : Nat) : Option RepetitionState → Match
  | none => .empty i
  | some s =>
    match (if (c.tables.instruction id).mode = .greedy then c.leftover s.place bound else none) with
    | some m => s.matched.append m
    | none => s.matched

variable {c id i}

/-- What is left over behind rounds cannot be placed. -/
theorem finishRepetition_cases (bound : Nat) (s : RepetitionState) :
    c.finishRepetition i id bound (some s) = s.matched ∨
      (c.tables.instruction id).mode = .greedy ∧ ∃ first last,
        first = c.skipToCode s.place bound ∧ s.place ≤ first ∧ first < last ∧ last ≤ bound ∧
          c.finishRepetition i id bound (some s) =
            s.matched.append (.unparsable first last nothingHere) := by
  unfold finishRepetition
  dsimp only
  split
  · next u hu =>
    split at hu
    · next hmode =>
      obtain ⟨first, last, rfl, hfirst, hle, hlt, hlast⟩ := leftover_eq_some hu
      exact .inr ⟨hmode, first, last, hfirst, hle, hlt, hlast, rfl⟩
    · cases hu
  · exact .inl rfl

variable (c id i)

/-- A repetition is made of its rounds, up to its limit, if what is excluded does not match. -/
theorem matchAnyNumberOf_eq :
    c.matchAnyNumberOf below below2 ts limit i id r exclude = do
      if ← matchesExcluded below ts limit i exclude then return .empty i
      else
        let bound ← c.repetitionLimit below ts limit i id
        let rounds ← c.repeatFrom below below2 (c.repetitionTerminators ts id) bound i
          (c.tables.instruction id).flags.allowGaps r (c.tables.parts id) (limit + 1)
          { matched := .empty i, place := i, next := i }
        return c.finishRepetition i id bound rounds := by
  have finished (bound : Nat) (rounds : Option RepetitionState) :
      (match rounds with
        | none => (pure (.empty i) : Matching Match)
        | some s =>
          match (if (c.tables.instruction id).mode = ParseMode.greedy then c.leftover s.place bound
            else none) with
          | some m => pure (s.matched.append m)
          | none => pure s.matched) =
        pure (c.finishRepetition i id bound rounds) := by
    cases rounds with
    | none => rfl
    | some s =>
      unfold finishRepetition
      dsimp only
      cases (if (c.tables.instruction id).mode = ParseMode.greedy then c.leftover s.place bound
        else none) <;> rfl
  unfold matchAnyNumberOf
  congr 1
  funext excluded
  cases excluded with
  | true => rfl
  | false =>
    rw [if_neg Bool.false_ne_true, if_neg Bool.false_ne_true]
    dsimp only
    rw [bind_ite]
    congr 1
    funext bound
    congr 1
    funext rounds
    exact finished bound rounds

variable {c below below2 ts limit i id r exclude}

/-- What each round leads on, the repetition leads to its end, where what is left over is put behind
it. -/
theorem meets_matchAnyNumberOf_of {B : Nat → Prop} {J K : Nat → RepetitionState → Prop}
    {Q : Match → Prop}
    (excluded : Meets I (matchesExcluded below ts limit i exclude) fun _ => True)
    (bounds : Meets I (c.repetitionLimit below ts limit i id) B)
    (rule : ∀ bound, B bound → c.RepetitionRule below below2 (c.repetitionTerminators ts id) bound
      i (c.tables.instruction id).flags.allowGaps r (c.tables.parts id) I (J bound) (K bound))
    (initial : ∀ bound, B bound → J bound { matched := .empty i, place := i, next := i })
    (nothing : Q (.empty i))
    (finished : ∀ bound s, B bound → K bound s → Q (c.finishRepetition i id bound (some s))) :
    Meets I (c.matchAnyNumberOf below below2 ts limit i id r exclude) Q := by
  rw [matchAnyNumberOf_eq]
  refine excluded.bind fun found _ => .ite (fun _ => .pure nothing) fun _ => ?_
  refine bounds.bind fun bound hbound => ?_
  refine ((rule bound hbound).meets (limit + 1) (initial bound hbound)).bind
    fun rounds hrounds => ?_
  cases rounds with
  | none => exact .pure nothing
  | some s => exact .pure (finished bound s hbound (hrounds s rfl))

end Whole

/-! ## 3. Repetitions -/

/-- How a repetition stands between two of its parts. -/
structure RepetitionInvariant (c : MatchContext) (apart prompt : Prop) (limit start : Nat)
    (s : RepetitionState) : Prop where
  progress : Progress c apart prompt limit start s.place s.matched
  next_eq : s.next = s.place ∨ s.next = c.skipToCode s.place limit
  fresh : s.count = 0 → s.place = start

/-- How a repetition ends. Too few parts are given up, but the place they led to is not; with one
part at least, there is no such place. -/
structure RepetitionResult (c : MatchContext) (apart prompt : Prop) (limit start least : Nat)
    (s : RepetitionState) : Prop where
  claims : Claims c apart prompt limit start s.matched
  stop_le : s.matched.stop ≤ s.place
  start_eq : prompt → c.isCodeAt start = true →
    s.matched.start = start ∧ (least ≤ 1 → s.matched.isMatch = true ∨ s.place = start)

namespace RepetitionInvariant

variable {limit start least : Nat} {s : RepetitionState}

theorem initial (limit i : Nat) :
    RepetitionInvariant c apart prompt limit i { matched := .empty i, place := i, next := i } :=
  ⟨.empty limit i, .inl rfl, fun _ => rfl⟩

theorem result (h : RepetitionInvariant c apart prompt limit start s) :
    RepetitionResult c apart prompt limit start least s :=
  ⟨h.progress.claims, h.progress.stop_le, fun hp hc =>
    ⟨(h.progress.start_eq hp hc).1, fun _ => (h.progress.start_eq hp hc).2⟩⟩

/-- Too few parts are no match. -/
theorem tooFew (h : RepetitionInvariant c apart prompt limit start s) (hcount : s.count < least) :
    RepetitionResult c apart prompt limit start least { s with matched := .empty start } :=
  ⟨.empty start, h.progress.start_le_place, fun _ _ =>
    ⟨rfl, fun hleast => .inr (h.fresh (by omega))⟩⟩

/-- What has been matched, up to where the next part is looked for. -/
theorem progress_next (h : RepetitionInvariant c apart prompt limit start s) :
    Progress c apart prompt limit start s.next s.matched := by
  rcases h.next_eq with hnext | hnext
  · rw [hnext]
    exact h.progress
  · rw [hnext]
    refine h.progress.moved (le_skipToCode _ _) ?_ fun hc hplace => ?_
    · have := skipToCode_le (c := c) s.place limit
      have := h.progress.place_le
      omega
    · rw [hplace]
      exact skipToCode_of_isCodeAt limit hc

theorem place_le_next (h : RepetitionInvariant c apart prompt limit start s) :
    s.place ≤ s.next := by
  rcases h.next_eq with hnext | hnext
  · exact Nat.le_of_eq hnext.symm
  · rw [hnext]
    exact le_skipToCode _ _

/-- A round that takes a token ends behind where it started from. -/
theorem lt_stop (h : RepetitionInvariant c apart prompt limit start s) {m : Match}
    (hm : Claims c apart prompt limit s.next m) (hlt : m.start < m.stop) :
    s.place < (s.matched.append m).stop := by
  have := h.place_le_next
  have := hm.le_start
  rw [Match.stop_append _ (Match.isMatch_of_lt hlt)]
  omega

/-- A part that takes a token is put behind what has been matched. -/
theorem withPart (h : RepetitionInvariant c apart prompt limit start s) {m : Match}
    (hm : Claims c apart prompt limit s.next m) (hlt : m.start < m.stop) (allowGaps : Bool)
    (counts : List (GrammarId × Nat)) :
    RepetitionInvariant c apart prompt limit start (s.onward c limit allowGaps m counts) := by
  have hfrom := hm.le_start
  have hstop := hm.stop_le
  have hmatch : m.isMatch = true := Match.isMatch_of_lt hlt
  have next := h.progress_next.append hm (by omega) hmatch
  refine ⟨?_, ?_, fun hnone => absurd hnone (Nat.succ_ne_zero _)⟩
  · rw [RepetitionState.onward, Match.stop_append _ hmatch]
    exact next
  · rw [RepetitionState.onward]
    dsimp only
    split
    · exact .inr rfl
    · exact .inl rfl

end RepetitionInvariant

section Parts

variable {below below2 : Matcher}

theorem meets_matchesExcluded (hbelow : Sound c apart prompt I below) (ts : List GrammarId)
    (limit i : Nat) (exclude : Option GrammarId) :
    Meets I (matchesExcluded below ts limit i exclude) fun _ => True := by
  cases exclude with
  | none => exact .pure trivial
  | some x => exact (hbelow ts limit i x).bind fun m _ => .pure trivial

theorem meets_repetitionLimit (hbelow : Sound c apart prompt I below)
    (hone : ClosesByOne apart I below c.tables.bracketPairs) (ts : List GrammarId)
    (limit i : Nat) (id : GrammarId) :
    Meets I (c.repetitionLimit below ts limit i id) (· ≤ limit) :=
  .ite (fun _ => (meets_trimToTerminator hbelow hone ts limit i _).mono fun _ hn => hn.1)
    fun _ => .pure (Nat.le_refl limit)

theorem repetitionRule (hbelow : Sound c apart prompt I below)
    (hbelow2 : Sound c apart prompt I below2) (ts : List GrammarId) (limit start : Nat)
    (allowGaps : Bool) (r : Repetition) (options : List GrammarId) :
    c.RepetitionRule below below2 ts limit start allowGaps r options I
      (RepetitionInvariant c apart prompt limit start)
      (RepetitionResult c apart prompt limit start r.least) where
  ends _ hs := hs.result
  tooFew _ hs hfew := hs.tooFew hfew
  round s hs := (meets_longest hbelow hbelow2 ts limit s.next options).mono
    fun _ hm htakes counts => hs.withPart hm htakes allowGaps counts

/-- A repetition that leaves nothing over. -/
theorem RepetitionResult.claims_le {limit bound i least : Nat} {s : RepetitionState}
    (h : RepetitionResult c apart prompt bound i least s) (hb : bound ≤ limit) :
    Claims c apart prompt limit i s.matched := by
  have := h.claims.stop_le
  exact ⟨h.claims.tidy, h.claims.le_start, by omega, fun hp _ hc => (h.start_eq hp hc).1⟩

/-- What a repetition leaves over is put behind what it has matched. -/
theorem RepetitionResult.with_leftover {limit bound i least first last : Nat}
    {s : RepetitionState} (h : RepetitionResult c apart prompt bound i least s)
    (hleast : prompt → least ≤ 1) (hb : bound ≤ limit) (hskip : first = c.skipToCode s.place bound)
    (hfirst : s.place ≤ first) (hlt : first < last) (hlast : last ≤ bound) :
    Claims c apart prompt limit i (s.matched.append (.unparsable first last nothingHere)) := by
  have hstop := h.stop_le
  have hstart := h.claims.le_start
  have hmatched := h.claims.start_le_stop
  have rest : (Match.unparsable first last nothingHere).isMatch = true := Match.isMatch_of_lt hlt
  refine ⟨h.claims.tidy.append (.plain _ (Nat.le_of_lt hlt)) ?_, ?_, ?_, fun hp _ hc => ?_⟩
  · exact Nat.le_trans hstop hfirst
  · by_cases hmatch : s.matched.isMatch = true
    · rw [Match.start_append _ hmatch]
      exact hstart
    · rw [Match.append_of_not_isMatch _ (by simpa using hmatch)]
      show i ≤ first
      omega
  · rw [Match.stop_append _ rest]
    show last ≤ max limit i
    omega
  · obtain ⟨hstart, hfresh⟩ := h.start_eq hp hc
    by_cases hmatch : s.matched.isMatch = true
    · rw [Match.start_append _ hmatch, hstart]
    · have hnone : s.matched.isMatch = false := by simpa using hmatch
      have hplace : s.place = i := by simpa [hnone] using hfresh (hleast hp)
      rw [Match.append_of_not_isMatch _ hnone]
      show first = i
      rw [hskip, hplace]
      exact skipToCode_of_isCodeAt bound hc

/-- A repetition is a sound match. It is prompt if it is strict or needs no more than one part. -/
theorem meets_matchAnyNumberOf (hbelow : Sound c apart prompt I below)
    (hbelow2 : Sound c apart prompt I below2)
    (hone : ClosesByOne apart I below c.tables.bracketPairs) (ts : List GrammarId)
    (limit i : Nat) (id : GrammarId) (r : Repetition) (exclude : Option GrammarId)
    (hleast : prompt → (c.tables.instruction id).mode = .greedy → r.least ≤ 1) :
    Meets I (c.matchAnyNumberOf below below2 ts limit i id r exclude)
      (Claims c apart prompt limit i) := by
  refine meets_matchAnyNumberOf_of (meets_matchesExcluded hbelow ts limit i exclude)
    (meets_repetitionLimit hbelow hone ts limit i id)
    (fun bound _ => repetitionRule hbelow hbelow2 _ bound i _ r _)
    (fun bound _ => .initial bound i) (.empty i) fun bound s hb hs => ?_
  rcases finishRepetition_cases (c := c) bound s with
    heq | ⟨hmode, first, last, hskip, hfirst, hlt, hlast, heq⟩
  · rw [heq]
    exact hs.claims_le hb
  · rw [heq]
    exact hs.with_leftover (fun hp => hleast hp hmode) hb hskip hfirst hlt hlast

end Parts

/-! ## 4. From part to delimiter -/

/-- Where the next part or delimiter of a list is tried. -/
def DelimitedSpec.nextPlace (spec : DelimitedSpec) (c : MatchContext) (limit start : Nat)
    (s : DelimitedState) : Nat :=
  if spec.allowGaps && start < s.place then c.skipToCode s.place limit else s.place

theorem DelimitedSpec.le_nextPlace (spec : DelimitedSpec) (limit start : Nat)
    (s : DelimitedState) : s.place ≤ spec.nextPlace c limit start s := by
  unfold nextPlace
  split
  · exact le_skipToCode _ _
  · exact Nat.le_refl _

/-- Blanks are passed over behind the first part only. -/
theorem DelimitedSpec.nextPlace_of_first (spec : DelimitedSpec) (limit : Nat) {start : Nat}
    {s : DelimitedState} (h : s.place = start) : spec.nextPlace c limit start s = start := by
  rw [nextPlace, h, if_neg (by simp)]

/-- What has been matched with the delimiter that waits for a part. -/
def DelimitedState.withPending (s : DelimitedState) : Match :=
  (s.pending.map s.matched.append).getD s.matched

/-- A list has come to a place where a part or delimiter is tried, behind the first part at code
only. -/
structure DelimitedState.Tried (c : MatchContext) (limit start : Nat) (s : DelimitedState) :
    Prop where
  lt : s.place < limit
  isCodeAt : start < s.place → c.isCodeAt s.place = true

theorem DelimitedSpec.tried {spec : DelimitedSpec} {limit start : Nat} {s : DelimitedState}
    (hlt : spec.nextPlace c limit start s < limit)
    (hgaps : spec.allowGaps = true ∨ c.isCodeAt (spec.nextPlace c limit start s) = true) :
    DelimitedState.Tried c limit start { s with place := spec.nextPlace c limit start s } := by
  refine ⟨hlt, fun hbegun => hgaps.elim (fun hgaps => ?_) id⟩
  dsimp only at hbegun ⊢
  unfold nextPlace at hlt hbegun ⊢
  split at hlt
  · next hskip =>
    rw [if_pos hskip]
    exact isCodeAt_skipToCode hlt
  · next hfirst =>
    rw [if_neg hfirst] at hbegun
    exact absurd (by simp [hgaps, hbegun]) hfirst

section Turns

variable (c) (below below2 : Matcher) (ts : List GrammarId) (limit start : Nat)
  (spec : DelimitedSpec)

/-- How each part and delimiter leads a list on. `J` holds between them. -/
structure DelimitedRule (I : MatchState → Prop) (J : DelimitedState → Prop) : Prop where
  skipped : ∀ s, J s → J { s with place := spec.nextPlace c limit start s }
  ending : ∀ s, J s → s.Tried c limit start →
    Meets I (c.longest below below2 ts limit s.place spec.terminators) fun _ => True
  delimiter : ∀ s, J s → s.Tried c limit start → s.wantsDelimiter = true →
    Meets I (c.longest below below2 ts limit s.place [spec.delimiter]) fun x =>
      x.1.isMatch = true → J (s.withDelimiter x.1)
  undelimited : ∀ s, J s → s.Tried c limit start → s.wantsDelimiter = true →
    Meets I (c.longest below below2 (pushTerminators false [spec.delimiter] ts) limit s.place
      spec.parts) fun x => x.1.isMatch = true → J (s.withUndelimited x.1)
  part : ∀ s, J s → s.Tried c limit start → s.wantsDelimiter = false →
    Meets I (c.longest below below2 (pushTerminators false [spec.delimiter] ts) limit s.place
      spec.parts) fun x => x.1.isMatch = true → J (s.withPart x.1)

variable {c below below2 ts limit start spec}

/-- What each part and delimiter leads on, the list leads to its end. -/
theorem DelimitedRule.meets {J : DelimitedState → Prop}
    (h : c.DelimitedRule below below2 ts limit start spec I J)
    (hI : ∀ s notes, I s → I { s with notes := notes }) (fuel : Nat) {s : DelimitedState}
    (hs : J s) : Meets I (c.delimitedFrom below below2 ts limit start spec fuel s) J := by
  induction fuel generalizing s with
  | zero => exact .pure hs
  | succ fuel ih =>
    unfold delimitedFrom
    dsimp only
    rw [← DelimitedSpec.nextPlace]
    replace hs := h.skipped s hs
    refine .ite (fun _ => .pure hs) fun hguard => ?_
    have tried : DelimitedState.Tried c limit start
        { s with place := spec.nextPlace c limit start s } := by
      rw [Bool.or_eq_true, decide_eq_true_eq, not_or, Nat.not_le] at hguard
      refine DelimitedSpec.tried hguard.1 ?_
      cases hgaps : spec.allowGaps with
      | true => exact .inl rfl
      | false => exact .inr (by simpa [hgaps] using hguard.2)
    refine (h.ending _ hs tried).bind fun ending _ => .ite (fun _ => .pure hs) fun _ => ?_
    refine .ite (fun hwants => ?_) fun hwants => ?_
    · refine (h.delimiter _ hs tried hwants).bind fun found hfound => ?_
      refine .ite (fun hmatch => ih (hfound hmatch)) fun _ => .ite (fun _ => ?_) fun _ => .pure hs
      refine (h.undelimited _ hs tried hwants).bind fun part hpart => ?_
      refine .ite (fun hmatch => ?_) fun _ => .pure hs
      exact (meets_note hI _ _).bind fun _ _ => ih (hpart hmatch)
    · refine (h.part _ hs tried (by simpa using hwants)).bind fun found hfound => ?_
      exact .ite (fun hmatch => ih (hfound hmatch)) fun _ => .pure hs

end Turns

section Whole

variable (c) (ts : List GrammarId) (id delimiter : GrammarId)

/-- The list that a delimited grammar asks for. -/
def delimitedSpec : DelimitedSpec where
  delimiter := delimiter
  parts := c.tables.parts id
  terminators := c.tables.terminatorsOf id ++ ts.filter (c.resolve · ≠ c.resolve delimiter)
  allowGaps := (c.tables.instruction id).flags.allowGaps
  optionalDelimiter := (c.tables.instruction id).flags.optionalDelimiter

variable {c ts id delimiter} {below below2 : Matcher} {limit i least : Nat}

/-- What each part and delimiter leads on, the list leads to its end, with a delimiter that waits or
without it. -/
theorem DelimitedRule.meets_matchDelimited {J : DelimitedState → Prop} {Q : Match → Prop}
    (h : c.DelimitedRule below below2 ts limit i (c.delimitedSpec ts id delimiter) I J)
    (hI : ∀ s notes, I s → I { s with notes := notes })
    (initial : J { matched := .empty i, place := i }) (nothing : Q (.empty i))
    (finished : ∀ s, J s → Q s.matched ∧ Q s.withPending) :
    Meets I (c.matchDelimited below below2 ts limit i id delimiter least) Q := by
  unfold matchDelimited
  refine (h.meets hI (2 * limit + 2) initial).bind fun s hs => ?_
  refine .ite (fun _ => .pure nothing) fun _ => ?_
  exact .ite (fun _ => .pure (finished s hs).2) fun _ => .pure (finished s hs).1

end Whole

/-! ## 5. Delimited lists -/

/-- How a delimited list stands between two of its parts and delimiters. -/
structure DelimitedInvariant (c : MatchContext) (apart prompt : Prop) (limit start : Nat)
    (s : DelimitedState) : Prop where
  matched : Claims c apart prompt limit start s.matched
  progress : Progress c apart prompt limit start s.place s.withPending
  settled : s.wantsDelimiter = true → s.pending = none

namespace DelimitedInvariant

variable {limit start : Nat} {s : DelimitedState} {m : Match}

theorem initial (limit i : Nat) :
    DelimitedInvariant c apart prompt limit i { matched := .empty i, place := i } :=
  ⟨.empty i, .empty limit i, by simp⟩

theorem moved (h : DelimitedInvariant c apart prompt limit start s) {i : Nat} (hi : s.place ≤ i)
    (hl : i ≤ max limit start) (hs : c.isCodeAt start = true → s.place = start → i = start) :
    DelimitedInvariant c apart prompt limit start { s with place := i } :=
  ⟨h.matched, h.progress.moved hi hl hs, h.settled⟩

/-- Blanks before the next part or delimiter are passed over, but none before the first part. -/
theorem skipped (h : DelimitedInvariant c apart prompt limit start s) (spec : DelimitedSpec) :
    DelimitedInvariant c apart prompt limit start
      { s with place := spec.nextPlace c limit start s } := by
  refine h.moved (spec.le_nextPlace limit start s) ?_ fun _ => spec.nextPlace_of_first limit
  have hplace := h.progress.place_le
  have hskip := skipToCode_le (c := c) s.place limit
  unfold DelimitedSpec.nextPlace
  split <;> omega

/-- With no delimiter waiting, all is in what has been matched. -/
theorem withPending_eq (h : DelimitedInvariant c apart prompt limit start s)
    (hw : s.wantsDelimiter = true) : s.withPending = s.matched := by
  rw [DelimitedState.withPending, h.settled hw]
  rfl

theorem withPending_withDelimiter (h : DelimitedInvariant c apart prompt limit start s)
    (hw : s.wantsDelimiter = true) (m : Match) :
    (s.withDelimiter m).withPending = s.withPending.append m := by
  rw [h.withPending_eq hw]
  rfl

theorem matched_withUndelimited (h : DelimitedInvariant c apart prompt limit start s)
    (hw : s.wantsDelimiter = true) (m : Match) :
    (s.withUndelimited m).matched = s.withPending.append m := by
  rw [h.withPending_eq hw]
  rfl

theorem withPending_withUndelimited (h : DelimitedInvariant c apart prompt limit start s)
    (hw : s.wantsDelimiter = true) (m : Match) :
    (s.withUndelimited m).withPending = s.withPending.append m :=
  h.matched_withUndelimited hw m

theorem withDelimiter (h : DelimitedInvariant c apart prompt limit start s)
    (hw : s.wantsDelimiter = true) (hm : Claims c apart prompt limit s.place m)
    (hlt : s.place < limit) (hmatch : m.isMatch = true) :
    DelimitedInvariant c apart prompt limit start (s.withDelimiter m) where
  matched := h.matched
  progress := h.withPending_withDelimiter hw m ▸ h.progress.append hm hlt hmatch
  settled := nofun

theorem withPart (h : DelimitedInvariant c apart prompt limit start s)
    (hm : Claims c apart prompt limit s.place m) (hlt : s.place < limit)
    (hmatch : m.isMatch = true) :
    DelimitedInvariant c apart prompt limit start (s.withPart m) :=
  have next := h.progress.append hm hlt hmatch
  ⟨next.claims, next, fun _ => rfl⟩

theorem withUndelimited (h : DelimitedInvariant c apart prompt limit start s)
    (hw : s.wantsDelimiter = true) (hm : Claims c apart prompt limit s.place m)
    (hlt : s.place < limit) (hmatch : m.isMatch = true) :
    DelimitedInvariant c apart prompt limit start (s.withUndelimited m) := by
  have next := h.progress.append hm hlt hmatch
  refine ⟨?_, ?_, fun _ => rfl⟩
  · exact h.matched_withUndelimited hw m ▸ next.claims
  · exact h.withPending_withUndelimited hw m ▸ next

end DelimitedInvariant

section Lists

variable {below below2 : Matcher}

/-- A delimited list is a sound match. -/
theorem meets_matchDelimited (hbelow : Sound c apart prompt I below)
    (hbelow2 : Sound c apart prompt I below2)
    (hI : ∀ s notes, I s → I { s with notes := notes }) (ts : List GrammarId) (limit i : Nat)
    (id delimiter : GrammarId) (least : Nat) :
    Meets I (c.matchDelimited below below2 ts limit i id delimiter least)
      (Claims c apart prompt limit i) := by
  have tries (ts : List GrammarId) (place : Nat) (options : List GrammarId) :=
    meets_longest hbelow hbelow2 ts limit place options
  have rule : c.DelimitedRule below below2 ts limit i (c.delimitedSpec ts id delimiter) I
      (DelimitedInvariant c apart prompt limit i) := {
    skipped := fun s hs => hs.skipped _
    ending := fun s _ _ => (tries ts s.place _).trivial
    delimiter := fun s hs ht hw => (tries ts s.place _).mono fun x hx hmatch =>
      hs.withDelimiter hw hx ht.lt hmatch
    undelimited := fun s hs ht hw => (tries _ s.place _).mono fun x hx hmatch =>
      hs.withUndelimited hw hx ht.lt hmatch
    part := fun s hs ht _ => (tries _ s.place _).mono fun x hx hmatch =>
      hs.withPart hx ht.lt hmatch }
  exact rule.meets_matchDelimited hI (.initial limit i) (.empty i) fun s hs =>
    ⟨hs.matched, hs.progress.claims⟩

end Lists

end MatchContext

end QueryLint
