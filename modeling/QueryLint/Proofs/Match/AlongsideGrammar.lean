import QueryLint.Match.Grammar
import QueryLint.Proofs.Match.Alongside

/-!
QueryLint.Proofs.Match.AlongsideGrammar — two matchings of grammars side by side.

Sequences, repetitions, lists and brackets look at a match only to see where it starts and stops
and whether it matches, and they put matches together. So they keep side by side over matchers that
do. The two places where runs may differ are left open: what is found for a reference, which is
where the memo is, and what segment a match is put into.

* `alongside_matchSequence`, `alongside_matchAnyNumberOf`, `alongside_matchDelimited`,
  `alongside_matchBracketed` — grammars of parts.
* `paired_matchLevel` — one level keeps side by side if references and the levels below do.
-/

namespace QueryLint

/-- The grammar takes code as it is, whatever it is: one token, or all up to a terminator. -/
def Tables.takesAsIs (t : Tables) (id : GrammarId) : Bool :=
  match t.shape id with
  | .token | .anything => true
  | _ => false

/-- The patterns of an instruction are among those of the tables. -/
theorem Tables.patterns_of_shape {t : Tables} {id : GrammarId} {text anti : Option TablePattern}
    {type : String} (h : t.shape id = .pattern text anti type) :
    (∀ p, text = some p → p ∈ t.patterns) ∧ ∀ p, anti = some p → p ∈ t.patterns := by
  have listed (slot : Nat) (p : TablePattern) (hp : t.pattern? slot = some p) : p ∈ t.patterns := by
    obtain ⟨n, -, hn⟩ := Option.bind_eq_some_iff.1 hp
    exact Array.mem_of_getElem? hn
  unfold shape at h
  dsimp only at h
  split at h
  case h_10 =>
    cases h
    exact ⟨listed _, listed _⟩
  all_goals cases h

/-- What two matchers find for references, each with the memo or without, keeps side by side. -/
def MemoPaired (b : Bond) (like : Match → Match → Prop) (on on' : Bool) (run run' : Matcher) :
    Prop :=
  ∀ ts limit i g, Alongside b like (Matching.memoized on ⟨i, limit, g, ts⟩ (run ts limit i g))
    (Matching.memoized on' ⟨i, limit, g, ts⟩ (run' ts limit i g))

/-- The notes that two runs keep of a delimiter that is missing keep side by side. -/
def NotesPaired (b : Bond) (tokens tokens' : Array TokenView) : Prop :=
  ∀ i : Nat, Alongside b Eq
    (Matching.note ("Missing delimiter before " ++ MatchContext.shown tokens i)
      ((tokens[i]?).bind (·.segment.position)))
    (Matching.note ("Missing delimiter before " ++ MatchContext.shown tokens' i)
      ((tokens'[i]?).bind (·.segment.position)))

namespace MatchContext

variable {α : Type} {c : MatchContext} {tokens : Array TokenView} {types : Array Nat}
  {memoize : Bool} {b : Bond} {alike : MatchClass → MatchClass → Prop}
  {like : Match → Match → Prop} {likeAll : List Match → List Match → Prop}
  {here here' below below' below2 below2' : Matcher} (hl : Likeness alike like likeAll)
  (ht : c.Abreast alike tokens)

@[simp] theorem instruction_varied (g : GrammarId) :
    (c.varied tokens types memoize).tables.instruction g = c.tables.instruction g := rfl

@[simp] theorem shape_varied (g : GrammarId) :
    (c.varied tokens types memoize).tables.shape g = c.tables.shape g := rfl

@[simp] theorem describe_varied (g : GrammarId) :
    (c.varied tokens types memoize).tables.describe g = c.tables.describe g := rfl

@[simp] theorem displayAt_varied (i : Nat) :
    (c.varied tokens types memoize).displayAt i = shown tokens i := rfl

theorem follow_varied (n : Nat) (id : GrammarId) :
    resolve.follow (c.varied tokens types memoize) n id = resolve.follow c n id := by
  induction n generalizing id with
  | zero => rfl
  | succ n ih =>
    unfold resolve.follow
    simp only [ih]
    rfl

@[simp] theorem resolve_varied (id : GrammarId) :
    (c.varied tokens types memoize).resolve id = c.resolve id :=
  follow_varied _ id

@[simp] theorem pairsFor_varied (opening closing : GrammarId) (persists : Bool) :
    (c.varied tokens types memoize).pairsFor opening closing persists =
      c.pairsFor opening closing persists := by
  simp only [pairsFor, resolve_varied, bracketPairs_varied]

@[simp] theorem sequenceSpec_varied (id : GrammarId) :
    (c.varied tokens types memoize).sequenceSpec id = c.sequenceSpec id := rfl

section
include ht

theorem token?_varied (limit i : Nat) :
    Option.Rel (TokenView.Abreast alike c.tables.patterns) (c.token? limit i)
      ((c.varied tokens types memoize).token? limit i) := by
  unfold token?
  split
  · exact ht.token i
  · exact .none

theorem leftover_varied (start stop : Nat) :
    (c.varied tokens types memoize).leftover start stop = c.leftover start stop := by
  simp only [leftover, skipToCode_varied ht, trimToCode_varied ht]

end

/-! ## 1. Sequences -/

/-- How far two sequences have been matched: equally far, with alike matches. -/
inductive SequencesAlike (likeAll : List Match → List Match → Prop) :
    SequenceState → SequenceState → Prop where
  | mk (place limit : Nat) (inserts : List (Nat × MarkerKind)) (waiting : List MarkerKind)
    (isFirst : Bool) {cs cs' : List Match} (h : likeAll cs cs') :
    SequencesAlike likeAll ⟨place, limit, inserts, cs, waiting, isFirst⟩
      ⟨place, limit, inserts, cs', waiting, isFirst⟩

include hl ht

/-- What follows the limit of a greedy grammar keeps side by side if it does for every limit. -/
theorem alongside_bound {P : α → α → Prop} {p q : Prop} [Decidable p] [Decidable q] (hpq : p ↔ q)
    {f g : Nat → Matching α} (hf : ∀ bound, Alongside b P (f bound) (g bound))
    (hbelow : Paired b like below below') (ts : List GrammarId) (limit i bound : Nat)
    (terminators : List GrammarId) :
    Alongside b P
      (if p then c.trimToTerminator below ts limit i terminators >>= f else pure bound >>= f)
      (if q then
        (c.varied tokens types memoize).trimToTerminator below' ts limit i terminators >>= g
      else pure bound >>= g) :=
  .ite hpq (fun _ => (alongside_trimToTerminator hl ht hbelow ts limit i terminators).bindEq hf)
    fun _ => hf bound

theorem like_finishSequence (spec : SequenceSpec) (start : Nat) {s s' : SequenceState}
    (hs : SequencesAlike likeAll s s') :
    like (c.finishSequence spec start s)
      ((c.varied tokens types memoize).finishSequence spec start s') := by
  obtain ⟨place, bound, inserts, waiting, isFirst, hchildren⟩ := hs
  unfold finishSequence
  rw [leftover_varied ht]
  dsimp only
  split
  · exact hl.within _ _ _ _ (hl.append hchildren (hl.single (hl.refl _)))
  · exact hl.within _ _ _ _ hchildren

theorem like_endedSequence (spec : SequenceSpec) (start : Nat) {s s' : SequenceState}
    (hs : SequencesAlike likeAll s s') (part : GrammarId) :
    like (c.endedSequence spec start s part)
      ((c.varied tokens types memoize).endedSequence spec start s' part) := by
  obtain ⟨place, bound, inserts, waiting, isFirst, hchildren⟩ := hs
  have expected := ht.unparsable
    (fun _ before => c.tables.describe part ++ " after " ++ before ++ ". Found nothing.") 0
    (place - 1)
  unfold endedSequence
  simp only [describe_varied, displayAt_varied]
  split
  · exact hl.refl _
  · exact hl.wrap expected (hl.within _ _ _ _ hchildren)

theorem like_failedSequence (spec : SequenceSpec) (start : Nat) {s s' : SequenceState}
    (hs : SequencesAlike likeAll s s') (part : GrammarId) (i : Nat) :
    like (c.failedSequence spec start s part i)
      ((c.varied tokens types memoize).failedSequence spec start s' part i) := by
  obtain ⟨place, bound, inserts, waiting, isFirst, hchildren⟩ := hs
  have hfresh := ht.unparsable
    (fun found _ => c.tables.describe part ++ " to start sequence" ++ (". Found " ++ found)) i 0
  have hlater := ht.unparsable
    (fun found before => c.tables.describe part ++ " after " ++ before ++ (". Found " ++ found)) i
    (place - 1)
  have unplaced {a b : Nat} {k k' : MatchClass} (h : alike k k') :
      like (.mk a b (some k) [] []) (.mk a b (some k') [] []) :=
    hl.build a b [] (.some h) hl.nil
  unfold failedSequence
  simp only [describe_varied, displayAt_varied]
  generalize spec.mode = mode, decide (place = start) = fresh
  cases mode <;> cases fresh
  case strict.false | strict.true | greedyOnceStarted.true => exact hl.refl _
  case greedy.true => exact unplaced hfresh
  case greedy.false | greedyOnceStarted.false =>
    exact hl.within _ _ _ _ (hl.append hchildren (hl.single (unplaced hlater)))

theorem alongside_sequenceFrom (hbelow : Paired b like below below') (ts : List GrammarId)
    (limit start : Nat) (spec : SequenceSpec) (parts : List GrammarId) {s s' : SequenceState}
    (hs : SequencesAlike likeAll s s') :
    Alongside b like (c.sequenceFrom below ts limit start spec s parts)
      ((c.varied tokens types memoize).sequenceFrom below' ts limit start spec s' parts) := by
  induction parts generalizing s s' with
  | nil => exact .pure (like_finishSequence hl ht spec start hs)
  | cons g parts ih =>
    have hsame := hs
    obtain ⟨place, bound, inserts, waiting, isFirst, hchildren⟩ := hs
    unfold sequenceFrom
    dsimp only
    rw [skipToCode_varied ht]
    refine .ite .rfl (fun _ => ih (.mk _ _ _ _ _ hchildren)) fun _ => ?_
    generalize (if spec.allowGaps then c.skipToCode place bound else place) = i
    refine .ite .rfl (fun _ => .ite .rfl (fun _ => ih hsame) fun _ => .pure ?_) fun _ => ?_
    · exact like_endedSequence hl ht spec start hsame g
    refine (hbelow _ bound i g).bind hl.refl fun m m' hm => ?_
    refine .ite (by rw [hl.isMatch_eq hm]) (fun _ => ?_) fun _ => ?_
    · refine .ite .rfl (fun _ => ih hsame) fun _ => .pure ?_
      exact like_failedSequence hl ht spec start hsame g i
    · rw [← hl.stop_eq hm, ← hl.outerInserts_eq hm]
      have hnext : likeAll _ _ := hl.append hchildren (hl.outerChildren hm)
      exact alongside_bound hl ht .rfl (fun bound => ih (.mk _ _ _ _ _ hnext)) hbelow ts limit
        m.stop _ _

/-- Sequences keep side by side. -/
theorem alongside_matchSequence (hbelow : Paired b like below below') (ts : List GrammarId)
    (limit i : Nat) (spec : SequenceSpec) :
    Alongside b like (c.matchSequence below ts limit i spec)
      ((c.varied tokens types memoize).matchSequence below' ts limit i spec) := by
  unfold matchSequence
  exact alongside_bound hl ht .rfl (fun bound => alongside_sequenceFrom hl ht hbelow ts limit i
    spec _ (.mk _ _ _ _ _ hl.nil)) hbelow ts limit i _ _

/-! ## 2. Choices and repetitions -/

/-- How far two repetitions have been matched: equally far, with alike matches. -/
inductive RepetitionsAlike (like : Match → Match → Prop) :
    RepetitionState → RepetitionState → Prop where
  | mk (count : Nat) (counts : List (GrammarId × Nat)) (place next : Nat) {m m' : Match}
    (h : like m m') : RepetitionsAlike like ⟨m, count, counts, place, next⟩
      ⟨m', count, counts, place, next⟩

omit ht in
theorem repetitionsAlike_refl (s : RepetitionState) : RepetitionsAlike like s s :=
  .mk s.count s.counts s.place s.next (hl.refl s.matched)

theorem alongside_repeatFrom (hbelow : Paired b like below below')
    (hbelow2 : Paired b like below2 below2') (ts : List GrammarId) (limit start : Nat)
    (allowGaps : Bool) (r : Repetition) (options : List GrammarId) (fuel : Nat)
    {s s' : RepetitionState} (hs : RepetitionsAlike like s s') :
    Alongside b (Option.Rel (RepetitionsAlike like))
      (c.repeatFrom below below2 ts limit start allowGaps r options fuel s)
      ((c.varied tokens types memoize).repeatFrom below' below2' ts limit start allowGaps r options
        fuel s') := by
  induction fuel generalizing s s' with
  | zero => exact .pure (.some hs)
  | succ fuel ih =>
    have hsame := hs
    obtain ⟨count, counts, place, next, hmatched⟩ := hs
    unfold repeatFrom
    refine .ite .rfl (fun _ => .pure (.some hsame)) fun _ => ?_
    refine .ite .rfl (fun _ => .pure .none) fun _ => ?_
    refine (alongside_longest hl ht hbelow hbelow2 ts limit next options).bind hl.beside
      fun found found' hfound => ?_
    obtain ⟨m, option⟩ := found
    obtain ⟨m', option'⟩ := found'
    obtain ⟨hm, rfl⟩ := hfound
    dsimp only at hm ⊢
    refine .ite (by rw [hl.isEmpty_eq hm]) (fun _ => .pure (.some ?_)) fun _ => ?_
    · split
      · exact .mk _ _ _ _ (hl.refl _)
      · exact hsame
    · refine .ite .rfl (fun _ => .pure (.some hsame)) fun _ => ?_
      have hnext := hl.joined hmatched hm
      rw [skipToCode_varied ht, ← hl.stop_eq hnext]
      exact ih (.mk _ _ _ _ hnext)

omit ht in
theorem alongside_matchesExcluded (hbelow : Paired b like below below') (ts : List GrammarId)
    (limit i : Nat) (exclude : Option GrammarId) :
    Alongside b Eq (matchesExcluded below ts limit i exclude)
      (matchesExcluded below' ts limit i exclude) := by
  cases exclude with
  | none => exact .pure rfl
  | some x => exact (hbelow ts limit i x).map fun m m' hm => hl.isMatch_eq hm

/-- Choices and repetitions keep side by side. -/
theorem alongside_matchAnyNumberOf (hbelow : Paired b like below below')
    (hbelow2 : Paired b like below2 below2') (ts : List GrammarId) (limit i : Nat) (id : GrammarId)
    (r : Repetition) (exclude : Option GrammarId) :
    Alongside b like (c.matchAnyNumberOf below below2 ts limit i id r exclude)
      ((c.varied tokens types memoize).matchAnyNumberOf below' below2' ts limit i id r
        exclude) := by
  unfold matchAnyNumberOf
  refine (alongside_matchesExcluded hl hbelow ts limit i exclude).bindEq fun excluded => ?_
  refine .ite .rfl (fun _ => .pure (hl.refl _)) fun _ => ?_
  refine alongside_bound hl ht .rfl (fun bound => ?_) hbelow ts limit i _ _
  refine (alongside_repeatFrom hl ht hbelow hbelow2 _ bound i _ r _ (limit + 1)
    (.mk _ _ _ _ (hl.refl _))).bind (option_rel_refl (repetitionsAlike_refl hl)) fun s s' hs => ?_
  cases hs with
  | none => exact .pure (hl.refl _)
  | some hs =>
    obtain ⟨count, counts, place, next, hmatched⟩ := hs
    dsimp only
    rw [leftover_varied ht, instruction_varied]
    generalize (if (c.tables.instruction id).mode = .greedy then c.leftover place bound else none) =
      rest
    cases rest with
    | none => exact .pure hmatched
    | some m => exact .pure (hl.joined hmatched (hl.refl m))

/-! ## 3. Delimited parts -/

/-- How far two delimited lists have been matched: equally far, with alike matches. -/
inductive ListsAlike (like : Match → Match → Prop) : DelimitedState → DelimitedState → Prop where
  | mk (delimiters : Nat) (wantsDelimiter : Bool) (place : Nat) {m m' : Match} (h : like m m')
    {p p' : Option Match} (hp : Option.Rel like p p') :
    ListsAlike like ⟨m, p, delimiters, wantsDelimiter, place⟩
      ⟨m', p', delimiters, wantsDelimiter, place⟩

section
omit ht

namespace ListsAlike

variable {s s' : DelimitedState} {m m' : Match}

theorem refl (s : DelimitedState) : ListsAlike like s s :=
  .mk _ _ _ (hl.refl _) (option_rel_refl hl.refl _)

/-- With the delimiter that waits. -/
theorem joined (h : ListsAlike like s s') :
    like ((s.pending.map s.matched.append).getD s.matched)
      ((s'.pending.map s'.matched.append).getD s'.matched) := by
  obtain ⟨delimiters, wants, place, hmatched, hpending⟩ := h
  cases hpending with
  | none => exact hmatched
  | some hp => exact hl.joined hmatched hp

theorem withDelimiter (h : ListsAlike like s s') (hm : like m m') :
    ListsAlike like (s.withDelimiter m) (s'.withDelimiter m') := by
  obtain ⟨delimiters, wants, place, hmatched, hpending⟩ := h
  unfold DelimitedState.withDelimiter
  rw [hl.stop_eq hm]
  exact .mk _ _ _ hmatched (.some hm)

theorem withPart (h : ListsAlike like s s') (hm : like m m') :
    ListsAlike like (s.withPart m) (s'.withPart m') := by
  have hbefore := hl.joined (h.joined hl) hm
  obtain ⟨delimiters, wants, place, hmatched, hpending⟩ := h
  unfold DelimitedState.withPart
  rw [hl.stop_eq hm]
  cases hpending with
  | none => exact .mk _ _ _ hbefore .none
  | some hp => exact .mk _ _ _ hbefore .none

theorem withUndelimited (h : ListsAlike like s s') (hm : like m m') :
    ListsAlike like (s.withUndelimited m) (s'.withUndelimited m') := by
  obtain ⟨delimiters, wants, place, hmatched, hpending⟩ := h
  unfold DelimitedState.withUndelimited
  rw [hl.stop_eq hm]
  exact .mk _ _ _ (hl.joined hmatched hm) .none

end ListsAlike

end

theorem alongside_delimitedFrom (hbelow : Paired b like below below')
    (hbelow2 : Paired b like below2 below2')
    (hnote : NotesPaired b c.tokens tokens)
    (ts : List GrammarId) (limit start : Nat) (spec : DelimitedSpec) (fuel : Nat)
    {s s' : DelimitedState} (hs : ListsAlike like s s') :
    Alongside b (ListsAlike like) (c.delimitedFrom below below2 ts limit start spec fuel s)
      ((c.varied tokens types memoize).delimitedFrom below' below2' ts limit start spec fuel
        s') := by
  induction fuel generalizing s s' with
  | zero => exact .pure hs
  | succ fuel ih =>
    obtain ⟨delimiters, wants, place, hmatched, hpending⟩ := hs
    unfold delimitedFrom
    dsimp only
    rw [skipToCode_varied ht, isCodeAt_varied ht, displayAt_varied, tokens_varied]
    generalize (if spec.allowGaps && start < place then c.skipToCode place limit else place) = i
    have hs : ListsAlike like ⟨_, _, delimiters, wants, i⟩ ⟨_, _, delimiters, wants, i⟩ :=
      .mk _ _ _ hmatched hpending
    have tries (ts options : List GrammarId) : Alongside b (Beside like)
        (c.longest below below2 ts limit i options)
        ((c.varied tokens types memoize).longest below' below2' ts limit i options) :=
      alongside_longest hl ht hbelow hbelow2 ts limit i options
    refine .ite .rfl (fun _ => .pure hs) fun _ => ?_
    refine (tries ts _).bind hl.beside fun ended ended' hended => ?_
    refine .ite (by rw [hl.isMatch_eq hended.1]) (fun _ => .pure hs) fun _ => ?_
    refine .ite .rfl (fun _ => ?_) fun _ => ?_
    · refine (tries ts _).bind hl.beside fun m m' hm => ?_
      refine .ite (by rw [hl.isMatch_eq hm.1]) (fun _ => ih (hs.withDelimiter hl hm.1)) fun _ => ?_
      refine .ite .rfl (fun _ => ?_) fun _ => .pure hs
      refine (tries _ _).bind hl.beside fun part part' hpart => ?_
      refine .ite (by rw [hl.isMatch_eq hpart.1]) (fun _ => ?_) fun _ => .pure hs
      exact (hnote i).bindEq fun _ => ih (hs.withUndelimited hl hpart.1)
    · refine (tries _ _).bind hl.beside fun m m' hm => ?_
      exact .ite (by rw [hl.isMatch_eq hm.1]) (fun _ => ih (hs.withPart hl hm.1)) fun _ => .pure hs

/-- Delimited lists keep side by side, if notes do. -/
theorem alongside_matchDelimited (hbelow : Paired b like below below')
    (hbelow2 : Paired b like below2 below2')
    (hnote : NotesPaired b c.tokens tokens)
    (ts : List GrammarId) (limit i : Nat) (id delimiter : GrammarId) (least : Nat) :
    Alongside b like (c.matchDelimited below below2 ts limit i id delimiter least)
      ((c.varied tokens types memoize).matchDelimited below' below2' ts limit i id delimiter
        least) := by
  unfold matchDelimited
  dsimp only
  simp only [resolve_varied]
  refine (alongside_delimitedFrom hl ht hbelow hbelow2 hnote ts limit i _ _
    (.mk _ _ _ (hl.refl _) .none)).bind (ListsAlike.refl hl) fun s s' hs => ?_
  have hjoined := hs.joined hl
  obtain ⟨delimiters, wants, place, hmatched, hpending⟩ := hs
  refine .ite .rfl (fun _ => .pure (hl.refl _)) fun _ => ?_
  exact .ite .rfl (fun _ => .pure hjoined) fun _ => .pure hmatched

/-! ## 4. Brackets -/

theorem alongside_matchContent (hbelow2 : Paired b like below2 below2') (i : Nat)
    (id closing : GrammarId) (contentStart : Nat) {pair pair' : Match}
    (hpair : Twin likeAll pair pair') :
    Alongside b like (c.matchContent below2 i id closing contentStart pair)
      ((c.varied tokens types memoize).matchContent below2' i id closing contentStart pair') := by
  obtain ⟨start, stop, k, inserts, children⟩ := pair
  obtain ⟨start', stop', k', inserts', children'⟩ := pair'
  obtain ⟨rfl, rfl, rfl, rfl, hchildren⟩ := hpair
  unfold matchContent
  dsimp only
  rw [skipToCode_varied ht, trimToCode_varied ht, sequenceSpec_varied, describe_varied]
  refine (alongside_matchSequence hl ht hbelow2 _ _ _ _).bind hl.refl fun m m' hm => ?_
  rw [← hl.stop_eq hm]
  refine .ite .rfl (fun _ => .pure (hl.refl _)) fun _ => .pure ?_
  have hcontent (p : Prop) [Decidable p] (k : Match) :
      like (if p then m.append k else m) (if p then m'.append k else m') := by
    split
    · exact hl.joined hm (hl.refl k)
    · exact hm
  rw [← hl.outerInserts_eq (hcontent _ _)]
  exact hl.within _ _ _ _ (hl.append hchildren (hl.outerChildren (hcontent _ _)))

/-- Brackets keep side by side. -/
theorem alongside_matchBracketed (hhere : Paired b like here here')
    (hbelow : Paired b like below below') (hbelow2 : Paired b like below2 below2')
    (ts : List GrammarId) (limit i : Nat) (id opening closing : GrammarId) (persists : Bool) :
    Alongside b like (c.matchBracketed here below below2 ts limit i id opening closing persists)
      ((c.varied tokens types memoize).matchBracketed here' below' below2' ts limit i id opening
        closing persists) := by
  unfold matchBracketed
  rw [pairsFor_varied]
  refine (hbelow ts limit i opening).bind hl.refl fun m m' hm => ?_
  refine .ite (by rw [hl.isMatch_eq hm]) (fun _ => .pure (hl.refl _)) fun _ => ?_
  rw [← hl.stop_eq hm]
  refine (alongside_closeBracket hl ht hhere ts limit _ false _ hm).bind
    (option_rel_refl fun m => ⟨rfl, rfl, rfl, rfl, hl.reflAll m.children⟩) fun r r' hr => ?_
  cases hr with
  | none => exact .pure (hl.refl _)
  | some hpair => exact alongside_matchContent hl ht hbelow2 i id closing _ hpair

/-! ## 5. All grammars -/

omit ht in
/-- References keep side by side if what they find does. -/
theorem alongside_matchReference (hbelow : Paired b like below below')
    (hmemo : MemoPaired b like c.memoize memoize below below') (ts : List GrammarId)
    (limit i : Nat) (id target : GrammarId) (exclude : Option GrammarId) :
    Alongside b like (c.matchReference below ts limit i id target exclude)
      ((c.varied tokens types memoize).matchReference below' ts limit i id target exclude) := by
  unfold matchReference
  refine (alongside_matchesExcluded hl hbelow _ limit i exclude).bindEq fun excluded => ?_
  exact .ite .rfl (fun _ => .pure (hl.refl _)) fun _ => hmemo _ limit i target

theorem alongside_matchAnything (hbelow : Paired b like below below') (ts : List GrammarId)
    (limit i : Nat) (id : GrammarId) :
    Alongside b (Loose likeAll) (c.matchAnything below ts limit i id)
      ((c.varied tokens types memoize).matchAnything below' ts limit i id) := by
  unfold matchAnything
  exact .ite .rfl (fun _ => .pure (.mk _ _ hl.nil)) fun _ =>
    alongside_greedy hl ht hbelow ts limit i _ false true

omit hl in
theorem matchCode_varied (limit i : Nat) (type : String) {test test' : TokenView → Bool}
    (htest : ∀ v w, v.Abreast alike c.tables.patterns w → test' w = test v) :
    (c.varied tokens types memoize).matchCode limit i type test' =
      c.matchCode limit i type test := by
  have token : Option.Rel _ (c.token? limit i)
      ((c.varied tokens types memoize).token? limit i) := token?_varied ht limit i
  unfold matchCode
  generalize c.token? limit i = v, (c.varied tokens types memoize).token? limit i = w at token
  cases token with
  | none => rfl
  | some h =>
    dsimp only
    rw [h.isCode_eq, htest _ _ h]

/-- A typed token may be normalised to another text. -/
theorem like_matchTyped (limit i : Nat) (id : GrammarId) (template type : String) :
    like (c.matchTyped limit i id template type)
      ((c.varied tokens types memoize).matchTyped limit i id template type) := by
  have token : Option.Rel _ (c.token? limit i)
      ((c.varied tokens types memoize).token? limit i) := token?_varied ht limit i
  unfold matchTyped
  generalize c.token? limit i = v, (c.varied tokens types memoize).token? limit i = w at token
  cases token with
  | none => exact hl.refl _
  | @some v w h =>
    dsimp only
    rw [h.isType_eq]
    split
    · refine hl.build _ _ _ (.some ?_) hl.nil
      show alike (.token type (if (c.tables.trim id).isEmpty && c.tables.casefold id == .none then _
        else _)) (.token type (if (c.tables.trim id).isEmpty && c.tables.casefold id == .none then _
        else _))
      split
      · exact hl.class_refl _
      · exact h.token type fun raw =>
          (c.tables.casefold id).apply ((c.tables.trim id).foldl Text.trimCopies raw)
    · exact hl.refl _

omit hl in
theorem matchPattern_varied {text anti : Option TablePattern}
    (htext : ∀ p, text = some p → p ∈ c.tables.patterns)
    (hanti : ∀ p, anti = some p → p ∈ c.tables.patterns) (limit i : Nat) (type : String) :
    (c.varied tokens types memoize).matchPattern limit i text anti type =
      c.matchPattern limit i text anti type := by
  cases text with
  | none => rfl
  | some p =>
    refine matchCode_varied ht limit i type fun v w h => ?_
    have excluded : anti.any (·.pattern.isMatch w.segment.raw) =
        anti.any (·.pattern.isMatch v.segment.raw) := by
      cases anti with
      | none => rfl
      | some q => exact h.isMatch_eq q (hanti q rfl)
    dsimp only
    rw [h.isEmpty_eq, h.isMatch_eq p (htext p rfl), excluded]

/-- Grammars keep side by side before their match is put into a segment. -/
theorem alongside_matchShape (hhere : Paired b like here here')
    (hbelow : Paired b like below below') (hbelow2 : Paired b like below2 below2')
    (hnote : NotesPaired b c.tokens tokens)
    (hmemo : MemoPaired b like c.memoize memoize below below')
    (ts : List GrammarId) (limit i : Nat) (id : GrammarId) :
    Alongside b
      (fun m m' => like m m' ∧ (c.tables.takesAsIs id = true → Loose likeAll m m'))
      (c.matchShape here below below2 ts limit i id)
      ((c.varied tokens types memoize).matchShape here' below' below2' ts limit i id) := by
  have same {x y : Matching Match} (h : Alongside b like x y)
      (hid : c.tables.takesAsIs id = false) : Alongside b
        (fun m m' => like m m' ∧ (c.tables.takesAsIs id = true → Loose likeAll m m')) x y :=
    h.mono fun m m' hm => ⟨hm, fun has => by simp [hid] at has⟩
  have loose {x y : Matching Match} (h : Alongside b (Loose likeAll) x y) : Alongside b
      (fun m m' => like m m' ∧ (c.tables.takesAsIs id = true → Loose likeAll m m')) x y :=
    h.mono fun m m' hm => ⟨hl.ofLoose hm, fun _ => hm⟩
  have pure (m : Match) : Alongside b like (return m) (return m) := .pure (hl.refl m)
  unfold matchShape
  rw [shape_varied]
  cases hshape : c.tables.shape id with
  | ref name target exclude =>
    refine same ?_ (by simp [Tables.takesAsIs, hshape])
    cases target with
    | none => exact pure _
    | some target => exact alongside_matchReference hl hbelow hmemo ts limit i id target exclude
  | sequence =>
    exact same (alongside_matchSequence hl ht hbelow ts limit i _)
      (by simp [Tables.takesAsIs, hshape])
  | oneOf exclude =>
    exact same (alongside_matchAnyNumberOf hl ht hbelow hbelow2 ts limit i id _ exclude)
      (by simp [Tables.takesAsIs, hshape])
  | anyNumberOf most perPart exclude =>
    exact same (alongside_matchAnyNumberOf hl ht hbelow hbelow2 ts limit i id _ exclude)
      (by simp [Tables.takesAsIs, hshape])
  | delimited delimiter least =>
    refine same ?_ (by simp [Tables.takesAsIs, hshape])
    cases delimiter with
    | none => exact pure _
    | some delimiter =>
      exact alongside_matchDelimited hl ht hbelow hbelow2 hnote ts limit i id delimiter least
  | bracketed pair =>
    refine same ?_ (by simp [Tables.takesAsIs, hshape])
    rcases pair with _ | ⟨opening, closing, persists⟩
    · exact pure _
    · exact alongside_matchBracketed hl ht hhere hbelow hbelow2 ts limit i id opening closing
        persists
  | anything => exact loose (alongside_matchAnything hl ht hbelow ts limit i id)
  | token =>
    have token : Option.Rel _ (c.token? limit i)
        ((c.varied tokens types memoize).token? limit i) := token?_varied ht limit i
    have isCode_eq : ((c.varied tokens types memoize).token? limit i).any (·.isCode) =
        (c.token? limit i).any (·.isCode) := by
      generalize c.token? limit i = v, (c.varied tokens types memoize).token? limit i = w at token
      cases token with
      | none => rfl
      | some h => exact h.isCode_eq
    refine loose (.pure ?_)
    rw [isCode_eq]
    split
    · exact .mk i (i + 1) hl.nil
    · exact .mk i i hl.nil
  | string template type =>
    refine same (.pure ?_) (by simp [Tables.takesAsIs, hshape])
    rw [matchCode_varied ht limit i type fun v w h => by rw [h.upper_eq]]
    exact hl.refl _
  | multiString templates type =>
    refine same (.pure ?_) (by simp [Tables.takesAsIs, hshape])
    rw [matchCode_varied ht limit i type fun v w h => by rw [h.upper_eq]]
    exact hl.refl _
  | typed template type =>
    exact same (.pure (like_matchTyped hl ht limit i id template type))
      (by simp [Tables.takesAsIs, hshape])
  | pattern text anti type =>
    obtain ⟨htext, hanti⟩ := Tables.patterns_of_shape hshape
    refine same (.pure ?_) (by simp [Tables.takesAsIs, hshape])
    rw [matchPattern_varied ht htext hanti]
    exact hl.refl _
  | marker | nothing | missing =>
    exact same (pure _) (by simp [Tables.takesAsIs, hshape])

/-- What a level needs to know of the segments of both sides: matches that are put into them are
alike again. -/
def SegmentsAlike (c : MatchContext) (types : Array Nat) (like : Match → Match → Prop)
    (likeAll : List Match → List Match → Prop) : Prop :=
  ∀ id m m', like m m' → (c.tables.takesAsIs id = true → Loose likeAll m m') →
    like (m.wrap? ((c.tables.segmentType? id).map (.node · id)))
      (m'.wrap? (({ c.tables with segmentTypes := types }.segmentType? id).map (.node · id)))

section Level

variable (hsegments : c.SegmentsAlike types like likeAll)
  (hbelow : Paired b like below below') (hbelow2 : Paired b like below2 below2')
  (hnote : NotesPaired b c.tokens tokens)
  (hmemo : MemoPaired b like c.memoize memoize below below')

include hsegments hbelow hbelow2 hnote hmemo

theorem paired_matchOne (hhere : Paired b like here here') :
    Paired b like (c.matchOne here below below2)
      ((c.varied tokens types memoize).matchOne here' below' below2') := by
  intro ts limit i id
  exact (alongside_matchShape hl ht hhere hbelow hbelow2 hnote hmemo ts limit i id).map
    fun m m' hm => hsegments id m m' hm.1 hm.2

/-- A level keeps side by side if the levels below and references do. -/
theorem paired_matchLevel :
    Paired b like (c.matchLevel below below2)
      ((c.varied tokens types memoize).matchLevel below' below2') := by
  have hrefuse : Paired b like .refuse .refuse := fun _ _ i _ => .pure (hl.refl (.empty i))
  have hhere := paired_matchOne hl ht hsegments hbelow hbelow2 hnote hmemo hrefuse
  exact paired_matchOne hl ht hsegments hbelow hbelow2 hnote hmemo hhere

end Level

end MatchContext

end QueryLint
