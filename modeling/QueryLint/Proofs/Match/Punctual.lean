import QueryLint.Proofs.Match.Anchored
import QueryLint.Proofs.Match.Prune

/-!
QueryLint.Proofs.Match.Punctual — a match that could place everything starts where it was asked for.

Tokens are passed over before a match starts only where a greedy repetition has found too few of its
parts: the parts are given up, the place they led to is not, and the rest is unparsable. All other
matches start where they were asked for. So behind the place where a grammar was tried, up to its
match, there is no token that nothing claims, unless the match holds something unparsable.

* `Match.Punctual` — a match that starts where it was asked for, or holds something unparsable.
* `MatchContext.punctual_matchGrammar` — all matches are punctual.
-/

namespace QueryLint

open Matching

/-! ## 1. Punctual matches -/

namespace Match

variable {i : Nat} {m x : Match}

/-- The match starts at the place it was asked for, unless something could not be placed. -/
def Punctual (i : Nat) (m : Match) : Prop := m.hasUnparsable = false → m.start = i

/-- What can be placed with what comes behind it can be placed by itself, and so can that. -/
theorem hasUnparsable_append (hm : m.isMatch = true) (hx : x.isMatch = true) :
    (m.append x).hasUnparsable = (m.hasUnparsable || x.hasUnparsable) := by
  rw [append_of_isMatch hm hx]
  show anyUnparsable (m.outerChildren ++ x.outerChildren) = _
  rw [anyUnparsable_append, anyUnparsable_outerChildren, anyUnparsable_outerChildren]

/-- Putting a match into something places nothing that it could not place. -/
theorem hasUnparsable_of_wrap {k : MatchClass} (h : (m.wrap k).hasUnparsable = false) :
    m.hasUnparsable = false := by
  by_cases hm : m.isMatch = true
  · have inside := anyUnparsable_children h
    obtain ⟨a, b, k', is, cs⟩ := m
    cases k' with
    | none => simpa [Match.wrap, hm, class?, Match.children, hasUnparsable] using inside
    | some k' => simpa [Match.wrap, hm, class?, Match.children, anyUnparsable] using inside
  · rwa [Match.wrap, if_pos (by simpa using hm)] at h

/-- What is left over is unparsable, whatever comes before it. -/
theorem hasUnparsable_append_unparsable {first last : Nat} (hlt : first < last) (expected : String)
    (m : Match) : (m.append (.unparsable first last expected)).hasUnparsable = true := by
  have rest : (unparsable first last expected).isMatch = true := isMatch_of_lt hlt
  by_cases hm : m.isMatch = true
  · rw [hasUnparsable_append hm rest, hasUnparsable_unparsable, Bool.or_true]
  · rw [append_of_not_isMatch _ (by simpa using hm)]
    rfl

namespace Punctual

theorem of_start (h : m.start = i) : m.Punctual i := fun _ => h

theorem empty (i : Nat) : (Match.empty i).Punctual i := .of_start rfl

theorem wrap? (h : m.Punctual i) (k : Option MatchClass) : (m.wrap? k).Punctual i := by
  cases k with
  | none => exact h
  | some k =>
    intro hplaced
    show (m.wrap k).start = i
    rw [start_wrap]
    exact h (hasUnparsable_of_wrap hplaced)

/-- More behind a match changes nothing of where it starts. -/
theorem append (h : m.Punctual i) (hm : m.isMatch = true) (x : Match) :
    (m.append x).Punctual i := by
  by_cases hx : x.isMatch = true
  · intro hplaced
    rw [hasUnparsable_append hm hx, Bool.or_eq_false_iff] at hplaced
    rw [start_append x hm]
    exact h hplaced.1
  · rw [append_of_right_not_isMatch hm (by simpa using hx)]
    exact h

theorem append_unparsable {first last : Nat} (hlt : first < last) (expected : String) (m : Match) :
    (m.append (.unparsable first last expected)).Punctual i := by
  intro hplaced
  rw [hasUnparsable_append_unparsable hlt] at hplaced
  cases hplaced

end Punctual

end Match

namespace MatchContext

variable {c : MatchContext} {I : MatchState → Prop}

/-- The matches of a matcher start where they were asked for, as far as all could be placed. -/
def PunctualBy (I : MatchState → Prop) (run : Matcher) : Prop :=
  ∀ ts limit i g, Meets I (run ts limit i g) (Match.Punctual i)

/-! ## 2. Grammars of parts -/

/-- What has been matched from `start` on up to a place: nothing yet, or a punctual match. -/
def PunctualFrom (start place : Nat) (m : Match) : Prop :=
  m = .empty start ∧ place = start ∨ m.isMatch = true ∧ m.Punctual start

namespace PunctualFrom

variable {start place : Nat} {m x : Match}

theorem punctual (h : PunctualFrom start place m) : m.Punctual start := by
  rcases h with ⟨rfl, -⟩ | ⟨-, h⟩
  · exact .empty start
  · exact h

/-- The next part is punctual where it was asked for, which is the start if it is the first. -/
theorem append (h : PunctualFrom start place m) (hx : x.Punctual place) (hlt : x.start < x.stop)
    (hm : m.start ≤ m.stop) (hbehind : m.stop ≤ x.start) (next : Nat) :
    PunctualFrom start next (m.append x) := by
  have takes : x.isMatch = true := Match.isMatch_of_lt hlt
  rcases h with ⟨rfl, rfl⟩ | ⟨hmatch, h⟩
  · rw [Match.append_of_not_isMatch x (Match.isMatch_empty _)]
    exact .inr ⟨takes, hx⟩
  · refine .inr ⟨Match.isMatch_of_lt ?_, h.append hmatch x⟩
    rw [Match.start_append x hmatch, Match.stop_append m takes]
    omega

end PunctualFrom

section Parts

variable {here below below2 : Matcher} {limit start : Nat}
  (hsound : Sound c False False I below) (hsound2 : Sound c False False I below2)
  (hbelow2 : PunctualBy I below2)

include hsound hbelow2 in
/-- The grammar that matches most is as punctual as all of them. -/
theorem punctual_longest (ts : List GrammarId) (i : Nat) (options : List GrammarId) :
    Meets I (c.longest below below2 ts limit i options) fun r => r.1.Punctual i :=
  meets_longest_of (fun place g => (hsound ts limit place g).trivial) options
    (fun _ g _ => hbelow2 ts limit i g) (.empty i)

include hsound hsound2 hbelow2

/-- A repetition starts where its first part does. -/
theorem punctual_repetitionRule (ts : List GrammarId) (allowGaps : Bool) (r : Repetition)
    (options : List GrammarId) :
    c.RepetitionRule below below2 ts limit start allowGaps r options I
      (fun s => RepetitionInvariant c False False limit start s ∧
        PunctualFrom start s.next s.matched)
      (·.matched.Punctual start) where
  ends _ h := h.2.punctual
  tooFew _ _ _ := .empty start
  round s h := ((meets_longest hsound hsound2 ts limit s.next options).and
    (punctual_longest hsound hbelow2 ts s.next options)).mono fun _ hm hlt counts =>
      ⟨h.1.withPart hm.1 hlt allowGaps counts,
        h.2.append hm.2 hlt h.1.progress.tidy.start_le_stop
          (Nat.le_trans h.1.progress_next.stop_le hm.1.le_start) _⟩

theorem punctual_matchAnyNumberOf (ts : List GrammarId) (limit i : Nat) (id : GrammarId)
    (r : Repetition) (exclude : Option GrammarId) :
    Meets I (c.matchAnyNumberOf below below2 ts limit i id r exclude) (Match.Punctual i) := by
  refine meets_matchAnyNumberOf_of (meets_matchesExcluded hsound ts limit i exclude)
    (meets_repetitionLimit hsound False.elim ts limit i id)
    (fun bound _ => punctual_repetitionRule hsound hsound2 hbelow2 _ _ r _)
    (fun bound _ => ⟨.initial bound i, .inl ⟨rfl, rfl⟩⟩) (.empty i) fun bound s _ hs => ?_
  rcases finishRepetition_cases (c := c) bound s with
    heq | ⟨-, first, last, -, -, hlt, -, heq⟩
  · rw [heq]
    exact hs
  · rw [heq]
    exact .append_unparsable hlt _ s.matched

/-- A list of which nothing has matched, or which started where it was asked for. -/
structure DelimitedPunctual (start : Nat) (s : DelimitedState) : Prop where
  matched : s.matched.Punctual start
  pending : PunctualFrom start s.place s.withPending

/-- A list starts where its first part does: blanks are passed over behind a part only, so the first
part is tried at the start. -/
theorem punctual_delimitedRule (hanchored : AnchoredBy I below2) (ts : List GrammarId)
    (spec : DelimitedSpec) :
    c.DelimitedRule below below2 ts limit start spec I fun s =>
      DelimitedInvariant c False False limit start s ∧ DelimitedPunctual start s := by
  have tries (ts options : List GrammarId) {s : DelimitedState}
      (h : DelimitedInvariant c False False limit start s ∧ DelimitedPunctual start s)
      (ht : s.Tried c limit start) :
      Meets I (c.longest below below2 ts limit s.place options) fun x =>
        Claims c False False limit s.place x.1 ∧
          (x.1.isMatch = true → PunctualFrom start x.1.stop (s.withPending.append x.1)) :=
    ((meets_longest hsound hsound2 ts limit s.place options).and
      ((punctual_longest hsound hbelow2 ts s.place options).and
        (meets_longest_takes (fun ts place g => (hsound ts limit place g).trivial) hsound2
          hanchored ts ht.lt options))).mono fun x hx => ⟨hx.1, fun hmatch =>
            h.2.pending.append hx.2.1 (hx.2.2 hmatch) h.1.progress.tidy.start_le_stop
              (Nat.le_trans h.1.progress.stop_le hx.1.le_start) x.1.stop⟩
  exact {
    skipped := fun s h => ⟨h.1.skipped spec, h.2.matched,
      h.2.pending.imp_left fun hnone => ⟨hnone.1, spec.nextPlace_of_first limit hnone.2⟩⟩
    ending := fun s h ht => (tries ts _ h ht).trivial
    delimiter := fun s h ht hw => (tries ts _ h ht).mono fun x hx hmatch =>
      ⟨h.1.withDelimiter hw hx.1 ht.lt hmatch, h.2.matched,
        h.1.withPending_withDelimiter hw x.1 ▸ hx.2 hmatch⟩
    undelimited := fun s h ht hw => (tries _ _ h ht).mono fun x hx hmatch =>
      ⟨h.1.withUndelimited hw hx.1 ht.lt hmatch,
        h.1.matched_withUndelimited hw x.1 ▸ (hx.2 hmatch).punctual,
        h.1.withPending_withUndelimited hw x.1 ▸ hx.2 hmatch⟩
    part := fun s h ht _ => (tries _ _ h ht).mono fun x hx hmatch =>
      ⟨h.1.withPart hx.1 ht.lt hmatch, (hx.2 hmatch).punctual, hx.2 hmatch⟩ }

theorem punctual_matchDelimited (hanchored : AnchoredBy I below2)
    (hI : ∀ s notes, I s → I { s with notes := notes })
    (ts : List GrammarId) (limit i : Nat) (id delimiter : GrammarId) (least : Nat) :
    Meets I (c.matchDelimited below below2 ts limit i id delimiter least) (Match.Punctual i) :=
  (punctual_delimitedRule hsound hsound2 hbelow2 hanchored ts _).meets_matchDelimited hI
    ⟨.initial limit i, .empty i, .inl ⟨rfl, rfl⟩⟩ (.empty i)
    fun _ h => ⟨h.2.matched, h.2.pending.punctual⟩

omit hbelow2

/-- A pair of brackets starts with its opening bracket. -/
theorem punctual_matchBracketed (hhere : Sound c False False I here) (hbelow : PunctualBy I below)
    (ts : List GrammarId) (limit i : Nat) (id opening closing : GrammarId) (persists : Bool) :
    Meets I (c.matchBracketed here below below2 ts limit i id opening closing persists)
      (Match.Punctual i) := by
  unfold matchBracketed
  refine ((hsound ts limit i opening).and (hbelow ts limit i opening)).bind fun first hfirst => ?_
  refine .ite (fun _ => .pure (.empty i)) fun hmatch => ?_
  have claims := hfirst.1 (.inr (by simpa using hmatch))
  dsimp only
  refine (meets_closeBracket hhere False.elim ts limit false _ claims.tidy).bind fun r hr => ?_
  rcases r with _ | pair
  · exact .pure (.empty i)
  obtain ⟨k, between, last, rfl, -, hbetween⟩ := hr pair rfl
  obtain rfl := hbetween rfl
  dsimp only
  rw [matchContent_eq]
  refine (meets_matchSequence hsound2 False.elim [closing] _ _ (c.sequenceSpec id)).bind
    fun content _ => .ite (fun _ => .pure (.empty i)) fun _ => .pure fun hplaced => ?_
  have inside := Match.anyUnparsable_children hplaced
  have : first.hasUnparsable = false := (Bool.or_eq_false_iff.1 inside).1
  exact hfirst.2 this

end Parts

/-! ## 3. All levels -/

/-- The states that matching can be in, with what their memo promises. -/
structure PunctualInvariant (c : MatchContext) (s : MatchState) : Prop where
  reachable : c.Reachable s
  memo : ∀ (key : MemoKey) m, s.memo[key]? = some m → m.Punctual key.start

/-- What is promised in all states that matching can be in is promised where it keeps these. -/
theorem Sound.punctual {run : Matcher} (h : PunctualBy c.PunctualInvariant run)
    (hrun : Sound c False False (Invariant c False False) run) :
    Sound c False False c.PunctualInvariant run := fun ts limit i g s hs =>
  ⟨(hrun ts limit i g s hs.reachable.invariant).1, (h ts limit i g s hs).2⟩

theorem PunctualBy.anchored {n : Nat} (h : PunctualBy c.PunctualInvariant (c.matchGrammar n)) :
    AnchoredBy c.PunctualInvariant (c.matchGrammar n) := fun ts limit i g s hs =>
  ⟨(anchored_matchGrammar n ts limit i g s hs.reachable.anchored).1, (h ts limit i g s hs).2⟩

theorem PunctualInvariant.note {s : MatchState} (h : c.PunctualInvariant s)
    (notes : List ParseNote) : c.PunctualInvariant { s with notes := notes } :=
  ⟨.note notes h.reachable, h.memo⟩

/-- What is put into the memo keeps it as promised. -/
theorem PunctualInvariant.keep {n limit i : Nat} {s s' : MatchState} {m : Match}
    {ts : List GrammarId} {g : GrammarId} (h : c.Reachable s)
    (run : (c.matchGrammar n ts limit i g).run s = (m, s')) (hm : m.Punctual i)
    (h' : c.PunctualInvariant s') :
    c.PunctualInvariant { s' with memo := s'.memo.insert ⟨i, limit, g, ts⟩ m } :=
  ⟨.keep h run h'.reachable, forall_memo_insert h'.memo hm⟩

theorem punctual_matchReference {n : Nat}
    (hn : PunctualBy c.PunctualInvariant (c.matchGrammar n)) (ts : List GrammarId) (limit i : Nat)
    (id target : GrammarId) (exclude : Option GrammarId) :
    Meets c.PunctualInvariant (c.matchReference (c.matchGrammar n) ts limit i id target exclude)
      (Match.Punctual i) := by
  have sound := Sound.punctual hn (sound_matchGrammar False.elim False.elim n)
  unfold matchReference
  dsimp only
  refine (meets_matchesExcluded sound _ limit i exclude).bind fun excluded _ => ?_
  refine .ite (fun _ => .pure (.empty i)) fun _ => ?_
  refine meets_memoized (hn _ limit i target) (fun s m hs hm => hs.memo _ m hm) fun s hs => ?_
  obtain ⟨punctual, after⟩ := hn (pushTerminators
    (c.tables.instruction id).flags.resetTerminators (c.tables.terminatorsOf id) ts) limit i target
    s hs
  exact .keep hs.reachable rfl punctual after

theorem punctual_matchOne {here : Matcher} {n k : Nat}
    (hhere : Sound c False False c.PunctualInvariant here)
    (hbelow : PunctualBy c.PunctualInvariant (c.matchGrammar n))
    (hbelow2 : PunctualBy c.PunctualInvariant (c.matchGrammar k)) :
    PunctualBy c.PunctualInvariant (c.matchOne here (c.matchGrammar n) (c.matchGrammar k)) := by
  intro ts limit i id
  have sound := Sound.punctual hbelow (sound_matchGrammar False.elim False.elim n)
  have sound2 := Sound.punctual hbelow2 (sound_matchGrammar False.elim False.elim k)
  have nothing : Meets c.PunctualInvariant (return Match.empty i) (Match.Punctual i) :=
    .pure (.empty i)
  have shaped : Meets c.PunctualInvariant
      (c.matchShape here (c.matchGrammar n) (c.matchGrammar k) ts limit i id)
      (Match.Punctual i) := by
    unfold matchShape
    cases c.tables.shape id with
    | ref name target exclude =>
      cases target with
      | none => exact nothing
      | some target => exact punctual_matchReference hbelow ts limit i id target exclude
    | sequence =>
      exact (meets_matchSequence sound False.elim ts limit i _).mono
        fun _ hm => .of_start hm.start_eq
    | oneOf exclude => exact punctual_matchAnyNumberOf sound sound2 hbelow2 ts limit i id _ exclude
    | anyNumberOf most perPart exclude =>
      exact punctual_matchAnyNumberOf sound sound2 hbelow2 ts limit i id _ exclude
    | delimited delimiter least =>
      cases delimiter with
      | none => exact nothing
      | some delimiter =>
        exact punctual_matchDelimited sound sound2 hbelow2 hbelow2.anchored
          (fun _ notes h => h.note notes) ts limit i id delimiter least
    | bracketed pair =>
      rcases pair with _ | ⟨opening, closing, persists⟩
      · exact nothing
      · exact punctual_matchBracketed sound sound2 hhere hbelow ts limit i id opening closing
          persists
    | string template type => exact .pure (.of_start (start_matchCode limit i type _))
    | multiString templates type => exact .pure (.of_start (start_matchCode limit i type _))
    | typed template type => exact .pure (.of_start (start_matchTyped limit i id template type))
    | pattern text anti type =>
      exact .pure (.of_start (start_matchPattern limit i text anti type))
    | token =>
      refine .pure (.of_start ?_)
      split <;> rfl
    | anything => exact (start_matchAnything limit i sound ts id).mono fun _ => .of_start
    | marker kind condition =>
      refine .pure (.of_start ?_)
      cases c.enabledMarker? id <;> rfl
    | nothing => exact nothing
    | missing => exact nothing
  exact shaped.bind fun m hm => .pure (hm.wrap? _)

theorem punctual_refuse : PunctualBy I .refuse := fun _ _ i _ => .pure (.empty i)

/-- A match of any grammar starts where it was asked for, unless it holds something unparsable. -/
theorem punctual_matchGrammar (n : Nat) :
    PunctualBy c.PunctualInvariant (c.matchGrammar n) :=
  matchGrammar_induction punctual_refuse
    (fun _ below below2 => punctual_matchOne sound_refuse below below2)
    (fun n here below below2 =>
      punctual_matchOne (.punctual here (sound_searching False.elim False.elim n)) below below2) n

theorem Reachable.punctual {s : MatchState} (h : c.Reachable s) : c.PunctualInvariant s := by
  induction h with
  | initial => exact ⟨.initial, fun key m h => by simp at h⟩
  | note notes _ ih => exact ih.note notes
  | @keep s s' m n limit i ts g hs run _ ih ih' =>
    exact .keep hs run ((punctual_matchGrammar n ts limit i g).of_run ih run).1 ih'

end MatchContext

end QueryLint
