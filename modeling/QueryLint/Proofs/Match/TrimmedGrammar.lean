import QueryLint.Proofs.Match.Trimmed

/-!
QueryLint.Proofs.Match.TrimmedGrammar — all grammars that are asked at code match from code to code.

Repetitions and lists put the matches of their parts together, and pass over blanks only to get to
the next part. A bracket takes code, so a pair of brackets has code at its ends whatever is between
them. What the memo holds was matched where it might be asked for, or it is not asked for.

* `MatchContext.trims_matchAnyNumberOf`, `MatchContext.trims_matchDelimited`,
  `MatchContext.trims_matchBracketed` — grammars of parts.
* `MatchContext.trimmed_matchGrammar` — the grammars of all levels.
-/

namespace QueryLint

open Matching

namespace MatchContext

variable {c : MatchContext} {P S : GrammarId → Prop} {G : MatchClass → Nat → Nat → Prop}
  {I : MatchState → Prop}

/-! ## 1. Repetitions and lists -/

section Repetitions

variable {below below2 : Matcher} (hsound : Sound c False False I below)
  (hsound2 : Sound c False False I below2) (htrims2 : c.TrimsBy P S G I below2)

include hsound hsound2 htrims2

/-- The longest match at a place where all options may be asked. -/
theorem trims_longest (ts : List GrammarId) {limit i : Nat} {options : List GrammarId}
    (hoptions : ∀ g ∈ options, P g) (hasked : i < limit → ∀ g ∈ options, c.Asked S limit i g) :
    Meets I (c.longest below below2 ts limit i options) fun r =>
      Match.SolidFrom c G i r.1 ∧ Claims c False False limit i r.1 :=
  meets_longest_of (fun place g => (hsound ts limit place g).trivial) options
    (fun hlt g hg => (htrims2 ts limit i g (hoptions g hg) (hasked hlt g hg)).and
      (hsound2.claims ts (Nat.le_of_lt hlt) g)) ⟨.empty i i, .empty i⟩

/-- How a repetition stands between two rounds. -/
structure RepetitionTrimmed (c : MatchContext) (S : GrammarId → Prop)
    (G : MatchClass → Nat → Nat → Prop) (limit start : Nat) (options : List GrammarId)
    (s : RepetitionState) : Prop where
  matched : Match.SolidFrom c G start s.matched
  fresh : s.matched.isMatch = false → s.next = start
  code : s.next < limit → c.isCodeAt s.next = true ∨ ∀ g ∈ options, S g

/-- Each round leads a trimmed repetition on. -/
theorem trims_repetitionRule (ts : List GrammarId) {limit start : Nat} {allowGaps : Bool}
    (r : Repetition) {options : List GrammarId} (hlast : c.isCodeAt (limit - 1) = true)
    (hoptions : ∀ g ∈ options, P g) (hgaps : allowGaps = false → ∀ g ∈ options, S g) :
    c.RepetitionRule below below2 ts limit start allowGaps r options I
      (fun s => RepetitionInvariant c False False limit start s ∧
        RepetitionTrimmed c S G limit start options s)
      (fun s => Match.SolidFrom c G start s.matched) where
  ends _ h := h.2.matched
  tooFew _ _ _ := .empty start start
  round s h := by
    obtain ⟨hs, h⟩ := h
    have asked : s.next < limit → ∀ g ∈ options, c.Asked S limit s.next g := fun hlt g hg =>
      ⟨hlt, hlast, (h.code hlt).imp_right fun hall => hall g hg⟩
    refine (trims_longest hsound hsound2 htrims2 ts hoptions asked).mono
      fun x hx long counts => ⟨hs.withPart hx.2 long allowGaps counts, ?_, fun hnone => ?_, ?_⟩
    · refine h.matched.append hx.1.toSolid (fun hnone => ?_)
        (Nat.le_trans hs.progress_next.stop_le hx.2.le_start)
      rw [← h.fresh hnone]
      exact hx.1
    · have isMatch : (s.matched.append x.1).isMatch = true :=
        h.matched.toSolid.isMatch_append hx.1.toSolid
          (Nat.le_trans hs.progress_next.stop_le hx.2.le_start) (Match.isMatch_of_lt long)
      exact absurd (isMatch.symm.trans hnone) (by simp)
    · unfold RepetitionState.onward
      dsimp only
      split
      · exact fun hlt => .inl (isCodeAt_skipToCode hlt)
      · next hallow => exact fun _ => .inr (hgaps (by simpa using hallow))

/-- A strict repetition that is asked for at code, or of parts that match nothing elsewhere. -/
theorem trims_matchAnyNumberOf (ts : List GrammarId) {limit i : Nat} {id : GrammarId}
    (r : Repetition) (exclude : Option GrammarId)
    (hmode : (c.tables.instruction id).mode = .strict) (hparts : ∀ g ∈ c.tables.parts id, P g)
    (hsolid : S id ∨ (c.tables.instruction id).flags.allowGaps = false →
      ∀ g ∈ c.tables.parts id, S g) (hasked : c.Asked S limit i id) :
    Meets I (c.matchAnyNumberOf below below2 ts limit i id r exclude)
      (Match.SolidFrom c G i) := by
  have strict : ¬ (c.tables.instruction id).mode = .greedy := by simp [hmode]
  have bounds : Meets I (c.repetitionLimit below ts limit i id) (limit = ·) :=
    .ite (fun hgreedy => absurd hgreedy strict) fun _ => .pure rfl
  refine meets_matchAnyNumberOf_of (meets_matchesExcluded hsound ts limit i exclude) bounds
    (J := fun bound s => RepetitionInvariant c False False bound i s ∧
      RepetitionTrimmed c S G bound i (c.tables.parts id) s)
    (K := fun _ s => Match.SolidFrom c G i s.matched) ?_ ?_ (.empty i i) ?_
  · rintro _ rfl
    exact trims_repetitionRule hsound hsound2 htrims2 _ r hasked.last hparts
      fun hgaps => hsolid (.inr hgaps)
  · rintro _ rfl
    exact ⟨.initial limit i, .empty i i, fun _ => rfl, fun _ =>
      hasked.first.imp_right fun hid => hsolid (.inl hid)⟩
  · intro bound s _ hs
    rcases finishRepetition_cases (c := c) bound s with heq | ⟨hgreedy, -⟩
    · rw [heq]
      exact hs
    · exact absurd hgreedy strict

/-- How a list stands between two of its parts and delimiters. -/
structure DelimitedTrimmed (c : MatchContext) (G : MatchClass → Nat → Nat → Prop) (start : Nat)
    (s : DelimitedState) : Prop where
  matched : Match.SolidFrom c G start s.matched
  withPending : Match.SolidFrom c G start s.withPending
  fresh : s.withPending.isMatch = false → s.place = start
  begun : s.wantsDelimiter = true → start < s.place

namespace DelimitedTrimmed

variable {limit start : Nat} {s : DelimitedState} {m : Match}

omit hsound hsound2 htrims2

/-- Blanks are passed over behind the first part only. -/
theorem skipped (h : DelimitedTrimmed c G start s) (spec : DelimitedSpec) (limit : Nat) :
    DelimitedTrimmed c G start { s with place := spec.nextPlace c limit start s } :=
  ⟨h.matched, h.withPending, fun hnone => spec.nextPlace_of_first limit (h.fresh hnone),
    fun hw => Nat.lt_of_lt_of_le (h.begun hw) (spec.le_nextPlace limit start s)⟩

/-- What is matched next comes behind what has been matched, or is the first of it. -/
theorem append (h : DelimitedTrimmed c G start s)
    (hs : DelimitedInvariant c False False limit start s) (hm : Match.SolidFrom c G s.place m)
    (hclaims : Claims c False False limit s.place m) :
    Match.SolidFrom c G start (s.withPending.append m) := by
  refine h.withPending.append hm.toSolid (fun hnone => ?_)
    (Nat.le_trans hs.progress.stop_le hclaims.le_start)
  rw [← h.fresh hnone]
  exact hm

section

variable (h : DelimitedTrimmed c G start s) (hs : DelimitedInvariant c False False limit start s)
  (hm : Match.SolidFrom c G s.place m) (hclaims : Claims c False False limit s.place m)
  (hmatch : m.isMatch = true)

include h hs hm hclaims hmatch

theorem isMatch_append : (s.withPending.append m).isMatch = true :=
  h.withPending.toSolid.isMatch_append hm.toSolid
    (Nat.le_trans hs.progress.stop_le hclaims.le_start) hmatch

theorem withDelimiter (hw : s.wantsDelimiter = true) :
    DelimitedTrimmed c G start (s.withDelimiter m) := by
  have all := h.append hs hm hclaims
  have isMatch := h.isMatch_append hs hm hclaims hmatch
  rw [← hs.withPending_withDelimiter hw m] at all isMatch
  exact ⟨h.matched, all, fun hnone => absurd (isMatch.symm.trans hnone) (by simp), nofun⟩

omit h in
/-- A part takes the list on. -/
theorem start_lt_stop : start < m.stop := by
  have := hs.progress.start_le_place
  have := hclaims.le_start
  have := hm.takes hmatch
  omega

theorem withPart : DelimitedTrimmed c G start (s.withPart m) := by
  have all := h.append hs hm hclaims
  have isMatch := h.isMatch_append hs hm hclaims hmatch
  exact ⟨all, all, fun hnone => absurd (isMatch.symm.trans hnone) (by simp),
    fun _ => start_lt_stop hs hm hclaims hmatch⟩

theorem withUndelimited (hw : s.wantsDelimiter = true) :
    DelimitedTrimmed c G start (s.withUndelimited m) := by
  have all := h.append hs hm hclaims
  have isMatch := h.isMatch_append hs hm hclaims hmatch
  rw [← hs.withPending_withUndelimited hw m] at all isMatch
  exact ⟨all, all, fun hnone => absurd (isMatch.symm.trans hnone) (by simp),
    fun _ => start_lt_stop hs hm hclaims hmatch⟩

end

end DelimitedTrimmed

/-- Each part and delimiter leads a trimmed list on. -/
theorem trims_delimitedRule (ts : List GrammarId) {limit start : Nat} (spec : DelimitedSpec)
    (hlast : c.isCodeAt (limit - 1) = true) (hdelimiter : P spec.delimiter)
    (hparts : ∀ g ∈ spec.parts, P g)
    (hstart : c.isCodeAt start = true ∨ ∀ g ∈ spec.parts, S g) :
    c.DelimitedRule below below2 ts limit start spec I fun s =>
      DelimitedInvariant c False False limit start s ∧ DelimitedTrimmed c G start s := by
  have tryParts (ts : List GrammarId) {s : DelimitedState}
      (hs : DelimitedInvariant c False False limit start s) (ht : s.Tried c limit start) :
      Meets I (c.longest below below2 ts limit s.place spec.parts) fun x =>
        Match.SolidFrom c G s.place x.1 ∧ Claims c False False limit s.place x.1 := by
    refine trims_longest hsound hsound2 htrims2 ts hparts fun hlt g hg => ⟨hlt, hlast, ?_⟩
    rcases Nat.lt_or_eq_of_le hs.progress.start_le_place with hbegun | hfirst
    · exact .inl (ht.isCodeAt hbegun)
    · rw [← hfirst]
      exact hstart.imp_right fun hall => hall g hg
  exact {
    skipped := fun s h => ⟨h.1.skipped spec, h.2.skipped spec limit⟩
    ending := fun s _ _ => (meets_longest hsound hsound2 ts limit s.place _).trivial
    delimiter := fun s h ht hw =>
      (trims_longest hsound hsound2 htrims2 ts (by simpa using hdelimiter) fun hlt g _ =>
        ⟨hlt, hlast, .inl (ht.isCodeAt (h.2.begun hw))⟩).mono fun x hx hmatch =>
          ⟨h.1.withDelimiter hw hx.2 ht.lt hmatch, h.2.withDelimiter h.1 hx.1 hx.2 hmatch hw⟩
    undelimited := fun s h ht hw => (tryParts _ h.1 ht).mono fun x hx hmatch =>
      ⟨h.1.withUndelimited hw hx.2 ht.lt hmatch, h.2.withUndelimited h.1 hx.1 hx.2 hmatch hw⟩
    part := fun s h ht _ => (tryParts _ h.1 ht).mono fun x hx hmatch =>
      ⟨h.1.withPart hx.2 ht.lt hmatch, h.2.withPart h.1 hx.1 hx.2 hmatch⟩ }

/-- A list that is asked for at code, or of parts that match nothing elsewhere. -/
theorem trims_matchDelimited (hI : ∀ s notes, I s → I { s with notes := notes })
    (ts : List GrammarId) {limit i : Nat} {id delimiter : GrammarId} (least : Nat)
    (hdelimiter : P delimiter) (hparts : ∀ g ∈ c.tables.parts id, P g)
    (hsolid : S id → ∀ g ∈ c.tables.parts id, S g) (hasked : c.Asked S limit i id) :
    Meets I (c.matchDelimited below below2 ts limit i id delimiter least)
      (Match.SolidFrom c G i) :=
  (trims_delimitedRule hsound hsound2 htrims2 ts (c.delimitedSpec ts id delimiter) hasked.last
    hdelimiter hparts (hasked.first.imp_right hsolid)).meets_matchDelimited hI
    ⟨.initial limit i, .empty i i, .empty i i, fun _ => rfl, nofun⟩ (.empty i i)
    fun _ h => ⟨h.2.matched, h.2.withPending⟩

end Repetitions

/-! ## 2. Brackets -/

section Brackets

variable {run : Matcher} (htrims : c.TrimsBy P S G I run)

include htrims

/-- What closes a pair of brackets ends at code, and all in the pair is trimmed. -/
theorem trims_bracketRule {pairs : List BracketPair}
    (hpairs : ∀ p ∈ pairs, (P p.opening ∧ S p.opening) ∧ P p.closing ∧ S p.closing)
    (ts : List GrammarId) {limit : Nat} (hlast : c.isCodeAt (limit - 1) = true) :
    c.BracketRule run ts limit pairs false I (fun _ _ _ inner => ∀ m ∈ inner, m.Trimmed c G)
      (fun _ _ b => (∀ m ∈ b.children, m.Trimmed c G) ∧ c.isCodeAt (b.stop - 1) = true ∧
        ∀ k, b.class? = some k → k = .bracketed) := by
  intro kind opening i inner hinner
  have brackets : ∀ g ∈ bracketGrammars pairs, P g ∧ S g := forall_mem_bracketGrammars hpairs
  refine (meets_nextMatch i (bracketGrammars pairs) fun g hg place hplace =>
    htrims ts limit place g (brackets g hg).1 ⟨hplace, hlast, .inr (brackets g hg).2⟩).mono
      fun r hr m which hfound => ?_
  obtain ⟨g, place, -, -, -, hmatch, hm⟩ := hr _ hfound
  refine ⟨fun _ => ⟨?_, (hm.edges hmatch).2, fun k hk => ?_⟩,
    fun _ => ⟨List.forall_mem_singleton.2 hm.trimmed, fun _ _ => hinner⟩⟩
  · exact List.forall_mem_append.2 ⟨hinner, List.forall_mem_singleton.2 hm.trimmed⟩
  · change (if (pairs[kind]?).any (·.persists) then some .bracketed else none) = some k at hk
    split at hk
    · exact (Option.some.inj hk).symm
    · cases hk

end Brackets

section Bracketed

variable {here below below2 : Matcher}

/-- A pair of brackets with its content is trimmed. -/
theorem trims_matchContent (hsound : Sound c False False I below) (htrims : c.TrimsBy P S G I below)
    (hP : c.TrimGrammars P S G) (i : Nat) {id : GrammarId} (closing : GrammarId)
    (hspec : c.TrimParts P S (c.sequenceSpec id))
    (hgaps : (c.sequenceSpec id).allowGaps = true) {start : Nat} {pair : Match}
    (hi : c.isCodeAt i = true) (hpair : pair.Solid c G) (hlong : pair.start < pair.stop) :
    Meets I (c.matchContent below i id closing start pair) (Match.SolidFrom c G i) := by
  rw [matchContent_eq]
  have first : c.contentStart id start pair.stop < c.contentLimit id start pair.stop →
      c.isCodeAt (c.contentStart id start pair.stop) = true := by
    intro hlt
    have hle := contentLimit_le (c := c) id start pair.stop
    unfold contentStart at hlt ⊢
    rw [if_pos hgaps] at hlt ⊢
    exact isCodeAt_skipToCode (by omega)
  have last : c.contentStart id start pair.stop < c.contentLimit id start pair.stop →
      c.isCodeAt (c.contentLimit id start pair.stop - 1) = true := by
    intro hlt
    unfold contentLimit at hlt ⊢
    rw [if_pos hgaps] at hlt ⊢
    exact isCodeAt_of_lt_trimToCode hlt
  refine (trims_matchSequence hsound htrims hP.unparsable [closing] hspec
    (fun hlt => .inl (first hlt)) last).bind fun content hcontent => ?_
  split
  · exact .pure (.empty i i)
  · have content_eq : c.fillContent id pair.stop content = content := by
      unfold fillContent
      rw [hgaps]
      rfl
    rw [content_eq]
    refine .pure ⟨⟨.mk (fun _ => hpair.trimmed.edges hlong) hpair.trimmed.own ?_, fun _ => hlong⟩,
      fun _ => hi⟩
    exact List.forall_mem_append.2 ⟨hpair.trimmed.children, hcontent.trimmed.outerChildren⟩

theorem trims_matchBracketed (hhere : Sound c False False I here)
    (hbelow : Sound c False False I below) (hbelow2 : Sound c False False I below2)
    (hhereTrims : c.TrimsBy P S G I here) (htrims : c.TrimsBy P S G I below)
    (htrims2 : c.TrimsBy P S G I below2) (hP : c.TrimGrammars P S G) (ts : List GrammarId)
    {limit i : Nat} {id opening closing : GrammarId} (persists : Bool)
    (ho : P opening ∧ S opening) (hc : P closing ∧ S closing)
    (hspec : c.TrimParts P S (c.sequenceSpec id))
    (hgaps : (c.sequenceSpec id).allowGaps = true) (hasked : c.Asked S limit i id) :
    Meets I (c.matchBracketed here below below2 ts limit i id opening closing persists)
      (Match.SolidFrom c G i) := by
  unfold matchBracketed
  refine ((hbelow.claims ts (Nat.le_of_lt hasked.lt) opening).and
    (htrims ts limit i opening ho.1 ⟨hasked.lt, hasked.last, .inr ho.2⟩)).bind fun first hboth => ?_
  obtain ⟨claims, hfirst⟩ := hboth
  split
  · exact .pure (.empty i i)
  next hmatch =>
  have hmatch : first.isMatch = true := by simpa using hmatch
  have pairs : ∀ p ∈ (c.pairsFor opening closing persists).1,
      (P p.opening ∧ S p.opening) ∧ P p.closing ∧ S p.closing :=
    forall_mem_pairsFor (P := fun g => P g ∧ S g) hP.brackets ho hc persists
  dsimp only
  refine ((meets_closeBracket hhere False.elim ts limit false _ claims.tidy).and
    ((trims_bracketRule hhereTrims pairs ts hasked.last).meets (limit + 2) _
      (List.forall_mem_singleton.2 hfirst.trimmed))).bind fun r hr => ?_
  rcases r with _ | pair
  · exact .pure (.empty i i)
  obtain ⟨k, between, last, rfl, closed, hbetween⟩ := hr.1 pair rfl
  obtain ⟨children, stops, class_eq⟩ := hr.2 _ rfl
  have long : first.start < last.stop := by
    have := hfirst.takes hmatch
    have := closed.le_start
    have := closed.tidy.start_le_stop
    omega
  have own : ∀ x, k = some x → G x first.start last.stop := by
    intro x hx
    rw [class_eq x hx]
    exact hP.bracketed _ _
  exact trims_matchContent hbelow2 htrims2 hP i closing hspec hgaps (hfirst.code hmatch)
    ⟨.mk (fun _ => ⟨(hfirst.edges hmatch).1, stops⟩) own children, fun _ => long⟩ long

end Bracketed

/-! ## 3. All levels -/

/-- The states that matching can be in, with what their memo promises. -/
structure TrimInvariant (c : MatchContext) (P S : GrammarId → Prop)
    (G : MatchClass → Nat → Nat → Prop) (s : MatchState) : Prop where
  sound : Invariant c False False s
  memo : ∀ (key : MemoKey) m, s.memo[key]? = some m → P key.grammar →
    c.Asked S key.limit key.start key.grammar → Match.SolidFrom c G key.start m

/-- Sound matches that are trimmed for the grammars of the set. -/
def SoundTrims (c : MatchContext) (P S : GrammarId → Prop) (G : MatchClass → Nat → Nat → Prop)
    (run : Matcher) : Prop :=
  Sound c False False (c.TrimInvariant P S G) run ∧ c.TrimsBy P S G (c.TrimInvariant P S G) run

namespace TrimInvariant

variable {s : MatchState}

theorem initial : c.TrimInvariant P S G {} := ⟨.initial, fun key m h => by simp at h⟩

theorem note (h : c.TrimInvariant P S G s) (notes : List ParseNote) :
    c.TrimInvariant P S G { s with notes := notes } := ⟨h.sound.note notes, h.memo⟩

/-- What is put into the memo keeps it as promised. -/
theorem keep {n : Nat} (hn : c.SoundTrims P S G (c.matchGrammar n)) (h : c.TrimInvariant P S G s)
    (ts : List GrammarId) (limit i : Nat) (g : GrammarId) :
    c.TrimInvariant P S G { ((c.matchGrammar n ts limit i g).run s).2 with
      memo := ((c.matchGrammar n ts limit i g).run s).2.memo.insert ⟨i, limit, g, ts⟩
        ((c.matchGrammar n ts limit i g).run s).1 } := by
  obtain ⟨claims, after⟩ := hn.1 ts limit i g s h
  exact ⟨h.sound.keep rfl after.sound claims,
    forall_memo_insert after.memo fun hg hasked => (hn.2 ts limit i g hg hasked s h).1⟩

end TrimInvariant

theorem trims_matchReference {n : Nat} (hn : c.SoundTrims P S G (c.matchGrammar n))
    (ts : List GrammarId) (limit i : Nat) (id target : GrammarId) (exclude : Option GrammarId) :
    Meets (c.TrimInvariant P S G)
      (c.matchReference (c.matchGrammar n) ts limit i id target exclude) fun m =>
        (i ≤ limit ∨ m.isMatch = true → Claims c False False limit i m) ∧
          (P target → c.Asked S limit i target → Match.SolidFrom c G i m) := by
  unfold matchReference
  dsimp only
  refine (meets_matchesExcluded hn.1 _ limit i exclude).bind fun excluded _ => ?_
  split
  · exact .pure ⟨fun _ => .empty i, fun _ _ => .empty i i⟩
  · have trivial := (hn.1 (pushTerminators (c.tables.instruction id).flags.resetTerminators
      (c.tables.terminatorsOf id) ts) limit i target).trivial
    exact meets_memoized ((hn.1 _ limit i target).and
      (trivial.imp fun hP => trivial.imp fun hasked => hn.2 _ limit i target hP hasked))
      (fun s m hs hm => ⟨hs.sound.memo _ m hm, hs.memo _ m hm⟩)
      fun s hs => hs.keep hn _ limit i target

/-- Code that satisfies a test is a trimmed match. -/
theorem solidFrom_matchCode {type : String} {test : TokenView → Bool}
    (h : c.Allows G type fun v => v.isCode = true ∧ test v = true) (limit i : Nat) :
    Match.SolidFrom c G i (c.matchCode limit i type test) := by
  unfold matchCode token?
  split
  · next v hv =>
    split
    · next htest =>
      split at hv
      · rw [Bool.and_eq_true] at htest
        refine .one (isCodeAt_of_getElem? hv htest.1) ?_
        rintro x ⟨⟩
        exact h i v hv htest none
      · cases hv
    · exact .empty i i
  · exact .empty i i

section Level

variable {here below2 : Matcher} {n : Nat} (hP : c.TrimGrammars P S G)
  (hhere : c.SoundTrims P S G here) (hbelow : c.SoundTrims P S G (c.matchGrammar n))
  (hbelow2 : c.SoundTrims P S G below2)

include hP hhere hbelow hbelow2

theorem trims_matchShape (ts : List GrammarId) {limit i : Nat} {id : GrammarId} (hid : P id)
    (hasked : c.Asked S limit i id) :
    Meets (c.TrimInvariant P S G) (c.matchShape here (c.matchGrammar n) below2 ts limit i id)
      (Match.SolidFrom c G i) := by
  have note : ∀ (s : MatchState) notes, c.TrimInvariant P S G s →
      c.TrimInvariant P S G { s with notes := notes } := fun _ notes h => h.note notes
  have nothing : Meets (c.TrimInvariant P S G) (return Match.empty i) (Match.SolidFrom c G i) :=
    .pure (.empty i i)
  have names := hP.names id hid
  unfold NamesTrimmed at names
  unfold matchShape
  cases hshape : c.tables.shape id with
  | ref name target exclude =>
    cases target with
    | none => exact nothing
    | some target =>
      rw [hshape] at names
      exact (trims_matchReference hbelow ts limit i id target exclude).mono fun m hm =>
        hm.2 names.1 ⟨hasked.lt, hasked.last, hasked.first.imp_right names.2⟩
  | sequence =>
    rw [hshape] at names
    obtain ⟨hspec, hneed, hsolid⟩ := names
    exact (trims_matchSequence hbelow.1 hbelow.2 hP.unparsable ts hspec
      (fun _ => hasked.first.imp_right hsolid) fun _ => hasked.last).mono fun m hm =>
        hm.whole hneed
  | oneOf exclude =>
    rw [hshape] at names
    exact trims_matchAnyNumberOf hbelow.1 hbelow2.1 hbelow2.2 ts _ exclude names.1 names.2.1
      names.2.2 hasked
  | anyNumberOf most perPart exclude =>
    rw [hshape] at names
    exact trims_matchAnyNumberOf hbelow.1 hbelow2.1 hbelow2.2 ts _ exclude names.1 names.2.1
      names.2.2 hasked
  | delimited delimiter least =>
    cases delimiter with
    | none => exact nothing
    | some delimiter =>
      rw [hshape] at names
      exact trims_matchDelimited hbelow.1 hbelow2.1 hbelow2.2 note ts least names.1 names.2.1
        names.2.2 hasked
  | bracketed pair =>
    rcases pair with _ | ⟨opening, closing, persists⟩
    · exact nothing
    · rw [hshape] at names
      obtain ⟨ho, hc, hspec, hgaps⟩ := names
      exact trims_matchBracketed hhere.1 hbelow.1 hbelow2.1 hhere.2 hbelow.2 hbelow2.2 hP ts
        persists ho hc hspec hgaps hasked
  | string template type =>
    rw [hshape] at names
    refine .pure (solidFrom_matchCode (fun k v hv htest => names k v hv ⟨htest.1, ?_⟩) limit i)
    exact eq_of_beq htest.2
  | multiString templates type =>
    rw [hshape] at names
    refine .pure (solidFrom_matchCode (fun k v hv htest => names k v hv ⟨htest.1, ?_⟩) limit i)
    exact List.contains_iff_mem.1 htest.2
  | typed template type =>
    rw [hshape] at names
    refine .pure ?_
    unfold matchTyped token?
    split
    · next v hv =>
      split
      · next htype =>
        split at hv
        · refine .one (isCodeAt_of_getElem? hv (names.1 i v hv htype)) ?_
          rintro x ⟨⟩
          exact names.2 i v hv htype _
        · cases hv
      · exact .empty i i
    · exact .empty i i
  | pattern text anti type =>
    rw [hshape] at names
    refine .pure ?_
    unfold matchPattern
    split
    · exact .empty i i
    · exact solidFrom_matchCode (fun k v hv htest => names k v hv htest.1) limit i
  | token =>
    refine .pure ?_
    split
    · next htoken =>
      refine .one (k := none) ?_ (by simp)
      unfold token? at htoken
      rw [if_pos hasked.lt] at htoken
      exact htoken
    · exact .empty i i
  | anything =>
    rw [hshape] at names
    exact names.elim
  | marker kind condition =>
    rw [hshape] at names
    exact names.elim
  | nothing => exact nothing
  | missing => exact nothing

theorem soundTrims_matchOne :
    c.SoundTrims P S G (c.matchOne here (c.matchGrammar n) below2) := by
  refine ⟨sound_matchOne hhere.1 False.elim hbelow.1 False.elim hbelow2.1 False.elim
    (fun _ notes h => h.note notes) (fun ts limit i id target exclude =>
      (trims_matchReference hbelow ts limit i id target exclude).mono fun m hm => hm.1)
    False.elim False.elim, fun ts limit i id hid hasked => ?_⟩
  refine (trims_matchShape hP hhere hbelow hbelow2 ts hid hasked).bind fun m hm => .pure ⟨?_, ?_⟩
  · refine hm.toSolid.wrap? fun x hx => ?_
    obtain ⟨type, htype, rfl⟩ := Option.map_eq_some_iff.1 hx
    exact hP.nodes id hid type htype _ _
  · intro hmatch
    by_cases hm' : m.isMatch = true
    · exact hm.code hm'
    · rw [Match.wrap?_of_not_isMatch (by simpa using hm')] at hmatch
      exact absurd hmatch hm'

end Level

/-- All matches of grammars of the set are trimmed, wherever these may be asked. -/
theorem trimmed_matchGrammar (hP : c.TrimGrammars P S G) (n : Nat) :
    c.SoundTrims P S G (c.matchGrammar n) := by
  have refuse : c.SoundTrims P S G .refuse := ⟨sound_refuse, trimsBy_refuse⟩
  exact matchGrammar_induction refuse
    (fun _ below below2 => soundTrims_matchOne hP refuse below below2)
    (fun _ here below below2 => soundTrims_matchOne hP here below below2) n

end MatchContext

end QueryLint
