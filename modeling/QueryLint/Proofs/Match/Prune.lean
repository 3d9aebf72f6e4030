import QueryLint.Proofs.Grammar.Hints
import QueryLint.Proofs.Parse

/-!
QueryLint.Proofs.Match.Prune — pruning by hints loses no match.

A hint is worked out from the tables; what a grammar matches is worked out on the tokens, through
optional parts, references, brackets and the memo. Both follow the same tables, so a match of a
grammar with a hint takes a token first that the hint admits. Two things have to be followed on the
way up: such a grammar never matches by its markers alone, for else the token after them could be
one that begins only the grammar around it; and what it could not place may begin with any token.

* `Match.Opens` — a match takes a token, and the first is as promised.
* `MatchContext.opens_matchGrammar` — so do the matches of all grammars with a hint.
* `MatchContext.prune_keeps` — grammars that match at a place are not pruned there.
-/

namespace QueryLint

open Matching

/-! ## 1. Matches that take a token -/

namespace Match

variable {p q : Prop}

theorem anyUnparsable_append (xs ys : List Match) :
    anyUnparsable (xs ++ ys) = (anyUnparsable xs || anyUnparsable ys) := by
  induction xs with
  | nil => rfl
  | cons x xs ih => simp [anyUnparsable, ih, Bool.or_assoc]

/-- Where nothing in a match is unparsable, nothing inside it is. -/
theorem anyUnparsable_children {m : Match} (h : m.hasUnparsable = false) :
    anyUnparsable m.children = false := by
  obtain ⟨a, b, k, is, cs⟩ := m
  rcases k with _ | k
  · exact h
  · cases k with
    | unparsable => cases h
    | _ => exact h

/-- What could not be placed is not lost when a match becomes part of another. -/
theorem anyUnparsable_outerChildren (m : Match) :
    anyUnparsable m.outerChildren = m.hasUnparsable := by
  obtain ⟨a, b, k, is, cs⟩ := m
  cases k with
  | none => rfl
  | some k => simp [outerChildren, class?, anyUnparsable]

@[simp] theorem hasUnparsable_unparsable (a b : Nat) (expected : String) :
    (unparsable a b expected).hasUnparsable = true := rfl

/-- Some token is taken, and, unless something could not be placed, it is as promised. -/
structure Begun (p : Prop) (m : Match) : Prop where
  lt : m.start < m.stop
  sound : m.hasUnparsable = false → p

/-- A match takes some token, and, unless something could not be placed, it is as promised. -/
def Opens (p : Prop) (m : Match) : Prop := m.isMatch = true → m.Begun p

theorem Opens.empty (i : Nat) : (Match.empty i).Opens p := by
  intro h
  rw [isMatch_empty] at h
  cases h

theorem Opens.mono {m : Match} (h : m.Opens p) (hpq : p → q) : m.Opens q :=
  fun hm => ⟨(h hm).lt, fun hu => hpq ((h hm).sound hu)⟩

theorem Begun.isMatch {m : Match} (h : m.Begun p) : m.isMatch = true := isMatch_of_lt h.lt

theorem Begun.opens {m : Match} (h : m.Begun p) : m.Opens p := fun _ => h

/-- More matches behind a match change nothing of how it begins. -/
theorem Begun.append {x y : Match} (hx : x.Begun p) (h : y.isMatch = true → x.start < y.stop) :
    (x.append y).Begun p := by
  by_cases hy : y.isMatch = true
  · rw [append_of_isMatch hx.isMatch hy]
    refine ⟨h hy, fun hu => hx.sound ?_⟩
    have := anyUnparsable_children hu
    rw [Match.children, anyUnparsable_append, Bool.or_eq_false_iff,
      anyUnparsable_outerChildren] at this
    exact this.1
  · rw [append_of_right_not_isMatch hx.isMatch (by simpa using hy)]
    exact hx

theorem Opens.wrap? {m : Match} (h : m.Opens p) (k : Option MatchClass) : (m.wrap? k).Opens p := by
  by_cases hm : m.isMatch = true
  · cases k with
    | none => exact h
    | some k =>
      refine fun _ => ⟨?_, fun hu => (h hm).sound ?_⟩
      · show (m.wrap k).start < (m.wrap k).stop
        rw [start_wrap, stop_wrap]
        exact (h hm).lt
      · have hu := anyUnparsable_children hu
        obtain ⟨a, b, k', is, cs⟩ := m
        cases k' with
        | none => simpa [Match.wrap?, wrap, hm, class?, Match.children, hasUnparsable] using hu
        | some k' => simpa [Match.wrap?, wrap, hm, class?, Match.children, anyUnparsable] using hu
  · rw [wrap?_of_not_isMatch (by simpa using hm)]
    exact h

/-- What could not be placed may begin with anything. -/
theorem Opens.of_unparsable {m : Match} (hi : m.inserts = []) (hu : m.hasUnparsable = true) :
    m.Opens p :=
  fun hm => ⟨start_lt_stop_of_isMatch hm hi, fun h => by rw [hu] at h; cases h⟩

end Match

/-- Where there is a marker among the parts of a sequence, there is a part besides that must not be
left out. -/
def Tables.MarkersAccompany (t : Tables) : Prop :=
  ∀ n < t.size, (t.instruction ⟨n⟩).kind = .sequence →
    (∃ g ∈ t.parts ⟨n⟩, (t.instruction g).kind = .marker) →
    ∃ g ∈ t.parts ⟨n⟩, (t.instruction g).kind ≠ .marker ∧ (t.instruction g).isOptional = false

instance (t : Tables) : Decidable t.MarkersAccompany :=
  inferInstanceAs (Decidable (∀ n < t.size, _))

namespace MatchContext

variable {c : MatchContext} {I : MatchState → Prop}

/-- Of code at a place, the hint of a grammar says that it can begin with it. -/
def AdmittedAt (c : MatchContext) (g : GrammarId) (i : Nat) : Prop :=
  ∀ v, c.tokens[i]? = some v → v.isCode = true →
    c.tables.admits g v.upper v.segment.classTypes = true

/-- The matches of grammars with a hint open with a token that their hint admits. -/
def OpensAsHinted (c : MatchContext) (I : MatchState → Prop) (run : Matcher) : Prop :=
  ∀ ts limit i g, (c.tables.hint? g).isSome = true →
    Meets I (run ts limit i g) (Match.Opens (c.AdmittedAt g i))

theorem isCodeAt_eq_true {i : Nat} {v : TokenView} (hv : c.tokens[i]? = some v)
    (hcode : v.isCode = true) : c.isCodeAt i = true := by
  simp [isCodeAt, hv, hcode]

/-- A grammar that begins with another one opens as the other does. -/
theorem AdmittedAt.of_begins {id g : GrammarId} {i : Nat} (h : c.AdmittedAt g i)
    (hb : c.tables.Begins id g) : c.AdmittedAt id i :=
  fun v hv hcode => hb.admits _ _ (h v hv hcode)

/-- Blanks that are passed over are no code. -/
theorem AdmittedAt.of_skipToCode {g : GrammarId} {i limit : Nat} {gaps : Bool}
    (h : c.AdmittedAt g (if gaps then c.skipToCode i limit else i)) : c.AdmittedAt g i := by
  intro v hv hcode
  refine h v ?_ hcode
  split
  · rw [skipToCode_of_isCodeAt limit (isCodeAt_eq_true hv hcode)]
    exact hv
  · exact hv

/-! ## 2. Sequences -/

section Sequences

variable {below : Matcher} {id : GrammarId} {limit start : Nat}

/-- A part that a sequence must not leave out is among these. -/
def HasRequired (t : Tables) (parts : List GrammarId) : Prop :=
  ∃ g ∈ parts, (t.instruction g).kind ≠ .marker ∧ (t.instruction g).isOptional = false

/-- A sequence of which nothing has matched. What waits to be put in does not stay alone, since a
part is still to come that must match. -/
structure SequenceFresh (t : Tables) (id : GrammarId) (start : Nat) (parts : List GrammarId)
    (s : SequenceState) : Prop where
  place_eq : s.place = start
  inserts : s.inserts = []
  children : s.children = []
  begins : t.BeginsSequence id parts
  markers : (s.waiting ≠ [] ∨ ∃ g ∈ parts, (t.instruction g).kind = .marker) → HasRequired t parts

/-- A sequence of which some part has matched. -/
structure SequenceBegun (p : Prop) (start : Nat) (s : SequenceState) : Prop where
  start_lt : start < s.place
  sound : Match.anyUnparsable s.children = false → p

namespace SequenceBegun

variable {p : Prop} {s : SequenceState} (h : SequenceBegun p start s)

include h

theorem finish (spec : SequenceSpec) : (c.finishSequence spec start s).Begun p := by
  have hlt := h.start_lt
  rcases finishSequence_cases (c := c) spec start s with
    heq | ⟨first, last, -, hfirst, hlast, -, heq⟩
  · rw [heq]
    exact ⟨hlt, h.sound⟩
  · rw [heq]
    refine ⟨?_, fun hu => ?_⟩
    · rw [Match.start_mk, Match.stop_mk]
      omega
    · have := Match.anyUnparsable_children hu
      simp [Match.children, Match.anyUnparsable_append, Match.anyUnparsable] at this

theorem ended (spec : SequenceSpec) (part : GrammarId) :
    (c.endedSequence spec start s part).Opens p := by
  unfold endedSequence
  split
  · exact .empty start
  · have begun : (Match.mk start s.place none (s.placed s.place) s.children).Begun p :=
      ⟨h.start_lt, h.sound⟩
    exact begun.opens.wrap? (some _)

theorem failed (spec : SequenceSpec) (part : GrammarId) {i : Nat} (hi : s.place ≤ i)
    (hlt : i < s.limit) : (c.failedSequence spec start s part i).Opens p := by
  have hstart := h.start_lt
  unfold failedSequence
  dsimp only
  split
  · exact .empty start
  · exact .empty start
  · exact .of_unparsable rfl rfl
  · refine Match.Begun.opens ⟨by rw [Match.start_mk, Match.stop_mk]; omega, fun hu => ?_⟩
    have := Match.anyUnparsable_children hu
    simp [Match.children, Match.anyUnparsable_append, Match.anyUnparsable] at this

end SequenceBegun

namespace SequenceFresh

variable {t : Tables} {g : GrammarId} {parts : List GrammarId} {s : SequenceState} {p : Prop}

theorem marker (h : SequenceFresh t id start (g :: parts) s) (hg : (t.instruction g).kind = .marker)
    (more : List MarkerKind) :
    SequenceFresh t id start parts { s with waiting := s.waiting ++ more } := by
  refine ⟨h.place_eq, h.inserts, h.children, ?_, fun _ => ?_⟩
  · have := h.begins
    rwa [Tables.BeginsSequence, if_pos hg] at this
  · obtain ⟨x, hx, hkind, hrequired⟩ := h.markers (.inr ⟨g, by simp, hg⟩)
    rcases List.mem_cons.1 hx with rfl | hx
    · exact absurd hg hkind
    · exact ⟨x, hx, hkind, hrequired⟩

theorem leftOut (h : SequenceFresh t id start (g :: parts) s)
    (hg : (t.instruction g).kind ≠ .marker) (ho : (t.instruction g).isOptional = true) :
    SequenceFresh t id start parts s := by
  refine ⟨h.place_eq, h.inserts, h.children, ?_, fun hm => ?_⟩
  · have := h.begins
    rw [Tables.BeginsSequence, if_neg hg] at this
    exact this.2 ho
  · have later : (∃ x ∈ parts, (t.instruction x).kind = .marker) →
        ∃ x ∈ g :: parts, (t.instruction x).kind = .marker := by
      rintro ⟨x, hx, hkind⟩
      exact ⟨x, by simp [hx], hkind⟩
    obtain ⟨x, hx, hkind, hrequired⟩ := h.markers (hm.imp_right later)
    rcases List.mem_cons.1 hx with rfl | hx
    · rw [ho] at hrequired
      cases hrequired
    · exact ⟨x, hx, hkind, hrequired⟩

theorem finish (h : SequenceFresh t id start [] s) (spec : SequenceSpec) :
    (c.finishSequence spec start s).Opens p := by
  have nothing : s.placed s.place = [] := by
    have : s.waiting = [] := by
      by_contra hw
      obtain ⟨x, hx, -⟩ := h.markers (.inl hw)
      cases hx
    simp [SequenceState.placed, h.inserts, this]
  rcases finishSequence_cases (c := c) spec start s with heq | ⟨first, last, -, -, -, -, heq⟩
  · rw [heq, nothing, h.children, h.place_eq]
    exact .empty start
  · rw [heq, nothing, h.children]
    exact .of_unparsable rfl rfl

theorem ended (h : SequenceFresh t id start parts s) (spec : SequenceSpec) (part : GrammarId) :
    (c.endedSequence spec start s part).Opens p := by
  unfold endedSequence
  rw [h.place_eq, decide_eq_true rfl, Bool.or_true, if_pos rfl]
  exact .empty start

theorem failed (h : SequenceFresh t id start parts s) (spec : SequenceSpec) (part : GrammarId)
    (i : Nat) : (c.failedSequence spec start s part i).Opens p := by
  unfold failedSequence
  rw [h.place_eq, decide_eq_true rfl]
  dsimp only
  split
  · exact .empty start
  · exact .empty start
  · exact .of_unparsable rfl rfl
  · contradiction

end SequenceFresh

/-- Only while nothing of a sequence has matched does it matter with what its next part begins. -/
theorem SequenceFresh.meets_opens (hopens : c.OpensAsHinted I below) {ts : List GrammarId}
    (spec : SequenceSpec) {g : GrammarId} {rest : List GrammarId} {s : SequenceState}
    (h : SequenceFresh c.tables id start (g :: rest) s)
    (hpart : (c.tables.instruction g).kind ≠ .marker) :
    Meets I (below ts s.limit (spec.nextPlace c s) g) (Match.Opens (c.AdmittedAt id start)) := by
  have begins := h.begins
  rw [Tables.BeginsSequence, if_neg hpart] at begins
  refine (hopens _ _ _ g begins.1.hinted).mono fun m hm => hm.mono fun hp => ?_
  rw [SequenceSpec.nextPlace, h.place_eq] at hp
  exact (AdmittedAt.of_skipToCode hp).of_begins begins.1

/-- With its first part that matches, a sequence has begun. -/
theorem SequenceBegun.of_part {p : Prop} {s : SequenceState} {m : Match} {i : Nat} (bound : Nat)
    (hs : SequenceInvariant False limit start s) (hi : s.place ≤ i) (hm : m.Begun p)
    (hfrom : i ≤ m.start) : SequenceBegun p start (s.withPart i bound m) := by
  have hstart := hs.start_le
  have := hm.lt
  refine ⟨show start < m.stop by omega, fun hu => hm.sound ?_⟩
  rw [SequenceState.withPart, Match.anyUnparsable_append, Match.anyUnparsable_outerChildren,
    Bool.or_eq_false_iff] at hu
  exact hu.2

/-- What follows the part that a sequence has begun with changes nothing about it. -/
theorem SequenceBegun.withPart {p : Prop} {s : SequenceState} {m : Match} {i : Nat} (bound : Nat)
    (h : SequenceBegun p start s) (hi : s.place ≤ i) (hfrom : i ≤ m.start)
    (hto : m.start ≤ m.stop) : SequenceBegun p start (s.withPart i bound m) := by
  have := h.start_lt
  refine ⟨show start < m.stop by omega, fun hu => h.sound ?_⟩
  rw [SequenceState.withPart, Match.anyUnparsable_append, Bool.or_eq_false_iff] at hu
  exact hu.1

/-- The first part of a sequence that matches opens the sequence. -/
theorem opens_sequenceRule (hsound : Sound c False False I below)
    (hopens : c.OpensAsHinted I below) (ts : List GrammarId) (spec : SequenceSpec) :
    c.SequenceRule below ts limit start spec I
      (fun s gs => SequenceInvariant False limit start s ∧
        (SequenceFresh c.tables id start gs s ∨ SequenceBegun (c.AdmittedAt id start) start s))
      (Match.Opens (c.AdmittedAt id start)) where
  finished _ h := h.2.elim (·.finish spec) fun h => (h.finish spec).opens
  marker _ _ _ h hmarker :=
    ⟨h.1.withWaiting _, h.2.imp (·.marker hmarker _) fun h => ⟨h.start_lt, h.sound⟩⟩
  leftOut _ _ _ h hpart hoptional := ⟨h.1, h.2.imp_left (·.leftOut hpart hoptional)⟩
  ended _ g _ h _ := h.2.elim (·.ended spec g) (·.ended spec g)
  part s g gs h hpart hlt := by
    obtain ⟨hs, h⟩ := h
    have hplace := spec.le_nextPlace (c := c) s
    have claims := hsound.claims (pushTerminators spec.reset spec.terminators ts)
      (Nat.le_of_lt hlt) g
    have opens : Meets I (below (pushTerminators spec.reset spec.terminators ts) s.limit
        (spec.nextPlace c s) g) fun m => SequenceFresh c.tables id start (g :: gs) s →
          m.Opens (c.AdmittedAt id start) :=
      claims.trivial.imp fun hfresh => hfresh.meets_opens hopens spec hpart
    refine (claims.and opens).mono fun m hm => ⟨fun _ => ?_, fun hmatch => ?_⟩
    · exact h.elim (·.failed spec g _) (·.failed spec g hplace hlt)
    · refine (hs.meets_withPart hsound False.elim ts hlt hm.1).mono fun bound hbound =>
        ⟨hbound, .inr ?_⟩
      rcases h with hfresh | hbegun
      · exact .of_part bound hs hplace (hm.2 hfresh hmatch) hm.1.le_start
      · exact hbegun.withPart bound hplace hm.1.le_start hm.1.start_le_stop

theorem opens_matchSequence (hsound : Sound c False False I below)
    (hopens : c.OpensAsHinted I below) (ts : List GrammarId) (limit i : Nat) (spec : SequenceSpec)
    (hbegins : c.tables.BeginsSequence id spec.parts)
    (hmarkers : (∃ g ∈ spec.parts, (c.tables.instruction g).kind = .marker) →
      HasRequired c.tables spec.parts) :
    Meets I (c.matchSequence below ts limit i spec) (Match.Opens (c.AdmittedAt id i)) :=
  (opens_sequenceRule hsound hopens ts spec).meets_matchSequence <|
    (meets_firstLimit hsound False.elim ts limit i spec).mono fun _ hn => ⟨.initial hn,
      .inl ⟨rfl, rfl, rfl, hbegins, fun h => hmarkers (h.resolve_left fun h => h rfl)⟩⟩

end Sequences

/-! ## 3. Repetitions and lists -/

section Repetitions

variable {below below2 : Matcher} {p : Prop} {limit start : Nat}
  (hsound : Sound c False False I below) (hsound2 : Sound c False False I below2)

include hsound hsound2

/-- The grammar that matches most opens as all of them do. -/
theorem opens_longest (ts : List GrammarId) (limit i : Nat) {options : List GrammarId}
    (hopens : ∀ g ∈ options, Meets I (below2 ts limit i g) (Match.Opens p)) :
    Meets I (c.longest below below2 ts limit i options) fun x =>
      Claims c False False limit i x.1 ∧ x.1.Opens p :=
  (meets_longest hsound hsound2 ts limit i options).and
    (meets_longest_of (fun place g => (hsound ts limit place g).trivial) options
      (fun _ => hopens) (.empty i))

/-- The first part of a repetition opens the repetition. -/
theorem opens_repetitionRule (ts : List GrammarId) (allowGaps : Bool) (r : Repetition)
    {options : List GrammarId}
    (hopens : ∀ g ∈ options, Meets I (below2 ts limit start g) (Match.Opens p)) :
    c.RepetitionRule below below2 ts limit start allowGaps r options I
      (fun s => RepetitionInvariant c False False limit start s ∧
        (s.matched = .empty start ∧ s.next = start ∨ s.matched.Begun p))
      (fun s => s.matched.stop ≤ s.place ∧ (s.matched = .empty start ∨ s.matched.Begun p)) where
  ends _ h := ⟨h.1.progress.stop_le, h.2.imp_left And.left⟩
  tooFew _ h _ := ⟨h.1.progress.start_le_place, .inl rfl⟩
  round s h := by
    obtain ⟨hs, h⟩ := h
    have claims := meets_longest hsound hsound2 ts limit s.next options
    have opens : Meets I (c.longest below below2 ts limit s.next options) fun x =>
        s.next = start → x.1.Opens p :=
      claims.trivial.imp fun hnext => by
        rw [hnext]
        exact (opens_longest hsound hsound2 ts limit start hopens).mono fun _ hx => hx.2
    refine (claims.and opens).mono fun x hx hlt counts =>
      ⟨hs.withPart hx.1 hlt allowGaps counts, .inr ?_⟩
    show (s.matched.append x.1).Begun p
    rcases h with ⟨hmatched, hnext⟩ | hbegun
    · rw [hmatched, Match.append_of_not_isMatch x.1 (Match.isMatch_empty start)]
      exact hx.2 hnext (Match.isMatch_of_lt hlt)
    · have := hbegun.lt
      have := hs.progress_next.stop_le
      have := hx.1.le_start
      exact hbegun.append fun _ => by omega

theorem opens_matchAnyNumberOf (ts : List GrammarId) (limit i : Nat) (id : GrammarId)
    (r : Repetition) (exclude : Option GrammarId)
    (hopens : ∀ ts limit, ∀ g ∈ c.tables.parts id,
      Meets I (below2 ts limit i g) (Match.Opens p)) :
    Meets I (c.matchAnyNumberOf below below2 ts limit i id r exclude) (Match.Opens p) := by
  refine meets_matchAnyNumberOf_of (meets_matchesExcluded hsound ts limit i exclude)
    (meets_repetitionLimit hsound False.elim ts limit i id)
    (fun bound _ => opens_repetitionRule hsound hsound2 _ _ r (hopens _ bound))
    (fun bound _ => ⟨.initial bound i, .inl ⟨rfl, rfl⟩⟩) (.empty i) fun bound s _ h => ?_
  obtain ⟨hstop, hs⟩ := h
  rcases finishRepetition_cases (c := c) bound s with
    heq | ⟨-, first, last, -, hfirst, hlt, -, heq⟩
  · rw [heq]
    exact hs.elim (fun hnone => hnone ▸ .empty i) (·.opens)
  · rw [heq]
    rcases hs with hnone | hbegun
    · rw [hnone, Match.append_of_not_isMatch _ (Match.isMatch_empty i)]
      exact .of_unparsable rfl rfl
    · have := hbegun.lt
      exact (hbegun.append (y := .unparsable first last nothingHere) fun _ =>
        show s.matched.start < last by omega).opens

/-- A list of which nothing has matched, or which has begun. -/
def DelimitedOpens (p : Prop) (start : Nat) (s : DelimitedState) : Prop :=
  s.matched = .empty start ∧ s.pending = none ∧ s.wantsDelimiter = false ∧ s.place = start ∨
    s.matched.Begun p ∧ s.withPending.Begun p

omit hsound hsound2 in
theorem DelimitedOpens.opens {s : DelimitedState} (h : DelimitedOpens p start s) :
    s.matched.Opens p ∧ s.withPending.Opens p := by
  rcases h with ⟨hm, hpending, -⟩ | ⟨hm, hpending⟩
  · rw [DelimitedState.withPending, hpending, hm]
    exact ⟨.empty start, .empty start⟩
  · exact ⟨hm.opens, hpending.opens⟩

omit hsound hsound2 in
/-- A list that has begun goes on as it began. -/
theorem begun_append {s : DelimitedState} {m : Match}
    (hs : DelimitedInvariant c False False limit start s)
    (hm : Claims c False False limit s.place m) (h : s.withPending.Begun p) :
    (s.withPending.append m).Begun p := by
  have := h.lt
  have := hs.progress.stop_le
  have := hm.le_start
  have := hm.start_le_stop
  exact h.append fun _ => by omega

/-- The first part of a delimited list opens the list. -/
theorem opens_delimitedRule (ts : List GrammarId) (spec : DelimitedSpec)
    (hopens : ∀ ts limit, ∀ g ∈ spec.parts, Meets I (below2 ts limit start g) (Match.Opens p)) :
    c.DelimitedRule below below2 ts limit start spec I fun s =>
      DelimitedInvariant c False False limit start s ∧ DelimitedOpens p start s := by
  have begun {s : DelimitedState} (h : DelimitedOpens p start s) (hw : s.wantsDelimiter = true) :
      s.matched.Begun p ∧ s.withPending.Begun p := by
    rcases h with ⟨-, -, hwants, -⟩ | hbegun
    · exact absurd (hwants.symm.trans hw) (by simp)
    · exact hbegun
  have tries (ts options : List GrammarId) (s : DelimitedState) :=
    meets_longest hsound hsound2 ts limit s.place options
  exact {
    skipped := fun s h => ⟨h.1.skipped spec, h.2.imp_left fun hnone =>
      ⟨hnone.1, hnone.2.1, hnone.2.2.1, spec.nextPlace_of_first limit hnone.2.2.2⟩⟩
    ending := fun s _ _ => (tries ts _ s).trivial
    delimiter := fun s h ht hw => (tries ts _ s).mono fun x hx hmatch =>
      ⟨h.1.withDelimiter hw hx ht.lt hmatch, .inr ⟨(begun h.2 hw).1,
        h.1.withPending_withDelimiter hw x.1 ▸ begun_append h.1 hx (begun h.2 hw).2⟩⟩
    undelimited := fun s h ht hw => (tries _ _ s).mono fun x hx hmatch =>
      have next := begun_append h.1 hx (begun h.2 hw).2
      ⟨h.1.withUndelimited hw hx ht.lt hmatch, .inr ⟨h.1.matched_withUndelimited hw x.1 ▸ next,
        h.1.withPending_withUndelimited hw x.1 ▸ next⟩⟩
    part := fun s h ht _ => by
      have opens : Meets I (c.longest below below2 (pushTerminators false [spec.delimiter] ts) limit
          s.place spec.parts) fun x => s.place = start → x.1.Opens p :=
        (tries _ _ s).trivial.imp fun hplace => by
          rw [hplace]
          exact (opens_longest hsound hsound2 _ limit start (hopens _ limit)).mono fun _ hx => hx.2
      refine ((tries _ _ s).and opens).mono fun x hx hmatch => ?_
      have next : (s.withPending.append x.1).Begun p := by
        rcases h.2 with ⟨hmatched, hpending, -, hplace⟩ | ⟨-, hbegun⟩
        · rw [DelimitedState.withPending, hpending, hmatched, Option.map_none, Option.getD_none,
            Match.append_of_not_isMatch _ (Match.isMatch_empty start)]
          exact hx.2 hplace hmatch
        · exact begun_append h.1 hx.1 hbegun
      exact ⟨h.1.withPart hx.1 ht.lt hmatch, .inr ⟨next, next⟩⟩ }

theorem opens_matchDelimited (hI : ∀ s notes, I s → I { s with notes := notes })
    (ts : List GrammarId) (limit i : Nat) (id delimiter : GrammarId) (least : Nat)
    (hopens : ∀ ts limit, ∀ g ∈ c.tables.parts id,
      Meets I (below2 ts limit i g) (Match.Opens p)) :
    Meets I (c.matchDelimited below below2 ts limit i id delimiter least) (Match.Opens p) :=
  (opens_delimitedRule hsound hsound2 ts _ hopens).meets_matchDelimited hI
    ⟨.initial limit i, .inl ⟨rfl, rfl, rfl, rfl⟩⟩ (.empty i) fun _ h => h.2.opens

end Repetitions

/-! ## 4. Brackets, references and tokens -/

section Brackets

variable {here below below2 : Matcher} {p : Prop}

/-- Brackets open with their opening one. -/
theorem opens_matchBracketed (hhere : Sound c False False I here)
    (hbelow : Sound c False False I below) (hbelow2 : Sound c False False I below2)
    (ts : List GrammarId) (limit i : Nat) (id opening closing : GrammarId) (persists : Bool)
    (hopens : Meets I (below ts limit i opening) (Match.Opens p)) :
    Meets I (c.matchBracketed here below below2 ts limit i id opening closing persists)
      (Match.Opens p) := by
  unfold matchBracketed
  refine ((hbelow ts limit i opening).and hopens).bind fun first hboth => ?_
  obtain ⟨hfirst, hbegun⟩ := hboth
  split
  · exact .pure (.empty i)
  next hmatch =>
  have hmatch : first.isMatch = true := by simpa using hmatch
  have claims := hfirst (.inr hmatch)
  have begun := hbegun hmatch
  dsimp only
  refine (meets_closeBracket hhere (fun h => h.elim) ts limit false _ claims.tidy).bind
    fun r hr => ?_
  rcases r with _ | pair
  · exact .pure (.empty i)
  obtain ⟨k, between, last, rfl, closed, hbetween⟩ := hr pair rfl
  obtain rfl := hbetween rfl
  have hlast := closed.le_start
  have hend := closed.tidy.start_le_stop
  have hfirst := begun.lt
  unfold matchContent
  dsimp only
  refine (meets_matchSequence hbelow2 (fun h => h.elim) [closing] _ _ _).bind fun content _ =>
    .ite (fun _ => .pure (.empty i)) fun _ => .pure (Match.Begun.opens ⟨?_, fun hu => ?_⟩)
  · show first.start < last.stop
    omega
  · have := Match.anyUnparsable_children hu
    rw [Match.children, Match.anyUnparsable_append, pairMatch, Match.children,
      Match.anyUnparsable_append, Match.anyUnparsable] at this
    simp only [Bool.or_eq_false_iff] at this
    exact begun.sound this.1.1.1

end Brackets

section Tokens

variable {limit i : Nat} {id : GrammarId}

theorem begun_token {p : Prop} (i : Nat) (k : Option MatchClass) (h : p) :
    (Match.mk i (i + 1) k [] []).Begun p :=
  ⟨Nat.lt_succ_self i, fun _ => h⟩

theorem opens_matchCode {type : String} {test : TokenView → Bool}
    (h : ∀ v, test v = true → c.tables.admits id v.upper v.segment.classTypes = true) :
    (c.matchCode limit i type test).Opens (c.AdmittedAt id i) := by
  unfold matchCode
  split
  · next v hv =>
    split
    · next htest =>
      refine (begun_token i _ fun w hw _ => ?_).opens
      rw [Bool.and_eq_true] at htest
      rw [(token?_eq_some limit i hv).2] at hw
      cases hw
      exact h v htest.2
    · exact .empty i
  · exact .empty i

theorem opens_matchTyped {template type : String}
    (h : ∀ raw types, types.contains template = true → c.tables.admits id raw types = true) :
    (c.matchTyped limit i id template type).Opens (c.AdmittedAt id i) := by
  unfold matchTyped
  split
  · next v hv =>
    split
    · next htest =>
      refine (begun_token i _ fun w hw _ => ?_).opens
      rw [(token?_eq_some limit i hv).2] at hw
      cases hw
      exact h _ _ htest
    · exact .empty i
  · exact .empty i

end Tokens

/-! ## 5. All levels -/

/-- The states that matching can be in, with what their memo promises of grammars with a hint. -/
structure OpeningInvariant (c : MatchContext) (s : MatchState) : Prop where
  sound : Invariant c False False s
  memo : ∀ (key : MemoKey) m, s.memo[key]? = some m →
    (c.tables.hint? key.grammar).isSome = true → m.Opens (c.AdmittedAt key.grammar key.start)

/-- Sound matches, which open with a token that is admitted where there is a hint. -/
def SoundOpening (c : MatchContext) (I : MatchState → Prop) (run : Matcher) : Prop :=
  Sound c False False I run ∧ c.OpensAsHinted I run

namespace OpeningInvariant

variable {s s' : MatchState}

theorem initial : c.OpeningInvariant {} := ⟨.initial, fun key m h => by simp at h⟩

theorem note (h : c.OpeningInvariant s) (notes : List ParseNote) :
    c.OpeningInvariant { s with notes := notes } := ⟨h.sound.note notes, h.memo⟩

end OpeningInvariant

section References

variable {n : Nat} (hn : c.SoundOpening c.OpeningInvariant (c.matchGrammar n))

include hn

/-- What is put into the memo keeps it as promised. -/
theorem OpeningInvariant.keep {s : MatchState} (h : c.OpeningInvariant s) (ts : List GrammarId)
    (limit i : Nat) (g : GrammarId) :
    c.OpeningInvariant { ((c.matchGrammar n ts limit i g).run s).2 with
      memo := ((c.matchGrammar n ts limit i g).run s).2.memo.insert ⟨i, limit, g, ts⟩
        ((c.matchGrammar n ts limit i g).run s).1 } := by
  obtain ⟨claims, after⟩ := hn.1 ts limit i g s h
  exact ⟨h.sound.keep rfl after.sound claims,
    forall_memo_insert after.memo fun hhint => (hn.2 ts limit i g hhint s h).1⟩

theorem claims_matchReference (ts : List GrammarId) (limit i : Nat) (id target : GrammarId)
    (exclude : Option GrammarId) :
    Meets c.OpeningInvariant
      (c.matchReference (c.matchGrammar n) ts limit i id target exclude) fun m =>
        i ≤ limit ∨ m.isMatch = true → Claims c False False limit i m := by
  unfold matchReference
  dsimp only
  refine (meets_matchesExcluded hn.1 _ limit i exclude).bind fun excluded _ => ?_
  split
  · exact .pure fun _ => .empty i
  · exact meets_memoized (hn.1 _ limit i target) (fun s m hs hm => hs.sound.memo _ m hm)
      fun s hs => hs.keep hn _ limit i target

theorem opens_matchReference (ts : List GrammarId) (limit i : Nat) (id target : GrammarId)
    (exclude : Option GrammarId) (hb : c.tables.Begins id target) :
    Meets c.OpeningInvariant
      (c.matchReference (c.matchGrammar n) ts limit i id target exclude)
      (Match.Opens (c.AdmittedAt id i)) := by
  unfold matchReference
  dsimp only
  refine (meets_matchesExcluded hn.1 _ limit i exclude).bind fun excluded _ => ?_
  split
  · exact .pure (.empty i)
  · refine (meets_memoized (hn.2 _ limit i target hb.hinted)
      (fun s m hs hm => hs.memo _ m hm hb.hinted) fun s hs => hs.keep hn _ limit i target).mono
      fun m hm => hm.mono fun hp => hp.of_begins hb

end References

theorem kind_of_shape_sequence {t : Tables} {id : GrammarId} (h : t.shape id = .sequence) :
    (t.instruction id).kind = .sequence := by
  unfold Tables.shape at h
  dsimp only at h
  split at h <;> first | assumption | cases h

section Level

variable {here below2 : Matcher} {n : Nat} (hexplained : ∀ id,
    (c.tables.hint? id).isSome = true → c.tables.HintExplained id)
  (hmarkers : c.tables.MarkersAccompany)
  (hhere : Sound c False False c.OpeningInvariant here)
  (hbelow : c.SoundOpening c.OpeningInvariant (c.matchGrammar n))
  (hbelow2 : c.SoundOpening c.OpeningInvariant below2)

include hhere hbelow hbelow2

theorem soundOpening_claims : Sound c False False c.OpeningInvariant
    (c.matchOne here (c.matchGrammar n) below2) :=
  sound_matchOne hhere (fun h => h.elim) hbelow.1 (fun h => h.elim) hbelow2.1 (fun h => h.elim)
    (fun _ notes h => h.note notes) (claims_matchReference hbelow) (fun h => h.elim)
    fun h => h.elim

include hexplained hmarkers

/-- A grammar with a hint opens as its hint says, if the grammars it begins with do. -/
theorem opens_matchShape (ts : List GrammarId) (limit i : Nat) {id : GrammarId}
    (hhint : (c.tables.hint? id).isSome = true) :
    Meets c.OpeningInvariant (c.matchShape here (c.matchGrammar n) below2 ts limit i id)
      (Match.Opens (c.AdmittedAt id i)) := by
  have explained := hexplained id hhint
  have note : ∀ (s : MatchState) notes, c.OpeningInvariant s →
      c.OpeningInvariant { s with notes := notes } := fun _ notes h => h.note notes
  have parts (hparts : ∀ g ∈ c.tables.parts id, c.tables.Begins id g) :
      ∀ ts limit, ∀ g ∈ c.tables.parts id,
        Meets c.OpeningInvariant (below2 ts limit i g) (Match.Opens (c.AdmittedAt id i)) :=
    fun ts limit g hg => (hbelow2.2 ts limit i g (hparts g hg).hinted).mono fun m hm =>
      hm.mono fun hp => hp.of_begins (hparts g hg)
  have nothing : Meets c.OpeningInvariant (return Match.empty i)
      (Match.Opens (c.AdmittedAt id i)) := .pure (.empty i)
  unfold Tables.HintExplained at explained
  unfold matchShape
  cases hshape : c.tables.shape id <;> rw [hshape] at explained <;> dsimp only at explained ⊢
  case ref name target exclude =>
    cases target with
    | none => exact nothing
    | some target => exact opens_matchReference hbelow ts limit i id target _ (explained _ rfl)
  case sequence =>
    have hkind := kind_of_shape_sequence hshape
    exact opens_matchSequence hbelow.1 hbelow.2 ts limit i (c.sequenceSpec id) explained
      (hmarkers id.index (Tables.lt_size_of_kind (by simp [hkind])) hkind)
  case oneOf =>
    exact opens_matchAnyNumberOf hbelow.1 hbelow2.1 ts limit i id _ _ (parts explained)
  case anyNumberOf =>
    exact opens_matchAnyNumberOf hbelow.1 hbelow2.1 ts limit i id _ _ (parts explained)
  case delimited delimiter least =>
    cases delimiter with
    | none => exact nothing
    | some delimiter =>
      exact opens_matchDelimited hbelow.1 hbelow2.1 note ts limit i id _ _ (parts explained)
  case bracketed pair =>
    rcases pair with _ | ⟨opening, closing, persists⟩
    · exact nothing
    · have begins := explained opening closing persists rfl
      exact opens_matchBracketed hhere hbelow.1 hbelow2.1 ts limit i id _ _ _
        ((hbelow.2 ts limit i opening begins.hinted).mono fun m hm =>
          hm.mono fun hp => hp.of_begins begins)
  case string template type =>
    exact .pure (opens_matchCode fun v hv => by
      rw [eq_of_beq hv]
      exact explained _)
  case multiString templates type =>
    exact .pure (opens_matchCode fun v hv => explained _ (by simpa using hv) _)
  case typed template type => exact .pure (opens_matchTyped explained)
  case nothing => exact nothing
  case missing => exact nothing

theorem opens_matchOne : c.OpensAsHinted c.OpeningInvariant
    (c.matchOne here (c.matchGrammar n) below2) := by
  intro ts limit i id hhint
  exact (opens_matchShape hexplained hmarkers hhere hbelow hbelow2 ts limit i hhint).bind
    fun m hm => .pure (hm.wrap? _)

end Level

/-- The matches of grammars with a hint take a token first that the hint admits, at all levels. -/
theorem soundOpening_matchGrammar (hexplained : ∀ id,
    (c.tables.hint? id).isSome = true → c.tables.HintExplained id)
    (hmarkers : c.tables.MarkersAccompany) (n : Nat) :
    c.SoundOpening c.OpeningInvariant (c.matchGrammar n) := by
  have level {here : Matcher} {n : Nat} (hhere : Sound c False False c.OpeningInvariant here)
      (below : c.SoundOpening c.OpeningInvariant (c.matchGrammar n))
      (below2 : c.SoundOpening c.OpeningInvariant (c.matchGrammar (n - 1))) :
      c.SoundOpening c.OpeningInvariant
        (c.matchOne here (c.matchGrammar n) (c.matchGrammar (n - 1))) :=
    ⟨soundOpening_claims hhere below below2,
      opens_matchOne hexplained hmarkers hhere below below2⟩
  exact matchGrammar_induction ⟨sound_refuse, fun _ _ i _ _ => .pure (.empty i)⟩
    (fun _ below below2 => level sound_refuse below below2)
    (fun _ here below below2 => level here.1 below below2) n

/-! ## 6. Pruning -/

/-- Of what can be reached by matching, the memo is as promised. -/
theorem Reachable.opening {s : MatchState} (h : c.Reachable s) (hexplained : ∀ id,
    (c.tables.hint? id).isSome = true → c.tables.HintExplained id)
    (hmarkers : c.tables.MarkersAccompany) : c.OpeningInvariant s := by
  induction h with
  | initial => exact .initial
  | note notes _ ih => exact ih.note notes
  | @keep s s' m n limit i ts g _ run _ ih ih' =>
    have kept := OpeningInvariant.keep (soundOpening_matchGrammar hexplained hmarkers n) ih ts limit
      i g
    rw [run] at kept
    exact kept

/-- A grammar that matches at code which is more than white space is not pruned there, unless some
of the match could not be placed. -/
theorem prune_keeps {b : GrammarBook} (hb : b.compile = .ok c.tables)
    (hmarkers : c.tables.MarkersAccompany) {s : MatchState} (hs : c.Reachable s) {n : Nat}
    {ts : List GrammarId} {limit i : Nat} {g : GrammarId} {v : TokenView}
    (hv : c.token? limit i = some v) (hcode : v.isCode = true) (hsolid : v.isAllBlank = false)
    (hm : ((c.matchGrammar n ts limit i g).run s).1.isEmpty = false)
    (hu : ((c.matchGrammar n ts limit i g).run s).1.hasUnparsable = false)
    {options : List GrammarId} (hg : g ∈ options) : g ∈ c.prune limit i options := by
  obtain ⟨hlt, hv⟩ := token?_eq_some limit i hv
  have admitted : c.tables.admits g v.upper v.segment.classTypes = true := by
    cases hhint : c.tables.hint? g with
    | none => simp [Tables.admits, hhint]
    | some hint =>
      have explained : ∀ id, (c.tables.hint? id).isSome = true → c.tables.HintExplained id :=
        fun id => GrammarBook.hintExplained_of_compile hb
      obtain ⟨begun, -⟩ := (soundOpening_matchGrammar explained hmarkers n).2 ts limit i g
        (by rw [hhint]; rfl) s (hs.opening explained hmarkers)
      exact (begun (Match.isMatch_of_not_isEmpty hm)).sound hu v hv hcode
  unfold prune nextSolid?
  simp [hlt, hv, hsolid, hg, admitted]

/-- Two words with a marker before them, of which the first may be left out, and another word. -/
def choiceBook : GrammarBook where
  root := "Pair"
  definitions := [
    .grammar "Pair" (.seq [.indent, (Grammar.keyword "a").optional, .keyword "b"]),
    .grammar "Other" (.keyword "c")]

/-- A word that the pair can begin with. -/
def choiceContext : MatchContext :=
  (Parser.ofBook choiceBook).context (Parser.wordTokens 0 0 ["b"])

/-- The grammar of a name in that context. -/
def choiceGrammar (name : String) : GrammarId :=
  (choiceContext.tables.lookup? name).getD default

/-- The pair stays among the grammars that may match at its second word. -/
theorem prune_keeps_choice :
    choiceBook.compile = .ok choiceContext.tables ∧ choiceContext.tables.MarkersAccompany ∧
      choiceGrammar "Pair" ∈
        choiceContext.prune 1 0 [choiceGrammar "Other", choiceGrammar "Pair"] := by
  have compiled : choiceBook.compile = .ok choiceContext.tables :=
    Parser.compile_eq_ofBook (by decide +kernel)
  have accompanied : choiceContext.tables.MarkersAccompany := by decide +kernel
  have token : choiceContext.token? 1 0 =
      ((Parser.wordTokens 0 0 ["b"]).map TokenView.ofSegment)[0]? := rfl
  have matched : ((choiceContext.matchGrammar 3 [] 1 0 (choiceGrammar "Pair")).run {}).1.isEmpty =
      false := by decide +kernel
  have parsable : ((choiceContext.matchGrammar 3 [] 1 0
      (choiceGrammar "Pair")).run {}).1.hasUnparsable = false := by decide +kernel
  exact ⟨compiled, accompanied, prune_keeps compiled accompanied .initial token (by decide +kernel)
    (by decide +kernel) matched parsable (by simp)⟩

end MatchContext

end QueryLint
