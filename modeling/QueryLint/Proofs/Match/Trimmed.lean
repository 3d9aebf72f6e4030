import QueryLint.Proofs.Match.Even
import QueryLint.Proofs.Match.Glued
import QueryLint.Proofs.Match.Prune

/-!
QueryLint.Proofs.Match.Trimmed — matches start and end at code.

Blanks between the parts of a grammar are passed over, and those around its match are left to the
grammar around it. So a match of tokens has code at both ends, and so has everything that is put
into something inside of it.

Grammars are asked at code, with code at the end of what they may look at. There is one exception:
where no gaps are allowed, a part is asked right behind the one before it, whatever stands there.
Such parts must match nothing at a place without code. That is asked of a set of grammars of its
own, which is closed under what they begin with; the brackets of the dialect belong to it, since
they are looked for everywhere.

What matches are put into may be told from where they lie: of a token it matters which token it is.

* `Match.Trimmed` — a match with code at its ends, and all inside it, put into things of a kind.
* `MatchContext.TrimGrammars` — a set of grammars that make such matches.
* `MatchContext.trims_matchSequence` — so do sequences of them.
-/

namespace QueryLint

open Matching

/-- A match of tokens starts and ends at code. What it is put into is of a kind, and all this holds
of the matches inside it. -/
inductive Match.Trimmed (c : MatchContext) (G : MatchClass → Nat → Nat → Prop) : Match → Prop where
  | mk {a b : Nat} {k : Option MatchClass} {is : List (Nat × MarkerKind)} {cs : List Match}
      (edges : a < b → c.isCodeAt a = true ∧ c.isCodeAt (b - 1) = true)
      (own : ∀ x, k = some x → G x a b) (children : ∀ m ∈ cs, Trimmed c G m) :
      Trimmed c G (.mk a b k is cs)

namespace Match

variable {c : MatchContext} {G : MatchClass → Nat → Nat → Prop} {m x y : Match}

/-! ## 1. Putting matches together -/

namespace Trimmed

theorem edges (h : m.Trimmed c G) (hm : m.start < m.stop) :
    c.isCodeAt m.start = true ∧ c.isCodeAt (m.stop - 1) = true := by
  cases h with
  | mk edges => exact edges hm

theorem own (h : m.Trimmed c G) : ∀ k, m.class? = some k → G k m.start m.stop := by
  cases h with
  | mk _ own => exact own

theorem children (h : m.Trimmed c G) : ∀ x ∈ m.children, x.Trimmed c G := by
  cases h with
  | mk _ _ children => exact children

/-- A match that is put into nothing. -/
theorem loose {a b : Nat} (is : List (Nat × MarkerKind)) {cs : List Match}
    (edges : a < b → c.isCodeAt a = true ∧ c.isCodeAt (b - 1) = true)
    (children : ∀ m ∈ cs, m.Trimmed c G) : (Match.mk a b none is cs).Trimmed c G :=
  .mk edges (by simp) children

theorem empty (i : Nat) : (Match.empty i).Trimmed c G :=
  .loose [] (fun h => absurd h (Nat.lt_irrefl i)) (by simp)

/-- A match of a class with nothing inside. -/
theorem plain {a b : Nat} {k : MatchClass}
    (edges : c.isCodeAt a = true ∧ c.isCodeAt (b - 1) = true) (hk : G k a b) :
    (Match.mk a b (some k) [] []).Trimmed c G :=
  .mk (fun _ => edges) (by rintro x ⟨⟩; exact hk) (by simp)

theorem outerChildren (h : m.Trimmed c G) : ∀ x ∈ m.outerChildren, x.Trimmed c G := by
  unfold Match.outerChildren
  split
  · exact List.forall_mem_singleton.2 h
  · exact h.children

theorem wrap (h : m.Trimmed c G) {k : MatchClass} (hk : G k m.start m.stop) :
    (m.wrap k).Trimmed c G := by
  have own : ∀ x, some k = some x → G x m.start m.stop := by
    rintro x ⟨⟩
    exact hk
  unfold Match.wrap
  split
  · exact h
  split
  · exact .mk h.edges own h.children
  · exact .mk h.edges own (List.forall_mem_singleton.2 h)

theorem wrap? (h : m.Trimmed c G) {k : Option MatchClass}
    (hk : ∀ x, k = some x → G x m.start m.stop) : (m.wrap? k).Trimmed c G := by
  cases k with
  | none => exact h
  | some k => exact h.wrap (hk k rfl)

end Trimmed

/-- A trimmed match that takes a token if it is a match. -/
structure Solid (c : MatchContext) (G : MatchClass → Nat → Nat → Prop) (m : Match) : Prop where
  trimmed : m.Trimmed c G
  takes : m.isMatch = true → m.start < m.stop

namespace Solid

theorem empty (i : Nat) : (Match.empty i).Solid c G := ⟨.empty i, by simp⟩

theorem edges (h : m.Solid c G) (hm : m.isMatch = true) :
    c.isCodeAt m.start = true ∧ c.isCodeAt (m.stop - 1) = true := h.trimmed.edges (h.takes hm)

theorem append (hx : x.Solid c G) (hy : y.Solid c G) (h : x.stop ≤ y.start) :
    (x.append y).Solid c G := by
  by_cases hxm : x.isMatch = true
  · by_cases hym : y.isMatch = true
    · rw [append_of_isMatch hxm hym]
      have startsAt := hx.edges hxm
      have stopsAt := hy.edges hym
      have longX := hx.takes hxm
      have longY := hy.takes hym
      refine ⟨.loose _ (fun _ => ⟨startsAt.1, stopsAt.2⟩) ?_, fun _ => ?_⟩
      · exact List.forall_mem_append.2 ⟨hx.trimmed.outerChildren, hy.trimmed.outerChildren⟩
      · show x.start < y.stop
        omega
    · rw [append_of_right_not_isMatch hxm (by simpa using hym)]
      exact hx
  · rw [append_of_not_isMatch y (by simpa using hxm)]
    exact hy

theorem wrap? (h : m.Solid c G) {k : Option MatchClass}
    (hk : ∀ x, k = some x → G x m.start m.stop) : (m.wrap? k).Solid c G := by
  refine ⟨h.trimmed.wrap? hk, fun hmatch => ?_⟩
  cases k with
  | none => exact h.takes hmatch
  | some k =>
    by_cases hm : m.isMatch = true
    · show (m.wrap k).start < (m.wrap k).stop
      rw [start_wrap, stop_wrap]
      exact h.takes hm
    · rw [wrap?_of_not_isMatch (by simpa using hm)] at hmatch
      exact absurd hmatch hm

end Solid

/-- A trimmed match that was asked for at a place: if it is a match, there is code there, and it
takes a token. -/
structure SolidFrom (c : MatchContext) (G : MatchClass → Nat → Nat → Prop) (i : Nat) (m : Match) :
    Prop extends Solid c G m where
  code : m.isMatch = true → c.isCodeAt i = true

theorem SolidFrom.empty (i j : Nat) : SolidFrom c G i (.empty j) := ⟨.empty j, by simp⟩

theorem Solid.isMatch_append (hx : x.Solid c G) (hy : y.Solid c G) (h : x.stop ≤ y.start)
    (hm : y.isMatch = true) : (x.append y).isMatch = true := by
  by_cases hxm : x.isMatch = true
  · refine isMatch_of_lt ?_
    rw [start_append y hxm, stop_append x hm]
    have := hx.takes hxm
    have := hy.takes hm
    omega
  · rwa [append_of_not_isMatch y (by simpa using hxm)]

theorem SolidFrom.append {i : Nat} (hx : SolidFrom c G i x) (hy : y.Solid c G)
    (hfirst : x.isMatch = false → SolidFrom c G i y) (h : x.stop ≤ y.start) :
    SolidFrom c G i (x.append y) := by
  refine ⟨hx.toSolid.append hy h, fun hmatch => ?_⟩
  by_cases hxm : x.isMatch = true
  · exact hx.code hxm
  · rw [append_of_not_isMatch y (by simpa using hxm)] at hmatch
    exact (hfirst (by simpa using hxm)).code hmatch

/-- One token of code. -/
theorem SolidFrom.one {i : Nat} {k : Option MatchClass} (hi : c.isCodeAt i = true)
    (hk : ∀ x, k = some x → G x i (i + 1)) : SolidFrom c G i (.mk i (i + 1) k [] []) :=
  ⟨⟨.mk (fun _ => ⟨hi, hi⟩) hk (by simp), fun _ => Nat.lt_succ_self i⟩, fun _ => hi⟩

end Match

namespace MatchContext

variable {c : MatchContext} {P S : GrammarId → Prop} {G : MatchClass → Nat → Nat → Prop}
  {I : MatchState → Prop}

/-! ## 2. Grammars -/

/-- A grammar may be asked at a place: there is code there and before the limit. A grammar that
matches nothing elsewhere may be asked everywhere. -/
structure Asked (c : MatchContext) (S : GrammarId → Prop) (limit i : Nat) (g : GrammarId) :
    Prop where
  lt : i < limit
  last : c.isCodeAt (limit - 1) = true
  first : c.isCodeAt i = true ∨ S g

/-- A token that satisfies a test may be put into something. -/
def Allows (c : MatchContext) (G : MatchClass → Nat → Nat → Prop) (type : String)
    (test : TokenView → Prop) : Prop :=
  ∀ k v, c.tokens[k]? = some v → test v → ∀ normalized, G (.token type normalized) k (k + 1)

/-- The parts of a sequence that are no markers are in the set. Without gaps between them it is
strict, and they match nothing at a place without code. -/
structure TrimParts (c : MatchContext) (P S : GrammarId → Prop) (spec : SequenceSpec) : Prop where
  parts : ∀ g ∈ spec.parts, (c.tables.instruction g).kind ≠ .marker → P g
  gapless : spec.allowGaps = false → spec.mode = .strict ∧
    ∀ g ∈ spec.parts, (c.tables.instruction g).kind ≠ .marker → S g

/-- What a grammar names is in the set, and what it begins with matches nothing at a place without
code if it is to do so itself. It takes code only, and may be put into what it makes. -/
def NamesTrimmed (c : MatchContext) (P S : GrammarId → Prop) (G : MatchClass → Nat → Nat → Prop)
    (id : GrammarId) : Prop :=
  match c.tables.shape id with
  | .ref _ (some target) _ => P target ∧ (S id → S target)
  | .sequence => c.TrimParts P S (c.sequenceSpec id) ∧
      HasRequired c.tables (c.tables.parts id) ∧ (S id → (c.sequenceSpec id).allowGaps = false)
  | .oneOf _ | .anyNumberOf _ _ _ =>
    (c.tables.instruction id).mode = .strict ∧ (∀ g ∈ c.tables.parts id, P g) ∧
      (S id ∨ (c.tables.instruction id).flags.allowGaps = false → ∀ g ∈ c.tables.parts id, S g)
  | .delimited (some delimiter) _ =>
    P delimiter ∧ (∀ g ∈ c.tables.parts id, P g) ∧ (S id → ∀ g ∈ c.tables.parts id, S g)
  | .bracketed (some (opening, closing, _)) =>
    (P opening ∧ S opening) ∧ (P closing ∧ S closing) ∧ c.TrimParts P S (c.sequenceSpec id) ∧
      (c.sequenceSpec id).allowGaps = true
  | .string template type => c.Allows G type fun v => v.isCode = true ∧ v.upper = template
  | .multiString templates type =>
    c.Allows G type fun v => v.isCode = true ∧ v.upper ∈ templates
  | .typed template type =>
    (∀ (k : Nat) (v : TokenView), c.tokens[k]? = some v →
      v.segment.isType template = true → v.isCode = true) ∧
      c.Allows G type fun v => v.segment.isType template = true
  | .pattern _ _ type => c.Allows G type fun v => v.isCode = true
  | .anything | .marker _ _ => False
  | _ => True

/-- A set of grammars that name each other, take code only, and are put into what they may be. The
brackets of the dialect are among them. -/
structure TrimGrammars (c : MatchContext) (P S : GrammarId → Prop)
    (G : MatchClass → Nat → Nat → Prop) : Prop where
  names : ∀ id, P id → c.NamesTrimmed P S G id
  nodes : ∀ id, P id → ∀ type, c.tables.segmentType? id = some type → ∀ a b, G (.node type id) a b
  brackets : ∀ p ∈ c.tables.bracketPairs, (P p.opening ∧ S p.opening) ∧ P p.closing ∧ S p.closing
  bracketed : ∀ a b, G .bracketed a b
  unparsable : ∀ expected a b, G (.unparsable expected) a b

/-- The matches of a matcher are trimmed for the grammars of the set, wherever they may be asked. -/
def TrimsBy (c : MatchContext) (P S : GrammarId → Prop) (G : MatchClass → Nat → Nat → Prop)
    (I : MatchState → Prop) (run : Matcher) : Prop :=
  ∀ ts limit i g, P g → c.Asked S limit i g → Meets I (run ts limit i g) (Match.SolidFrom c G i)

theorem trimsBy_refuse : c.TrimsBy P S G I .refuse := fun _ _ i _ _ _ => .pure (.empty i i)

theorem isCodeAt_of_getElem? {i : Nat} {v : TokenView} (h : c.tokens[i]? = some v)
    (hv : v.isCode = true) : c.isCodeAt i = true := by
  rw [isCodeAt, h]
  exact hv

theorem trimToCode_le_or_isCodeAt (stop least : Nat) :
    c.trimToCode stop least ≤ least ∨ c.isCodeAt (c.trimToCode stop least - 1) = true :=
  (Nat.lt_or_ge least (c.trimToCode stop least)).symm.imp_right isCodeAt_of_lt_trimToCode

/-- What is left over is between code. -/
theorem leftover_edges {start stop : Nat} {m : Match} (h : c.leftover start stop = some m) :
    ∃ first last, m = .unparsable first last nothingHere ∧ start ≤ first ∧ first < last ∧
      last ≤ stop ∧ c.isCodeAt first = true ∧ c.isCodeAt (last - 1) = true := by
  unfold leftover at h
  dsimp only at h
  split at h
  · next hlt =>
    cases h
    have hskip := le_skipToCode (c := c) start stop
    have htrim := trimToCode_le (c := c) stop (c.skipToCode start stop)
    exact ⟨_, _, rfl, hskip, hlt, htrim, isCodeAt_skipToCode (by omega),
      isCodeAt_of_lt_trimToCode hlt⟩
  · cases h

/-! ## 3. Sequences -/

/-- How a sequence stands between two parts. If it is known to need a part, it has matched one or
still needs one. -/
structure SequenceTrimmed (c : MatchContext) (G : MatchClass → Nat → Nat → Prop) (need : Prop)
    (start : Nat) (s : SequenceState) (rest : List GrammarId) : Prop where
  children : ∀ m ∈ s.children, m.Trimmed c G
  begun : s.place = start ∨ c.isCodeAt start = true ∧ c.isCodeAt (s.place - 1) = true
  bound : s.limit ≤ s.place ∨ c.isCodeAt (s.limit - 1) = true
  due : need → s.place ≠ start ∨ HasRequired c.tables rest

/-- The match of a sequence is trimmed, and if it needs a part it takes a token. -/
structure SequenceSolid (c : MatchContext) (G : MatchClass → Nat → Nat → Prop) (need : Prop)
    (start : Nat) (m : Match) : Prop where
  trimmed : m.Trimmed c G
  whole : need → Match.SolidFrom c G start m

theorem SequenceSolid.of_solidFrom {need : Prop} {start : Nat} {m : Match}
    (h : Match.SolidFrom c G start m) : SequenceSolid c G need start m :=
  ⟨h.trimmed, fun _ => h⟩

namespace SequenceTrimmed

variable {need : Prop} {limit start : Nat} {s : SequenceState} {rest : List GrammarId}
  {spec : SequenceSpec}

/-- A part that is left out was not needed. -/
theorem skip {g : GrammarId} (h : SequenceTrimmed c G need start s (g :: rest))
    (hg : (c.tables.instruction g).kind = .marker ∨
      (c.tables.instruction g).isOptional = true) :
    SequenceTrimmed c G need start s rest := by
  refine ⟨h.children, h.begun, h.bound, fun hneed => (h.due hneed).imp_right ?_⟩
  rintro ⟨g', hg', hpart, hrequired⟩
  rcases List.mem_cons.1 hg' with rfl | hg'
  · rcases hg with hg | hg
    · exact absurd hg hpart
    · rw [hrequired] at hg
      cases hg
  · exact ⟨g', hg', hpart, hrequired⟩

/-- A part that has matched takes the sequence on to its end. -/
theorem withPart (h : SequenceTrimmed c G need start s rest)
    (hs : SequenceInvariant False limit start s) {i bound : Nat} {m : Match} (hi : s.place ≤ i)
    (hcode : i ≠ start → c.isCodeAt start = true) (hm : Match.SolidFrom c G i m)
    (hmatch : m.isMatch = true) (hclaims : Claims c False False s.limit i m)
    (hbound : bound ≤ m.stop ∨ c.isCodeAt (bound - 1) = true) {rest' : List GrammarId} :
    SequenceTrimmed c G need start (s.withPart i bound m) rest' := by
  have hstart := hs.start_le
  have hfrom := hclaims.le_start
  have hlong := hm.takes hmatch
  have code : c.isCodeAt start = true := by
    by_cases heq : i = start
    · rw [← heq]
      exact hm.code hmatch
    · exact hcode heq
  refine ⟨?_, .inr ⟨code, (hm.edges hmatch).2⟩, hbound, fun _ => .inl ?_⟩
  · exact List.forall_mem_append.2 ⟨h.children, hm.trimmed.outerChildren⟩
  · show m.stop ≠ start
    omega

section

variable (h : SequenceTrimmed c G need start s rest)
  (hs : SequenceInvariant False limit start s)
  (hG : ∀ expected a b, G (.unparsable expected) a b)
  (hstart : start < s.limit → c.isCodeAt start = true ∨ spec.mode = .strict)

include h

theorem edges (hlt : start < s.place) :
    c.isCodeAt start = true ∧ c.isCodeAt (s.place - 1) = true :=
  h.begun.resolve_left (by omega)

include hs hG

theorem ended (part : GrammarId) :
    SequenceSolid c G need start (c.endedSequence spec start s part) := by
  unfold endedSequence
  split
  · exact .of_solidFrom (.empty start start)
  · next hstarted =>
    have hlt : start < s.place := by
      have := hs.start_le
      simp only [Bool.or_eq_true, decide_eq_true_eq, not_or] at hstarted
      omega
    have edges := h.edges hlt
    have all : Match.SolidFrom c G start (.mk start s.place none (s.placed s.place) s.children) :=
      ⟨⟨.loose _ (fun _ => edges) h.children, fun _ => hlt⟩, fun _ => edges.1⟩
    refine .of_solidFrom ⟨all.toSolid.wrap? (k := some _) ?_, fun _ => edges.1⟩
    rintro x ⟨⟩
    exact hG _ _ _

include hstart

theorem finish (hrest : rest = []) :
    SequenceSolid c G need start (c.finishSequence spec start s) := by
  unfold finishSequence
  dsimp only
  split
  · next m hm =>
    split at hm
    · next hmode =>
      obtain ⟨first, last, rfl, hfirst, hlt, hlast, front, back⟩ := leftover_edges hm
      have hle := hs.start_le
      have code : c.isCodeAt start = true := (hstart (by omega)).resolve_right hmode
      refine .of_solidFrom ⟨⟨.loose _ (fun _ => ⟨code, back⟩) ?_, fun _ => ?_⟩, fun _ => code⟩
      · exact List.forall_mem_append.2 ⟨h.children,
          List.forall_mem_singleton.2 (.plain ⟨front, back⟩ (hG _ _ _))⟩
      · show start < last
        omega
    · cases hm
  · refine ⟨.loose _ h.edges h.children, fun hneed => ?_⟩
    have hlt : start < s.place := by
      have := hs.start_le
      rcases h.due hneed with hplace | ⟨g, hg, -⟩
      · omega
      · rw [hrest] at hg
        cases hg
    exact ⟨⟨.loose _ h.edges h.children, fun _ => hlt⟩, fun _ => (h.edges hlt).1⟩

theorem failed (part : GrammarId) {i : Nat} (hplace : s.place ≤ i) (hi : i < s.limit)
    (hcode : spec.mode = .strict ∨ c.isCodeAt i = true) :
    SequenceSolid c G need start (c.failedSequence spec start s part i) := by
  have hle := hs.start_le
  have last : c.isCodeAt (s.limit - 1) = true := h.bound.resolve_left (by omega)
  unfold failedSequence
  dsimp only
  cases hmode : spec.mode with
  | strict => exact .of_solidFrom (.empty start start)
  | greedy | greedyOnceStarted =>
    have hlax : spec.mode ≠ .strict := by simp [hmode]
    have code : c.isCodeAt start = true := (hstart (by omega)).resolve_right hlax
    have rest : Match.SolidFrom c G start (.mk start s.limit none s.inserts (s.children ++
        [.unparsable i s.limit (c.tables.describe part ++ " after " ++ c.displayAt (s.place - 1) ++
          (". Found " ++ c.displayAt i))])) := by
      refine ⟨⟨.loose _ (fun _ => ⟨code, last⟩) ?_, fun _ => ?_⟩, fun _ => code⟩
      · exact List.forall_mem_append.2 ⟨h.children, List.forall_mem_singleton.2
          (.plain ⟨hcode.resolve_left hlax, last⟩ (hG _ _ _))⟩
      · show start < s.limit
        omega
    cases hfirst : decide (s.place = start) with
    | false => exact .of_solidFrom rest
    | true =>
      first
      | exact .of_solidFrom (.empty start start)
      | exact .of_solidFrom ⟨⟨.plain ⟨code, last⟩ (hG _ _ _), fun _ =>
          show start < s.limit by omega⟩, fun _ => code⟩

end

end SequenceTrimmed

section Sequences

variable {below : Matcher} (hsound : Sound c False False I below)

include hsound

/-- Where a greedy grammar has to stop, there is code before. -/
theorem trims_trimToTerminator (ts : List GrammarId) {limit i : Nat}
    (hlast : i < limit → c.isCodeAt (limit - 1) = true) (terminators : List GrammarId) :
    Meets I (c.trimToTerminator below ts limit i terminators) fun n =>
      n ≤ i ∨ c.isCodeAt (n - 1) = true := by
  have hone : ClosesByOne False I below c.tables.bracketPairs := False.elim
  have whole : limit ≤ i ∨ c.isCodeAt (limit - 1) = true :=
    (Nat.lt_or_ge i limit).symm.imp_right hlast
  unfold trimToTerminator
  split
  · exact .pure whole
  refine (meets_anyMatches (fun g => (hsound ts limit i g).trivial) _).bind fun found _ => ?_
  split
  · exact .pure (.inl (Nat.le_refl i))
  refine (meets_nextOutsideBrackets hsound hone ts limit i terminators).bind fun r _ => ?_
  split
  · exact .pure (trimToCode_le_or_isCodeAt _ i)
  · exact .pure whole

variable (htrims : c.TrimsBy P S G I below) (hG : ∀ expected a b, G (.unparsable expected) a b)

include htrims hG

/-- Each part leads a trimmed sequence on. -/
theorem trims_sequenceRule {need : Prop} (ts : List GrammarId) {limit start : Nat}
    {spec : SequenceSpec} (hspec : c.TrimParts P S spec)
    (hstart : start < limit → c.isCodeAt start = true ∨ spec.allowGaps = false)
    (hlast : start < limit → c.isCodeAt (limit - 1) = true) :
    c.SequenceRule below ts limit start spec I
      (fun s gs => SequenceInvariant False limit start s ∧
        SequenceTrimmed c G need start s gs ∧ gs ⊆ spec.parts)
      (SequenceSolid c G need start) := by
  have strict {n : Nat} (hn : n ≤ limit) (hlt : start < n) :
      c.isCodeAt start = true ∨ spec.mode = .strict :=
    (hstart (Nat.lt_of_lt_of_le hlt hn)).imp_right fun hgaps => (hspec.gapless hgaps).1
  refine {
    finished := fun s h => h.2.1.finish h.1 hG (strict h.1.limit_le) rfl
    marker := fun s g gs h hmarker =>
      have skipped := h.2.1.skip (.inl hmarker)
      ⟨h.1.withWaiting _, ⟨skipped.children, skipped.begun, skipped.bound, skipped.due⟩,
        (List.cons_subset.1 h.2.2).2⟩
    leftOut := fun s g gs h _ hoptional =>
      ⟨h.1, h.2.1.skip (.inr hoptional), (List.cons_subset.1 h.2.2).2⟩
    ended := fun s g gs h _ => h.2.1.ended h.1 hG g
    part := fun s g gs h hpart hlt => ?_ }
  obtain ⟨hs, h, hparts⟩ := h
  obtain ⟨hg, hrest⟩ := List.cons_subset.1 hparts
  have hle := hs.start_le
  have hlimit := hs.limit_le
  have hplace := spec.le_nextPlace (c := c) s
  have last : c.isCodeAt (s.limit - 1) = true := h.bound.resolve_left (by omega)
  have atCode : spec.allowGaps = false ∨ c.isCodeAt (spec.nextPlace c s) = true := by
    cases hgaps : spec.allowGaps with
    | false => exact .inl rfl
    | true => exact .inr (SequenceSpec.isCodeAt_nextPlace hgaps hlt)
  have asked : c.Asked S s.limit (spec.nextPlace c s) g :=
    ⟨hlt, last, atCode.symm.imp_right fun hgaps => (hspec.gapless hgaps).2 g hg hpart⟩
  refine ((hsound.claims _ (Nat.le_of_lt hlt) g).and
    (htrims _ s.limit _ g (hspec.parts g hg hpart) asked)).mono
      fun m hm => ⟨fun _ => ?_, fun hmatch => ?_⟩
  · exact h.failed hs hG (strict hlimit) g hplace hlt
      (atCode.imp_left fun hgaps => (hspec.gapless hgaps).1)
  have code : spec.nextPlace c s ≠ start → c.isCodeAt start = true := by
    intro hne
    rcases h.begun with hfirst | hbegun
    · refine (hstart (by omega)).resolve_right fun hgaps => hne ?_
      rw [SequenceSpec.nextPlace_of_gapless hgaps, hfirst]
    · exact hbegun.1
  have stops : Meets I (c.nextLimit below ts limit spec s m) fun n =>
      n ≤ m.stop ∨ c.isCodeAt (n - 1) = true :=
    .ite (fun _ => trims_trimToTerminator hsound ts (fun _ => hlast (by omega)) _)
      fun _ => .pure (.inr last)
  exact ((hs.meets_withPart hsound False.elim ts hlt hm.1).and stops).mono fun _ hbound =>
    ⟨hbound.1, h.withPart hs hplace code hm.2 hmatch hm.1 hbound.2, hrest⟩

/-- A sequence that is asked for at code, or without gaps, has a trimmed match. -/
theorem trims_matchSequence (ts : List GrammarId) {limit i : Nat} {spec : SequenceSpec}
    (hspec : c.TrimParts P S spec)
    (hstart : i < limit → c.isCodeAt i = true ∨ spec.allowGaps = false)
    (hlast : i < limit → c.isCodeAt (limit - 1) = true) :
    Meets I (c.matchSequence below ts limit i spec)
      (SequenceSolid c G (HasRequired c.tables spec.parts) i) := by
  have bounds : Meets I (c.firstLimit below ts limit i spec) fun n =>
      n ≤ i ∨ c.isCodeAt (n - 1) = true :=
    .ite (fun _ => trims_trimToTerminator hsound ts hlast _)
      fun _ => .pure ((Nat.lt_or_ge i limit).symm.imp_right hlast)
  refine (trims_sequenceRule hsound htrims hG ts hspec hstart hlast).meets_matchSequence
    (((meets_firstLimit hsound False.elim ts limit i spec).and bounds).mono fun n hn => ?_)
  exact ⟨.initial hn.1, ⟨nofun, .inl rfl, hn.2, .inr⟩, List.Subset.refl _⟩

end Sequences

end MatchContext

end QueryLint
