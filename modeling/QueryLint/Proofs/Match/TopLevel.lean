import QueryLint.Proofs.Match.Unwound

/-!
QueryLint.Proofs.Match.TopLevel — searches outside brackets stay at depth zero.

From its start on, a search outside brackets goes over plain tokens one by one and over pairs of
brackets as a whole. There is only one such way over the tokens, and it ends at the limit, at a
bracket that closes nothing or at one that is not closed. The search finds the first of its targets
on this way; if there is none, it has gone over sections only where the way leads to the limit.

* `TopLevel` — a way over tokens at depth zero, with the sections on it.
* `TopLevel.rest` — there is only one way.
* `MatchContext.TopLevelFound` — what a search at depth zero comes to.
* `MatchContext.nextOutsideBrackets_topLevel` — that is what a search outside brackets comes to.
-/

namespace QueryLint

open Matching

/-! ## 1. Ways at depth zero -/

/-- A way over tokens at depth zero: tokens that are no brackets are passed one by one, and pairs of
brackets as a whole. The places where these start and end are listed. -/
inductive TopLevel (reading : Nat → Option Bracket) (limit : Nat) :
    Nat → Nat → List (Nat × Nat) → Prop where
  | here (a : Nat) : TopLevel reading limit a a []
  | on {a b : Nat} {sections : List (Nat × Nat)} (lt : a < limit) (plain : reading a = none)
    (rest : TopLevel reading limit (a + 1) b sections) : TopLevel reading limit a b sections
  | past {a b k stop : Nat} {sections : List (Nat × Nat)} (lt : a < limit)
    (opens : reading a = some (.opening k))
    (closes : closedBy reading limit [k] (a + 1) = some stop)
    (rest : TopLevel reading limit stop b sections) :
    TopLevel reading limit a b ((a, stop) :: sections)

section Walks

variable {reading : Nat → Option Bracket} {limit : Nat}

namespace TopLevel

variable {a b d : Nat} {sections more : List (Nat × Nat)}

theorem le (h : TopLevel reading limit a b sections) : a ≤ b := by
  induction h with
  | here => exact Nat.le_refl _
  | on _ _ _ ih => omega
  | past _ _ closes _ ih =>
    have := le_of_closedBy closes
    omega

theorem trans (h : TopLevel reading limit a b sections) (h' : TopLevel reading limit b d more) :
    TopLevel reading limit a d (sections ++ more) := by
  induction h with
  | here => exact h'
  | on lt plain _ ih => exact .on lt plain (ih h')
  | past lt opens closes _ ih => exact .past lt opens closes (ih h')

/-- Of two ways from a place the longer begins with the shorter. -/
theorem rest (h : TopLevel reading limit a b sections) (h' : TopLevel reading limit a d more)
    (hle : b ≤ d) : ∃ behind, TopLevel reading limit b d behind ∧ more = sections ++ behind := by
  induction h generalizing more with
  | here => exact ⟨more, h', rfl⟩
  | on lt plain walk ih =>
    have := walk.le
    cases h' with
    | here => omega
    | on _ _ walk' => exact ih walk' hle
    | past _ opens' => rw [plain] at opens'; cases opens'
  | @past a b k stop sections lt opens closes walk ih =>
    have := walk.le
    have := le_of_closedBy closes
    cases h' with
    | here => omega
    | on _ plain' => rw [plain'] at opens; cases opens
    | past _ opens' closes' walk' =>
      rw [opens] at opens'
      cases opens'
      rw [closes] at closes'
      cases closes'
      obtain ⟨behind, longer, rfl⟩ := ih walk' hle
      exact ⟨behind, longer, rfl⟩

/-- A way over tokens that are no brackets. -/
theorem of_quiet (hab : a ≤ b) (hb : b ≤ limit)
    (quiet : ∀ q, a ≤ q → q < b → reading q = none) : TopLevel reading limit a b [] := by
  induction hd : b - a generalizing a with
  | zero =>
    obtain rfl : a = b := by omega
    exact .here a
  | succ d ih =>
    exact .on (by omega) (quiet a (Nat.le_refl a) (by omega))
      (ih (by omega) (fun q hq => quiet q (by omega)) (by omega))

/-- Sections start no earlier than the way. -/
theorem le_fst (h : TopLevel reading limit a b sections) : ∀ x ∈ sections, a ≤ x.1 := by
  induction h with
  | here => simp
  | on _ _ _ ih => exact fun x hx => Nat.le_of_succ_le (ih x hx)
  | past _ _ closes _ ih =>
    have := le_of_closedBy closes
    intro x hx
    rcases List.mem_cons.1 hx with rfl | hx
    · exact Nat.le_refl _
    · have := ih x hx
      omega

/-- Sections come one after the other. -/
theorem pairwise (h : TopLevel reading limit a b sections) :
    sections.Pairwise fun x y => x.2 ≤ y.1 := by
  induction h with
  | here => exact .nil
  | on _ _ _ ih => exact ih
  | past _ _ _ walk ih => exact .cons walk.le_fst ih

/-- No way leads past a bracket that closes nothing. -/
theorem eq_of_closing {k : Nat} (h : TopLevel reading limit a b sections)
    (hclosing : reading a = some (.closing k)) : b = a := by
  cases h with
  | here => rfl
  | on _ plain => rw [plain] at hclosing; cases hclosing
  | past _ opens => rw [opens] at hclosing; cases hclosing

/-- No way leads past a bracket that is not closed. -/
theorem eq_of_unclosed {k : Nat} (h : TopLevel reading limit a b sections)
    (hopening : reading a = some (.opening k))
    (hunclosed : closedBy reading limit [k] (a + 1) = none) : b = a := by
  cases h with
  | here => rfl
  | on _ plain => rw [plain] at hopening; cases hopening
  | past _ opens closes =>
    rw [opens] at hopening
    cases hopening
    rw [hunclosed] at closes
    cases closes

end TopLevel

end Walks

namespace MatchContext

variable {c : MatchContext}

/-! ## 2. Targets at depth zero -/

section Targets

variable (c) (n : Nat) (ts : List GrammarId) (limit : Nat) (options : List GrammarId)

/-- A way over tokens at depth zero, as the declared brackets are read. -/
abbrev Walk : Nat → Nat → List (Nat × Nat) → Prop :=
  TopLevel (c.bracketAt n c.tables.bracketPairs) limit

/-- On the way from a place up to another there is no target. -/
def NothingBefore (a b : Nat) : Prop :=
  ∀ q sections, c.Walk n limit a q sections → q < b → ∀ g ∈ options, ¬ c.FoundAt n ts limit q g

/-- What a search at depth zero comes to: the first target on the way from a place, with the
sections before it; all sections up to the limit, if the way leads there and there is no target; or
nothing. -/
inductive TopLevelFound (i : Nat) (r : Found) : Prop where
  | target {p k : Nat} {g : GrammarId} (before : c.NothingBefore n ts limit options i p)
    (grammar : options[k]? = some g) (found : c.FoundAt n ts limit p g)
    (first : ∀ g ∈ options.take k, ¬ c.FoundAt n ts limit p g)
    (hit : r.hit = some (c.plainMatch n ts limit p g, k))
    (walk : c.Walk n limit i p (r.skipped.map fun m => (m.start, m.stop)))
  | through (nothing : c.NothingBefore n ts limit options i limit) (hit : r.hit = none)
    (walk : c.Walk n limit i limit (r.skipped.map fun m => (m.start, m.stop)))
  | broken (nothing : c.NothingBefore n ts limit options i limit) (hit : r.hit = none)
    (skipped : r.skipped = []) (stuck : ∀ sections, ¬ c.Walk n limit i limit sections)

end Targets

section Targets

variable {n : Nat} {ts : List GrammarId} {limit : Nat} {options : List GrammarId} {i p : Nat}
  {sections : List (Nat × Nat)} {r : Found}

/-- What holds of a way and of the way behind it holds of both. -/
theorem NothingBefore.extend (h : c.NothingBefore n ts limit options i p)
    (walk : c.Walk n limit i p sections) {b : Nat}
    (h' : c.NothingBefore n ts limit options p b) : c.NothingBefore n ts limit options i b := by
  intro q more walk' hq
  rcases Nat.lt_or_ge q p with hqp | hqp
  · exact h q more walk' hqp
  · obtain ⟨behind, walk', -⟩ := walk.rest walk' hqp
    exact h' q behind walk' hq

/-- Within a pair of brackets there is no place at depth zero but the first. -/
theorem NothingBefore.of_section {k stop : Nat}
    (reads : c.bracketAt n c.tables.bracketPairs p = some (.opening k))
    (closes : closedBy (c.bracketAt n c.tables.bracketPairs) limit [k] (p + 1) = some stop)
    (here : ∀ g ∈ options, ¬ c.FoundAt n ts limit p g) :
    c.NothingBefore n ts limit options p stop := by
  intro q sections walk hq
  cases walk with
  | here => exact here
  | on _ plain => rw [plain] at reads; cases reads
  | past _ opens closes' rest =>
    rw [opens] at reads
    cases reads
    rw [closes, Option.some.injEq] at closes'
    have := rest.le
    omega

/-- Where the way ends before the limit and there is no target, nothing is found. -/
theorem TopLevelFound.of_stuck (nothing : c.NothingBefore n ts limit options i p)
    (walk : c.Walk n limit i p sections) (lt : p < limit)
    (here : ∀ g ∈ options, ¬ c.FoundAt n ts limit p g)
    (stuck : ∀ q more, c.Walk n limit p q more → q = p) (start : Nat) :
    c.TopLevelFound n ts limit options i { place := start } := by
  refine .broken (nothing.extend walk fun q more walk' _ => ?_) rfl rfl fun more walk' => ?_
  · exact stuck q more walk' ▸ here
  · obtain ⟨behind, walk', -⟩ := walk.rest walk' (Nat.le_of_lt lt)
    exact absurd (stuck limit behind walk') (by omega)

/-- Something is found exactly if there is a target on the way. -/
theorem TopLevelFound.isSome_hit_iff (h : c.TopLevelFound n ts limit options i r) :
    r.hit.isSome = true ↔ ∃ p sections, ∃ g ∈ options, c.Walk n limit i p sections ∧
      c.FoundAt n ts limit p g := by
  cases h with
  | target _ grammar found _ hit walk =>
    exact ⟨fun _ => ⟨_, _, _, List.mem_of_getElem? grammar, walk, found⟩, fun _ => by simp [hit]⟩
  | through nothing hit | broken nothing hit =>
    refine ⟨fun h => by simp [hit] at h, fun ⟨p, sections, g, hg, walk, found⟩ => ?_⟩
    exact absurd found (nothing p sections walk found.1 g hg)

/-- The sections that are gone over come one after the other. -/
theorem TopLevelFound.pairwise_skipped (h : c.TopLevelFound n ts limit options i r) :
    r.skipped.Pairwise fun x y => x.stop ≤ y.start := by
  cases h with
  | target _ _ _ _ _ walk | through _ _ walk => exact List.pairwise_map.1 walk.pairwise
  | broken _ _ skipped => exact skipped ▸ .nil

end Targets

/-! ## 3. The search -/

section Search

variable {n : Nat} {ts : List GrammarId} {limit : Nat} {options : List GrammarId} {i p : Nat}
  {sections : List (Nat × Nat)}
  (hexplained : c.tables.HintsExplained) (hviews : c.ViewsSegments)
  (hwords : c.tables.WordBrackets n c.tables.bracketPairs)
  (hapart : ∀ p b, c.bracketAt n c.tables.bracketPairs p = some b → ∀ g ∈ options,
    (c.plainMatch n ts limit p g).isMatch = false)

section Brackets

include hexplained hviews hwords

/-- Where no bracket is found, there is none. -/
theorem bracketAt_of_not_foundAt (hp : p < limit)
    (h : ∀ g ∈ bracketGrammars c.tables.bracketPairs, ¬ c.FoundAt n ts limit p g) :
    c.bracketAt n c.tables.bracketPairs p = none := by
  have silent := (silent_iff hp).2 h
  exact bracketAt_of_silent (c := c.unmemoized) hwords (readsBrackets_unmemoized n _) hexplained
    hviews silent (fun _ hg => hg) hp

/-- A search behind an opening bracket comes to where a stack is unwound. -/
theorem meets_closeBracket_plain {kind : Nat} {opening : Match} :
    Meets (fun _ => True)
      (c.unmemoized.closeBracket (c.unmemoized.matchGrammar n) ts limit c.tables.bracketPairs true
        kind opening)
      (Unwinds (c.bracketAt n c.tables.bracketPairs) limit opening.start opening.stop kind
        opening.stop true [opening]) :=
  meets_closeBracket_unwinds (c := c.unmemoized) ts limit hwords (readsBrackets_unmemoized n _)
    hexplained hviews true kind opening

end Brackets

include hexplained hviews hwords hapart

/-- A search outside brackets, that has come to a place at depth zero, goes on at depth zero. -/
theorem meets_outsideFrom_topLevel (start fuel : Nat) {skipped : List Match} (hp : p ≤ limit)
    (hfuel : limit < fuel + p)
    (walk : c.Walk n limit i p (skipped.map fun m => (m.start, m.stop)))
    (nothing : c.NothingBefore n ts limit options i p) :
    Meets (fun _ => True)
      (c.unmemoized.outsideFrom (c.unmemoized.matchGrammar n) ts limit start options fuel p skipped)
      (c.TopLevelFound n ts limit options i) := by
  induction fuel generalizing p skipped with
  | zero => omega
  | succ fuel ih =>
    unfold outsideFrom
    dsimp only [tables_unmemoized]
    refine (meets_nextMatch_firstFound p
      (options ++ bracketGrammars c.tables.bracketPairs)).bind fun r hr => ?_
    -- up to where something is found, the way leads over plain tokens without targets
    have quiet {b : Nat} (hpb : p ≤ b) (hb : b ≤ limit) (before : ∀ q, p ≤ q → q < b →
        ∀ g ∈ options ++ bracketGrammars c.tables.bracketPairs, ¬ c.FoundAt n ts limit q g) :
        c.Walk n limit i b (skipped.map fun m => (m.start, m.stop)) ∧
          c.NothingBefore n ts limit options i b := by
      have onwards : c.Walk n limit p b [] := .of_quiet hpb hb fun q hpq hqb =>
        bracketAt_of_not_foundAt hexplained hviews hwords (Nat.lt_of_lt_of_le hqb hb)
          fun g hg => before q hpq hqb g (List.mem_append_right _ hg)
      refine ⟨by simpa using walk.trans onwards, nothing.extend walk fun q _ walk' hqb g hg => ?_⟩
      exact before q walk'.le hqb g (List.mem_append_left _ hg)
    cases hr with
    | nowhere before =>
      obtain ⟨walk, nothing⟩ := quiet hp (Nat.le_refl _) fun q hq _ => before q hq
      exact .pure (.through nothing rfl walk)
    | @somewhere p' k g before le grammar found first =>
      have lt := found.1
      obtain ⟨walk, nothing⟩ := quiet le (Nat.le_of_lt lt) before
      dsimp only
      refine .ite (fun hoption => .pure ?_) fun hbracket => ?_
      · rw [List.getElem?_append_left hoption] at grammar
        refine .target nothing grammar found (fun g hg => first g ?_) rfl walk
        rw [List.take_append_of_le_length (Nat.le_of_lt hoption)]
        exact hg
      rw [List.getElem?_append_right (by omega)] at grammar
      have makes : Makes (fun _ => True) (c.unmemoized.matchGrammar n) ts limit p' g _ :=
        (makes_iff_eq_plainMatch n ts).2 rfl
      obtain ⟨reads, takes⟩ := bracketAt_of_makes (c := c.unmemoized) hwords
        (readsBrackets_unmemoized n _) grammar makes found.2.2
      replace reads : c.bracketAt n c.tables.bracketPairs p' = _ := reads
      have here : ∀ g ∈ options, ¬ c.FoundAt n ts limit p' g := by
        intro g hg found
        have fails := hapart p' _ reads g hg
        rw [found.2.2] at fails
        cases fails
      refine .ite (fun hclosing => .pure ?_) fun hopening => ?_
      · rw [Bracket.numbered_closing (by omega)] at reads
        exact .of_stuck nothing walk lt here (fun q more walk' => walk'.eq_of_closing reads) start
      rw [Bracket.numbered_opening (by omega)] at reads
      refine (meets_closeBracket_plain hexplained hviews hwords).bind fun r unwinds => ?_
      rw [takes.start_eq, takes.stop_eq] at unwinds
      rcases r with _ | b
      · refine .pure (.of_stuck nothing walk lt here (fun q more walk' => ?_) start)
        exact walk'.eq_of_unclosed reads unwinds.stop.symm
      have closes : closedBy (c.bracketAt n c.tables.bracketPairs) limit [k - options.length]
          (p' + 1) = some b.stop := unwinds.stop.symm
      obtain ⟨cls, between, last, heq, -, -⟩ := unwinds.closed b rfl
      have starts : b.start = p' := by rw [heq]; rfl
      have := le_of_closedBy closes
      have onwards : c.Walk n limit p' b.stop [(p', b.stop)] :=
        .past lt reads closes (.here b.stop)
      refine ih (closedBy_le closes lt) (by omega) ?_
        (nothing.extend walk (.of_section reads closes here))
      rw [List.map_append, List.map_singleton, starts]
      exact walk.trans onwards

/-- A search outside brackets comes to what there is at depth zero. -/
theorem meets_nextOutsideBrackets_topLevel (i : Nat) :
    Meets (fun _ => True)
      (c.unmemoized.nextOutsideBrackets (c.unmemoized.matchGrammar n) ts limit i options)
      (c.TopLevelFound n ts limit options i) := by
  by_cases hi : i ≤ limit
  · exact meets_outsideFrom_topLevel hexplained hviews hwords hapart i _ hi (by omega) (.here i)
      fun q _ walk hq => absurd walk.le (by omega)
  unfold nextOutsideBrackets outsideFrom
  refine (meets_nextMatch_firstFound i _).bind fun r hr => ?_
  cases hr with
  | nowhere =>
    exact .pure (.broken (fun q _ walk hq => absurd walk.le (by omega)) rfl rfl
      fun _ walk => hi walk.le)
  | somewhere _ le _ found => exact absurd found.1 (by omega)

end Search

/-- What a search outside brackets finds: the first of its targets at depth zero from its start on,
if nothing before is a bracket that closes nothing or is not closed. The sections that it has gone
over are those on the way there, one after the other; if the tokens come to their end first, with
all brackets closed, they are all there are; and otherwise there are none. -/
theorem nextOutsideBrackets_topLevel {b : GrammarBook} (hb : b.compile = .ok c.tables)
    (hviews : c.ViewsSegments) {n : Nat} (hwords : c.tables.WordBrackets n c.tables.bracketPairs)
    {ts : List GrammarId} {limit i : Nat} {options : List GrammarId}
    (hapart : ∀ p b, c.bracketAt n c.tables.bracketPairs p = some b → ∀ g ∈ options,
      (c.plainMatch n ts limit p g).isMatch = false)
    {s : MatchState} (hs : c.Earlier s)
    (hn : ¬ Scan.Trips (·.nextOutsideBrackets · ts limit i options) c n) {r : Found}
    (hr : ((c.nextOutsideBrackets (c.matchGrammar n) ts limit i options).run s).1 = r) :
    c.TopLevelFound n ts limit options i r ∧
      (r.hit.isSome = true ↔ ∃ p sections, ∃ g ∈ options, c.Walk n limit i p sections ∧
        c.FoundAt n ts limit p g) ∧
      r.skipped.Pairwise fun x y => x.stop ≤ y.start := by
  have explained := GrammarBook.hintsExplained_of_compile hb
  have found : c.TopLevelFound n ts limit options i r := by
    rw [← hr, (Scan.keepsPace_nextOutsideBrackets ts limit i options).run_eq_plain hs.sincere hn]
    exact (meets_nextOutsideBrackets_topLevel explained hviews hwords hapart i {} trivial).1
  exact ⟨found, found.isSome_hit_iff, found.pairwise_skipped⟩

/-- What is found of the root outside brackets, with the sections before it: where it starts, and
where they start and end. -/
def rootOutside (c : MatchContext) : Option Nat × List (Nat × Nat) :=
  let r := ((c.nextOutsideBrackets (c.matchGrammar 3) [] c.size 0 [c.tables.root]).run {}).1
  (r.hit.map (·.1.start), r.skipped.map fun m => (m.start, m.stop))

/-- A keyword in brackets, and again behind them. -/
def bracketedContext : MatchContext := twoPairsContext ["(", "a", ")", "a"]

/-- The keyword behind the brackets is the first at depth zero, and it is found. -/
theorem nextOutsideBrackets_topLevel_behind :
    twoPairsBook.compile = .ok bracketedContext.tables ∧
      bracketedContext.rootOutside = (some 3, [(0, 3)]) ∧
      bracketedContext.Walk 3 4 0 3 [(0, 3)] ∧
      ∃ p sections, ∃ g ∈ [bracketedContext.tables.root], bracketedContext.Walk 3 4 0 p sections ∧
        bracketedContext.FoundAt 3 [] 4 p g := by
  let c := bracketedContext
  have compiled : twoPairsBook.compile = .ok c.tables :=
    Parser.compile_eq_ofBook (by decide +kernel)
  have words : c.tables.WordBrackets 3 c.tables.bracketPairs := by decide +kernel
  have apart : ∀ p b, c.bracketAt 3 c.tables.bracketPairs p = some b → ∀ g ∈ [c.tables.root],
      (c.plainMatch 3 [] 4 p g).isMatch = false := by
    intro p b hb g hg
    obtain ⟨v, hv, -⟩ := exists_of_bracketAt hb
    have checked : ∀ p < 4, (c.bracketAt 3 c.tables.bracketPairs p).isSome = true →
        (c.plainMatch 3 [] 4 p c.tables.root).isMatch = false := by decide +kernel
    rw [List.mem_singleton.1 hg]
    exact checked p (Array.getElem?_eq_some_iff.1 hv).1 (by rw [hb]; rfl)
  have within : ¬ Scan.Trips (·.nextOutsideBrackets · [] 4 0 [c.tables.root]) c 3 := by
    decide +kernel
  have plain := (Scan.keepsPace_nextOutsideBrackets [] 4 0 [c.tables.root]).run_eq_plain
    (s := {}) .empty within
  have found := (nextOutsideBrackets_topLevel compiled (viewsSegments_ofSegments _ _ _) words apart
    .fresh within plain).2.1
  have way : c.Walk 3 4 0 3 [(0, 3)] :=
    .past (by decide) (show _ = some (Bracket.opening 0) by decide +kernel) (by decide +kernel)
      (.here 3)
  have outside : c.rootOutside = (some 3, [(0, 3)]) := by
    unfold rootOutside
    rw [show c.size = 4 from rfl, plain]
    decide +kernel
  exact ⟨compiled, outside, way, found.1 (by decide +kernel)⟩

/-- In brackets with blanks in their texts a keyword is found, though it is not at depth zero. -/
theorem nextOutsideBrackets_enters_spaced :
    spacedPairBook.compile = .ok spacedPairContext.tables ∧
      spacedPairContext.rootOutside = (some 1, []) ∧
      (∀ sections, ¬ spacedPairContext.Walk 3 4 0 1 sections) ∧
      spacedPairContext.Walk 3 4 0 3 [(0, 3)] := by
  let c := spacedPairContext
  have opens : c.bracketAt 3 c.tables.bracketPairs 0 = some (.opening 0) := by decide +kernel
  have closes : closedBy (c.bracketAt 3 c.tables.bracketPairs) 4 [0] 1 = some 3 := by
    decide +kernel
  have way : c.Walk 3 4 0 3 [(0, 3)] := .past (by decide) opens closes (.here 3)
  refine ⟨Parser.compile_eq_ofBook (by decide +kernel), by decide +kernel,
    fun sections walk => ?_, way⟩
  cases walk with
  | on _ plain => rw [plain] at opens; cases opens
  | past _ opens' closes' rest =>
    rw [opens] at opens'
    cases opens'
    rw [closes] at closes'
    cases closes'
    exact absurd rest.le (by decide)

end MatchContext

end QueryLint
