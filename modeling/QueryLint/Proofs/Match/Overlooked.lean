import QueryLint.Proofs.Match.Ahead
import QueryLint.Proofs.Match.Prune

/-!
QueryLint.Proofs.Match.Overlooked — what a search for the next match misses.

A search tries a grammar at a token only if the hint of the grammar holds the first word of the
token. But texts in hints are whole texts of tokens, and a token may have blanks in its text, as
quoted names and comments do. A grammar that matches such a token is passed over there: pruning,
which asks hints for the whole text, would have kept it. Nothing else is missed, if no grammar
matches by its markers alone.

* `Overlooked` — a grammar is passed over at a token that it can begin with.
* `MatchContext.MatchesCleanly` — a grammar takes code at a place and can place all of it.
* `MatchContext.nextMatch_finds_unless_overlooked` — what the search finds, and what it misses.
-/

namespace QueryLint

open Matching

/-! ## 1. Hints at a token -/

section Hints

variable {t : Tables} {g : GrammarId} {v : TokenView}

/-- At a token of a single word a grammar is tried wherever its hint admits the token. -/
theorem worthTrying_of_admits (h : t.admits g v.upper v.segment.classTypes = true)
    (hcode : v.isCode = true) (hword : v.firstWord = v.upper) :
    (MatchContext.Target.mk g (t.hint? g)).worthTrying v = true := by
  unfold Tables.admits at h
  unfold MatchContext.Target.worthTrying
  cases hhint : t.hint? g with
  | none => exact hcode
  | some hint =>
    rw [hhint] at h
    rw [hword]
    exact h

/-- A grammar is passed over at a token: its hint holds neither the first word of the text nor a
type of the token. The text as a whole it does hold, where markers do not stand alone. -/
structure Overlooked (t : Tables) (v : TokenView) (g : GrammarId) (raws types : List String) :
    Prop where
  hint : t.hint? g = some (raws, types)
  word : Text.firstWord v.upper ∉ raws
  type : ∀ type ∈ types, v.segment.isType type = false
  whole : t.MarkersAccompany → v.upper ∈ raws

end Hints

namespace MatchContext

variable {c : MatchContext}

/-! ## 2. What a search finds -/

/-- All tokens are views of segments. -/
def ViewsSegments (c : MatchContext) : Prop := ∀ v ∈ c.tokens, v = .ofSegment v.segment

theorem viewsSegments_ofSegments (t : Tables) (ss : List Segment)
    (settings : List (String × String)) : (ofSegments t ss settings).ViewsSegments := by
  intro v hv
  obtain ⟨s, -, rfl⟩ : ∃ s ∈ ss, TokenView.ofSegment s = v := by simpa [ofSegments] using hv
  rfl

namespace ViewsSegments

variable {i : Nat} {v : TokenView} (h : c.ViewsSegments) (hv : c.tokens[i]? = some v)

include h hv

theorem firstWord_eq : v.firstWord = Text.firstWord v.upper := by
  rw [h v (Array.mem_of_getElem? hv)]
  rfl

/-- A marker is no code. -/
theorem isMarker_eq_false (hcode : v.isCode = true) : v.isMarker = false := by
  rw [h v (Array.mem_of_getElem? hv)] at hcode ⊢
  generalize v.segment = s at hcode ⊢
  obtain ⟨⟨kind, _⟩, _⟩ := s
  cases kind with
  | marker => cases hcode
  | _ => rfl

end ViewsSegments

/-- A grammar takes code at a place before a limit, and there is nothing in it that it could not
place. -/
structure MatchesCleanly (c : MatchContext) (n : Nat) (ts : List GrammarId) (limit p : Nat)
    (v : TokenView) (g : GrammarId) : Prop where
  token : c.token? limit p = some v
  code : v.isCode = true
  takes : (c.plainMatch n ts limit p g).isEmpty = false
  placed : (c.plainMatch n ts limit p g).hasUnparsable = false

/-- What a search finds no later than a grammar at a place: a plain match of one of the grammars,
before the place or there, and then of no grammar with a greater number. -/
def FoundInTime (c : MatchContext) (n : Nat) (ts : List GrammarId) (limit i : Nat)
    (gs : List GrammarId) (p k : Nat) (x : Match × Nat) : Prop :=
  FoundBy (fun g q m => m = c.plainMatch n ts limit q g ∧ (q < p ∨ q = p ∧ x.2 ≤ k)) limit i gs x

section Search

variable {n limit i p k : Nat} {ts gs : List GrammarId} {v : TokenView} {g : GrammarId}
  {r : Option (Match × Nat)}

/-- What a search finds is a plain match of its grammar. -/
theorem FirstFound.foundBy {x : Match × Nat} (h : c.FirstFound n ts limit gs i (some x)) :
    FoundBy (fun g q m => m = c.plainMatch n ts limit q g) limit i gs x := by
  cases h with
  | somewhere _ le grammar found _ => exact ⟨_, _, grammar, le, found.1, found.2.2, rfl⟩

/-- A grammar that can be found is, or another in time. -/
theorem FirstFound.foundInTime (h : c.FirstFound n ts limit gs i r) (hp : i ≤ p)
    (hg : gs[k]? = some g) (found : c.FoundAt n ts limit p g) :
    ∃ x, r = some x ∧ c.FoundInTime n ts limit i gs p k x := by
  cases h with
  | nowhere before => exact absurd found (before p hp g (List.mem_of_getElem? hg))
  | @somewhere q j g' before le grammar found' first =>
    refine ⟨_, rfl, g', q, grammar, le, found'.1, found'.2.2, rfl, ?_⟩
    rcases Nat.lt_trichotomy q p with hqp | rfl | hqp
    · exact .inl hqp
    · refine .inr ⟨rfl, Nat.le_of_not_lt fun hkj => first g ?_ found⟩
      exact List.mem_of_getElem? (i := k) (by rw [List.getElem?_take_of_lt hkj]; exact hg)
    · exact absurd found (before p hp hqp g (List.mem_of_getElem? hg))

end Search

/-! ## 3. What a search misses -/

section Missed

variable {n limit i p k : Nat} {ts gs : List GrammarId} {v : TokenView} {g : GrammarId}

/-- Where a grammar takes code and can place all of it, its hint admits the token, if markers do not
stand alone. -/
theorem MatchesCleanly.admits {b : GrammarBook} (hb : b.compile = .ok c.tables)
    (h : c.MatchesCleanly n ts limit p v g) (hmarkers : c.tables.MarkersAccompany) :
    c.tables.admits g v.upper v.segment.classTypes = true := by
  cases hhint : c.tables.hint? g with
  | none => simp [Tables.admits, hhint]
  | some hint =>
    have explained := GrammarBook.hintsExplained_of_compile hb
    obtain ⟨opens, -⟩ := (soundOpening_matchGrammar (c := c.unmemoized) explained hmarkers n).2 ts
      limit p g (by rw [show c.unmemoized.tables = c.tables from rfl, hhint]; rfl) {} .initial
    exact (opens (Match.isMatch_of_not_isEmpty h.takes)).sound h.placed v
      (token?_eq_some limit p h.token).2 h.code

/-- Where a grammar matches cleanly, it is worth trying or overlooked. -/
theorem MatchesCleanly.worthTrying_or_overlooked {b : GrammarBook} (hb : b.compile = .ok c.tables)
    (hviews : c.ViewsSegments) (h : c.MatchesCleanly n ts limit p v g) :
    (Target.mk g (c.tables.hint? g)).worthTrying v = true ∨
      ∃ raws types, Overlooked c.tables v g raws types := by
  by_cases hworth : (Target.mk g (c.tables.hint? g)).worthTrying v = true
  · exact .inl hworth
  refine .inr ?_
  unfold Target.worthTrying at hworth
  cases hhint : c.tables.hint? g with
  | none => exact absurd (by rw [hhint]; exact h.code) hworth
  | some hint =>
    obtain ⟨raws, types⟩ := hint
    have word := hviews.firstWord_eq (token?_eq_some limit p h.token).2
    simp only [hhint, word, Bool.or_eq_true, List.contains_iff_mem, List.any_eq_true,
      not_or, not_exists, not_and, Bool.not_eq_true] at hworth
    refine ⟨raws, types, hhint, hworth.1, hworth.2, fun hmarkers => ?_⟩
    have admitted := h.admits hb hmarkers
    simp only [Tables.admits, hhint, Bool.or_eq_true, List.contains_iff_mem,
      List.any_eq_true] at admitted
    rcases admitted with whole | ⟨type, hmem, htype⟩
    · exact whole
    · have unlisted := hworth.2 type hmem
      rw [Segment.isType, List.contains_iff_mem.2 htype] at unlisted
      cases unlisted

/-- What the search for the next match finds, one of the grammars makes of its place. Wherever a
grammar takes code and can place all of it, the search has found something by then, no later and of
no greater number; unless the grammar is overlooked: its hint holds the whole text of the token, and
the search asks it for the first word. -/
theorem nextMatch_finds_unless_overlooked {b : GrammarBook} (hb : b.compile = .ok c.tables)
    (hviews : c.ViewsSegments) {s : MatchState} (hs : c.Earlier s)
    (hn : ¬ Scan.Trips (·.nextMatch · ts limit i gs) c n) {r : Option (Match × Nat)}
    (hr : ((c.nextMatch (c.matchGrammar n) ts limit i gs).run s).1 = r) :
    (∀ x, r = some x → FoundBy (fun g q m => m = c.plainMatch n ts limit q g) limit i gs x) ∧
      ∀ p k v g, i ≤ p → gs[k]? = some g → c.MatchesCleanly n ts limit p v g →
        (∃ x, r = some x ∧ c.FoundInTime n ts limit i gs p k x) ∨
          ∃ raws types, Overlooked c.tables v g raws types := by
  have plain := (Scan.keepsPace_nextMatch ts limit i gs).run_eq_plain hs.sincere hn
  have searched : c.FirstFound n ts limit gs i r := by
    rw [← hr, plain]
    exact (meets_nextMatch_firstFound i gs {} trivial).1
  refine ⟨fun x hx => (hx ▸ searched).foundBy, fun p k v g hp hg clean => ?_⟩
  refine (clean.worthTrying_or_overlooked hb hviews).imp_left fun hworth => ?_
  obtain ⟨hlt, hv⟩ := token?_eq_some limit p clean.token
  exact searched.foundInTime hp hg ⟨hlt, ⟨v, hv, hviews.isMarker_eq_false hv clean.code, hworth⟩,
    Match.isMatch_of_not_isEmpty clean.takes⟩

/-- A quoted text, which is one token though there is a blank in it, and a keyword. -/
def quotedBook : GrammarBook where
  root := "Text"
  definitions := [
    .grammar "Text" (.string "'a b'" "literal"),
    .grammar "Word" (.keyword "x")]

/-- The quoted text with the keyword after it. -/
def quotedContext : MatchContext :=
  (Parser.ofBook quotedBook).context (Parser.wordTokens 0 0 ["'a b'", "x"])

/-- The grammar of a name in that context. -/
def quotedGrammar (name : String) : GrammarId :=
  (quotedContext.tables.lookup? name).getD default

/-- What the search finds among grammars of these names, up to a limit. -/
def quotedNext (limit : Nat) (names : List String) : Option (Match × Nat) :=
  ((quotedContext.nextMatch (quotedContext.matchGrammar 3) [] limit 0
    (names.map quotedGrammar)).run {}).1

theorem matchesCleanly_quotedContext (limit : Nat) (hlimit : 0 < limit ∧ limit ≤ 2) :
    ∃ v, quotedContext.MatchesCleanly 3 [] limit 0 v (quotedGrammar "Text") := by
  obtain ⟨v, hv⟩ : ∃ v, quotedContext.tokens[0]? = some v := ⟨_, rfl⟩
  have code : ∀ w ∈ quotedContext.tokens, w.isCode = true := by decide +kernel
  have matched : ∀ limit < 3, 0 < limit →
      (quotedContext.plainMatch 3 [] limit 0 (quotedGrammar "Text")).isEmpty = false ∧
      (quotedContext.plainMatch 3 [] limit 0 (quotedGrammar "Text")).hasUnparsable = false := by
    decide +kernel
  obtain ⟨takes, placed⟩ := matched limit (by omega) hlimit.1
  exact ⟨v, by rw [token?, if_pos hlimit.1, hv], code v (Array.mem_of_getElem? hv), takes, placed⟩

/-- Of both grammars the keyword is found, and the text before it is overlooked. -/
theorem nextMatch_finds_keyword :
    quotedBook.compile = .ok quotedContext.tables ∧
      (quotedNext 2 ["Text", "Word"]).map (fun x => (x.2, x.1.start)) = some (1, 1) ∧
      ∃ v raws types, Overlooked quotedContext.tables v (quotedGrammar "Text") raws types := by
  have compiled : quotedBook.compile = .ok quotedContext.tables :=
    Parser.compile_eq_ofBook (by decide +kernel)
  have within : ¬ Scan.Trips (·.nextMatch · [] 2 0 (["Text", "Word"].map quotedGrammar))
      quotedContext 3 := by decide +kernel
  have found : (quotedNext 2 ["Text", "Word"]).map (fun x => (x.2, x.1.start)) = some (1, 1) := by
    decide +kernel
  obtain ⟨v, clean⟩ := matchesCleanly_quotedContext 2 (by decide)
  refine ⟨compiled, found, v, ?_⟩
  have told := (nextMatch_finds_unless_overlooked compiled (viewsSegments_ofSegments _ _ _) .fresh
    within (r := quotedNext 2 ["Text", "Word"]) rfl).2 0 0 v _ (Nat.le_refl 0) rfl clean
  refine told.resolve_left fun ⟨x, hx, _, q, _, _, _, _, _, early⟩ => ?_
  rw [hx, Option.map_some, Option.some.injEq, Prod.mk.injEq] at found
  omega

/-- Where the quoted text is all there is, its grammar is not found, though it matches. -/
theorem nextMatch_misses_quoted :
    quotedBook.compile = .ok quotedContext.tables ∧ quotedContext.tables.MarkersAccompany ∧
      (∃ v, quotedContext.MatchesCleanly 3 [] 1 0 v (quotedGrammar "Text")) ∧
      (quotedNext 1 ["Text"]).isNone = true :=
  ⟨Parser.compile_eq_ofBook (by decide +kernel), by decide +kernel,
    matchesCleanly_quotedContext 1 (by decide), by decide +kernel⟩

end Missed

end MatchContext

end QueryLint
