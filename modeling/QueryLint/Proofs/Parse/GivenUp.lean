import QueryLint.Proofs.Match.Apply
import QueryLint.Proofs.Match.Holds
import QueryLint.Proofs.Match.Settled
import QueryLint.Proofs.Match.Traced
import QueryLint.Proofs.Match.Transparent
import QueryLint.Proofs.Parse
import QueryLint.Proofs.Segment.GivenUp

/-!
QueryLint.Proofs.Parse.GivenUp — the code of a file is taken or given up.

The segments of a match give up the tokens of its unparsable parts, and no others. So if all tokens
but those are accounted for, the segments of the match span its tokens.

Each code of the tree of a file was taken by a grammar, or it is inside something unparsable. The
match of the file does not say what was taken as it is; the match with traces does, and it is the
same match otherwise.

There is an exception. A grammar in brackets that is not strict may stop before the closing bracket,
and where gaps are allowed between the parts, what is left over is neither put into something
unparsable nor reported. It only stands between the brackets.

* `Match.meets_apply_spans` — the segments of a match span its tokens.
* `Match.Traced.isUnparsable_holds` — traces give up no token.
* `Parser.Takes`, `Parser.LeavesOver` — what becomes of a token in the match of a file.
* `Parser.meets_parse_spans` — the tree of a file spans its tokens.
* `Parser.parse_accountsForCode` — each code is taken or given up, but for what lax brackets leave.
-/

namespace QueryLint.Match

open Segment

variable {n : Nat} {tokens : Array Segment} {Accounted : Nat → Prop}

/-! ## 1. Segments of a match -/

/-- Segments span the tokens of a range. -/
theorem additive_spans : Additive n (Spans n Accounted) where
  nil a := .tokens ⟨by simp, by simp, by simp⟩ (by simp) fun k _ _ => by omega
  append hab hbd h h' := h.append hab hbd h'
  point h b := h.point b
  marker k _ := meets_marker_spans k none

theorem meets_retypeTokens_replaces (type : String) (normalized : Option String)
    (ss : List Segment) :
    Meets (n ≤ ·) (ss.mapM (retypeToken type normalized)) fun us => Replaces n ss us := by
  induction ss with
  | nil => exact .pure (.refl n [])
  | cons s ss ih =>
    rw [List.mapM_cons]
    refine (meets_retypeToken type normalized s).bind fun u hu =>
      ih.bind fun us hus => .pure (.cons ?_ hus)
    rcases hu with rfl | ⟨hleaf, hmarker, hbare⟩
    · exact .refl n [u]
    · exact .of_bare hleaf hmarker hbare

/-- What a match puts its segments into spans what they span. -/
theorem meets_build_spans {a b : Nat} {ss : List Segment} (h : Spans n Accounted a b ss)
    {c : Option MatchClass} (hc : ∀ expected, c ≠ some (.unparsable expected)) :
    Meets (n ≤ ·) (build ss c) fun us => Spans n Accounted a b us := by
  unfold build
  split
  · exact .pure h
  · exact (meets_retypeTokens_replaces _ _ ss).mono fun us hus => h.replace hus
  · refine .ite (fun _ => .pure h) fun _ => ?_
    exact (meets_branch_spans _ rfl (by simp) h).bind fun s hs => .pure hs
  · exact (meets_branch_spans _ rfl (by simp) h).bind fun s hs => .pure hs
  · next expected => exact absurd rfl (hc expected)

/-- The segments of a match span its tokens, if all but those that could not be placed are accounted
for. -/
theorem meets_apply_spans (hlex : IsLexed n tokens.toList) {m : Match} (h : m.Tidy True)
    (hsize : m.stop ≤ tokens.size)
    (hall : ∀ k, m.start ≤ k → k < m.stop → Accounted k ∨ m.holds isUnparsable k = true) :
    Meets (n ≤ ·) (m.apply tokens) fun ss => Spans n Accounted m.start m.stop ss := by
  induction h generalizing Accounted with
  | @mk a b c is cs le inserts bounds children pairwise ih =>
    rw [start_mk, stop_mk] at *
    have lexed (i j : Nat) : IsLexed n (tokensIn tokens i j) :=
      hlex.sublist (tokensIn_sublist i j)
    have inside : Inside True a b cs := ⟨bounds, children, pairwise⟩
    have child_le (m : Match) (hm : m ∈ cs) : m.stop ≤ tokens.size :=
      Nat.le_trans (bounds m hm).2 hsize
    by_cases hab : a < b
    · by_cases hc : ∃ expected, c = some (.unparsable expected)
      -- nothing inside has to be accounted for
      · obtain ⟨expected, rfl⟩ := hc
        have spans : Additive n (Spans n fun _ => True) := additive_spans
        refine meets_apply_of_parts spans hab inserts inside
          (fun m hm => ih m hm (child_le m hm) fun _ _ _ => .inl True.intro)
          (fun i j _ _ hjb _ => .tokensGivenUp (lexed i j) (length_tokensIn (by omega)))
          fun ss hss => ?_
        exact (meets_unparsable_spans hab hss (some expected)).bind fun s hs => .pure hs
      -- what is inside is accounted for or not placed there
      · have held (k : Nat) (ha : a ≤ k) (hb : k < b) :
            Accounted k ∨ anyHolds isUnparsable k cs = true := by
          refine (hall k ha hb).imp_right fun hk => (holds_iff.1 hk).resolve_left fun hself => ?_
          cases c with
          | none => cases hself.2
          | some c =>
            cases c with
            | unparsable expected => exact hc ⟨expected, rfl⟩
            | _ => cases hself.2
        have spans : Additive n (Spans n Accounted) := additive_spans
        refine meets_apply_of_parts spans hab inserts inside
          (fun m hm => ih m hm (child_le m hm) fun k hk hk' => ?_)
          (fun i j hai hij hjb hgap => .tokens (lexed i j) (length_tokensIn (by omega))
            fun k hik hkj => ?_)
          fun ss hss => meets_build_spans hss fun expected he => hc ⟨expected, he⟩
        · have := bounds m hm
          exact (held k (by omega) (by omega)).imp_right (inside.holds_of_anyHolds hm hk hk')
        · refine (held k (by omega) (by omega)).resolve_right fun hk => ?_
          obtain ⟨m, hm, hmk⟩ := anyHolds_iff.1 hk
          have hbounds := (children m hm).bounds_of_holds hmk
          have := hgap m hm
          omega
    · rw [apply, if_pos (by omega), show a = b by omega]
      exact meets_newMarkers additive_spans b is

/-! ## 2. Traces -/

variable {t : Tables} {k : Nat}

/-- A token that is given up with traces is given up without them. -/
theorem TracedAll.anyHolds_isUnparsable {ms ms' : List Match} (h : TracedAll t ms ms')
    (hms : anyHolds isUnparsable k ms' = true) : anyHolds isUnparsable k ms = true := by
  induction h with
  | nil => exact hms
  | same _ _ ihInside ihRest =>
    rw [anyHolds_cons, Bool.or_eq_true, holds_iff] at hms ⊢
    exact hms.imp (fun h => h.imp (fun hself => hself) ihInside) ihRest
  | around _ _ _ ihInside ihRest =>
    rw [anyHolds_cons, Bool.or_eq_true, holds_iff] at hms ⊢
    exact hms.imp (fun h => .inr (ihInside (h.resolve_left fun hself => by cases hself.2))) ihRest
  | among _ _ _ ihInside ihRest =>
    rw [anyHolds_cons, Bool.or_eq_true, holds_iff] at hms
    rw [anyHolds_append, Bool.or_eq_true]
    exact hms.imp (fun h => ihInside (h.resolve_left fun hself => by cases hself.2)) ihRest

theorem Traced.isUnparsable_holds {m m' : Match} (h : Traced t m m')
    (hm : m'.holds isUnparsable k = true) : m.holds isUnparsable k = true := by
  have all := h.single.anyHolds_isUnparsable (k := k)
  simpa [hm] using all

end QueryLint.Match

namespace QueryLint

open Segment

/-- Grammars in brackets that may leave code over put the brackets into a segment. -/
def Tables.LaxBracketsPersist (t : Tables) : Prop :=
  ∀ id, t.isLax id = true → t.parameter id 2 ≠ 0

namespace Parser

variable (p : Parser) (tokens : List Segment)

/-- The match of the grammar of a file, with traces of what was taken as it is. -/
def tracedMatch : Match :=
  (p.matchAlone (p.context tokens).traced (p.firstCode tokens) (p.lastCode tokens)
    p.dialect.root).1

/-- A terminal takes a token, or a grammar that takes any code does. -/
def Takes (k : Nat) : Prop := (p.tracedMatch tokens).holds p.dialect.tables.isClaim k = true

/-- A token is left over by a lax grammar in brackets: it only stands between the brackets. -/
def LeavesOver (k : Nat) : Prop :=
  (∃ id, p.dialect.tables.isLax id = true) ∧
    (p.tracedMatch tokens).holds (Match.bares k) k = true

/-- A token that is no code, or that was taken or left over. -/
def Places (k : Nat) : Prop :=
  (p.context tokens).isCodeAt k = true → p.Takes tokens k ∨ p.LeavesOver tokens k

variable {p tokens} {n : Nat} {Accounted : Nat → Prop}

/-! ## 3. The tree of a file -/

/-- What follows the match of a file is given up from the next code on. -/
theorem meets_unmatched_spans {a : Nat} {ts : List Segment} (h : IsLexed n ts)
    (hall : ∀ j t, ts[j]? = some t → t.isCode = false → Accounted (a + j)) :
    Meets (n ≤ ·) (unmatched ts) fun ss => Spans n Accounted a (a + ts.length) ss := by
  have lexed_blank := h.sublist (List.takeWhile_sublist (!·.isCode))
  have lexed_rest := h.sublist (List.dropWhile_sublist (!·.isCode))
  have whole : ts.takeWhile (!·.isCode) ++ ts.dropWhile (!·.isCode) = ts :=
    List.takeWhile_append_dropWhile
  have blank : Spans n Accounted a (a + (ts.takeWhile (!·.isCode)).length)
      (ts.takeWhile (!·.isCode)) := by
    refine .tokens lexed_blank (by omega) fun k hk hk' => ?_
    obtain ⟨j, rfl⟩ := Nat.exists_eq_add_of_le hk
    have hj : j < (ts.takeWhile (!·.isCode)).length := by omega
    obtain ⟨t, ht⟩ : ∃ t, (ts.takeWhile (!·.isCode))[j]? = some t :=
      ⟨_, List.getElem?_eq_getElem hj⟩
    have hcode := List.all_eq_true.1 List.all_takeWhile t (List.mem_of_getElem? ht)
    have hsame : ts[j]? = some t := by rw [← ht, ← List.getElem?_append_left hj, whole]
    exact hall j t hsame (by simpa using hcode)
  have length := congrArg List.length whole
  rw [List.length_append] at length
  unfold unmatched
  dsimp only
  split
  · next hrest =>
    rw [hrest, List.length_nil, Nat.add_zero] at length
    rw [← length]
    exact .pure blank
  · next hrest =>
    have pos : 0 < (ts.dropWhile (!·.isCode)).length :=
      List.length_pos_of_ne_nil hrest
    have given : Spans n (fun _ => True) (a + (ts.takeWhile (!·.isCode)).length) (a + ts.length)
        (ts.dropWhile (!·.isCode)) := .tokensGivenUp lexed_rest (by omega)
    have node (expected : Option String) : Meets (n ≤ ·) (unparsable _ expected) fun s =>
        Spans n Accounted (a + (ts.takeWhile (!·.isCode)).length) (a + ts.length) [s] :=
      meets_unparsable_spans (by omega) given expected
    exact (node _).bind fun s hs => .pure (blank.append (by omega) (by omega) hs)

/-- The code of a file spans its tokens if what its match does not give up is accounted for. -/
theorem meets_code_spans (h : IsLexed n tokens) {start stop : Nat} {m : Match}
    (hm : m.Tidy True) (hstart : m.start = start) (hstop : m.stop ≤ stop)
    (hlt : start < stop) (hsize : stop ≤ tokens.length)
    (hblank : ∀ k, (p.context tokens).isCodeAt k = false → Accounted k)
    (hall : ∀ k, m.start ≤ k → k < m.stop → Accounted k ∨ m.holds Match.isUnparsable k = true) :
    Meets (n ≤ ·) (p.code tokens start stop m) fun ss => Spans n Accounted start stop ss := by
  have hle := hm.start_le_stop
  have between (a : Nat) : IsLexed n ((tokens.take stop).drop a) :=
    h.sublist ((List.drop_sublist _ _).trans (List.take_sublist _ _))
  have length (a : Nat) : ((tokens.take stop).drop a).length = stop - a := by
    rw [List.length_drop, List.length_take, Nat.min_eq_left hsize]
  unfold code
  dsimp only
  refine .ite (fun _ => ?_) fun _ => ?_
  · rw [show max m.stop start = m.stop by omega]
    have after : Meets (n ≤ ·) (unmatched ((tokens.take stop).drop m.stop)) fun ss =>
        Spans n Accounted m.stop stop ss := by
      have rest := meets_unmatched_spans (a := m.stop) (between m.stop) fun j t ht hcode => by
        refine hblank _ ?_
        rw [List.getElem?_drop, List.getElem?_take] at ht
        split at ht
        · rw [isCodeAt_context, ht]
          exact hcode
        · cases ht
      rwa [length, Nat.add_sub_cancel' hstop] at rest
    refine (Match.meets_apply_spans h hm (by simpa using Nat.le_trans hstop hsize) hall).bind
      fun inner hinner => after.bind fun rest hrest => .pure ?_
    rw [← hstart]
    exact hinner.append hle hstop hrest
  · exact (meets_unparsable_spans hlt (.tokensGivenUp (between start) (length start)) _).bind
      fun s hs => .pure hs

variable (p tokens) in
/-- The tree of a file spans its tokens if what the match of the file does not give up is accounted
for. -/
theorem meets_parse_spans (h : IsLexed n tokens) (hm : (p.rootMatch tokens).Tidy True)
    (hstart : (p.rootMatch tokens).start = p.firstCode tokens)
    (hstop : (p.rootMatch tokens).stop ≤ p.lastCode tokens)
    (hblank : ∀ k, (p.context tokens).isCodeAt k = false → Accounted k)
    (hall : ∀ k, (p.rootMatch tokens).start ≤ k → k < (p.rootMatch tokens).stop →
      Accounted k ∨ (p.rootMatch tokens).holds Match.isUnparsable k = true) :
    Meets (n ≤ ·) (p.parse tokens) fun r =>
      Spans n Accounted 0 tokens.length [r.tree] ∧
        (r.errors = [] → ∀ k < tokens.length, Accounted k) := by
  have hfirst : p.firstCode tokens ≤ p.lastCode tokens := firstCode_le_lastCode
  have hlast : p.lastCode tokens ≤ tokens.length := lastCode_le
  have size : (p.context tokens).size = tokens.length := size_context
  -- there is no code before the first code, and none from the last code on
  have hbefore (k : Nat) (hk : k < p.firstCode tokens) : Accounted k :=
    hblank k (MatchContext.not_isCodeAt_of_lt_skipToCode (Nat.zero_le k) hk)
  have hafter (k : Nat) (hk : p.lastCode tokens ≤ k) (hlt : k < tokens.length) : Accounted k :=
    hblank k (MatchContext.not_isCodeAt_of_trimToCode_le hk (by omega))
  rw [parse_eq]
  refine .ite (fun hempty => ?_) fun hcode => ?_
  · have all (k : Nat) (hk : k < tokens.length) : Accounted k := by
      by_cases hbound : k < p.firstCode tokens
      · exact hbefore k hbound
      · exact hafter k (by omega) hk
    have spans : Spans n Accounted 0 tokens.length tokens :=
      .tokens h rfl fun k _ hk => all k hk
    exact (meets_branch_spans _ rfl (by simp) spans).bind fun s hs => .pure ⟨hs, fun _ => all⟩
  · have before : Spans n Accounted 0 (p.firstCode tokens) (tokens.take (p.firstCode tokens)) :=
      .tokens (h.sublist (List.take_sublist _ _)) (by rw [List.length_take]; omega)
        fun k _ hk => hbefore k hk
    have after : Spans n Accounted (p.lastCode tokens) tokens.length
        (tokens.drop (p.lastCode tokens)) :=
      .tokens (h.sublist (List.drop_sublist _ _)) List.length_drop hafter
    refine (meets_code_spans h hm hstart hstop (by omega) hlast hblank hall).bind
      fun code hcode => ?_
    have whole := (before.append (Nat.zero_le _) hfirst hcode).append (by omega) hlast after
    refine (meets_branch_spans _ rfl (by simp) whole).bind fun tree htree => .pure ⟨htree, ?_⟩
    exact fun hnone k hk => htree.accounted hnone k (Nat.zero_le k) hk

/-! ## 4. Code is taken or given up -/

/-- The match with traces is the match of the file but for the traces. -/
theorem traced_tracedMatch :
    Match.Traced p.dialect.tables (p.rootMatch tokens) (p.tracedMatch tokens) :=
  (MatchContext.traced_matchGrammar (c := p.context tokens) .initial (p.maxDepth + 1) [] (p.lastCode tokens)
    (p.firstCode tokens) p.dialect.root).1

theorem places_of_not_isCodeAt {k : Nat} (h : (p.context tokens).isCodeAt k = false) :
    p.Places tokens k := by
  intro hcode
  rw [h] at hcode
  cases hcode

/-- Each token between the ends of the match of a file is no code, or was taken, or could not be
placed, or is left over in lax brackets. -/
theorem places_or_holds (hexact : (p.context tokens).ExactBrackets)
    (hprompt : p.dialect.tables.IsPrompt) (hpersist : p.dialect.tables.LaxBracketsPersist) {k : Nat}
    (hstart : (p.rootMatch tokens).start ≤ k) (hstop : k < (p.rootMatch tokens).stop) :
    p.Places tokens k ∨ (p.rootMatch tokens).holds Match.isUnparsable k = true := by
  obtain ⟨lax, hlax⟩ : ∃ lax : Bool, lax = true ↔ ∃ id, p.dialect.tables.isLax id = true := by
    classical exact ⟨decide _, decide_eq_true_iff⟩
  have settling := MatchContext.settling_matchGrammar (c := (p.context tokens).traced)
    hexact.traced hprompt
    (fun id hid => Tables.segmentType?_traced_of_takesAsIs (t := p.dialect.tables) hid)
    (fun id hid => ⟨hlax.2 ⟨id, hid⟩, fun opening closing persists hshape => by
      rw [(GrammarBook.parameters_of_shape hshape).2]
      exact bne_iff_ne.2 (hpersist id hid)⟩) (p.maxDepth + 1)
  have covers := (settling.2 [] (p.lastCode tokens) (p.firstCode tokens) p.dialect.root {}
    .initial).1
  by_cases hcode : (p.context tokens).isCodeAt k = true
  · rw [start_rootMatch hprompt] at hstart
    rw [traced_tracedMatch.stop_eq] at hstop
    have held := covers k hstart hstop hcode
    rw [Match.anyHolds_cons, Match.anyHolds_nil, Bool.or_false] at held
    rcases Tables.holds_of_settles (m := p.tracedMatch tokens) held with h | h | ⟨h, hbare⟩
    · exact .inl fun _ => .inl h
    · exact .inr (traced_tracedMatch.isUnparsable_holds h)
    · exact .inl fun _ => .inr ⟨hlax.1 h, hbare⟩
  · exact .inl (places_of_not_isCodeAt (by simpa using hcode))

/-! ## 5. Two dialects -/

/-- A keyword in brackets, after which anything may be left over. -/
def laxBook : GrammarBook where
  root := "Root"
  definitions := [
    .grammar "Root" ((Grammar.bracketed [.keyword "a"]).mode .greedyOnceStarted),
    .grammar "Start" (.string "(" "start_bracket"),
    .grammar "End" (.string ")" "end_bracket")]
  brackets := [⟨"round", "Start", "End", true⟩]

/-! ## 6. All code -/

variable {book : GrammarBook}

variable (p tokens) in
/-- Each code of a file is inside something unparsable, or it was taken by a terminal or by a grammar
that takes any code, or a lax grammar in brackets left it over. So in dialects without such grammars
all code was taken if there are no errors. -/
theorem parse_accountsForCode (hbook : book.compile = .ok p.dialect.tables)
    (hclose : p.dialect.tables.ClosersTakeOneToken) (hprompt : p.dialect.tables.IsPrompt)
    (hpersist : p.dialect.tables.LaxBracketsPersist) (hlex : IsLexed n tokens) :
    Match.Traced p.dialect.tables (p.rootMatch tokens) (p.tracedMatch tokens) ∧
      ((p.parse tokens).run n).1.tree.KeepsTokens n tokens ∧
      ((p.parse tokens).run n).1.tree.AccountsForCode n
        (fun k => p.Takes tokens k ∨ p.LeavesOver tokens k) ∧
      (((p.parse tokens).run n).1.errors = [] → ∀ k t, tokens[k]? = some t → t.isCode = true →
        p.Takes tokens k ∨ p.LeavesOver tokens k) := by
  have hexact : (p.context tokens).ExactBrackets :=
    GrammarBook.exactBrackets_of_compile hbook hclose rfl
  have claims : (p.context tokens).Claims True False (p.lastCode tokens) (p.firstCode tokens)
      (p.rootMatch tokens) := claims_rootMatch (fun _ => hexact) False.elim
  have hstart : (p.rootMatch tokens).start = p.firstCode tokens := start_rootMatch hprompt
  have hfirst : p.firstCode tokens ≤ p.lastCode tokens := firstCode_le_lastCode
  have hstop : (p.rootMatch tokens).stop ≤ p.lastCode tokens := by
    have := claims.stop_le
    omega
  obtain ⟨spans, all⟩ := ((meets_parse_spans p tokens hlex claims.tidy hstart hstop
    (fun k => places_of_not_isCodeAt) fun k => places_or_holds hexact hprompt hpersist) n
      (Nat.le_refl n)).1
  have kept := ((meets_parse p tokens hlex hexact) n (Nat.le_refl n)).1.keepsTokens
  rw [resumed_eq_firstCode_iff.2 fun _ => hstart, List.take_append_drop] at kept
  have code (k : Nat) (t : Segment) (ht : tokens[k]? = some t) (hcode : t.isCode = true)
      (h : p.Places tokens k) : p.Takes tokens k ∨ p.LeavesOver tokens k := by
    refine h ?_
    rw [isCodeAt_context, ht]
    exact hcode
  refine ⟨traced_tracedMatch, kept, spans.accountsForCode kept hlex code, ?_⟩
  intro hnone k t ht hcode
  exact code k t ht hcode (all hnone k (List.getElem?_eq_some_iff.1 ht).1)

/-- A keyword and any token are taken, and what follows them is not. -/
theorem parse_accountsForCode_round :
    (((ofBook roundBook).parse (wordTokens 0 0 ["a", "b", "c"])).run 3).1.tree.AccountsForCode 3
      fun k => (ofBook roundBook).Takes (wordTokens 0 0 ["a", "b", "c"]) k ∨
        (ofBook roundBook).LeavesOver (wordTokens 0 0 ["a", "b", "c"]) k := by
  have compiled : roundBook.compile.isOk = true := by decide +kernel
  have terminal : (tablesOf roundBook).ClosersAreTerminal := by decide +kernel
  have prompt : (tablesOf roundBook).IsPrompt :=
    Tables.forall_id (t := tablesOf roundBook) (by decide +kernel) fun id h => by simp [h]
  have persist : (tablesOf roundBook).LaxBracketsPersist :=
    Tables.forall_id (t := tablesOf roundBook) (by decide +kernel) fun id h => by
      simp [Tables.isLax, h]
  have lexed : IsLexed 3 (wordTokens 0 0 ["a", "b", "c"]) := ⟨by decide, by decide, by decide⟩
  exact (parse_accountsForCode (ofBook roundBook) (wordTokens 0 0 ["a", "b", "c"])
    (compile_eq_ofBook compiled) (Tables.closersTakeOneToken_of_terminal terminal) prompt persist
    lexed).2.2.1

/-- What a lax grammar in brackets leaves over is neither taken nor inside something unparsable, and
there is no error. -/
theorem parse_leaves_code_lax :
    laxBook.compile = .ok (ofBook laxBook).dialect.tables ∧
      (ofBook laxBook).dialect.tables.ClosersTakeOneToken ∧
      (ofBook laxBook).dialect.tables.IsPrompt ∧
      IsLexed 3 (wordTokens 0 0 ["(", "b", ")"]) ∧
      (((ofBook laxBook).parse (wordTokens 0 0 ["(", "b", ")"])).run 3).1.errors = [] ∧
      ¬ (((ofBook laxBook).parse (wordTokens 0 0 ["(", "b", ")"])).run 3).1.tree.AccountsForCode 3
        ((ofBook laxBook).Takes (wordTokens 0 0 ["(", "b", ")"])) := by
  have compiled : laxBook.compile.isOk = true := by decide +kernel
  have terminal : (tablesOf laxBook).ClosersAreTerminal := by decide +kernel
  have prompt : (tablesOf laxBook).IsPrompt :=
    Tables.forall_id (t := tablesOf laxBook) (by decide +kernel) fun id h => by simp [h]
  have lexed : IsLexed 3 (wordTokens 0 0 ["(", "b", ")"]) := ⟨by decide, by decide, by decide⟩
  -- what the brackets keep in the memo is the same as without it
  have root : (ofBook laxBook).rootMatch (wordTokens 0 0 ["(", "b", ")"]) = _ :=
    MatchContext.run_unmemoized_of_sincere .empty (by decide +kernel)
  have traced : (ofBook laxBook).tracedMatch (wordTokens 0 0 ["(", "b", ")"]) = _ :=
    MatchContext.run_unmemoized_of_sincere .empty (by decide +kernel)
  refine ⟨compile_eq_ofBook compiled, Tables.closersTakeOneToken_of_terminal terminal, prompt,
    lexed, ?_, fun h => ?_⟩
  · rw [parse_eq, root, ← List.isEmpty_iff]
    decide +kernel
  · have left : ((((((ofBook laxBook).parse (wordTokens 0 0 ["(", "b", ")"])).run 3).1.tree
        ).judgedLeaves.filter fun x => !isInserted 3 x.1)[1]?).any
          (fun x => x.1.isCode && !x.2) = true := by
      rw [parse_eq, root]
      decide +kernel
    have untaken : ¬ (ofBook laxBook).Takes (wordTokens 0 0 ["(", "b", ")"]) 1 := by
      rw [Takes, traced]
      decide +kernel
    obtain ⟨⟨leaf, given⟩, hleaf⟩ := Option.isSome_iff_exists.1 (Option.isSome_of_any left)
    rw [hleaf, Option.any_some, Bool.and_eq_true, Bool.not_eq_true'] at left
    obtain ⟨hcode, rfl⟩ : leaf.isCode = true ∧ given = false := left
    exact (h 1 leaf false hleaf hcode).elim (fun hgiven => by cases hgiven) untaken

end Parser

end QueryLint
