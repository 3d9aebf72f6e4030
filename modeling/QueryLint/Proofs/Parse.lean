import QueryLint.Parse
import QueryLint.Proofs.Grammar.Brackets
import QueryLint.Proofs.Match.Apply

/-!
QueryLint.Proofs.Parse — what parsing does with the tokens.

The tree of a file is made of the tokens before the first code, the segments of the match of the
file's grammar, what follows that match, and the tokens after the last code. All of these carry
their tokens. Nothing stands between the first code and the place where the match starts, so tokens
there are lost; they are lost in no other way.

The tree of a file reaches over all tokens that parsing takes up, and over no others. Nothing is
known of the brackets here: a tree that holds a token twice still lies where its tokens lie.

* `Parser.firstCode`, `Parser.rootMatch`, `Parser.resumed` — where the tree takes up the tokens.
* `Parser.Follows` — what can be asked of segments in place of tokens, and so of the code of a file.
* `Parser.meets_parse` — the tree carries all tokens but those that the match passes over.
* `Parser.parse_keepsTokens_iff` — when parsing keeps all tokens. It does so where no greedy
  repetition needs two parts.
* `Parser.taken` — the tokens that parsing takes up.
* `Parser.meets_parse_occupies` — the tree lies where they lie.
-/

namespace QueryLint

open Segment

namespace Parser

variable (p : Parser) (tokens : List Segment)

/-- The place of the first code. -/
def firstCode : Nat := (p.context tokens).skipToCode 0 (p.context tokens).size

/-- The place after the last code. -/
def lastCode : Nat := (p.context tokens).trimToCode (p.context tokens).size (p.firstCode tokens)

/-- The match of the grammar of a file. -/
def rootMatch : Match :=
  (p.matchAlone (p.context tokens) (p.firstCode tokens) (p.lastCode tokens) p.dialect.root).1

/-- The place where the tree goes on after the tokens before the first code. -/
def resumed : Nat :=
  if p.firstCode tokens ≠ p.lastCode tokens ∧ (p.rootMatch tokens).isMatch = true then
    (p.rootMatch tokens).start
  else p.firstCode tokens

/-- The steps of parsing by the places of code and the match of the file. -/
theorem parse_eq :
    p.parse tokens =
      if p.firstCode tokens = p.lastCode tokens then return ⟨← Segment.file tokens, [], []⟩
      else do
        let code ← p.code tokens (p.firstCode tokens) (p.lastCode tokens) (p.rootMatch tokens)
        let tree ← Segment.file
          (tokens.take (p.firstCode tokens) ++ code ++ tokens.drop (p.lastCode tokens))
        return ⟨tree, unparsableErrors tree, (p.matchAlone (p.context tokens)
          (p.firstCode tokens) (p.lastCode tokens) p.dialect.root).2.notes⟩ := rfl

/-! ## 1. Places -/

variable {p tokens}

@[simp] theorem size_context : (p.context tokens).size = tokens.length := by
  simp [context, MatchContext.ofSegments, MatchContext.size]

theorem isCodeAt_context (k : Nat) :
    (p.context tokens).isCodeAt k = (tokens[k]?).any (·.isCode) := by
  have token : (p.context tokens).tokens[k]? = (tokens[k]?).map TokenView.ofSegment := by
    simp [context, MatchContext.ofSegments]
  rw [MatchContext.isCodeAt, token]
  cases tokens[k]? <;> rfl

theorem firstCode_le : p.firstCode tokens ≤ tokens.length := by
  have := MatchContext.skipToCode_le (c := p.context tokens) 0 (p.context tokens).size
  rw [size_context, Nat.max_zero] at this
  simpa [firstCode] using this

theorem isCodeAt_firstCode (h : p.firstCode tokens < tokens.length) :
    (p.context tokens).isCodeAt (p.firstCode tokens) = true := by
  have inside : p.firstCode tokens < (p.context tokens).size := by rwa [size_context]
  exact MatchContext.isCodeAt_skipToCode inside

theorem firstCode_le_lastCode : p.firstCode tokens ≤ p.lastCode tokens :=
  MatchContext.le_trimToCode (by rw [size_context]; exact firstCode_le)

theorem lastCode_le : p.lastCode tokens ≤ tokens.length := by
  unfold lastCode
  rw [size_context]
  exact MatchContext.trimToCode_le _ _

/-- The first code is code, if there is any. -/
theorem isCodeAt_firstCode_of_ne (h : p.firstCode tokens ≠ p.lastCode tokens) :
    (p.context tokens).isCodeAt (p.firstCode tokens) = true := by
  have hle : p.firstCode tokens ≤ p.lastCode tokens := firstCode_le_lastCode
  have hlast : p.lastCode tokens ≤ tokens.length := lastCode_le
  exact isCodeAt_firstCode (by omega)

/-- Behind the last code there is a token, if the last token is not code. -/
theorem lastCode_lt {words : List Segment} {last : Segment}
    (htokens : tokens = words ++ [last]) (hcode : last.isCode = false)
    (hfirst : p.firstCode tokens < tokens.length) : p.lastCode tokens < tokens.length := by
  have notCode : (p.context tokens).isCodeAt (tokens.length - 1) = false := by
    rw [isCodeAt_context, htokens]
    simp [hcode]
  unfold lastCode
  rw [size_context]
  exact MatchContext.trimToCode_lt hfirst notCode

/-- The match of the grammar of a file is sound. -/
theorem claims_rootMatch {apart prompt : Prop}
    (hapart : apart → (p.context tokens).ExactBrackets)
    (hprompt : prompt → p.dialect.tables.IsPrompt) :
    MatchContext.Claims (p.context tokens) apart prompt (p.lastCode tokens) (p.firstCode tokens)
      (p.rootMatch tokens) :=
  (MatchContext.sound_matchGrammar hapart hprompt (p.maxDepth + 1) [] (p.lastCode tokens)
    (p.firstCode tokens) p.dialect.root {} .initial).1 (.inl firstCode_le_lastCode)

theorem firstCode_le_resumed : p.firstCode tokens ≤ p.resumed tokens := by
  unfold resumed
  split
  · exact (claims_rootMatch False.elim False.elim).le_start
  · exact Nat.le_refl _

theorem resumed_le_lastCode : p.resumed tokens ≤ p.lastCode tokens := by
  have claims : (p.context tokens).Claims False False (p.lastCode tokens) (p.firstCode tokens)
      (p.rootMatch tokens) := claims_rootMatch False.elim False.elim
  have := claims.start_le_stop
  have := claims.stop_le
  have hlast : p.firstCode tokens ≤ p.lastCode tokens := firstCode_le_lastCode
  unfold resumed
  split <;> omega

/-- What is taken up from the match on: up to the last code, and after it. -/
theorem drop_append_drop :
    (tokens.take (p.lastCode tokens)).drop (p.resumed tokens) ++ tokens.drop (p.lastCode tokens) =
      tokens.drop (p.resumed tokens) := by
  rw [← List.drop_append_of_le_length, List.take_append_drop]
  rw [List.length_take, Nat.min_eq_left lastCode_le]
  exact resumed_le_lastCode

/-! ## 2. Tokens in a tree -/

theorem tokensIn_toArray (a b : Nat) :
    Match.tokensIn tokens.toArray a b = (tokens.take b).drop a := by
  rw [Match.tokensIn, Array.toList_extract, List.drop_take]

/-- What can be asked of segments in place of tokens, if the tokens are so themselves, if it adds up
along them, and if it stays when some of them, from code on, are made unparsable. -/
structure Follows (n : Nat) (tokens : List Segment) (C : List Segment → List Segment → Prop) :
    Prop where
  tokens : ∀ {ts : List Segment}, ts.Sublist tokens → C ts ts
  append : ∀ {ss ts us vs : List Segment}, C ss ts → C us vs → C (ss ++ us) (ts ++ vs)
  unparsable : ∀ {t : Segment} {ts : List Segment} (expected : Option String), t.isCode = true →
    C (t :: ts) (t :: ts) → Meets (n ≤ ·) (Segment.unparsable (t :: ts) expected) fun s =>
      C [s] (t :: ts)

theorem Follows.sublist {n : Nat} {ts : List Segment} {C : List Segment → List Segment → Prop}
    (h : Follows n tokens C) (hts : ts.Sublist tokens) : Follows n ts C :=
  { h with tokens := fun hus => h.tokens (hus.trans hts) }

/-- What follows the match of a file is as is asked in place of its tokens. -/
theorem meets_unmatched_of {n : Nat} {C : List Segment → List Segment → Prop}
    (hC : Follows n tokens C) : Meets (n ≤ ·) (unmatched tokens) fun ss => C ss tokens := by
  have blank := hC.tokens (List.takeWhile_sublist (!·.isCode))
  have rest := hC.tokens (List.dropWhile_sublist (!·.isCode))
  have whole : tokens.takeWhile (!·.isCode) ++ tokens.dropWhile (!·.isCode) = tokens :=
    List.takeWhile_append_dropWhile
  unfold unmatched
  dsimp only
  split
  · next hrest =>
    rw [hrest, List.append_nil] at whole
    rw [whole] at blank ⊢
    exact .pure blank
  · next hrest =>
    obtain ⟨t, more, heq⟩ := List.exists_cons_of_ne_nil hrest
    have code : t.isCode = true := by
      have first := List.head_dropWhile_not (fun s : Segment => !s.isCode) hrest
      simpa [heq] using first
    rw [heq] at rest whole ⊢
    refine (hC.unparsable _ code rest).bind fun s hs => .pure ?_
    have both := hC.append blank hs
    rwa [whole] at both

/-- The code of a file is as is asked in place of its tokens from where the match of the file
starts, if the segments of the match are. -/
theorem meets_code_of {n start stop : Nat} {m : Match} {C : List Segment → List Segment → Prop}
    (hC : Follows n ((tokens.take stop).drop (if m.isMatch then m.start else start)) C)
    (hs : start ≤ m.start) (hm : m.start ≤ m.stop) (he : m.stop ≤ stop) (hlt : start < stop)
    (hcode : (p.context tokens).isCodeAt start = true)
    (matched : m.isMatch = true → Meets (n ≤ ·) (m.apply tokens.toArray) fun ss =>
      C ss (Match.tokensIn tokens.toArray m.start m.stop)) :
    Meets (n ≤ ·) (p.code tokens start stop m) fun ss =>
      C ss ((tokens.take stop).drop (if m.isMatch then m.start else start)) := by
  unfold code
  dsimp only
  split
  · next hmatch =>
    rw [if_pos hmatch] at hC
    have whole : Match.tokensIn tokens.toArray m.start m.stop ++
        (tokens.take stop).drop (max m.stop start) = (tokens.take stop).drop m.start := by
      rw [Nat.max_eq_left (by omega), ← tokensIn_toArray, ← tokensIn_toArray,
        Match.tokensIn_append hm he]
    have rest : Follows n ((tokens.take stop).drop (max m.stop start)) C :=
      hC.sublist (whole ▸ List.sublist_append_right _ _)
    refine (matched hmatch).bind fun inner hinner =>
      (meets_unmatched_of rest).bind fun rest hrest => .pure ?_
    have both := hC.append hinner hrest
    rwa [whole] at both
  · next hmatch =>
    rw [if_neg hmatch] at hC
    rw [isCodeAt_context] at hcode
    obtain ⟨t, ht, code⟩ := (Option.any_eq_true _ _).1 hcode
    obtain ⟨rest, heq⟩ : ∃ rest, (tokens.take stop).drop start = t :: rest := by
      have first : ((tokens.take stop).drop start).head? = some t := by
        rw [List.head?_drop, List.getElem?_take_of_lt hlt, ht]
      exact List.head?_eq_some_iff.1 first
    have all := hC.tokens (List.Sublist.refl _)
    rw [heq] at all ⊢
    exact (hC.unparsable _ code all).bind fun s hs => .pure hs

theorem follows_carries {n : Nat} (h : IsLexed n tokens) : Follows n tokens (Carries n) where
  tokens hts := (h.sublist hts).carries
  append := .append
  unparsable _ _ hts := meets_branch _ rfl hts

/-- Where the tree goes on, if there is code. -/
theorem resumed_of_code (h : p.firstCode tokens ≠ p.lastCode tokens) :
    p.resumed tokens =
      if (p.rootMatch tokens).isMatch then (p.rootMatch tokens).start else p.firstCode tokens := by
  simp [resumed, h]

variable (p tokens) in
/-- The tree of a file is as is asked of a file over the tokens that parsing takes up, if the
segments of the match are as is asked in place of its tokens. -/
theorem meets_parse_of {n : Nat} {C : List Segment → List Segment → Prop} {D : Segment → Prop}
    (hC : Follows n tokens C)
    (matched : p.firstCode tokens ≠ p.lastCode tokens → (p.rootMatch tokens).isMatch = true →
      Meets (n ≤ ·) ((p.rootMatch tokens).apply tokens.toArray) fun ss =>
        C ss (Match.tokensIn tokens.toArray (p.rootMatch tokens).start (p.rootMatch tokens).stop))
    (file : ∀ ss, C ss (tokens.take (p.firstCode tokens) ++ tokens.drop (p.resumed tokens)) →
      Meets (n ≤ ·) (Segment.file ss) D) : Meets (n ≤ ·) (p.parse tokens) fun r => D r.tree := by
  have claims : (p.context tokens).Claims False False (p.lastCode tokens) (p.firstCode tokens)
      (p.rootMatch tokens) := claims_rootMatch False.elim False.elim
  have hlast : p.firstCode tokens ≤ p.lastCode tokens := firstCode_le_lastCode
  have before := hC.tokens (List.take_sublist (p.firstCode tokens) tokens)
  have after := hC.tokens (List.drop_sublist (p.lastCode tokens) tokens)
  rw [parse_eq]
  split
  · next hempty =>
    have all := hC.tokens (List.Sublist.refl tokens)
    refine (file tokens ?_).bind fun s hs => .pure hs
    rwa [resumed, if_neg (by simp [hempty]), List.take_append_drop]
  · next hcode =>
    have stop_le := claims.stop_le
    refine (meets_code_of (hC.sublist ((List.drop_sublist _ _).trans (List.take_sublist _ _)))
      claims.le_start claims.start_le_stop (by omega) (by omega) (isCodeAt_firstCode_of_ne hcode)
      (matched hcode)).bind fun inner hinner => ?_
    rw [← resumed_of_code hcode] at hinner
    have all := hC.append before (hC.append hinner after)
    rw [drop_append_drop, ← List.append_assoc] at all
    exact (file _ all).bind fun s hs => .pure hs

variable (p tokens) in
/-- The tree of a file carries the tokens before the first code and those from where the match of
the file starts. -/
theorem meets_parse {n : Nat} (h : IsLexed n tokens) (hb : (p.context tokens).ExactBrackets) :
    Meets (n ≤ ·) (p.parse tokens) fun r =>
      Carries n [r.tree]
        (tokens.take (p.firstCode tokens) ++ tokens.drop (p.resumed tokens)) :=
  have claims := claims_rootMatch (p := p) (fun _ : True => hb) False.elim
  meets_parse_of p tokens (D := fun s => Carries n [s] _) (follows_carries h)
    (fun _ _ => Match.meets_apply h claims.tidy) fun _ => meets_branch _ rfl

/-! ## 3. All tokens -/

theorem resumed_eq_firstCode_iff :
    p.resumed tokens = p.firstCode tokens ↔
      ((p.rootMatch tokens).isMatch = true → (p.rootMatch tokens).start = p.firstCode tokens) := by
  have claims : (p.context tokens).Claims False False (p.lastCode tokens) (p.firstCode tokens)
      (p.rootMatch tokens) := claims_rootMatch False.elim False.elim
  have hstart := claims.le_start
  have hle := claims.start_le_stop
  have hstop := claims.stop_le
  have hlast : p.firstCode tokens ≤ p.lastCode tokens := firstCode_le_lastCode
  unfold resumed
  split
  · next h => simp [h.2]
  · next h =>
    refine ⟨fun _ hm => ?_, fun _ => rfl⟩
    by_cases hempty : p.firstCode tokens = p.lastCode tokens
    · omega
    · exact absurd ⟨hempty, hm⟩ h

/-- The match of a file starts with the first code where no greedy repetition needs two parts. -/
theorem start_rootMatch (h : p.dialect.tables.IsPrompt) :
    (p.rootMatch tokens).start = p.firstCode tokens := by
  have claims : (p.context tokens).Claims False True (p.lastCode tokens) (p.firstCode tokens)
      (p.rootMatch tokens) := claims_rootMatch False.elim fun _ => h
  have hle : p.firstCode tokens ≤ p.lastCode tokens := firstCode_le_lastCode
  by_cases hlt : p.firstCode tokens < p.lastCode tokens
  · exact claims.start_eq trivial hlt
      (isCodeAt_firstCode (Nat.lt_of_lt_of_le hlt lastCode_le))
  · have := claims.le_start
    have := claims.start_le_stop
    have := claims.stop_le
    omega

/-- Tokens without a part of them are all tokens only if the part is empty. -/
theorem map_take_append_drop_eq_iff {a b : Nat} (hab : a ≤ b) (hb : b ≤ tokens.length) :
    (tokens.take a ++ tokens.drop b).map bare = tokens.map bare ↔ b = a := by
  constructor
  · intro h
    have := congrArg List.length h
    simp only [List.length_map, List.length_append, List.length_take, List.length_drop] at this
    omega
  · rintro rfl
    rw [List.take_append_drop]

/-! ## 4. Two dialects -/

/-- The tables of a book, if it compiles. -/
@[irreducible] def tablesOf (b : GrammarBook) : Tables :=
  match b.compile with
  | .ok t => t
  | .error _ => {}

theorem compile_eq_tablesOf {b : GrammarBook} (h : b.compile.isOk = true) :
    b.compile = .ok (tablesOf b) := by
  unfold tablesOf
  cases hb : b.compile with
  | ok t => rfl
  | error e => rw [hb] at h; cases h

/-- A parser with the tables of a book. -/
def ofBook (b : GrammarBook) : Parser :=
  { dialect := ⟨"", tablesOf b, [], [], []⟩, maxDepth := 8 }

theorem compile_eq_ofBook {b : GrammarBook} (h : b.compile.isOk = true) :
    b.compile = .ok (ofBook b).dialect.tables := compile_eq_tablesOf h

/-- Words of code one after the other, from an offset and an identity on. -/
def wordTokens (offset id : Nat) : List String → List Segment
  | [] => []
  | text :: rest =>
    let stop := offset + text.utf8ByteSize
    let span : Span := ⟨offset, stop, Nat.le_add_right _ _⟩
    Segment.mk ⟨SegmentKind.token text .ofCode none, "word", ["word"], id,
      some (.ofSpans span span ⟨1, offset + 1⟩ true), []⟩ [] :: wordTokens stop (id + 1) rest

/-- A keyword and any token after it, with round brackets declared. -/
def roundBook : GrammarBook where
  root := "Root"
  definitions := [
    .grammar "Root" (.seq [.keyword "a", .token]),
    .grammar "Start" (.string "(" "start_bracket"),
    .grammar "End" (.string ")" "end_bracket")]
  brackets := [⟨"round", "Start", "End", true⟩]

/-- A greedy repetition that needs two parts. -/
def eagerBook : GrammarBook where
  root := "Root"
  definitions := [.grammar "Root" (((Grammar.anyNumberOf [.keyword "a"]).atLeast 2).mode .greedy)]

/-! ## 5. Parsing keeps the tokens -/

variable {book : GrammarBook} {n : Nat} (p tokens)

/-- Parsing keeps the tokens before the first code and those from where the match of the file
starts, so it keeps all of them exactly if that match, where there is one, starts with the first
code. It does so in every dialect without greedy repetitions of two parts or more. -/
theorem parse_keepsTokens_iff (hbook : book.compile = .ok p.dialect.tables)
    (hclose : p.dialect.tables.ClosersTakeOneToken) (hlex : IsLexed n tokens) :
    ((p.parse tokens).run n).1.tree.KeepsTokens n
        (tokens.take (p.firstCode tokens) ++ tokens.drop (p.resumed tokens)) ∧
      (((p.parse tokens).run n).1.tree.KeepsTokens n tokens ↔
        ((p.rootMatch tokens).isMatch = true →
          (p.rootMatch tokens).start = p.firstCode tokens)) ∧
      (p.dialect.tables.IsPrompt → ((p.parse tokens).run n).1.tree.KeepsTokens n tokens) := by
  have exact_ := GrammarBook.exactBrackets_of_compile hbook hclose
    (rfl : (p.context tokens).tables = p.dialect.tables)
  have kept := ((meets_parse p tokens hlex exact_) n (Nat.le_refl n)).1.keepsTokens
  have resumed_le : p.resumed tokens ≤ tokens.length :=
    Nat.le_trans resumed_le_lastCode lastCode_le
  have cut := map_take_append_drop_eq_iff firstCode_le_resumed resumed_le
  have all (h : p.resumed tokens = p.firstCode tokens) :
      ((p.parse tokens).run n).1.tree.KeepsTokens n tokens := by
    rwa [h, List.take_append_drop] at kept
  refine ⟨kept, ⟨fun h => ?_, fun h => all (resumed_eq_firstCode_iff.2 h)⟩, fun hprompt => ?_⟩
  · exact resumed_eq_firstCode_iff.1 (cut.1 (kept.leaves.symm.trans h.leaves))
  · exact all (resumed_eq_firstCode_iff.2 fun _ => start_rootMatch hprompt)

/-- A strict grammar takes up the tokens where they start. -/
theorem parse_keepsTokens_round :
    (((ofBook roundBook).parse (wordTokens 0 0 ["a", "b"])).run 2).1.tree.KeepsTokens 2
      (wordTokens 0 0 ["a", "b"]) := by
  have compiled : roundBook.compile.isOk = true := by decide +kernel
  have terminal : (tablesOf roundBook).ClosersAreTerminal := by decide +kernel
  have lexed : IsLexed 2 (wordTokens 0 0 ["a", "b"]) := ⟨by decide, by decide, by decide⟩
  have starts : ((ofBook roundBook).rootMatch (wordTokens 0 0 ["a", "b"])).start =
      (ofBook roundBook).firstCode (wordTokens 0 0 ["a", "b"]) := by decide +kernel
  exact (parse_keepsTokens_iff (ofBook roundBook) (wordTokens 0 0 ["a", "b"])
    (compile_eq_ofBook compiled) (Tables.closersTakeOneToken_of_terminal terminal)
    lexed).2.1.2 fun _ => starts

/-- A greedy repetition that finds one part of two gives the part up, but goes on after it: the
first token is in no segment of the tree. -/
theorem parse_loses_tokens_eager :
    eagerBook.compile = .ok (ofBook eagerBook).dialect.tables ∧
      (ofBook eagerBook).dialect.tables.ClosersTakeOneToken ∧
      IsLexed 2 (wordTokens 0 0 ["a", "b"]) ∧
      ¬ (((ofBook eagerBook).parse (wordTokens 0 0 ["a", "b"])).run 2).1.tree.KeepsTokens 2
        (wordTokens 0 0 ["a", "b"]) := by
  have compiled : eagerBook.compile.isOk = true := by decide +kernel
  have terminal : (tablesOf eagerBook).ClosersAreTerminal := by decide +kernel
  have lexed : IsLexed 2 (wordTokens 0 0 ["a", "b"]) := ⟨by decide, by decide, by decide⟩
  have raw : (((ofBook eagerBook).parse (wordTokens 0 0 ["a", "b"])).run 2).1.tree.raw = "b" := by
    decide +kernel
  refine ⟨compile_eq_ofBook compiled, Tables.closersTakeOneToken_of_terminal terminal, lexed,
    fun h => ?_⟩
  have whole := h.raw
  rw [raw] at whole
  exact absurd whole (by decide)

end Parser

end QueryLint

namespace QueryLint

open Segment

namespace Parser

/-! ## 6. Where the tree lies -/

variable {p : Parser} {tokens : List Segment} {R : Position → Prop} {n : Nat}

variable (p tokens) in
/-- The tokens that parsing takes up: all but those between the first code and the match of the
file. -/
def taken : List Segment :=
  tokens.take (p.firstCode tokens) ++ tokens.drop (p.resumed tokens)

theorem follows_occupies (hR : Position.IsRegion R) {ts : List Segment}
    (h : Match.PlacedIn R ts) : Follows n ts (Occupies R) where
  tokens hts := (h.mono fun _ ht => hts.subset ht).occupies
  append := .append
  unparsable _ _ hts := meets_branch_occupies hR _ _ hts

theorem meets_branch_kind (k : SegmentKind) (type : String) (cs : List Segment) :
    Meets (n ≤ ·) (branch k type cs) fun s => s.kind = k :=
  meets_freshId.bind fun _ _ => .pure rfl

variable (p tokens) in
/-- The tree of a file lies where the tokens lie that parsing takes up. -/
theorem meets_parse_occupies (hR : Position.IsRegion R)
    (h : Match.PlacedIn R (p.taken tokens)) :
    Meets (n ≤ ·) (p.parse tokens) fun r =>
      Occupies R [r.tree] (p.taken tokens) ∧ r.tree.kind = .file := by
  have claims : (p.context tokens).Claims False False (p.lastCode tokens) (p.firstCode tokens)
      (p.rootMatch tokens) := claims_rootMatch False.elim False.elim
  have root (cs : List Segment) (hcs : Occupies R cs (p.taken tokens)) :
      Meets (n ≤ ·) (Segment.file cs) fun s =>
        Occupies R [s] (p.taken tokens) ∧ s.kind = .file :=
    (meets_branch_occupies hR _ _ hcs).and (meets_branch_kind _ _ cs)
  rw [parse_eq]
  split
  · next hempty =>
    have all : p.taken tokens = tokens := by
      rw [taken, resumed, if_neg (by simp [hempty]), List.take_append_drop]
    refine (root tokens ?_).bind fun s hs => .pure hs
    rw [all] at h ⊢
    exact h.occupies
  · next hcode =>
    have parts : p.taken tokens = tokens.take (p.firstCode tokens) ++
        ((tokens.take (p.lastCode tokens)).drop (p.resumed tokens) ++
          tokens.drop (p.lastCode tokens)) := by rw [drop_append_drop, taken]
    have before := (h.mono fun t (ht : t ∈ tokens.take (p.firstCode tokens)) => by
      rw [parts]; simp [ht]).occupies
    have after := (h.mono fun t (ht : t ∈ tokens.drop (p.lastCode tokens)) => by
      rw [parts]; simp [ht]).occupies
    have between := h.mono fun t
      (ht : t ∈ (tokens.take (p.lastCode tokens)).drop (p.resumed tokens)) => by
        rw [parts]; simp only [List.mem_append]; exact .inr (.inl ht)
    rw [resumed_of_code hcode] at between
    have hlast : p.firstCode tokens ≤ p.lastCode tokens := firstCode_le_lastCode
    have stop_le := claims.stop_le
    refine (meets_code_of (follows_occupies hR between) claims.le_start claims.start_le_stop
      (by omega) (by omega) (isCodeAt_firstCode_of_ne hcode) fun hmatch => ?_).bind fun inner hinner => ?_
    · have hlength : p.lastCode tokens ≤ tokens.length := lastCode_le
      refine Match.meets_apply_occupies hR claims.tidy (by simp only [List.size_toArray]; omega)
        (between.mono fun t ht => ?_)
      rw [if_pos hmatch, ← tokensIn_toArray]
      exact Match.tokensIn_subset (Nat.le_refl _) (by omega) t ht
    · rw [← resumed_of_code hcode] at hinner
      refine (root _ ?_).bind fun s hs => .pure hs
      rw [parts, List.append_assoc]
      exact before.append (hinner.append after)

end Parser

end QueryLint
