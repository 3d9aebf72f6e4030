import QueryLint.Proofs.Fix.Splice
import QueryLint.Proofs.Token.Plain

/-!
QueryLint.Proofs.Fix.Plain — fixes in a file without markup.

The root of a tree keeps its position while fixes are made. In a file without markup that is the
hull of the tokens that parsing took up: literal text from the first of them to the end. A fixed
tree differs from that text as a whole or not at all, so its text replaces all of it, and what
stands before it stays. Nothing does, unless parsing passed over the first token.

* `Parser.passedOver` — tokens that parsing takes up no later ones before.
* `position_parse` — the position of the root.
* `fixedSource_of_position` — the source of a tree whose root is literal text up to the end.
* `fixString_eq` — the source of a fixed tree.
-/

namespace QueryLint

open Segment

/-! ## 1. Code at the ends -/

namespace Parser

variable {p : Parser} {tokens words : List Segment} {last : Segment}

/-- Parsing takes up a last token that is not code. -/
theorem last_mem_taken (htokens : tokens = words ++ [last]) (hcode : last.isCode = false) :
    last ∈ p.taken tokens := by
  by_cases hall : p.firstCode tokens = tokens.length
  · refine List.mem_append_left _ ?_
    rw [hall, List.take_length, htokens]
    simp
  · have first_le : p.firstCode tokens ≤ tokens.length := firstCode_le
    have trimmed : p.lastCode tokens < tokens.length :=
      lastCode_lt htokens hcode (Nat.lt_of_le_of_ne first_le hall)
    have resumed_le : p.resumed tokens ≤ p.lastCode tokens := resumed_le_lastCode
    have length : tokens.length = words.length + 1 := by rw [htokens]; simp
    refine List.mem_append_right _ ?_
    rw [htokens, List.drop_append_of_le_length (by rw [← htokens]; omega)]
    simp

variable (p tokens) in
/-- The tokens before all that parsing takes up. -/
def passedOver : List Segment :=
  if p.firstCode tokens = 0 then tokens.take (p.resumed tokens) else []

variable (p tokens) in
/-- What is taken up starts with a token, and that stands behind what is passed over. -/
theorem passedOver_append_taken :
    ∃ rest, tokens = p.passedOver tokens ++ rest ∧ (p.taken tokens).head? = rest.head? ∧
      ∀ t ∈ p.taken tokens, t ∈ rest := by
  unfold passedOver taken
  split
  · next hzero =>
    refine ⟨tokens.drop (p.resumed tokens), (List.take_append_drop _ _).symm, ?_, ?_⟩
    · rw [hzero, List.take_zero, List.nil_append]
    · simp [hzero]
  · next hfirst =>
    refine ⟨tokens, rfl, ?_, fun t ht => ?_⟩
    · cases tokens with
      | nil => simp
      | cons t ts =>
        obtain ⟨k, hk⟩ := Nat.exists_eq_succ_of_ne_zero hfirst
        rw [hk, List.take_succ_cons]
        rfl
    · exact (List.mem_append.1 ht).elim List.mem_of_mem_take List.mem_of_mem_drop

end Parser

/-! ## 2. The position of the root -/

/-- Literal text of a file without markup, between two offsets. -/
def PlainBetween (a b : Nat) (q : Position) : Prop :=
  q.source = q.templated ∧ q.isLiteral = true ∧ a ≤ q.templated.start ∧ q.templated.stop ≤ b

theorem isRegion_plainBetween (a b : Nat) : Position.IsRegion (PlainBetween a b) where
  startPoint := by
    rintro p ⟨hsame, hliteral, hstart, hstop⟩
    have := p.templated.start_le_stop
    refine ⟨?_, hliteral, hstart, ?_⟩
    · show Span.point p.source.start = Span.point p.templated.start
      rw [hsame]
    · show p.templated.start ≤ b
      omega
  endPoint := by
    rintro p place ⟨hsame, hliteral, hstart, hstop⟩
    have := p.templated.start_le_stop
    refine ⟨?_, hliteral, ?_, hstop⟩
    · show Span.point p.source.stop = Span.point p.templated.stop
      rw [hsame]
    · show a ≤ p.templated.stop
      omega
  join := by
    rintro p q ⟨hsame, hliteral, hstart, hstop⟩ ⟨hsame', hliteral', hstart', hstop'⟩
    refine ⟨?_, ?_, Nat.le_min.2 ⟨hstart, hstart'⟩, Nat.max_le.2 ⟨hstop, hstop'⟩⟩
    · show p.source.cover q.source = p.templated.cover q.templated
      rw [hsame, hsame']
    · show (p.isLiteral && q.isLiteral) = true
      rw [hliteral, hliteral']
      rfl

/-- Tokens that abut are literal text between their ends. -/
theorem Segment.Abut.placedIn {a b : Nat} {ts : List Segment} (h : Abut a ts b) :
    Match.PlacedIn (PlainBetween a b) ts where
  allIn t ht := by
    obtain ⟨n, hn, hsits, hend⟩ := h.sitsAt ht
    obtain ⟨q, hq, hsame, hliteral, hstart, hstop⟩ := hsits.position
    refine .of_children ⟨hsits.sourceFixes, fun r hr => ?_⟩ (by simp [hsits.children])
    change t.position = some r at hr
    rw [hq, Option.some.injEq] at hr
    subst hr
    exact ⟨hsame, hliteral, by omega, by omega⟩
  placed t ht := by
    obtain ⟨n, -, hsits, -⟩ := h.sitsAt ht
    obtain ⟨q, hq, -⟩ := hsits.position
    rw [hq]
    rfl

/-- Tokens that make up a source without markup. The last has no text and is not code. -/
structure SpellsOut (source : String) (words : List Segment) (last : Segment) : Prop where
  abut : Abut 0 (words ++ [last]) source.utf8ByteSize
  raw : rawAll (words ++ [last]) = source
  solid : ∀ t ∈ words, t.raw ≠ ""
  last_sits : SitsAt source.utf8ByteSize last
  last_raw : last.raw = ""
  last_code : last.isCode = false

/-- The tokens of a source without markup make it up. -/
theorem spellsOut_lex_ofString (rules : List LexRule) (blocks : BlocksIndent)
    (source name : String) (n : Nat) :
    ∃ words last, ((lex rules blocks (.ofString source name)).run n).1.segments = words ++ [last] ∧
      SpellsOut source words last := by
  obtain ⟨words, last, hsegments, hwords, hlast, hraw, hmarker⟩ :=
    (meets_lex_ofString (n := n) rules blocks source name n (Nat.le_refl n)).1
  refine ⟨words, last, hsegments, ?_, ?_, hwords.solid, hlast, hraw, isCode_of_isMarker hmarker⟩
  · have front := hwords.abut
    rw [Text.byteCount_toList, Nat.zero_add] at front
    have back : Abut source.utf8ByteSize [last] source.utf8ByteSize := by
      have one := Abut.cons hlast (.nil _)
      rwa [hraw, String.utf8ByteSize_empty, Nat.add_zero] at one
    exact front.append back
  · rw [rawAll_append, hwords.raw, String.ofList_toList, rawAll, rawAll, hraw]
    simp

variable {source : String} {words tokens : List Segment} {last : Segment}

/-- The text of a token that starts a list of tokens starts where they do. -/
theorem Segment.Abut.start_eq {a b : Nat} {t : Segment} {ts : List Segment}
    (h : Abut a (t :: ts) b) {q : Position} (hq : t.position = some q) :
    q.templated.start = a := by
  cases h with
  | cons first _ =>
    obtain ⟨r, hr, -, -, hstart, -⟩ := first.position
    rw [hq, Option.some.injEq] at hr
    rw [hr, hstart]

/-- The root of a tree over the tokens of a source is literal text, from behind the tokens that
parsing passed over up to the end. -/
theorem position_parse (p : Parser) (htokens : tokens = words ++ [last])
    (h : SpellsOut source words last) (n : Nat) :
    ∃ P, ((p.parse tokens).run n).1.tree.position = some P ∧ P.isLiteral = true ∧
      P.templated.start = (rawAll (p.passedOver tokens)).utf8ByteSize ∧
      P.templated.stop = source.utf8ByteSize := by
  obtain ⟨rest, hparts, hhead, htaken⟩ := p.passedOver_append_taken tokens
  have split := h.abut
  rw [← htokens, hparts] at split
  obtain ⟨a, hbefore, hrest⟩ := split.split
  have ha := hbefore.width
  rw [Nat.zero_add] at ha
  have occupies := (Parser.meets_parse_occupies p tokens
    (isRegion_plainBetween a source.utf8ByteSize) (hrest.placedIn.mono htaken) n
    (Nat.le_refl n)).1.1
  generalize ((p.parse tokens).run n).1.tree = tree at occupies ⊢
  have reaches (t : Segment) (ht : t ∈ p.taken tokens) : ∃ P q, tree.position = some P ∧
      t.position = some q ∧ P.Holds q := by
    obtain ⟨s, hs, P, q, hP, hq, holds⟩ := occupies.covers t ht
    rw [List.mem_singleton.1 hs] at hP
    exact ⟨P, q, hP, hq, holds⟩
  have last_taken : last ∈ p.taken tokens := Parser.last_mem_taken htokens h.last_code
  obtain ⟨P, q, hP, hq, holds⟩ := reaches last last_taken
  obtain ⟨-, hliteral, hstart, hstop⟩ :=
    (occupies.allIn tree (List.mem_singleton.2 rfl)).own.2 P hP
  refine ⟨P, hP, hliteral, ?_, ?_⟩
  · -- The first token that parsing took up starts where the passed over tokens end.
    obtain ⟨t, ts, hfirst⟩ := List.exists_cons_of_ne_nil (List.ne_nil_of_mem last_taken)
    obtain ⟨P', r, hP', hr, holds'⟩ := reaches t (by simp [hfirst])
    rw [hP, Option.some.injEq] at hP'
    subst hP'
    rw [hfirst, List.head?_cons] at hhead
    obtain ⟨us, hrest_eq⟩ := List.head?_eq_some_iff.1 hhead.symm
    rw [hrest_eq] at hrest
    have := hrest.start_eq hr
    have := holds'.1
    omega
  · obtain ⟨q', hq', -, -, -, hq'stop⟩ := h.last_sits.position
    rw [hq, Option.some.injEq] at hq'
    subst hq'
    rw [h.last_raw, String.utf8ByteSize_empty, Nat.add_zero] at hq'stop
    have := holds.2
    omega

/-! ## 3. The source of a tree -/

variable {name : String}

/-- In a file without markup, a patch of literal text is made where it is. -/
theorem sourcePatches_ofString {tree : Segment} {q : Patch}
    (h : tree.patches (.ofString source name) = [q]) (hcategory : q.category ≠ .source)
    (hstop : q.templated.stop ≤ source.utf8ByteSize) :
    sourcePatches (.ofString source name) tree =
      [.ofSpans (.ofString source name) q.category q.templated q.templated q.fixed] := by
  have mapped : q.toSource? (.ofString source name) =
      some (.ofSpans (.ofString source name) q.category q.templated q.templated q.fixed) := by
    rw [Patch.toSource?, if_neg hcategory, TemplatedFile.toSource?_ofString hstop]
  have safe (r : Patch) : r.safe? (.ofString source name) = some r := by
    have literal : ((TemplatedFile.ofString source name).rawSpanning r.source).all
        (·.kind.isLiteral) = true := by
      rw [List.all_eq_true]
      intro s hs
      have := TemplatedFile.mem_raw_of_mem_rawSpanning hs
      rw [List.mem_singleton.1 this]
      rfl
    rw [Patch.safe?]
    simp only [literal, if_true]
  rw [sourcePatches, h]
  simp [mapped, Patch.allSafe, safe]

/-- The source with one patch made that reaches up to the end. -/
theorem splice_ofString {q : Patch} {front : String} (hstop : q.source.stop = source.utf8ByteSize)
    (hfront : Text.slice? source 0 q.source.start = some front) :
    splice (.ofString source name) [q] = front ++ q.fixed := by
  have noTags : (TemplatedFile.ofString source name).sourceOnly = [] := by
    simp [TemplatedFile.sourceOnly, TemplatedFile.ofString, RawSlice.isSourceOnly,
      SliceKind.isLiteral]
  have nothing : Text.sliceFrom? source source.utf8ByteSize = some "" := by
    have := Text.dropBytes?_append source.toList []
    rw [List.append_nil, Text.byteCount_toList] at this
    rw [Text.sliceFrom?, this]
    rfl
  rw [splice, spliceFrom, if_neg (Nat.not_lt_zero _), noTags, spliceFrom, hstop]
  have file : (TemplatedFile.ofString source name).source = source := rfl
  rw [file, nothing]
  simp [copiedAround, copied, hfront]

/-- The source of a tree whose root is literal text up to the end: what stands before the root, and
the text of the tree. -/
theorem fixedSource_of_position {tree : Segment} (hplain : tree.IsPlain) {P : Position}
    (hP : tree.position = some P) (hliteral : P.isLiteral = true) {front back : String}
    (hsource : source = front ++ back) (hstart : P.templated.start = front.utf8ByteSize)
    (hstop : P.templated.stop = source.utf8ByteSize) :
    fixedSource (.ofString source name) tree = front ++ tree.raw := by
  have here : P.templated.text? source = some back := by
    refine Text.slice?_eq_some_iff.2 ⟨front.toList, [], ?_, ?_, ?_⟩
    · rw [hsource, String.toList_append, List.append_nil]
    · rw [Text.byteCount_toList, hstart]
    · rw [hstart, hstop, hsource, String.utf8ByteSize_append]
  have before : Text.slice? source 0 P.templated.start = some front := by
    refine Text.slice?_eq_some_iff.2 ⟨[], back.toList, ?_, rfl, ?_⟩
    · rw [hsource, String.toList_append, List.nil_append]
    · rw [hstart, Nat.zero_add]
  have own : tree.info.sourceFixes = [] := ((isPlain_iff _).1 hplain).1
  have patches : tree.patches (.ofString source name) =
      if some back = some tree.raw then []
      else [.ofSpans (.ofString source name) .literal P.source P.templated tree.raw] := by
    cases tree with
    | mk i cs =>
      have position : i.position = some P := hP
      have own : i.sourceFixes = [] := own
      have all : (mk i cs).sourceFixes = [] := hplain
      have text : P.templated.text? (TemplatedFile.ofString source name).templated = some back :=
        here
      rw [Segment.patches, position]
      dsimp only
      rw [text, all, own, hliteral]
      rfl
  unfold fixedSource
  split at patches
  · next heq =>
    rw [Option.some.injEq] at heq
    have none_ : sourcePatches (.ofString source name) tree = [] := by
      rw [sourcePatches, patches]
      simp [Patch.allSafe]
    rw [none_, ← heq]
    exact hsource
  · rw [sourcePatches_ofString patches (by simp [Patch.ofSpans]) (Nat.le_of_eq hstop)]
    exact splice_ofString hstop before

/-! ## 4. Fixed trees -/

/-- What parsing passed over has text, unless it is nothing. -/
theorem rawAll_passedOver_eq_iff {p : Parser} (htokens : tokens = words ++ [last])
    (h : SpellsOut source words last) :
    rawAll (p.passedOver tokens) = "" ↔ (p.firstCode tokens = 0 → p.resumed tokens = 0) := by
  unfold Parser.passedOver
  split
  · next hzero =>
    rw [forall_prop_of_true hzero]
    constructor
    · intro hraw
      cases hresumed : p.resumed tokens with
      | zero => rfl
      | succ k =>
        cases words with
        | nil =>
          have taken : last ∈ p.taken tokens := Parser.last_mem_taken htokens h.last_code
          rw [Parser.taken, hzero, hresumed, htokens] at taken
          simp at taken
        | cons t ts =>
          rw [hresumed, htokens, List.cons_append, List.take_succ_cons, rawAll,
            String.append_eq_empty_iff] at hraw
          exact absurd hraw.1 (h.solid t (by simp))
    · intro hresumed
      rw [hresumed]
      rfl
  · next hfirst => exact ⟨fun _ h => absurd h hfirst, fun _ => rfl⟩

/-- The fixed source of a tree over the tokens of a source: the text of the tokens that parsing
passed over, and the text of the tree. -/
theorem fixedSource_of_fixedFrom {p : Parser} {m : Nat} {tree : Segment}
    (htokens : tokens = words ++ [last]) (h : SpellsOut source words last)
    (hplain : ((p.parse tokens).run m).1.tree.IsPlain)
    (htree : FixedFrom p ((p.parse tokens).run m).1.tree tree) :
    fixedSource (.ofString source name) tree = rawAll (p.passedOver tokens) ++ tree.raw := by
  obtain ⟨rest, hparts, -, -⟩ := p.passedOver_append_taken tokens
  have hsource : source = rawAll (p.passedOver tokens) ++ rawAll rest := by
    rw [← rawAll_append, ← hparts, htokens, h.raw]
  obtain ⟨P, hP, hliteral, hstart, hstop⟩ := position_parse p htokens h m
  -- Fixes leave the root where it is.
  have root : tree.position = some P := by
    rw [← hP]
    exact congrArg SegmentInfo.position htree.info_eq
  exact fixedSource_of_position (htree.isPlain hplain) root hliteral hsource hstart hstop

/-- The fixed source of a file without markup is the text of the fixed tree, behind the text of
the tokens that parsing passed over before it. So it is the text of the tree exactly if parsing
takes up the first token, as it does in every dialect without greedy repetitions of two parts or
more. -/
theorem fixString_eq (p : Parser) (rules : List LexRule) (blocks : BlocksIndent)
    (source name : String) (n m : Nat) {tokens : List Segment} {tree : Segment}
    (htokens : tokens = ((lex rules blocks (.ofString source name)).run n).1.segments)
    (h : FixedFrom p ((p.parse tokens).run m).1.tree tree) :
    fixString (.ofString source name) tree =
        (rawAll (p.passedOver tokens) ++ tree.raw,
          rawAll (p.passedOver tokens) ++ tree.raw != source) ∧
      (fixString (.ofString source name) tree = (tree.raw, tree.raw != source) ↔
        (p.firstCode tokens = 0 → p.resumed tokens = 0)) ∧
      (p.dialect.tables.IsPrompt →
        fixString (.ofString source name) tree = (tree.raw, tree.raw != source)) := by
  obtain ⟨words, last, hsegments, spells⟩ := spellsOut_lex_ofString rules blocks source name n
  have hsplit : tokens = words ++ [last] := htokens.trans hsegments
  have plain : ((p.parse tokens).run m).1.tree.IsPlain := by
    rw [htokens]
    exact isPlain_parse p rules blocks _ n m
  have fixed : fixString (.ofString source name) tree =
      (rawAll (p.passedOver tokens) ++ tree.raw,
        rawAll (p.passedOver tokens) ++ tree.raw != source) := by
    rw [fixString, fixedSource_of_fixedFrom hsplit spells plain h]
    rfl
  have same : fixString (.ofString source name) tree = (tree.raw, tree.raw != source) ↔
      (p.firstCode tokens = 0 → p.resumed tokens = 0) := by
    rw [← rawAll_passedOver_eq_iff hsplit spells, fixed]
    constructor
    · intro heq
      have first := congrArg Prod.fst heq
      simpa using first
    · intro hempty
      rw [hempty, String.empty_append]
  refine ⟨fixed, same, fun hprompt => same.2 fun hzero => ?_⟩
  rw [← hzero]
  exact Parser.resumed_eq_firstCode_iff.2 fun _ => Parser.start_rootMatch hprompt

/-- The tokens of two words. -/
def abTokens : List Segment :=
  ((lex [wordRule "a", wordRule "b"] .enabled (.ofString "ab" "")).run 0).1.segments

/-- Two words, the second with another in its place. -/
def abFixed : Segment :=
  ((((Parser.ofBook Parser.roundBook).parse abTokens).run 10).1.tree.applyFixes
    (Parser.ofBook Parser.roundBook) (rewordPlan 1 "c")).run 200 |>.1.1.segment

/-- A word that is replaced is replaced in the source. -/
theorem fixString_eq_reworded :
    fixString (.ofString "ab" "") abFixed = (abFixed.raw, abFixed.raw != "ab") := by
  have resumed : (Parser.ofBook Parser.roundBook).resumed abTokens = 0 := by decide +kernel
  exact (fixString_eq (Parser.ofBook Parser.roundBook) [wordRule "a", wordRule "b"] .enabled "ab" ""
    0 10 (rfl : abTokens = _) (.step (rewordPlan 1 "c") 200 .refl (isPlain_rewordPlan 1 "c"))).2.1.2
    fun _ => resumed

/-- A tree without the first token of its file: its source has the token still. -/
theorem fixString_ne_eager :
    ∃ tree, FixedFrom (Parser.ofBook Parser.eagerBook)
        (((Parser.ofBook Parser.eagerBook).parse abTokens).run 10).1.tree tree ∧
      fixString (.ofString "ab" "") tree ≠ (tree.raw, tree.raw != "ab") := by
  have raw : (((Parser.ofBook Parser.eagerBook).parse abTokens).run 10).1.tree.raw = "b" := by
    decide +kernel
  have source : fixString (.ofString "ab" "")
      (((Parser.ofBook Parser.eagerBook).parse abTokens).run 10).1.tree = ("ab", false) := by
    decide +kernel
  refine ⟨_, .refl, ?_⟩
  rw [raw, source]
  decide

end QueryLint
