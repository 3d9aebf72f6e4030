import QueryLint.Proofs.Dialect.Ansi
import QueryLint.Proofs.Parse.Tokens
import QueryLint.Proofs.Rule.Blanks
import QueryLint.Proofs.Rule.Casing
import QueryLint.Proofs.Rule.Spacing

/-!
QueryLint.Proofs.Dialect.Settled — rules that settle files of standard SQL in one round.

Only three of the rules for tokens have to do with white space: the one for runs of it, the one for
line ends, and the one for block comments, whose matches end with a slash. What the other rules
make, and which characters it may start with, can be seen in the rules. No token of code starts with
a ligature but those that no rule reads, and of these no letter of ASCII is part, since letters are
read as words.

The tree of a file without markup is ordinary, whatever the file is: parsing never fails, and what
it cannot place is unparsable. So what is known of a rule in ordinary trees is known of all such
files. Of the words in them it is known besides that they keep the style that they are brought into.

* `Ansi.labelling` — what the book of standard SQL is looked through for.
* `Ansi.keepsSpaces_tokenRules` — no rule for tokens cuts white space in two.
* `Ansi.isAlpha_of_ligature` — what stands behind a ligature in a token of code.
* `Ansi.areOrdinary_tokens` — the tokens of a file without markup.
* `Ansi.ordinary_tree` — the tree of a file without markup is ordinary.
* `Ansi.steady_word` — its words keep every style.
* `Ansi.parse_settlesIn_whitespace` — the rules for white space settle it in one round.
* `Ansi.parse_settlesIn_keywordCase` — so does the rule for the case of keywords.
-/

namespace QueryLint.Ansi

open Text Segment

/-! ## 1. What is seen of the rules -/

/-- What the book is looked through for: white space, line ends and commas are tokens, and the types
of words are given to plain words only. -/
def labelling : Labelling where
  nodes := ["whitespace", "newline", "comma"]
  tokens := ["whitespace", "newline"]
  words := Rule.wordTypes
  isWord := LetterCase.isPlainWord
  codes := ["numeric_literal", "single_quote", "double_quote", "back_quote"]
  solid := ["StartBracketSegment", "EndBracketSegment", "StartSquareBracketSegment",
    "EndSquareBracketSegment", "SingleIdentifierGrammar", "DotSegment", "StarSegment",
    "NakedIdentifierSegment", "QuotedIdentifierSegment", "BackQuotedIdentifierSegment",
    "ObjectReferenceDelimiterGrammar", "FunctionNameSegment", "FunctionNameIdentifierSegment"]

theorem isWord_labelling : labelling.isWord = LetterCase.isPlainWord := by
  rw [labelling]

theorem isTrimmed_book : book.isTrimmed labelling = true := by
  show ((symbols ++ names ++ expressions ++ queries ++ statements ++ [file]).all _ && _) = true
  simp only [List.all_append, Bool.and_eq_true]
  -- The parts of the book are looked through one by one, each in a small evaluation.
  refine ⟨⟨⟨⟨⟨⟨?_, ?_⟩, ?_⟩, ?_⟩, ?_⟩, ?_⟩, ?_⟩ <;> decide +kernel

theorem keepsTypes_labelling : labelling.KeepsTypes := ⟨by decide, by decide⟩

/-- What the rules for tokens are seen to be. Rules that divide their matches make no code, and code
that a rule reads does not start with a ligature. -/
theorem isSound_tokenRules : ∀ r ∈ tokenRules,
    (∀ t ∈ r.tokenRules, labelling.Suits t.type t.flags) ∧
      (r.divider.isNone = true ∨ ∀ t ∈ r.tokenRules, t.flags ≠ .ofCode) ∧
      (r.token.flags = .ofCode → (ligatures.all fun c => !r.token.opens c) = true) := by
  decide +kernel

/-! ## 2. White space -/

theorem exists_of_bind_eq_ok {ε α β : Type} {x : Except ε α} {f : α → Except ε β} {b : β}
    (h : (x >>= f) = .ok b) : ∃ a, x = .ok a ∧ f a = .ok b := by
  cases x with
  | error e => cases h
  | ok a => exact ⟨a, rfl, h⟩

theorem type_of_ofPattern {name pattern type : String} {flags : TokenFlags} {t : TokenRule}
    (h : TokenRule.ofPattern name pattern type flags = .ok t) : t.type = type := by
  unfold TokenRule.ofPattern at h
  split at h
  · obtain rfl := Except.ok.inj h
    rfl
  · cases h

/-- The rules with what they are made of. -/
theorem exists_tokenRules : ∃ blank comment block single double back number line word,
    blankRule = .ok blank ∧ comment.type = "comment" ∧ blockCommentRule = .ok block ∧
      newlineRule = .ok line ∧
      codeRule "single_quote" r"'([^'\\]|\\.|'')*'" = .ok single ∧
      codeRule "double_quote" "\"(\"\"|[^\"\\\\]|\\\\.)*\"" = .ok double ∧
      codeRule "back_quote" "\x60(?:[^\x60\\\\]|\\\\.)*\x60" = .ok back ∧
      codeRule "numeric_literal" r"(\d+\.\d+|\d+\.|\.\d+|\d+)([eE][+-]?\d+)?" = .ok number ∧
      codeRule "word" "[0-9a-zA-Z_]+" = .ok word ∧
      tokenRules = [{ token := blank }, { token := comment }, block, single, double, back, number,
        { token := line }] ++ symbolRules ++ [word] := by
  have rules := lexRules_eq_tokenRules
  unfold lexRules at rules
  obtain ⟨comment, hcomment, rules⟩ := exists_of_bind_eq_ok rules
  obtain ⟨blank, hblank, rules⟩ := exists_of_bind_eq_ok rules
  obtain ⟨block, hblock, rules⟩ := exists_of_bind_eq_ok rules
  obtain ⟨single, hsingle, rules⟩ := exists_of_bind_eq_ok rules
  obtain ⟨double, hdouble, rules⟩ := exists_of_bind_eq_ok rules
  obtain ⟨back, hback, rules⟩ := exists_of_bind_eq_ok rules
  obtain ⟨number, hnumber, rules⟩ := exists_of_bind_eq_ok rules
  obtain ⟨line, hline, rules⟩ := exists_of_bind_eq_ok rules
  obtain ⟨word, hword, rules⟩ := exists_of_bind_eq_ok rules
  exact ⟨blank, comment, block, single, double, back, number, line, word, hblank,
    type_of_ofPattern hcomment, hblock, hline, hsingle, hdouble, hback, hnumber, hword,
    (Except.ok.inj rules).symm⟩

theorem keepsSpaces_codeRule {name pattern : String} {r : LexRule}
    (h : codeRule name pattern = .ok r) (hblank : name ≠ "whitespace") (hline : name ≠ "newline") :
    r.KeepsSpaces := by
  obtain ⟨t, ht, heq⟩ := exists_of_bind_eq_ok h
  obtain rfl := Except.ok.inj heq
  rw [← type_of_ofPattern ht] at hblank hline
  exact LexRule.keepsSpaces_of_solid rfl hblank hline

/-- What the rule for block comments takes ends with a slash, so not with white space. -/
theorem keepsSpaces_blockCommentRule {r : LexRule} (h : blockCommentRule = .ok r) :
    r.KeepsSpaces := by
  obtain ⟨r', t, d, p, free, hr, rule, form⟩ := exists_blockCommentRule
  obtain rfl := Except.ok.inj (hr.symm.trans h)
  refine LexRule.keepsSpaces_of_dividesCleanly rule.dividesCleanly fun cs n hn => ?_
  obtain ⟨c, hc, hslash⟩ := TokenRule.getLast?_take_of_form form hn
  have slash : c = '/' := beq_iff_eq.1 ((contains_ranges_singleton c '/').symm.trans hslash)
  exact ⟨c, hc, slash ▸ by decide⟩

/-- No rule cuts white space in two. -/
theorem keepsSpaces_tokenRules : ∀ r ∈ tokenRules, r.KeepsSpaces := by
  obtain ⟨blank, comment, block, single, double, back, number, line, word, hblank, hcomment, hblock,
    hline, hsingle, hdouble, hback, hnumber, hword, rules⟩ := exists_tokenRules
  obtain ⟨blank_type, blank_reads⟩ := reads_blankRule hblank
  obtain ⟨line_type, line_reads⟩ := reads_newlineRule hline
  have symbols : ∀ r ∈ symbolRules, r.KeepsSpaces := by
    have solid : ∀ r ∈ symbolRules, r.divider.isNone = true ∧ r.token.type ≠ "whitespace" ∧
        r.token.type ≠ "newline" := by decide
    intro r hr
    obtain ⟨divider, hblank, hline⟩ := solid r hr
    exact LexRule.keepsSpaces_of_solid (Option.isNone_iff_eq_none.1 divider) hblank hline
  intro r hr
  rw [rules] at hr
  simp only [List.mem_append, List.mem_cons, List.not_mem_nil, or_false] at hr
  rcases hr with ((rfl | rfl | rfl | rfl | rfl | rfl | rfl | rfl) | hr) | rfl
  · exact LexRule.keepsSpaces_run blank_type blank_reads
  · exact LexRule.keepsSpaces_of_solid rfl (by simp [hcomment]) (by simp [hcomment])
  · exact keepsSpaces_blockCommentRule hblock
  · exact keepsSpaces_codeRule hsingle (by decide) (by decide)
  · exact keepsSpaces_codeRule hdouble (by decide) (by decide)
  · exact keepsSpaces_codeRule hback (by decide) (by decide)
  · exact keepsSpaces_codeRule hnumber (by decide) (by decide)
  · exact LexRule.keepsSpaces_lineEnd line_type line_reads
  · exact symbols r hr
  · exact keepsSpaces_codeRule hword (by decide) (by decide)

/-! ## 3. Ligatures -/

/-- The characters of words, as the pattern of words names them. -/
def wordChars : CharSet :=
  .union (.union (.union (.union (.ranges []) (.ranges [(48, 57)])) (.ranges [(97, 122)]))
    (.ranges [(65, 90)])) (.ranges [(95, 95)])

theorem codeRule_word_eq : codeRule "word" "[0-9a-zA-Z_]+" = .ok { token := ⟨"word",
    .pattern (.seq (.anchor .textStart) (.plus true (.set wordChars)))
      (.plus true (.set wordChars)), "word", .ofCode⟩ } := rfl

theorem contains_wordChars {c : Char} (h : c.isAlpha = true) : wordChars.contains c = true := by
  have ascii : c.toNat < 0x80 := by
    rcases (Bool.or_eq_true ..).mp h with upper | lower
    · have within : 65 ≤ c.val ∧ c.val ≤ 90 := of_decide_eq_true upper
      exact Nat.lt_of_le_of_lt (UInt32.le_iff_toNat_le.1 within.2) (by decide)
    · have within : (decide (97 ≤ c.val) && decide (c.val ≤ 122)) = true := lower
      rw [Bool.and_eq_true, decide_eq_true_iff, decide_eq_true_iff] at within
      exact Nat.lt_of_le_of_lt (UInt32.le_iff_toNat_le.1 within.2) (by decide)
  have letters := of_ascii (P := fun c => c.isAlpha = true → wordChars.contains c = true)
    (by decide) ascii
  exact letters h

/-- Letters of ASCII are read as words, if as nothing else. -/
theorem isAlpha_eq_false_of_untaken {c : Char} {cs : List Char}
    (h : LexRule.Untaken tokenRules (c :: cs)) : c.isAlpha = false := by
  obtain ⟨_, _, _, _, _, _, _, _, word, -, -, -, -, -, -, -, -, hword, rules⟩ := exists_tokenRules
  obtain rfl := Except.ok.inj (hword.symm.trans codeRule_word_eq)
  have reads := (Pattern.takes_run wordChars).reads (fun _ _ hrun => (run?_eq_some.1 hrun).2)
    (rfl : (TokenRule.mk "word" _ "word" .ofCode).form = _)
  have missed := h _ (rules ▸ List.mem_append_right _ (List.mem_singleton_self _))
  rw [reads.here, run?_eq_none] at missed
  have other := missed c rfl
  rw [Bool.eq_false_iff]
  intro letter
  rw [contains_wordChars letter] at other
  cases other

/-- In a lexeme of code no letter of ASCII stands behind a ligature at its start. -/
theorem isAlpha_of_ligature {cs : List Char} :
    ∀ l ∈ scan tokenRules cs, l.flags = .ofCode → ∀ c text, l.text = c :: text → c ∈ ligatures →
      ∀ d ∈ text, d.isAlpha = false := by
  refine forall_mem_scan (Q := fun c => c.isAlpha = false) (fun r hr c cs n hn l hl => ?_)
    (fun c cs => isAlpha_eq_false_of_untaken) fun run hrun => ?_
  · intro hcode d text htext hligature
    obtain ⟨-, hdivider, hopens⟩ := isSound_tokenRules r hr
    obtain ⟨t, ht, heq⟩ := LexRule.exists_tokenRule_divide l hl
    rcases hdivider with hdivider | hcodeless
    · -- the lexeme is all of the match, and no match starts with a ligature
      rw [LexRule.divide, Option.isNone_iff_eq_none.1 hdivider, List.mem_singleton] at hl
      subst hl
      obtain ⟨rfl, -⟩ := List.cons.inj htext
      have closed : r.token.opens c = false := by
        simpa using List.all_eq_true.1 (hopens hcode) c hligature
      rw [TokenRule.matchLength?_eq_none_of_opens closed cs] at hn
      cases hn
    · rw [heq] at hcode
      exact absurd hcode (hcodeless t ht)
  · rintro - c text rfl - d hd
    exact hrun d (List.mem_cons_of_mem _ hd)

/-! ## 4. Files without markup -/

/-- The tokens of a file without markup are such that an ordinary tree is made of them. -/
theorem areOrdinary_tokens (blocks : BlocksIndent) (source name : String) (n : Nat) :
    let lexed := (lex tokenRules blocks (.ofString source name)).run n
    AreOrdinary labelling lexed.2 lexed.1.segments ∧
      ∀ t ∈ lexed.1.segments,
        (∀ type ∈ labelling.codes, t.isType type = true → t.isCode = true) ∧
          (t.isMarker = false → ∃ l ∈ scan tokenRules source.toList, l.Makes t) :=
  areOrdinary_lex (fun r hr => (isSound_tokenRules r hr).1) (by decide)
    (by intro k; cases k <;> decide) keepsSpaces_tokenRules blocks source name n

/-! ## 5. Trees -/

variable {p : Parser}

theorem rules_eq_tokenRules {d : Dialect} (h : dialect = .ok d) : d.rules = tokenRules := by
  rw [← Except.ok.inj (dialect_eq_standard.symm.trans h), standard]

/-- The tree of a file without markup is ordinary, and its leaves are the tokens of the file but for
what the grammar may change in these. -/
theorem ordinary_tree (hdialect : dialect = .ok p.dialect) (blocks : BlocksIndent)
    (source name : String) (n : Nat) :
    let lexed := (lex p.dialect.rules blocks (.ofString source name)).run n
    let parsed := (p.parse lexed.1.segments).run lexed.2
    Ordinary parsed.2 parsed.1.tree ∧
      parsed.1.tree.IsOrderlyFile labelling lexed.2 lexed.1.segments := by
  obtain ⟨compiled, prompt, closers⟩ := tables_of_dialect hdialect
  intro lexed parsed
  obtain ⟨words, codes⟩ := areOrdinary_tokens blocks source name n
  rw [← rules_eq_tokenRules hdialect] at words codes
  exact p.ordinary_parse isWhole_book weight_book limitsFit_book isTrimmed_book compiled prompt
    closers keepsTypes_labelling words fun t ht type htype =>
      (codes t ht).1 type (List.contains_iff_mem.1 htype)

/-- A leaf that is no marker is a token. -/
theorem exists_kind_of_isLeaf {s : Segment} (h : s.isLeaf = true) (hmarker : s.isMarker = false) :
    ∃ text flags norm, s.kind = .token text flags norm := by
  obtain ⟨⟨kind, type, types, id, position, fixes⟩, cs⟩ := s
  cases kind with
  | token text flags norm => exact ⟨text, flags, norm, rfl⟩
  | marker => cases hmarker
  | node | bracketed | unparsable | file => cases h

/-- The words of a file without markup keep every style that they are brought into. -/
theorem steady_word (hdialect : dialect = .ok p.dialect) (blocks : BlocksIndent)
    (source name : String) (n : Nat) :
    let lexed := (lex p.dialect.rules blocks (.ofString source name)).run n
    let parsed := (p.parse lexed.1.segments).run lexed.2
    ∀ w ∈ parsed.1.tree.leaves, w.isAnyType Rule.wordTypes = true → LetterCase.Steady w.raw := by
  intro lexed parsed w hw htypes
  have file := (ordinary_tree hdialect blocks source name n).2
  cases hmarker : w.isMarker with
  | true =>
    rw [raw_of_isInserted (n := 0) (by simp [isInserted, hmarker])]
    exact LetterCase.steady_empty
  | false =>
    obtain ⟨t, ht, hbare⟩ := file.exists_token hw hmarker
    obtain ⟨text, flags, norm, hkind⟩ := exists_kind_of_isLeaf (isLeaf_of_mem_leaves _ hw) hmarker
    obtain ⟨rfl, hword⟩ := (file.orderly_of_mem_leaves hw).own.word text flags norm hkind
      (List.any_eq_true.1 htypes)
    -- the token that it was has the same text and flags, so it was made of a lexeme of code
    obtain ⟨norm', htoken⟩ := exists_kind_of_bare hbare hkind
    have tokens := areOrdinary_tokens blocks source name n
    rw [← rules_eq_tokenRules hdialect] at tokens
    obtain ⟨l, hl, hmakes⟩ := (tokens.2 t ht).2 (by simp [isMarker, marker?, htoken])
    obtain ⟨htext, hcode, -⟩ := SegmentKind.token.inj (hmakes.kind.symm.trans htoken)
    have raw : w.raw = String.ofList l.text := by
      rw [← raw_bare, ← hbare, raw_bare, hmakes.raw_eq]
    rw [isWord_labelling, ← htext] at hword
    rw [raw]
    refine LetterCase.steady_of_isPlainWord hword fun c cs hcs => ?_
    rw [String.toList_ofList] at hcs
    rw [rules_eq_tokenRules hdialect] at hl
    exact isAlpha_of_ligature l hl hcode c cs hcs

/-- The rules for white space settle every file of standard SQL without markup in one round. They do
not give up, their fixes can all be made and are made, and in the tree that is left they find
nothing, while all but its white space is the same in the same order. -/
theorem parse_settlesIn_whitespace (hdialect : dialect = .ok p.dialect) (blocks : BlocksIndent)
    (source name : String) (n : Nat) :
    let lexed := (lex p.dialect.rules blocks (.ofString source name)).run n
    let parsed := (p.parse lexed.1.segments).run lexed.2
    ∀ r ∈ [Rule.trailingWhitespace, Rule.spaceBeforeComma, Rule.spaceAfterComma,
        Rule.finalNewline],
      r.SettlesIn p (.ofString source name) parsed.1.tree parsed.2 parsed.1.tree.SameInk := by
  intro lexed parsed
  have ordinary := (ordinary_tree hdialect blocks source name n).1
  simp only [List.forall_mem_cons, List.not_mem_nil, false_implies, implies_true, and_true]
  exact ⟨Rule.settlesIn_trailingWhitespace ordinary p source name,
    Rule.settlesIn_spaceBeforeComma ordinary p source name,
    Rule.settlesIn_spaceAfterComma ordinary p source name,
    Rule.settlesIn_finalNewline ordinary p source name⟩

/-- Comments in two lines, of which the first has white space at its end and the second does not
end. -/
theorem length_violations_comments :
    let p : Parser := { dialect := standard }
    let f := TemplatedFile.ofString "/* a */ \n-- b" ""
    let lexed := (lex p.dialect.rules .enabled f).run 0
    let parsed := (p.parse lexed.1.segments).run lexed.2
    [Rule.trailingWhitespace, Rule.finalNewline].map (fun r =>
      ((r.crawl p.dialect f parsed.1.tree).run parsed.2).1.violations.length) = [1, 1] := by
  decide +kernel

/-- Two of the rules have something to fix there, and one round of each fixes it. So it is with all
of them in a query with white space before a comma, none behind another and no line end. -/
theorem parse_settlesIn_whitespace_comments :
    let p : Parser := { dialect := standard }
    let parsed (source : String) : Parsed × Nat :=
      let lexed := (lex p.dialect.rules .enabled (.ofString source "")).run 0
      (p.parse lexed.1.segments).run lexed.2
    dialect = .ok p.dialect ∧
      [Rule.trailingWhitespace, Rule.finalNewline].map (fun r =>
        ((r.crawl p.dialect (.ofString "/* a */ \n-- b" "") (parsed "/* a */ \n-- b").1.tree).run
          (parsed "/* a */ \n-- b").2).1.violations.length) = [1, 1] ∧
      ∀ source ∈ ["/* a */ \n-- b", "SELECT a ,b,c \nFROM d"],
        ∀ r ∈ [Rule.trailingWhitespace, Rule.spaceBeforeComma, Rule.spaceAfterComma,
            Rule.finalNewline],
          r.SettlesIn p (.ofString source "") (parsed source).1.tree (parsed source).2
            (parsed source).1.tree.SameInk := by
  -- the texts stay variables here, so that nothing is parsed to compare the two sides
  refine ⟨dialect_eq_standard, length_violations_comments, fun source _ => ?_⟩
  exact @parse_settlesIn_whitespace { dialect := standard } dialect_eq_standard .enabled source "" 0

/-- The rule for the case of keywords settles every file of standard SQL without markup in one
round, whatever its policy is. In the tree that is left it finds nothing, and the leaves are the
same but for the case of keywords and of operators that are words. -/
theorem parse_settlesIn_keywordCase (hdialect : dialect = .ok p.dialect) (blocks : BlocksIndent)
    (source name : String) (n : Nat) (policy : CasePolicy) :
    let lexed := (lex p.dialect.rules blocks (.ofString source name)).run n
    let parsed := (p.parse lexed.1.segments).run lexed.2
    (Rule.keywordCase policy).SettlesIn p (.ofString source name) parsed.1.tree parsed.2
      parsed.1.tree.SameButCase := by
  intro lexed parsed
  exact Rule.settlesIn_keywordCase (ordinary_tree hdialect blocks source name n).1
    (steady_word hdialect blocks source name n) policy p source name

/-- A query whose keywords are in several styles, where they are to be in one of those found. -/
theorem parse_settlesIn_keywordCase_query :
    let p : Parser := { dialect := standard }
    let f := TemplatedFile.ofString "select a From b WHERE c" ""
    let lexed := (lex p.dialect.rules .enabled f).run 0
    let parsed := (p.parse lexed.1.segments).run lexed.2
    dialect = .ok p.dialect ∧
      (Rule.keywordCase .consistent).SettlesIn p f parsed.1.tree parsed.2
        parsed.1.tree.SameButCase :=
  ⟨dialect_eq_standard, @parse_settlesIn_keywordCase { dialect := standard } dialect_eq_standard
    .enabled "select a From b WHERE c" "" 0 .consistent⟩

end QueryLint.Ansi
