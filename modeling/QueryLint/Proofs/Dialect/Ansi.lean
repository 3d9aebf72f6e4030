import QueryLint.Dialect.Ansi
import QueryLint.Proofs.Grammar.Balance
import QueryLint.Proofs.Grammar.Fits
import QueryLint.Proofs.Match.Told

/-!
QueryLint.Proofs.Dialect.Ansi — the tables of standard SQL.

The tables are too large to be worked out in a proof. What is needed of them can be seen in the
book that they are compiled from: it fits, so it compiles; none of its repetitions is greedy with
two parts or more; and its brackets are closed by single symbols.

Clauses are indented by markers around their content, each in a sequence that also lowers the
indentation again; joins are indented only if the settings ask for it, and so is what takes that
back. The book can be looked through once, and what it says holds of the trees of all files.

* `Ansi.dialect_eq_standard` — the dialect as a term, for runs that no table is looked up for.
* `Ansi.tables_of_dialect` — what its tables are like.
* `Ansi.parse_balanced` — in a tree without anything unparsable, indentation is balanced everywhere.
* `Ansi.exists_run_parse_of_tellCode` — what is made of a file, by what the book tells of its code.
-/

namespace QueryLint.Ansi

/-! ## 1. The book -/

/-- What the book is seen to be. -/
theorem isSound_book : book.isWhole = true ∧ book.weight < GrammarId.absent ∧
    book.isPrompt = true ∧ book.closesByTerminals = true ∧
    book.definitions.all (·.body.limitsFit) = true ∧ book.isEven = true := by
  decide +kernel

theorem isWhole_book : book.isWhole = true := isSound_book.1

theorem weight_book : book.weight < GrammarId.absent := isSound_book.2.1

theorem isPrompt_book : book.isPrompt = true := isSound_book.2.2.1

theorem closesByTerminals_book : book.closesByTerminals = true := isSound_book.2.2.2.1

/-- The pattern of the reserved words can be read. Its characters are put together word by word,
since the text as a whole is long. -/
theorem isOk_read_reservedPattern : (TablePattern.read? reservedPattern).isOk = true := by
  rw [TablePattern.read?, Pattern.read?, ← String.length_toList, TablePattern.wholeText,
    String.toList_append, String.toList_append, reservedPattern, String.toList_intercalate]
  decide +kernel

/-- A pattern for what is no reserved word fits if it can be read. -/
theorem fits_anti_reservedPattern (text type : String)
    (h : (TablePattern.read? text).isOk = true) :
    ((Grammar.pattern text type).anti reservedPattern).fits book = true := by
  rw [Grammar.pattern, Grammar.anti, Grammar.ofForm, Grammar.withForm, Grammar.fits,
    GrammarForm.fits, Option.all_some, h, isOk_read_reservedPattern]
  rfl

theorem fits_book : book.fits = true := by
  have identifier := fits_anti_reservedPattern "[A-Z0-9_]*[A-Z][A-Z0-9_]*" "naked_identifier"
    (by decide +kernel)
  have datatype := fits_anti_reservedPattern "[A-Z][A-Z0-9_]*" "data_type_identifier"
    (by decide +kernel)
  have function := fits_anti_reservedPattern "[A-Z_][A-Z0-9_]*" "function_name_identifier"
    (by decide +kernel)
  show (book.duplicate?.isNone && book.contains book.root && book.bracketsFit &&
    (symbols ++ names ++ expressions ++ queries ++ statements ++ [file]).all _) = true
  simp only [names, expressions, List.all_append, List.all_cons, Definition.grammar,
    Definition.segment, identifier, datatype, function]
  decide +kernel

/-- The rules for tokens. -/
def tokenRules : List LexRule :=
  match lexRules with
  | .ok rules => rules
  | .error _ => []

theorem isOk_lexRules : lexRules.isOk = true := by
  decide +kernel

theorem lexRules_eq_tokenRules : lexRules = .ok tokenRules := by
  have rules := isOk_lexRules
  unfold tokenRules
  cases hrules : lexRules with
  | ok rules => rfl
  | error e =>
    rw [hrules] at rules
    cases rules

/-- The dialect, with tables that are worked out only if they are asked for. -/
def standard : Dialect :=
  ⟨"ansi", Parser.tablesOf book, tokenRules, reservedKeywords, unreservedKeywords⟩

theorem isOk_compile_book : book.compile.isOk = true := by
  obtain ⟨t, ht, -⟩ := GrammarBook.compile_of_fits isWhole_book weight_book fits_book
  rw [ht]
  rfl

theorem dialect_eq_standard : dialect = .ok standard := by
  unfold dialect
  rw [Parser.compile_eq_tablesOf isOk_compile_book, lexRules_eq_tokenRules]
  rfl

/-- The tables of the dialect are those of the book. They are prompt, and their brackets are closed
by one token each. -/
theorem tables_of_dialect {d : Dialect} (h : dialect = .ok d) :
    book.compile = .ok d.tables ∧ d.tables.IsPrompt ∧ d.tables.ClosersTakeOneToken := by
  obtain ⟨t, ht, hprompt⟩ := GrammarBook.compile_of_fits isWhole_book weight_book fits_book
  have same : d.tables = t := by
    obtain rfl := Except.ok.inj (dialect_eq_standard.symm.trans h)
    exact Except.ok.inj ((Parser.compile_eq_tablesOf isOk_compile_book).symm.trans ht)
  have closers := GrammarBook.closersAreTerminal_of_compile isWhole_book weight_book
    closesByTerminals_book ht
  rw [same]
  exact ⟨ht, hprompt isPrompt_book, Tables.closersTakeOneToken_of_terminal closers⟩

open Segment (IsLexed)

/-! ## 2. Balance -/

theorem limitsFit_book : book.definitions.all (·.body.limitsFit) = true :=
  isSound_book.2.2.2.2.1

theorem isEven_book : book.isEven = true := isSound_book.2.2.2.2.2

/-- In a tree of standard SQL without anything unparsable, the markers that the grammar inserts are
balanced in every node: the steps of the indentation sum to zero, and no first few of them sum to
less. That is so whatever the settings, and whatever markers there are among the tokens. -/
theorem parse_balanced (p : Parser) (hdialect : dialect = .ok p.dialect) {n : Nat}
    {tokens : List Segment} (hlex : IsLexed n tokens)
    (hclean : ∀ x ∈ ((p.parse tokens).run n).1.tree.nodes, x.isUnparsable = false) :
    ∀ x ∈ ((p.parse tokens).run n).1.tree.nodes, Balanced (Segment.steps n [x]) :=
  Parser.balanced_of_isEven isWhole_book weight_book limitsFit_book isEven_book
    (tables_of_dialect hdialect).1 hlex hclean

/-! ## 3. Statements -/

section

variable {p : Parser} {tokens : List Segment}

/-- What the book tells of the code of a file. The levels are more than statements without
expressions take, and fewer than a parser has. -/
def tellCode (p : Parser) (tokens : List Segment) (start stop : Nat) : Option Match :=
  let c := (p.context tokens).unmemoized
  c.tell book stop 32 (c.enders book stop 12) file.body start

/-- The tree of a file is made of what the book tells of its code. The tables are not looked at to
see that. -/
theorem exists_run_parse_of_tellCode (hdialect : dialect = .ok p.dialect)
    (hdepth : p.maxDepth = defaultMaxDepth) {start stop : Nat}
    (hstart : p.firstCode tokens = start) (hstop : p.lastCode tokens = stop) (hcode : start < stop)
    {m : Match} (htold : tellCode p tokens start stop = some m) (n : Nat) :
    ∃ notes, (p.parse tokens).run n =
      (⟨((p.grow tokens m).run n).1, unparsableErrors ((p.grow tokens m).run n).1, notes⟩,
        ((p.grow tokens m).run n).2) := by
  subst hstart hstop
  have levels : 2 * 32 + 2 * 12 ≤ p.maxDepth + 1 := by
    rw [hdepth]
    decide
  have root : p.rootMatch tokens = m :=
    Parser.rootMatch_of_tell isWhole_book weight_book limitsFit_book
      (tables_of_dialect hdialect).1 (d := file) (List.mem_append_right _ List.mem_cons_self) rfl
      rfl levels hcode htold
  exact Parser.exists_run_parse hcode root n

end

/-- A token of the first line of a file, as it is read. -/
def tokenAt (id start : Nat) (text type : String) (flags : TokenFlags) : Segment :=
  let span : Span := .between start (start + text.utf8ByteSize)
  .mk ⟨.token text flags none, type, [type], id,
    some (.ofSpans span span ⟨1, start + 1⟩ true), []⟩ []

/-- A statement with a clause, in which a table has a further name. -/
def deleteTokens : List Segment := [
  tokenAt 0 0 "DELETE" "word" .ofCode, tokenAt 1 6 " " "whitespace" .ofBlank,
  tokenAt 2 7 "FROM" "word" .ofCode, tokenAt 3 11 " " "whitespace" .ofBlank,
  tokenAt 4 12 "\"a\"" "double_quote" .ofCode, tokenAt 5 15 " " "whitespace" .ofBlank,
  tokenAt 6 16 "AS" "word" .ofCode, tokenAt 7 18 " " "whitespace" .ofBlank,
  tokenAt 8 19 "\"b\"" "double_quote" .ofCode, tokenAt 9 22 "\n" "newline" .ofBlank]

/-- A parser that indents joins. -/
def joinsParser : Parser := { dialect := standard, settings := [("indented_joins", "true")] }

/-- What the book tells of the statement, of which nothing is unparsable. In the clause there are
markers around the tables, and among these around the further name and, one after the other, where
joins would stand. -/
theorem tellCode_deleteTokens :
    ((tellCode joinsParser deleteTokens 0 9).any fun m =>
      let tree := ((joinsParser.grow deleteTokens m).run 10).1
      tree.nodes.all (!·.isUnparsable) && Segment.steps 10 [tree] == [1, 1, -1, 1, -1, -1]) =
        true := by
  decide +kernel

/-- A statement is parsed as the book tells it. The markers inserted in it are balanced. -/
theorem parse_balanced_delete :
    ∃ d, dialect = .ok d ∧ IsLexed 10 deleteTokens ∧
      let p : Parser := { dialect := d, settings := [("indented_joins", "true")] }
      (∀ x ∈ ((p.parse deleteTokens).run 10).1.tree.nodes, x.isUnparsable = false) ∧
        Segment.steps 10 [((p.parse deleteTokens).run 10).1.tree] = [1, 1, -1, 1, -1, -1] ∧
        ∀ x ∈ ((p.parse deleteTokens).run 10).1.tree.nodes, Balanced (Segment.steps 10 [x]) := by
  have lexed : IsLexed 10 deleteTokens := ⟨by decide, by decide, by decide⟩
  refine ⟨standard, dialect_eq_standard, lexed, ?_⟩
  intro p
  obtain ⟨m, told, shown⟩ := (Option.any_eq_true _ _).1 tellCode_deleteTokens
  obtain ⟨shownClean, shownSteps⟩ := Bool.and_eq_true_iff.1 shown
  obtain ⟨notes, run⟩ := exists_run_parse_of_tellCode (p := p) dialect_eq_standard rfl
    (by decide +kernel) (by decide +kernel) (by decide) told 10
  have clean : ∀ x ∈ ((p.parse deleteTokens).run 10).1.tree.nodes, x.isUnparsable = false := by
    rw [run]
    intro x hx
    simpa using List.all_eq_true.1 shownClean x hx
  have steps :
      Segment.steps 10 [((p.parse deleteTokens).run 10).1.tree] = [1, 1, -1, 1, -1, -1] := by
    rw [run]
    exact beq_iff_eq.1 shownSteps
  exact ⟨clean, steps, parse_balanced p dialect_eq_standard lexed clean⟩

end QueryLint.Ansi
