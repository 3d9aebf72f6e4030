import QueryLint.Lint.Linter
import QueryLint.Proofs.Dialect.Ansi
import QueryLint.Proofs.Lint.History
import QueryLint.Proofs.Parse.Whole
import QueryLint.Proofs.Template.Rendered

/-!
QueryLint.Proofs.Lint.Untouched — files that nothing is fixed in.

If no turn of the fix loop has a fix to make, or fixes are kept off a file because the grammar could
not place all of it, the tree in the end is the tree that was parsed. That one is all of the
templated text, so its source is the source of the file, however that was rendered.

What is needed of the dialect is that parsing takes up all tokens. Standard SQL is such a dialect.

* `FixLoop.Told.ProposesNothing` — no turn has a fix to make.
* `FixLoop.tree_of_proposesNothing` — then the tree stays.
* `Linter.lint_untouched` — the source of a file that nothing is fixed in.
* `Linter.run_parseFile_of_tellCode` — what is made of a file, by what is told of its code.
-/

namespace QueryLint

/-! ## 1. Runs without fixes -/

namespace FixLoop

variable {l : FixLoop} {tree : Segment} {n : Nat}

/-- No turn has a fix to make. -/
def Told.ProposesNothing (told : Told) : Prop := ∀ t ∈ told.history.flatten, t.fixes = []

/-- The tree of a run stays if no turn can have another accepted. -/
theorem tree_of_not_accepted
    (h : ∀ t ∈ ((l.tell tree).run n).1.history.flatten, t.IsOf l → t.accepted?.isSome ≠ true) :
    ((l.run tree).run n).1.tree = tree := by
  obtain ⟨course, -⟩ := rounds_tell (l := l) tree n
  have none_ : accepted ((l.tell tree).run n).1.history.flatten = [] := by
    refine List.filterMap_eq_nil_iff.2 fun t ht => ?_
    obtain ⟨pre, post, hsplit⟩ := List.append_of_mem ht
    have := h t ht (course.split hsplit).1
    simpa using this
  have held := ((holds_start tree).course course).tree_last
  rw [none_] at held
  rw [run_tell]
  exact (Option.some.inj held).symm

/-- A run in which no turn has a fix to make leaves the tree as it is. -/
theorem tree_of_proposesNothing (h : ((l.tell tree).run n).1.ProposesNothing) :
    ((l.run tree).run n).1.tree = tree :=
  tree_of_not_accepted fun t ht hof haccepted => (hof.accepted_iff.1 haccepted).2.1 (h t ht)

/-- So does a run in which nothing is to be fixed. -/
theorem tree_of_not_fixing (h : l.fixing = false) : ((l.run tree).run n).1.tree = tree := by
  refine tree_of_not_accepted fun t _ hof haccepted => ?_
  have := (hof.accepted_iff.1 haccepted).1
  rw [h] at this
  cases this

end FixLoop

/-! ## 2. Files -/

theorem Templater.source_of_process {t : Templater} {source name : String} {f : TemplatedFile}
    (h : t.process source name = .ok f) : f.source = source := by
  cases t with
  | raw =>
    cases h
    rfl
  | placeholder values =>
    obtain ⟨ms, bs, renders⟩ := exists_renders h
    exact renders.source_eq

namespace Linter

variable {l : Linter} {p : ParsedFile} {n : Nat}

theorem blocksFixes_iff :
    l.blocksFixes p = true ↔ p.parseErrors ≠ [] ∧ l.config.fixUnparsable = false := by
  simp [blocksFixes]

theorem fixing_of_blocksFixes (h : l.blocksFixes p = true) (rules : List Rule) (fix : Bool) :
    (l.fixLoop p rules fix).fixing = false := by
  simp [fixLoop, h]

/-- The tree of a linted file is where the run of its loop ends. -/
theorem tree_lintParsed (rules : List Rule) (fix : Bool) :
    ((l.lintParsed p rules fix).run n).1.tree =
      (((l.fixLoop p rules fix).tell p.tree).run n).1.run.tree := by
  have same := FixLoop.run_tell (l := l.fixLoop p rules fix) p.tree n
  exact congrArg (fun r => r.1.tree) same

/-- It is the tree that was parsed, if fixes are kept off the file or there are none. -/
theorem tree_lintParsed_eq {rules : List Rule} {fix : Bool} (h : l.blocksFixes p = true ∨
    (((l.fixLoop p rules fix).tell p.tree).run n).1.ProposesNothing) :
    ((l.lintParsed p rules fix).run n).1.tree = p.tree := by
  rcases h with h | h
  · exact FixLoop.tree_of_not_fixing (fixing_of_blocksFixes h rules fix)
  · exact FixLoop.tree_of_proposesNothing h

/-- Where fixes are kept off a file, nothing that is reported can be fixed. -/
theorem isFixable_of_blocksFixes (h : l.blocksFixes p = true) (rules : List Rule) (fix : Bool) :
    ∀ v ∈ ((l.lintParsed p rules fix).run n).1.violations, v.isFixable = false := by
  have violations : ((l.lintParsed p rules fix).run n).1.violations =
      byPlace ((l.fixLoop p rules fix).mask.keep p.violations ++ IgnoreMask.malformed p.tree ++
        l.reported p (((l.fixLoop p rules fix).run p.tree).run n).1.violations) := rfl
  intro v hv
  rw [violations, byPlace, List.mem_mergeSort, List.mem_append, List.mem_append] at hv
  rcases hv with (hv | hv) | hv
  · have hv := (IgnoreMask.mem_keep.1 hv).1
    unfold ParsedFile.violations at hv
    simp only [List.mem_append, List.mem_map] at hv
    obtain ⟨e, -, rfl⟩ | ⟨e, -, rfl⟩ := hv
    · rfl
    · rfl
  · obtain ⟨⟨c, r⟩, -, hv⟩ := List.mem_filterMap.1 hv
    cases r with
    | ok d => cases hv
    | error e =>
      cases hv
      rfl
  · -- What rules found has lost its fixes; leaving some of it out changes nothing.
    have lost : ∀ v ∈ (((l.fixLoop p rules fix).run p.tree).run n).1.violations.map
        (·.withoutFixes), v.isFixable = false := by
      intro v hv
      obtain ⟨w, -, rfl⟩ := List.mem_map.1 hv
      rfl
    unfold reported at hv
    rw [if_pos h] at hv
    dsimp only at hv
    split at hv
    · exact lost v (List.mem_filter.1 hv).1
    · exact lost v hv

/-- The tree of a templated file is all of it. -/
theorem fixString_parseFile (hdialect : Ansi.dialect = .ok l.dialect) (f : TemplatedFile)
    (stages : List Stage) :
    ((l.parseFile f stages).run n).1.file = f ∧
      fixedSource f ((l.parseFile f stages).run n).1.tree = f.source ∧
        fixString f ((l.parseFile f stages).run n).1.tree = (f.source, false) := by
  obtain ⟨compiled, prompt, closers⟩ := Ansi.tables_of_dialect hdialect
  exact ⟨rfl, Parser.fixString_parse (p := l.parser) compiled prompt closers l.dialect.rules
    l.config.indentation.blocks f rfl⟩

/-- A file in standard SQL that nothing is fixed in has its source as fixed text, and its tree the
same. This is so if the grammar could not place all of it, unless the settings say that it is fixed
all the same, and if no turn of the fix loop has a fix to make that is not masked. In the first case
nothing that is reported can be fixed. -/
theorem lint_untouched (l : Linter) (hdialect : Ansi.dialect = .ok l.dialect)
    {source name : String} (haccepted : (l.templater.process source name).isOk = true)
    {rules : List Rule} (hrules : l.rules = .ok rules) (n : Nat) :
    ∃ parsing linting, l.parse source name = .ok parsing ∧ l.lint source name true = .ok linting ∧
      let parsed := (parsing.run n).1
      let told := (((l.fixLoop parsed rules true).tell parsed.tree).run (parsing.run n).2).1
      let linted := (linting.run n).1
      linted.tree = told.run.tree ∧
        ((parsed.parseErrors ≠ [] ∧ l.config.fixUnparsable = false) ∨ told.ProposesNothing →
          linted.fixed = some source ∧ linted.fixString = (source, false)) ∧
        (parsed.parseErrors ≠ [] ∧ l.config.fixUnparsable = false →
          ∀ v ∈ linted.violations, v.isFixable = false) := by
  cases hf : l.templater.process source name with
  | error e =>
    rw [hf] at haccepted
    cases haccepted
  | ok f =>
    have parse_eq : l.parse source name = .ok (l.parseFile f [.templating]) := by
      unfold parse template
      rw [hf]
      rfl
    have lint_eq : l.lint source name true =
        .ok (do l.lintParsed (← l.parseFile f [.templating]) rules true) := by
      unfold lint rulesForFile
      rw [parse_eq, hrules]
      rfl
    refine ⟨_, _, parse_eq, lint_eq, ?_⟩
    intro parsed told linted
    obtain ⟨file, source_eq, unchanged⟩ := fixString_parseFile (n := n) hdialect f [.templating]
    rw [Templater.source_of_process hf] at source_eq unchanged
    refine ⟨tree_lintParsed rules true, fun h => ?_, fun h => ?_⟩
    · rw [← blocksFixes_iff] at h
      have tree_eq : linted.tree = parsed.tree := tree_lintParsed_eq h
      have fixed : linted.fixed = some (fixedSource f linted.tree) := rfl
      have shown : linted.fixString = fixString f linted.tree := rfl
      rw [fixed, shown, tree_eq]
      exact ⟨congrArg some source_eq, unchanged⟩
    · exact isFixable_of_blocksFixes (blocksFixes_iff.2 h) rules true

/-! ## 3. Standard SQL -/

/-- The linter for standard SQL with its default settings. -/
def standard : Linter := ⟨{}, Ansi.standard, .standard, .raw⟩

/-- The rules that it runs. -/
def standardRules : List Rule :=
  match standard.rules with
  | .ok rules => rules
  | .error _ => []

theorem rules_standard : standard.rules = .ok standardRules := rfl

/-- What is made of a templated file, given the match of its code. -/
def grownFile (l : Linter) (f : TemplatedFile) (m : Match) : Fresh ParsedFile := do
  let lexed ← lex l.dialect.rules l.config.indentation.blocks f
  let tree ← l.parser.grow lexed.segments m
  return ⟨f, tree, lexed.errors, unparsableErrors tree, [.templating, .lexing, .parsing]⟩

theorem run_parseFile_of_tellCode (hdialect : Ansi.dialect = .ok l.dialect) {f : TemplatedFile}
    {tokens : List Segment}
    (htokens : ((lex l.dialect.rules l.config.indentation.blocks f).run n).1.segments = tokens)
    {start stop : Nat} (hstart : l.parser.firstCode tokens = start)
    (hstop : l.parser.lastCode tokens = stop) (hcode : start < stop) {m : Match}
    (htold : Ansi.tellCode l.parser tokens start stop = some m) :
    (l.parseFile f [.templating]).run n = (l.grownFile f m).run n := by
  subst htokens
  obtain ⟨notes, run⟩ := Ansi.exists_run_parse_of_tellCode (p := l.parser) hdialect rfl hstart
    hstop hcode htold ((lex l.dialect.rules l.config.indentation.blocks f).run n).2
  exact congrArg (fun r : Parsed × Nat => ((⟨f, r.1.tree,
    ((lex l.dialect.rules l.config.indentation.blocks f).run n).1.errors, r.1.errors,
      [.templating, .lexing, .parsing]⟩ : ParsedFile), r.2)) run

/-- The linter with a value for one variable of markup. -/
def marking : Linter := { standard with templater := .placeholder [("x", "\"a\"")] }

/-- The file of a text with markup for that. -/
def markedFile (source : String) : TemplatedFile := rendered [("x", "\"a\"")] source

/-- Its tokens. -/
def markedTokens (source : String) : List Segment :=
  ((lex Ansi.tokenRules .enabled (markedFile source)).run 0).1.segments

/-- A statement that no rule finds fault with. -/
def quietSource : String := "DELETE FROM \x7b\x7bx\x7d\x7d AS \"b\"\n"

/-- What is no statement, on a line that does not end. -/
def brokenSource : String := ", \x7b\x7bx\x7d\x7d"

/-- In the statement, the rules have nothing to fix. -/
theorem tellCode_quietSource :
    marking.parser.firstCode (markedTokens quietSource) = 0 ∧
      marking.parser.lastCode (markedTokens quietSource) = 9 ∧
      (Ansi.tellCode marking.parser (markedTokens quietSource) 0 9).any (fun m =>
        let parsed := (marking.grownFile (markedFile quietSource) m).run 0
        let loop := marking.fixLoop parsed.1 standardRules true
        ((loop.tell parsed.1.tree).run parsed.2).1.history.flatten.all (·.fixes.isEmpty)) =
          true := by
  unfold markedTokens markedFile rendered
  decide +kernel

/-- The grammar cannot place the other text. -/
theorem tellCode_brokenSource :
    marking.parser.firstCode (markedTokens brokenSource) = 0 ∧
      marking.parser.lastCode (markedTokens brokenSource) = 3 ∧
      (Ansi.tellCode marking.parser (markedTokens brokenSource) 0 3).any (fun m =>
        !((marking.grownFile (markedFile brokenSource) m).run 0).1.parseErrors.isEmpty) =
          true := by
  unfold markedTokens markedFile rendered
  decide +kernel

/-- Nothing is fixed in either text, and what is reported of the second cannot be fixed. -/
theorem lint_untouched_marked :
    ∃ quiet broken, Ansi.dialect = .ok marking.dialect ∧ marking.rules = .ok standardRules ∧
      marking.lint quietSource "" true = .ok quiet ∧
      (quiet.run 0).1.fixed = some quietSource ∧
      (quiet.run 0).1.fixString = (quietSource, false) ∧
      marking.lint brokenSource "" true = .ok broken ∧
      (broken.run 0).1.fixed = some brokenSource ∧
      (broken.run 0).1.fixString = (brokenSource, false) ∧
      ∀ v ∈ (broken.run 0).1.violations, v.isFixable = false := by
  have file {source : String} (h : (marking.templater.process source "").isOk = true) :
      marking.parse source "" = .ok (marking.parseFile (markedFile source) [.templating]) := by
    rw [parse, template, marking, process_eq_rendered h]
    rfl
  have quietFile : (marking.templater.process quietSource "").isOk = true := by decide +kernel
  have brokenFile : (marking.templater.process brokenSource "").isOk = true := by decide +kernel
  obtain ⟨parsing, quiet, hparse, quietLint, -, quietText, -⟩ :=
    lint_untouched marking Ansi.dialect_eq_standard quietFile rules_standard 0
  obtain rfl := Except.ok.inj ((file quietFile).symm.trans hparse)
  obtain ⟨parsing, broken, hparse, brokenLint, -, brokenText, keeps⟩ :=
    lint_untouched marking Ansi.dialect_eq_standard brokenFile rules_standard 0
  obtain rfl := Except.ok.inj ((file brokenFile).symm.trans hparse)
  have silent :
      let parsed := (marking.parseFile (markedFile quietSource) [.templating]).run 0
      let loop := marking.fixLoop parsed.1 standardRules true
      ((loop.tell parsed.1.tree).run parsed.2).1.ProposesNothing := by
    obtain ⟨first, last, any⟩ := tellCode_quietSource
    obtain ⟨m, told, shown⟩ := (Option.any_eq_true _ _).1 any
    rw [run_parseFile_of_tellCode Ansi.dialect_eq_standard rfl first last (by decide) told]
    intro parsed loop t ht
    exact List.isEmpty_iff.1 (List.all_eq_true.1 shown t ht)
  have misplaced :
      ((marking.parseFile (markedFile brokenSource) [.templating]).run 0).1.parseErrors ≠ [] := by
    obtain ⟨first, last, any⟩ := tellCode_brokenSource
    obtain ⟨m, told, shown⟩ := (Option.any_eq_true _ _).1 any
    rw [run_parseFile_of_tellCode Ansi.dialect_eq_standard rfl first last (by decide) told]
    simpa using shown
  exact ⟨quiet, broken, Ansi.dialect_eq_standard, rules_standard, quietLint,
    (quietText (.inr silent)).1, (quietText (.inr silent)).2, brokenLint,
    (brokenText (.inl ⟨misplaced, rfl⟩)).1, (brokenText (.inl ⟨misplaced, rfl⟩)).2,
    keeps ⟨misplaced, rfl⟩⟩

end Linter

end QueryLint
