import QueryLint.Dialect.Registry
import QueryLint.Fix.Splice
import QueryLint.Lint.FixLoop
import QueryLint.Rule.Registry
import QueryLint.Template.Render
import QueryLint.Token.Stream

/-!
QueryLint.Lint.Linter — from a source text to its violations and its fixed text.

A linter has a dialect, a templater, rules and settings, all of which are checked when it is made.
A file goes through the stages one after the other. Errors of its tokens and its grammar are
reported beside what the rules find; only an error of the template ends the work on it. A file
that the grammar could not place whole is not fixed, unless the settings say so.

Every setting has a default. Grammars may ask for settings of indentation by name; the answer is
a word.

* `LintConfig`, `IndentConfig.get?` — the settings.
* `Linter.new?`, `Linter.withRule?` — making linters.
* `Linter.parse`, `Linter.lint`, `Linter.lintFile` — working on files.
-/

namespace QueryLint

/-! ## 1. Settings -/

/-- Settings of indentation. -/
structure IndentConfig where
  tabSize : Nat := 4
  unit : String := "space"
  /-- Joins are indented. -/
  joins : Bool := false
  blocks : BlocksIndent := .enabled
  /-- Nothing is reported about text that markup rendered. -/
  ignoreTemplated : Bool := true
  deriving DecidableEq, Repr

/-- Settings of a linter. -/
structure LintConfig where
  dialect : String := "ansi"
  rules : RuleChoice := {}
  indentation : IndentConfig := {}
  /-- The most rounds of fixing. -/
  runawayLimit : Nat := 10
  /-- Files with parts that the grammar cannot place are fixed too. -/
  fixUnparsable : Bool := false

/-- The word for yes and no. -/
def boolWord (b : Bool) : String := if b then "true" else "false"

/-- The word for a setting of blocks. -/
def BlocksIndent.word : BlocksIndent → String
  | .enabled => "true"
  | .disabled => "false"
  | .force => "force"

/-- A setting of indentation by its name, as grammars ask for it. -/
def IndentConfig.get? (c : IndentConfig) : String → Option String
  | "tab_space_size" => some (toString c.tabSize)
  | "indent_unit" => some c.unit
  | "indented_joins" => some (boolWord c.joins)
  | "ignore_templated_areas" => some (boolWord c.ignoreTemplated)
  | "template_blocks_indent" => some c.blocks.word
  | _ => none

/-! ## 2. Stages -/

/-- What is done to a file, in order. -/
inductive Stage where
  | templating | lexing | parsing | linting | fixing
  deriving DecidableEq, Repr

/-- The word for it. -/
def Stage.name : Stage → String
  | templating => "templating"
  | lexing => "lexing"
  | parsing => "parsing"
  | linting => "linting"
  | fixing => "fixing"

/-- A file taken as far as its tree. -/
structure ParsedFile where
  file : TemplatedFile
  tree : Segment
  lexErrors : List LexError
  parseErrors : List ParseError
  stages : List Stage

/-- Errors of tokens and grammar, as they are reported. -/
def ParsedFile.violations (p : ParsedFile) : List Violation :=
  p.lexErrors.map .ofLexError ++ p.parseErrors.map .ofParseError

/-- All that is known about a file in the end. -/
structure LintedFile where
  file : TemplatedFile
  /-- By place. -/
  violations : List Violation
  /-- The fixed source, if the file was to be fixed. -/
  fixed : Option String
  /-- The tree, as fixed. -/
  tree : Segment
  warnings : List FixWarning
  stages : List Stage

namespace LintedFile

/-- Nothing is reported. -/
def isClean (l : LintedFile) : Bool := l.violations.isEmpty

/-- The source of its tree, and whether it is another than before. -/
def fixString (l : LintedFile) : String × Bool := QueryLint.fixString l.file l.tree

/-- Number of violations of a code. -/
def count (l : LintedFile) (code : String) : Nat := l.violations.countP (·.code == code)

/-- Number of violations by code, in the order in which codes come up. -/
def countByCode (l : LintedFile) : List (String × Nat) :=
  ((l.violations.map (·.code)).eraseDups).map fun code => (code, l.count code)

end LintedFile

/-- A linter. -/
structure Linter where
  config : LintConfig
  dialect : Dialect
  registry : RuleRegistry
  templater : Templater

namespace Linter

/-! ## 3. Making linters -/

variable (l : Linter)

/-- The rules to run. -/
def rules : Except ConfigError (List Rule) := l.registry.choose l.config.rules

/-- The same linter, if its rules can be made. -/
def checked : Except LintError Linter :=
  match l.rules with
  | .ok _ => .ok l
  | .error e => .error (.config e)

/-- A linter with the rules of the library, if the settings are right. -/
def new? (dialects : DialectRegistry) (c : LintConfig) (t : Templater := .raw) :
    Except LintError Linter := do
  let d ← dialects.find c.dialect
  Linter.checked ⟨c, d, .standard, t⟩

/-- A linter with a further rule, if the settings are right for it too. -/
def withRule? (e : RuleEntry) : Except LintError Linter :=
  Linter.checked { l with registry := l.registry.add e }

/-! ## 4. Files -/

/-- The parser, with the setting that grammars may ask for. -/
def parser : Parser where
  dialect := l.dialect
  settings := (l.config.indentation.get? "indented_joins").toList.map ("indented_joins", ·)

/-- The tree of a templated file, which went through some stages before. -/
def parseFile (f : TemplatedFile) (stages : List Stage) : Fresh ParsedFile := do
  let lexed ← lex l.dialect.rules l.config.indentation.blocks f
  let parsed ← l.parser.parse lexed.segments
  return ⟨f, parsed.tree, lexed.errors, parsed.errors, stages ++ [.lexing, .parsing]⟩

/-- Nothing is to be fixed in a file, since the grammar could not place all of it. -/
def blocksFixes (p : ParsedFile) : Bool := !p.parseErrors.isEmpty && !l.config.fixUnparsable

/-- The loop that runs rules over a file. -/
def fixLoop (p : ParsedFile) (rules : List Rule) (fix : Bool) : FixLoop where
  rules := rules
  parser := l.parser
  file := p.file
  mask := .ofTree p.tree
  fixing := fix && !l.blocksFixes p
  limit := l.config.runawayLimit

/-- What is reported of violations that rules found. -/
def reported (p : ParsedFile) (vs : List Violation) : List Violation :=
  let vs := if l.blocksFixes p then vs.map (·.withoutFixes) else vs
  if l.config.indentation.ignoreTemplated then
    vs.filter fun v => !v.isFromRule || p.file.isLiteralSource v.source
  else vs

/-- Violations by line and column. -/
def byPlace (vs : List Violation) : List Violation :=
  vs.mergeSort fun v w =>
    v.place.line < w.place.line || (v.place.line == w.place.line && v.place.column ≤ w.place.column)

/-- Run rules over a file. -/
def lintParsed (p : ParsedFile) (rules : List Rule) (fix : Bool) : Fresh LintedFile := do
  let loop := l.fixLoop p rules fix
  let run ← loop.run p.tree
  let errors := loop.mask.keep p.violations ++ IgnoreMask.malformed p.tree
  return {
    file := p.file
    violations := byPlace (errors ++ l.reported p run.violations)
    fixed := if fix then some (fixedSource p.file run.tree) else none
    tree := run.tree
    warnings := run.warnings
    stages := p.stages ++ .linting :: if fix then [.fixing] else [] }

/-- The templated file of a source text. -/
def template (source name : String) : Except LintError TemplatedFile :=
  match l.templater.process source name with
  | .ok f => .ok f
  | .error e => .error (.template e)

/-- The rules to run, or the error that ends the work on a file. -/
def rulesForFile : Except LintError (List Rule) :=
  match l.rules with
  | .ok rules => .ok rules
  | .error e => .error (.config e)

/-- The tree of a source text. -/
def parse (source name : String) : Except LintError (Fresh ParsedFile) :=
  (l.template source name).map fun f => l.parseFile f [.templating]

/-- Lint a source text, and fix it if `fix` is set. -/
def lint (source name : String) (fix : Bool) : Except LintError (Fresh LintedFile) := do
  let parsed ← l.parse source name
  let rules ← l.rulesForFile
  return do l.lintParsed (← parsed) rules fix

/-- Lint a file that was templated before, and fix it if `fix` is set. -/
def lintFile (f : TemplatedFile) (fix : Bool) : Except LintError (Fresh LintedFile) := do
  let rules ← l.rulesForFile
  return do l.lintParsed (← l.parseFile f []) rules fix

/-- The linter in one line. -/
def display : String :=
  let codes := ", ".intercalate (l.registry.codes.map Text.quoted)
  "Linter \x7b dialect: " ++ Text.quoted l.dialect.name ++ ", templater: " ++
    Text.quoted l.templater.name ++ ", rules: [" ++ codes ++ "] \x7d"

end Linter

end QueryLint
