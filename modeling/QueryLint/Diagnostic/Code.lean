/-!
QueryLint.Diagnostic.Code — the kinds of problems and how grave they are.

Every problem has a short code of capitals, so that it can stand in the same column as the codes
of rules.
-/

namespace QueryLint

/-- The kinds of problems. -/
inductive ErrorCode where
  /-- Characters that begin no token. -/
  | lexing
  /-- A part the grammar could not place. -/
  | parsing
  /-- Template markup that could not be rendered or mapped. -/
  | templating
  /-- A rule failed by itself. -/
  | ruleInternal
  /-- A setting that is not allowed. -/
  | config
  /-- Fixes that did not settle. -/
  | unfixable
  /-- Grammar tables that do not hold together. -/
  | grammar
  deriving DecidableEq, Repr

namespace ErrorCode

/-- All kinds, in order. -/
def all : List ErrorCode :=
  [lexing, parsing, templating, ruleInternal, config, unfixable, grammar]

/-- The short code. -/
def tag : ErrorCode → String
  | lexing => "LXR"
  | parsing => "PRS"
  | templating => "TMP"
  | ruleInternal => "RUL"
  | config => "CFG"
  | unfixable => "FIX"
  | grammar => "GRM"

/-- What kind of problem it is. -/
def category : ErrorCode → String
  | lexing => "lexing error"
  | parsing => "parsing error"
  | templating => "templating error"
  | ruleInternal => "rule error"
  | config => "configuration error"
  | unfixable => "fix error"
  | grammar => "grammar error"

/-- The message when there is nothing more to say. -/
def defaultMessage : ErrorCode → String
  | lexing => "unable to lex characters"
  | parsing => "found unparsable section"
  | templating => "unable to map template slice"
  | ruleInternal => "unexpected exception in rule"
  | config => "invalid configuration value"
  | unfixable => "fixes did not converge"
  | grammar => "malformed grammar table"

/-- Reported among the violations of a file. -/
def isFileViolation : ErrorCode → Bool
  | lexing | parsing | templating | ruleInternal => true
  | config | unfixable | grammar => false

/-- Linting can go on. -/
def isRecoverable : ErrorCode → Bool
  | grammar | config => false
  | _ => true

end ErrorCode

/-- How grave a problem is. -/
inductive Severity where
  | error | warning | hint
  deriving DecidableEq, Repr

namespace Severity

/-- All degrees, in order. -/
def all : List Severity := [error, warning, hint]

instance : Inhabited Severity := ⟨error⟩

/-- The word for it. -/
def name : Severity → String
  | error => "error"
  | warning => "warning"
  | hint => "hint"

/-- Keeps a file from being clean. -/
def isError (s : Severity) : Bool := s == error

end Severity

end QueryLint
