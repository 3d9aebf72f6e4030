import QueryLint.Diagnostic.Code
import QueryLint.Position

/-!
QueryLint.Diagnostic.Error — what can go wrong at each stage, and the wording.

The constructors are the causes; each type has one function `message` that words them. Only
grammar and configuration errors end a run: all others are recorded, and the stage goes on.
-/

namespace QueryLint

/-! ## 1. Reading tokens and sentences -/

/-- The words for a place in front of a message. -/
def atPlace (p : Place) (message : String) : String :=
  "Line " ++ toString p.line ++ ", Position " ++ toString p.column ++ ": " ++ message

/-- Characters that begin no token. -/
structure LexError where
  message : String
  source : Span
  place : Place
  deriving DecidableEq, Repr

namespace LexError

/-- An error at a position. -/
def ofPosition (message : String) (p : Position) : LexError := ⟨message, p.source, p.place⟩

/-- Its code. -/
def code (_ : LexError) : ErrorCode := .lexing

/-- The full wording. -/
def display (e : LexError) : String := atPlace e.place e.message

end LexError

/-- A part the grammar could not place. -/
structure ParseError where
  message : String
  /-- What the grammar looked for. -/
  expected : Option String
  source : Span
  place : Place
  deriving DecidableEq, Repr

namespace ParseError

/-- An error at a position. -/
def ofPosition (message : String) (expected : Option String) (p : Position) : ParseError :=
  ⟨message, expected, p.source, p.place⟩

/-- Its code. -/
def code (_ : ParseError) : ErrorCode := .parsing

/-- The full wording. -/
def display (e : ParseError) : String := atPlace e.place e.message

end ParseError

/-! ## 2. Templates -/

/-- Why a span of templated text has no span of source. -/
inductive MappingError where
  /-- An end lies inside the text that one piece of markup gave. -/
  | insideTemplated (span : Span)
  /-- The span reaches beyond the text. -/
  | outOfRange (span : Span) (length : Nat)
  deriving DecidableEq, Repr

namespace MappingError

/-- Its code. -/
def code (_ : MappingError) : ErrorCode := .templating

/-- The wording. -/
def message : MappingError → String
  | insideTemplated s => "templated slice " ++ s.display ++ " lies inside a templated region"
  | outOfRange s n =>
    "templated slice " ++ s.display ++ " is outside templated text of length " ++ toString n

end MappingError

/-- How slices fail to tile a text. -/
inductive TilingError where
  | gap (offset start : Nat)
  | sourceBeyondEnd (span : Span)
  | templatedEnd (offset length : Nat)
  | rawStart (start offset : Nat)
  | rawText (start : Nat)
  | rawEnd (offset length : Nat)
  deriving DecidableEq, Repr

namespace TilingError

/-- The text that is not tiled. -/
def space : TilingError → String
  | gap _ _ | sourceBeyondEnd _ | templatedEnd _ _ => "templated"
  | rawStart _ _ | rawText _ | rawEnd _ _ => "source"

/-- The wording. -/
def reason : TilingError → String
  | gap offset start =>
    "gap or overlap at offset " ++ toString offset ++ ", next slice starts at " ++ toString start
  | sourceBeyondEnd s => "source slice " ++ s.display ++ " beyond source end"
  | templatedEnd offset n =>
    "slices end at " ++ toString offset ++ ", text has length " ++ toString n
  | rawStart start offset =>
    "raw slice at " ++ toString start ++ " expected at " ++ toString offset
  | rawText start => "raw slice at " ++ toString start ++ " does not match source"
  | rawEnd offset n =>
    "raw slices end at " ++ toString offset ++ ", source has length " ++ toString n

end TilingError

/-- Why a template could not be rendered. -/
inductive TemplateError where
  | unclosedBlock (tag : String) (offset : Nat)
  | unexpectedEnd (tag : String) (offset : Nat)
  | unsupportedTag (tag : String) (offset : Nat)
  | invalidName (name : String) (offset : Nat)
  | invalidSlices (cause : TilingError)
  deriving DecidableEq, Repr

namespace TemplateError

/-- Its code. -/
def code (_ : TemplateError) : ErrorCode := .templating

/-- A word in the quotes that messages use. -/
def marked (s : String) : String := "\x60" ++ s ++ "\x60"

/-- The wording. -/
def message : TemplateError → String
  | unclosedBlock tag offset =>
    "unclosed " ++ marked tag ++ " block opened at offset " ++ toString offset
  | unexpectedEnd tag offset => "unexpected " ++ marked tag ++ " at offset " ++ toString offset
  | unsupportedTag tag offset =>
    "unsupported template tag " ++ marked tag ++ " at offset " ++ toString offset
  | invalidName name offset =>
    "invalid variable name " ++ marked name ++ " at offset " ++ toString offset
  | invalidSlices cause =>
    "sliced file does not tile the " ++ cause.space ++ " text: " ++ cause.reason

end TemplateError

open TemplateError (marked)

/-! ## 3. Rules and configuration -/

/-- A rule failed while looking at a segment. -/
structure RuleFailure where
  code : String
  message : String
  place : Place
  deriving DecidableEq, Repr

namespace RuleFailure

/-- A failure at a position, or at the start of the file. -/
def ofPosition (code message : String) (p : Option Position) : RuleFailure :=
  ⟨code, message, (p.map (·.place)).getD ⟨1, 1⟩⟩

/-- The kind of problem. -/
def errorCode (_ : RuleFailure) : ErrorCode := .ruleInternal

/-- The full wording. -/
def display (e : RuleFailure) : String :=
  "Unexpected exception: " ++ e.message ++ "; Could you open an issue? You can ignore this " ++
    "error by adding " ++ marked ("-- noqa: " ++ e.code) ++ " to the line."

end RuleFailure

/-- A setting that is not allowed. -/
inductive ConfigError where
  | unknownDialect (name : String)
  | unknownRule (code : String)
  | unknownKeyword (rule keyword : String)
  | invalidValue (rule keyword value expected : String)
  deriving DecidableEq, Repr

namespace ConfigError

/-- Its code. -/
def code (_ : ConfigError) : ErrorCode := .config

/-- The wording. -/
def message : ConfigError → String
  | unknownDialect name => "unknown dialect " ++ marked name
  | unknownRule code => "unknown rule " ++ marked code
  | unknownKeyword rule keyword => "rule " ++ rule ++ " has no config keyword " ++ marked keyword
  | invalidValue rule keyword value expected =>
    "invalid value " ++ marked value ++ " for " ++ rule ++ "." ++ keyword ++
      "; expected one of " ++ expected

end ConfigError

/-- Why fixing did not settle. The last stable tree is kept. -/
inductive FixWarning where
  | repeatedFixes (rule : String) (loop : Nat)
  | cycle (rule : String) (loop : Nat)
  | conflictingFixes (rule : String)
  | runawayLimit (limit : Nat)
  deriving DecidableEq, Repr

namespace FixWarning

/-- Its code. -/
def code (_ : FixWarning) : ErrorCode := .unfixable

/-- The wording. -/
def message : FixWarning → String
  | repeatedFixes rule i =>
    "rule " ++ rule ++ " proposed the same fixes again in loop " ++ toString i
  | cycle rule i => "rule " ++ rule ++ " produced a previously seen file in loop " ++ toString i
  | conflictingFixes rule => "rule " ++ rule ++ " returned conflicting fixes with the same anchor"
  | runawayLimit n => "runaway limit of " ++ toString n ++ " loops reached"

end FixWarning

/-! ## 4. Grammars -/

/-- Why a grammar could not be compiled, or its tables do not hold together. -/
inductive GrammarError where
  | unknownReference (name : String)
  | duplicateDefinition (name : String)
  | selfReference (name : String)
  | childOutOfRange (inst child : Nat)
  | terminatorOutOfRange (inst terminator : Nat)
  /-- A range of the part named lies outside its table. -/
  | sliceOutOfRange (inst : Nat) (part : String)
  | auxOutOfRange (inst offset stop length : Nat)
  | stringOutOfRange (inst id : Nat)
  | patternOutOfRange (inst id : Nat)
  /-- A text that is not a regular expression, and why if that is known. -/
  | invalidPattern (pattern : String) (reason : Option String)
  | missingRoot (name : String)
  | overflow (what : String)
  deriving DecidableEq, Repr

namespace GrammarError

/-- Its code. -/
def code (_ : GrammarError) : ErrorCode := .grammar

/-- The start of a message about an instruction. -/
def ofInstruction (inst : Nat) (rest : String) : String :=
  "instruction " ++ toString inst ++ ": " ++ rest

/-- The wording. -/
def message : GrammarError → String
  | unknownReference name => "reference to undefined grammar " ++ marked name
  | duplicateDefinition name => "grammar " ++ marked name ++ " is defined twice"
  | selfReference name => "grammar " ++ marked name ++ " refers to itself without consuming input"
  | childOutOfRange inst child =>
    ofInstruction inst ("child id " ++ toString child ++ " out of range")
  | terminatorOutOfRange inst t =>
    ofInstruction inst ("terminator id " ++ toString t ++ " out of range")
  | sliceOutOfRange inst part => ofInstruction inst (part ++ " slice out of range")
  | auxOutOfRange inst offset stop n =>
    ofInstruction inst ("aux data [" ++ toString offset ++ ".." ++ toString stop ++
      ") exceeds table of length " ++ toString n)
  | stringOutOfRange inst id => ofInstruction inst ("string id " ++ toString id ++ " out of range")
  | patternOutOfRange inst id => ofInstruction inst ("regex id " ++ toString id ++ " out of range")
  | invalidPattern pattern reason =>
    "invalid regex " ++ marked pattern ++ (reason.map (": " ++ ·)).getD ""
  | missingRoot name => "root grammar " ++ marked name ++ " not found"
  | overflow what => "too many " ++ what ++ " for the table layout"

end GrammarError

/-! ## 5. Errors that end the work on a file -/

/-- An error that ends the work on a file. -/
inductive LintError where
  | grammar (e : GrammarError)
  | config (e : ConfigError)
  | template (e : TemplateError)
  | internal (message : String)
  deriving DecidableEq, Repr

namespace LintError

/-- Its code. -/
def code : LintError → ErrorCode
  | grammar e => e.code
  | config e => e.code
  | template e => e.code
  | internal _ => .grammar

/-- The wording. -/
def message : LintError → String
  | grammar e => e.message
  | config e => e.message
  | template e => e.message
  | internal m => "internal invariant violated: " ++ m

end LintError

end QueryLint
