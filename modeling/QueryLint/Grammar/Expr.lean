import QueryLint.Segment.Basic

/-!
QueryLint.Grammar.Expr — the language that dialects are written in.

A grammar says which tokens may stand where. Grammars refer to each other by name, so they may be
given in any order; names are resolved when a dialect is compiled.

* `Grammar` — grammar expressions, made by `Grammar.ref`, `Grammar.seq`, `Grammar.oneOf`, ….
* `Grammar.optional`, `Grammar.terminators`, … — the same grammar with another setting.

A setting that means nothing for a form leaves the grammar as it is.
-/

namespace QueryLint

/-- How a grammar goes on when a part does not match. -/
inductive ParseMode where
  /-- It does not match. -/
  | strict
  /-- It takes everything up to the next terminator; what is left over is unparsable. -/
  | greedy
  /-- Strict until the first part has matched, then greedy. -/
  | greedyOnceStarted
  deriving DecidableEq, Repr

namespace ParseMode

/-- The word for it. -/
def name : ParseMode → String
  | strict => "strict"
  | greedy => "greedy"
  | greedyOnceStarted => "greedy_once_started"

end ParseMode

/-- How a typed token is normalised. -/
inductive Casefold where
  | none | upper | lower
  deriving DecidableEq, Repr

namespace Casefold

/-- Its number in the tables. -/
def number : Casefold → Nat
  | none => 0
  | upper => 1
  | lower => 2

/-- The one with a number. -/
def ofNumber : Nat → Casefold
  | 1 => upper
  | 2 => lower
  | _ => none

/-- The normalised text. -/
def apply (text : String) : Casefold → String
  | none => text
  | upper => Text.upper text
  | lower => Text.lower text

end Casefold

/-- What a grammar is, but for its parts. -/
inductive GrammarForm where
  /-- The grammar of a name. -/
  | ref (name : String)
  /-- All parts in order. -/
  | sequence
  /-- The part that matches most. -/
  | oneOf
  /-- Any number of parts, each the one that matches most; at most so many in all, and so many of
  each. -/
  | anyNumberOf (most perPart : Option Nat)
  /-- Parts with delimiters between them, at least so many. -/
  | delimited (least : Nat)
  /-- All parts in order between a pair of brackets. -/
  | bracketed (bracket : String) (persists : Option Bool)
  /-- A token by its text in upper case, with the type it gets. -/
  | string (template type : String)
  /-- A token by one of several texts. -/
  | multiString (templates : List String) (type : String)
  /-- A token by a type it counts as. -/
  | typed (template type : String) (fold : Casefold) (trim : List String)
  /-- A token whose whole text matches one pattern, but not another. -/
  | pattern (text : String) (anti : Option String) (type : String)
  /-- No token. -/
  | nothing
  /-- Everything up to a terminator. -/
  | anything
  /-- Any one token of code. -/
  | token
  /-- A grammar that a dialect leaves out. -/
  | missing
  /-- A marker, on a condition on the settings if there is one. -/
  | marker (kind : MarkerKind) (condition : Option (String × String))
  deriving DecidableEq, Repr

/-- Settings of a grammar. -/
structure GrammarSettings where
  /-- A sequence may leave it out. -/
  optional : Bool := false
  /-- Its terminators replace those around it. -/
  resetTerminators : Bool := false
  /-- There may be white space between its parts. -/
  allowGaps : Bool := true
  /-- There may be a delimiter after the last part. -/
  allowTrailing : Bool := false
  /-- Delimiters may be left out. -/
  optionalDelimiter : Bool := false
  mode : ParseMode := .strict
  /-- Least number of repetitions. -/
  least : Nat := 0
  deriving DecidableEq, Repr

/-- A grammar expression. -/
inductive Grammar where
  | mk (form : GrammarForm) (parts terminators : List Grammar) (exclude delimiter : Option Grammar)
    (settings : GrammarSettings)

namespace Grammar

/-! ## 1. Making grammars -/

/-- A grammar of a form over parts, with the usual settings. -/
def ofForm (form : GrammarForm) (parts : List Grammar := []) : Grammar :=
  mk form parts [] none none {}

instance : Inhabited Grammar := ⟨ofForm .missing⟩

/-- The grammar or segment of a name. -/
def ref (name : String) : Grammar := ofForm (.ref name)

/-- All parts in order. -/
def seq (parts : List Grammar) : Grammar := ofForm .sequence parts

/-- The part that matches most; of several the first. -/
def oneOf (parts : List Grammar) : Grammar := ofForm .oneOf parts

/-- Any number of the parts. -/
def anyNumberOf (parts : List Grammar) : Grammar := ofForm (.anyNumberOf none none) parts

/-- Each part at most once, in any order. -/
def anySetOf (parts : List Grammar) : Grammar := ofForm (.anyNumberOf none (some 1)) parts

/-- Parts with commas between them, unless another delimiter is set. -/
def delimited (parts : List Grammar) : Grammar :=
  mk (.delimited 0) parts [] none (some (ref "CommaSegment")) {}

/-- All parts in order between round brackets, unless others are set. -/
def bracketed (parts : List Grammar) : Grammar := ofForm (.bracketed "round" none) parts

/-- A token by its text, whatever its case. -/
def string (template type : String) : Grammar := ofForm (.string (Text.upper template) type)

/-- A keyword. -/
def keyword (template : String) : Grammar := string template "keyword"

/-- A token by one of several texts, whatever their case. -/
def multiString (templates : List String) (type : String) : Grammar :=
  ofForm (.multiString (templates.map Text.upper) type)

/-- A token by a type it counts as. -/
def typed (template type : String) : Grammar := ofForm (.typed template type .none [])

/-- A token whose whole text matches a pattern, whatever its case. -/
def pattern (text type : String) : Grammar := ofForm (.pattern text none type)

/-- No token. -/
def nothing : Grammar := ofForm .nothing

/-- Everything up to a terminator. -/
def anything : Grammar := ofForm .anything

/-- Any one token of code. -/
def token : Grammar := ofForm .token

/-- A grammar left out. -/
def missing : Grammar := ofForm .missing

/-- A marker. -/
def marker (kind : MarkerKind) : Grammar := ofForm (.marker kind none)

/-- A marker that raises the indentation. -/
def indent : Grammar := marker .indent

/-- A marker that lowers the indentation. -/
def dedent : Grammar := marker .dedent

/-- A marker that raises the indentation where a line break follows. -/
def implicitIndent : Grammar := marker .implicitIndent

/-- A marker that is put in when a setting has a value. -/
def conditional (kind : MarkerKind) (key value : String) : Grammar :=
  ofForm (.marker kind (some (key, value)))

/-! ## 2. Settings -/

/-- The same grammar with other settings. -/
def withSettings (f : GrammarSettings → GrammarSettings) : Grammar → Grammar
  | mk form parts ts e d s => mk form parts ts e d (f s)

/-- The same grammar with another form. -/
def withForm (f : GrammarForm → GrammarForm) : Grammar → Grammar
  | mk form parts ts e d s => mk (f form) parts ts e d s

/-- May be left out. -/
def optional (g : Grammar) : Grammar := g.withSettings ({ · with optional := true })

/-- Ends before one of these; the terminators of grammars around it hold too. -/
def terminators (more : List Grammar) : Grammar → Grammar
  | mk form parts ts e d s => mk form parts (ts ++ more) e d s

/-- Its terminators replace those of the grammars around it. -/
def resetTerminators (g : Grammar) : Grammar := g.withSettings ({ · with resetTerminators := true })

/-- Whether white space may stand between its parts. -/
def allowGaps (allow : Bool) (g : Grammar) : Grammar :=
  g.withSettings ({ · with allowGaps := allow })

/-- How it goes on when a part does not match. -/
def mode (m : ParseMode) (g : Grammar) : Grammar := g.withSettings ({ · with mode := m })

/-- Does not match where this does. -/
def exclude : Grammar → Grammar → Grammar
  | mk form parts ts _ d s, x => mk form parts ts (some x) d s

/-- Least number of repetitions. -/
def atLeast (n : Nat) (g : Grammar) : Grammar := g.withSettings ({ · with least := n })

/-- Greatest number of repetitions. -/
def atMost (n : Nat) : Grammar → Grammar :=
  withForm fun
    | .anyNumberOf _ perPart => .anyNumberOf (some n) perPart
    | form => form

/-- Greatest number of repetitions of one part. -/
def atMostEach (n : Nat) : Grammar → Grammar :=
  withForm fun
    | .anyNumberOf most _ => .anyNumberOf most (some n)
    | form => form

/-- What stands between the parts. -/
def delimiter : Grammar → Grammar → Grammar
  | mk (.delimited n) parts ts e _ s, x => mk (.delimited n) parts ts e (some x) s
  | g, _ => g

/-- Least number of delimiters. -/
def atLeastDelimiters (n : Nat) : Grammar → Grammar :=
  withForm fun
    | .delimited _ => .delimited n
    | form => form

/-- A delimiter may follow the last part. -/
def allowTrailing (g : Grammar) : Grammar := g.withSettings ({ · with allowTrailing := true })

/-- Delimiters may be left out. -/
def optionalDelimiter (g : Grammar) : Grammar :=
  g.withSettings ({ · with optionalDelimiter := true })

/-- The kind of brackets. -/
def brackets (type : String) : Grammar → Grammar :=
  withForm fun
    | .bracketed _ persists => .bracketed type persists
    | form => form

/-- Whether the brackets make a segment in the tree. -/
def persists (keep : Bool) : Grammar → Grammar :=
  withForm fun
    | .bracketed type _ => .bracketed type (some keep)
    | form => form

/-- How the text of a token is normalised. -/
def casefold (fold : Casefold) : Grammar → Grammar :=
  withForm fun
    | .typed template type _ trim => .typed template type fold trim
    | form => form

/-- Texts to take away from both ends of the text of a token when it is normalised. -/
def trim (texts : List String) : Grammar → Grammar :=
  withForm fun
    | .typed template type fold _ => .typed template type fold texts
    | form => form

/-- A pattern that the text must not match. -/
def anti (text : String) : Grammar → Grammar :=
  withForm fun
    | .pattern p _ type => .pattern p (some text) type
    | form => form

end Grammar

end QueryLint
