import QueryLint.Grammar.Compile
import QueryLint.Token.Rule

/-!
QueryLint.Dialect.Basic — dialects of SQL.

A dialect has rules for its tokens, compiled grammars for its sentences, and lists of its keywords.
-/

namespace QueryLint

/-- A dialect. -/
structure Dialect where
  name : String
  tables : Tables
  rules : List LexRule
  /-- Keywords, in upper case, that are no names. -/
  reserved : List String
  /-- Keywords, in upper case, that may be names too. -/
  unreserved : List String

namespace Dialect

variable (d : Dialect)

/-- The grammar of a file. -/
def root : GrammarId := d.tables.root

/-- The grammar of a name. -/
def grammar? (name : String) : Option GrammarId := d.tables.lookup? name

/-- A reserved keyword, in any case. -/
def isReserved (word : String) : Bool := d.reserved.contains (Text.upper word)

/-- A keyword of either kind, in any case. -/
def isKeyword (word : String) : Bool :=
  d.isReserved word || d.unreserved.contains (Text.upper word)

end Dialect

end QueryLint
