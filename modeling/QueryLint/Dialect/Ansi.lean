import QueryLint.Dialect.Ansi.Expression
import QueryLint.Dialect.Ansi.Lexicon
import QueryLint.Dialect.Ansi.Query
import QueryLint.Dialect.Ansi.Statement
import QueryLint.Dialect.Basic

/-!
QueryLint.Dialect.Ansi — standard SQL.

A file holds statements with semicolons between them. Other dialects start from `Ansi.book`.
-/

namespace QueryLint.Ansi

open Grammar

/-- The grammar of a file. -/
def file : Definition :=
  .grammar "FileSegment"
    (delimited [ref "StatementSegment"]
      |>.delimiter ((anyNumberOf [ref "DelimiterGrammar"]).atLeast 1)
      |>.allowTrailing)

/-- All grammars. -/
def book : GrammarBook where
  root := "FileSegment"
  definitions := symbols ++ names ++ expressions ++ queries ++ statements ++ [file]
  brackets := [
    ⟨"round", "StartBracketSegment", "EndBracketSegment", true⟩,
    ⟨"square", "StartSquareBracketSegment", "EndSquareBracketSegment", true⟩]

/-- The dialect. -/
def dialect : Except GrammarError Dialect := do
  let tables ← book.compile
  return {
    name := "ansi", tables := tables, rules := ← lexRules
    reserved := reservedKeywords, unreserved := unreservedKeywords }

end QueryLint.Ansi
