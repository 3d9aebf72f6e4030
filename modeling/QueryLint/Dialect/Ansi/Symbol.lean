import QueryLint.Grammar.Compile

/-!
QueryLint.Dialect.Ansi.Symbol — the symbols, literals and names of standard SQL.

Symbols are tokens by their text; an operator of two symbols is a segment over both, with nothing
between them. A name is a word that is not reserved, or anything in quotes.
-/

namespace QueryLint.Ansi

open Grammar

/-- Words that are no names. -/
def reservedKeywords : List String := [
  "ALL", "AND", "AS", "ASC", "BETWEEN", "BY", "CASE", "CAST", "CONSTRAINT",
  "CREATE", "CROSS", "DEFAULT", "DELETE", "DESC", "DISTINCT", "DROP", "ELSE", "END",
  "EXCEPT", "EXISTS", "FALSE", "FETCH", "FOREIGN", "FROM", "FULL", "GROUP", "HAVING",
  "IN", "INNER", "INSERT", "INTERSECT", "INTO", "IS", "JOIN", "LEFT", "LIKE",
  "LIMIT", "NATURAL", "NOT", "NULL", "OFFSET", "ON", "OR", "ORDER", "OUTER",
  "PRIMARY", "REFERENCES", "RIGHT", "SELECT", "SET", "TABLE", "THEN", "TRUE", "UNION",
  "UNIQUE", "UPDATE", "USING", "VALUES", "WHEN", "WHERE", "WITH"]

/-- Keywords that may be names too. -/
def unreservedKeywords : List String := [
  "CASCADE", "FIRST", "IF", "KEY", "LAST", "NULLS", "OVERWRITE", "RECURSIVE", "REPLACE",
  "RESTRICT", "TEMPORARY", "TEMP", "VALUE"]

/-- A pattern for the reserved words. -/
def reservedPattern : String := "|".intercalate reservedKeywords

/-- All parts in order with nothing between them. -/
def adjacent (parts : List Grammar) : Grammar := (seq parts).allowGaps false

/-- Names with dots between them. -/
def dottedName : Grammar :=
  delimited [ref "SingleIdentifierGrammar"]
    |>.delimiter (ref "ObjectReferenceDelimiterGrammar")
    |>.allowGaps false

/-- Separators, brackets and operators. -/
def symbols : List Definition := [
  .grammar "CommaSegment" (string "," "comma"),
  .grammar "DotSegment" (string "." "dot"),
  .grammar "StarSegment" (string "*" "star"),
  .grammar "SemicolonSegment" (string ";" "statement_terminator"),
  .grammar "DelimiterGrammar" (ref "SemicolonSegment"),
  .grammar "StartBracketSegment" (string "(" "start_bracket"),
  .grammar "EndBracketSegment" (string ")" "end_bracket"),
  .grammar "StartSquareBracketSegment" (string "[" "start_square_bracket"),
  .grammar "EndSquareBracketSegment" (string "]" "end_square_bracket"),
  .grammar "CastOperatorSegment" (string "::" "casting_operator"),
  .grammar "PlusSegment" (string "+" "binary_operator"),
  .grammar "MinusSegment" (string "-" "binary_operator"),
  .grammar "MultiplySegment" (string "*" "binary_operator"),
  .grammar "DivideSegment" (string "/" "binary_operator"),
  .grammar "ModuloSegment" (string "%" "binary_operator"),
  .segment "ConcatSegment" "binary_operator" (adjacent [string "|" "pipe", string "|" "pipe"]),
  .grammar "EqualsSegment" (string "=" "comparison_operator"),
  .grammar "GreaterThanSegment" (string ">" "comparison_operator"),
  .grammar "LessThanSegment" (string "<" "comparison_operator"),
  .segment "GreaterThanOrEqualToSegment" "comparison_operator"
    (adjacent [string ">" "raw_comparison_operator", string "=" "raw_comparison_operator"]),
  .segment "LessThanOrEqualToSegment" "comparison_operator"
    (adjacent [string "<" "raw_comparison_operator", string "=" "raw_comparison_operator"]),
  .segment "NotEqualToSegment" "comparison_operator"
    (oneOf [adjacent [string "!" "raw_comparison_operator", string "=" "raw_comparison_operator"],
      adjacent [string "<" "raw_comparison_operator", string ">" "raw_comparison_operator"]])]

/-- Literals, names, references and data types. -/
def names : List Definition := [
  .grammar "NumericLiteralSegment" (typed "numeric_literal" "numeric_literal"),
  .grammar "QuotedLiteralSegment" (typed "single_quote" "quoted_literal"),
  .grammar "BooleanLiteralGrammar" (multiString ["TRUE", "FALSE"] "boolean_literal"),
  .grammar "NullLiteralSegment" (string "NULL" "null_literal"),
  .grammar "LiteralGrammar"
    (oneOf [ref "QuotedLiteralSegment", ref "NumericLiteralSegment", ref "BooleanLiteralGrammar",
      ref "NullLiteralSegment"]),
  .grammar "NakedIdentifierSegment"
    ((pattern "[A-Z0-9_]*[A-Z][A-Z0-9_]*" "naked_identifier").anti reservedPattern),
  .grammar "QuotedIdentifierSegment" ((typed "double_quote" "quoted_identifier").trim ["\""]),
  .grammar "BackQuotedIdentifierSegment" ((typed "back_quote" "quoted_identifier").trim ["\x60"]),
  .grammar "SingleIdentifierGrammar"
    (oneOf [ref "NakedIdentifierSegment", ref "QuotedIdentifierSegment",
      ref "BackQuotedIdentifierSegment"]),
  .grammar "ObjectReferenceDelimiterGrammar"
    (oneOf [ref "DotSegment", adjacent [ref "DotSegment", ref "DotSegment"]]),
  .segment "ObjectReferenceSegment" "object_reference" dottedName,
  .segment "TableReferenceSegment" "table_reference" dottedName,
  .segment "ColumnReferenceSegment" "column_reference" dottedName,
  .segment "WildcardIdentifierSegment" "wildcard_identifier"
    (adjacent [anyNumberOf [adjacent [ref "SingleIdentifierGrammar", ref "DotSegment"]],
      ref "StarSegment"]),
  .segment "WildcardExpressionSegment" "wildcard_expression"
    (seq [ref "WildcardIdentifierSegment"]),
  .segment "AliasExpressionSegment" "alias_expression"
    (seq [indent, (keyword "AS").optional, ref "SingleIdentifierGrammar", dedent]),
  .grammar "DatatypeIdentifierSegment"
    ((pattern "[A-Z][A-Z0-9_]*" "data_type_identifier").anti reservedPattern),
  .segment "DatatypeSegment" "data_type"
    (seq [ref "DatatypeIdentifierSegment",
      (bracketed [delimited [ref "NumericLiteralSegment"]]).optional])]

end QueryLint.Ansi
