import QueryLint.Dialect.Ansi.Symbol

/-!
QueryLint.Dialect.Ansi.Query — the queries of standard SQL.

The clauses of a query are greedy once started: what a clause cannot place, up to the next clause,
is unparsable inside it.
-/

namespace QueryLint.Ansi

open Grammar

/-- Select statements, their clauses, and statements made of several. -/
def queries : List Definition := [
  .segment "SetOperatorSegment" "set_operator"
    (oneOf [seq [keyword "UNION", (oneOf [keyword "DISTINCT", keyword "ALL"]).optional],
      keyword "INTERSECT", keyword "EXCEPT"]),
  .grammar "SelectClauseTerminatorGrammar"
    (oneOf [keyword "FROM", keyword "WHERE", seq [keyword "ORDER", keyword "BY"],
      keyword "LIMIT", ref "SetOperatorSegment"]),
  .grammar "ClauseTerminatorGrammar"
    (oneOf [keyword "WHERE", seq [keyword "GROUP", keyword "BY"], keyword "HAVING",
      seq [keyword "ORDER", keyword "BY"], keyword "LIMIT", ref "SetOperatorSegment"]),
  .grammar "SelectableGrammar"
    (oneOf [ref "WithCompoundStatementSegment", ref "NonWithSelectableGrammar"]),
  .grammar "NonWithSelectableGrammar"
    (oneOf [ref "SetExpressionSegment", ref "NonSetSelectableGrammar"]),
  .grammar "NonSetSelectableGrammar"
    (oneOf [ref "SelectStatementSegment", bracketed [ref "SelectableGrammar"]]),
  .segment "SetExpressionSegment" "set_expression"
    (seq [ref "NonSetSelectableGrammar",
      (anyNumberOf [seq [ref "SetOperatorSegment", ref "NonSetSelectableGrammar"]]).atLeast 1,
      (ref "OrderByClauseSegment").optional, (ref "LimitClauseSegment").optional]),
  .segment "SelectStatementSegment" "select_statement"
    (seq [ref "SelectClauseSegment", (ref "FromClauseSegment").optional,
      (ref "WhereClauseSegment").optional, (ref "GroupByClauseSegment").optional,
      (ref "HavingClauseSegment").optional, (ref "OrderByClauseSegment").optional,
      (ref "LimitClauseSegment").optional]
    |>.terminators [ref "DelimiterGrammar", ref "SetOperatorSegment"]
    |>.mode .greedyOnceStarted),
  .segment "SelectClauseModifierSegment" "select_clause_modifier"
    (oneOf [keyword "DISTINCT", keyword "ALL"]),
  .grammar "BaseExpressionElementGrammar"
    (oneOf [ref "LiteralGrammar", ref "FunctionSegment", ref "ColumnReferenceSegment",
      ref "ExpressionSegment"]),
  .segment "SelectClauseElementSegment" "select_clause_element"
    (oneOf [ref "WildcardExpressionSegment",
      seq [ref "BaseExpressionElementGrammar", (ref "AliasExpressionSegment").optional]]),
  .segment "SelectClauseSegment" "select_clause"
    (seq [keyword "SELECT", (ref "SelectClauseModifierSegment").optional, indent,
      (delimited [ref "SelectClauseElementSegment"]).allowTrailing, dedent]
    |>.terminators [ref "SelectClauseTerminatorGrammar"]
    |>.mode .greedyOnceStarted),
  .segment "FromClauseSegment" "from_clause"
    (seq [keyword "FROM", indent, delimited [ref "FromExpressionSegment"], dedent]
    |>.terminators [ref "ClauseTerminatorGrammar"]
    |>.mode .greedyOnceStarted),
  .segment "FromExpressionSegment" "from_expression"
    (seq [ref "FromExpressionElementSegment", conditional .indent "indented_joins" "true",
      anyNumberOf [ref "JoinClauseSegment"], conditional .dedent "indented_joins" "true"]),
  .segment "TableExpressionSegment" "table_expression"
    (oneOf [ref "TableReferenceSegment", bracketed [ref "SelectableGrammar"]]),
  .segment "FromExpressionElementSegment" "from_expression_element"
    (seq [ref "TableExpressionSegment", (ref "AliasExpressionSegment").optional]),
  .grammar "JoinTypeKeywordsGrammar"
    (oneOf [keyword "INNER",
      seq [oneOf [keyword "LEFT", keyword "RIGHT", keyword "FULL"], (keyword "OUTER").optional],
      keyword "CROSS", keyword "NATURAL"]),
  .segment "JoinClauseSegment" "join_clause"
    (seq [(ref "JoinTypeKeywordsGrammar").optional, keyword "JOIN", indent,
      ref "FromExpressionElementSegment",
      oneOf [ref "JoinOnConditionSegment",
          seq [keyword "USING", bracketed [delimited [ref "SingleIdentifierGrammar"]]]]
        |>.optional, dedent]),
  .segment "JoinOnConditionSegment" "join_on_condition"
    (seq [keyword "ON", implicitIndent, ref "ExpressionSegment", dedent]),
  .segment "WhereClauseSegment" "where_clause"
    (seq [keyword "WHERE", implicitIndent, ref "ExpressionSegment", dedent]
    |>.terminators [seq [keyword "GROUP", keyword "BY"], keyword "HAVING",
      seq [keyword "ORDER", keyword "BY"], keyword "LIMIT", ref "SetOperatorSegment"]
    |>.mode .greedyOnceStarted),
  .grammar "GroupingExpressionGrammar"
    (oneOf [ref "ColumnReferenceSegment", ref "NumericLiteralSegment", ref "ExpressionSegment"]),
  .segment "GroupByClauseSegment" "groupby_clause"
    (seq [keyword "GROUP", keyword "BY", indent, delimited [ref "GroupingExpressionGrammar"],
      dedent]
    |>.terminators [keyword "HAVING", seq [keyword "ORDER", keyword "BY"], keyword "LIMIT",
      ref "SetOperatorSegment"]
    |>.mode .greedyOnceStarted),
  .segment "HavingClauseSegment" "having_clause"
    (seq [keyword "HAVING", implicitIndent, ref "ExpressionSegment", dedent]
    |>.terminators [seq [keyword "ORDER", keyword "BY"], keyword "LIMIT"]
    |>.mode .greedyOnceStarted),
  .segment "OrderByClauseSegment" "orderby_clause"
    (seq [keyword "ORDER", keyword "BY", indent,
      delimited [seq [ref "GroupingExpressionGrammar",
              (oneOf [keyword "ASC", keyword "DESC"]).optional,
              (seq [keyword "NULLS", oneOf [keyword "FIRST", keyword "LAST"]]).optional]], dedent]
    |>.terminators [keyword "LIMIT", ref "SetOperatorSegment"]
    |>.mode .greedyOnceStarted),
  .segment "LimitClauseSegment" "limit_clause"
    (seq [keyword "LIMIT", indent, oneOf [ref "NumericLiteralSegment", keyword "ALL"],
      (seq [keyword "OFFSET", ref "NumericLiteralSegment"]).optional, dedent]),
  .segment "WithCompoundStatementSegment" "with_compound_statement"
    (seq [keyword "WITH", (keyword "RECURSIVE").optional, indent,
      (delimited [ref "CTEDefinitionSegment"]).terminators [keyword "SELECT"], dedent,
      ref "NonWithSelectableGrammar"]),
  .segment "CTEColumnList" "cte_column_list"
    (bracketed [delimited [ref "SingleIdentifierGrammar"]]),
  .segment "CTEDefinitionSegment" "common_table_expression"
    (seq [ref "SingleIdentifierGrammar", (ref "CTEColumnList").optional, keyword "AS",
      bracketed [ref "SelectableGrammar"]])]

end QueryLint.Ansi
