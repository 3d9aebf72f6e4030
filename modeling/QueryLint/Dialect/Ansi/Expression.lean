import QueryLint.Dialect.Ansi.Symbol

/-!
QueryLint.Dialect.Ansi.Expression — the expressions of standard SQL.

An expression is a row of operands with operators between them; precedence makes no difference
to how segments nest.
-/

namespace QueryLint.Ansi

open Grammar

/-- Operators, operands, functions and case expressions. -/
def expressions : List Definition := [
  .segment "ExpressionSegment" "expression" (ref "Expression_A_Grammar"),
  .grammar "ArithmeticBinaryOperatorGrammar"
    (oneOf [ref "PlusSegment", ref "MinusSegment", ref "DivideSegment", ref "MultiplySegment",
      ref "ModuloSegment"]),
  .grammar "BooleanBinaryOperatorGrammar"
    (oneOf [string "AND" "binary_operator", string "OR" "binary_operator"]),
  .grammar "ComparisonOperatorGrammar"
    (oneOf [ref "EqualsSegment", ref "GreaterThanSegment", ref "LessThanSegment",
      ref "GreaterThanOrEqualToSegment", ref "LessThanOrEqualToSegment", ref "NotEqualToSegment"]),
  .grammar "BinaryOperatorGrammar"
    (oneOf [ref "ArithmeticBinaryOperatorGrammar", ref "ConcatSegment",
      ref "BooleanBinaryOperatorGrammar", ref "ComparisonOperatorGrammar"]),
  .grammar "UnaryOperatorGrammar"
    (oneOf [keyword "NOT", string "-" "sign_indicator", string "+" "sign_indicator"]),
  .grammar "Expression_A_Grammar"
    (seq [ref "Expression_C_Grammar",
      anyNumberOf [oneOf [seq [ref "BinaryOperatorGrammar", ref "Expression_C_Grammar"],
              seq [(keyword "NOT").optional, keyword "LIKE", ref "Expression_C_Grammar"],
              seq [(keyword "NOT").optional, keyword "IN",
                  bracketed [oneOf [ref "SelectableGrammar", delimited [ref "ExpressionSegment"]]]],
              seq [keyword "IS", (keyword "NOT").optional,
                  oneOf [ref "NullLiteralSegment", ref "BooleanLiteralGrammar"]],
              seq [(keyword "NOT").optional, keyword "BETWEEN", ref "Expression_C_Grammar",
                  keyword "AND", ref "Expression_C_Grammar"]]]]),
  .grammar "Expression_C_Grammar"
    (seq [anyNumberOf [ref "UnaryOperatorGrammar"], ref "Expression_D_Grammar",
      anyNumberOf [seq [ref "CastOperatorSegment", ref "DatatypeSegment"]]]),
  .grammar "Expression_D_Grammar"
    (oneOf [ref "ExistsExpressionSegment", ref "CaseExpressionSegment",
      ref "CastExpressionSegment", ref "FunctionSegment",
      bracketed [oneOf [ref "ExpressionSegment", ref "SelectableGrammar"]], ref "LiteralGrammar",
      ref "ColumnReferenceSegment"]),
  .segment "ExistsExpressionSegment" "exists_expression"
    (seq [keyword "EXISTS", bracketed [ref "SelectableGrammar"]]),
  .segment "CastExpressionSegment" "cast_expression"
    (seq [keyword "CAST",
      bracketed [ref "ExpressionSegment", keyword "AS", ref "DatatypeSegment"]]),
  .grammar "FunctionNameIdentifierSegment"
    ((pattern "[A-Z_][A-Z0-9_]*" "function_name_identifier").anti reservedPattern),
  .segment "FunctionNameSegment" "function_name"
    (adjacent [anyNumberOf [adjacent [ref "SingleIdentifierGrammar", ref "DotSegment"]],
      ref "FunctionNameIdentifierSegment"]),
  .grammar "FunctionContentsGrammar"
    (oneOf [ref "StarSegment",
      seq [(keyword "DISTINCT").optional, delimited [ref "ExpressionSegment"]]]),
  .segment "FunctionSegment" "function"
    (adjacent [ref "FunctionNameSegment",
      (bracketed [(ref "FunctionContentsGrammar").optional]).mode .greedy]),
  .segment "CaseExpressionSegment" "case_expression"
    (seq [keyword "CASE", implicitIndent, (ref "ExpressionSegment").optional,
      (anyNumberOf [ref "WhenClauseSegment"]).atLeast 1, (ref "ElseClauseSegment").optional,
      dedent, keyword "END"]),
  .segment "WhenClauseSegment" "when_clause"
    (seq [keyword "WHEN", indent, ref "ExpressionSegment", dedent, keyword "THEN", indent,
      ref "ExpressionSegment", dedent]),
  .segment "ElseClauseSegment" "else_clause"
    (seq [keyword "ELSE", indent, ref "ExpressionSegment", dedent])]

end QueryLint.Ansi
