import QueryLint.Dialect.Ansi.Symbol

/-!
QueryLint.Dialect.Ansi.Statement — the statements of standard SQL that change things.
-/

namespace QueryLint.Ansi

open Grammar

/-- What a file may hold besides queries. -/
def statements : List Definition := [
  .segment "StatementSegment" "statement"
    (oneOf [ref "SelectableGrammar", ref "InsertStatementSegment", ref "UpdateStatementSegment",
      ref "DeleteStatementSegment", ref "CreateTableStatementSegment",
      ref "DropTableStatementSegment"]
    |>.terminators [ref "DelimiterGrammar"]),
  .grammar "BracketedColumnReferenceListGrammar"
    (bracketed [delimited [ref "ColumnReferenceSegment"]]),
  .segment "ValuesClauseSegment" "values_clause"
    (seq [oneOf [keyword "VALUES", keyword "VALUE"],
      delimited [bracketed [delimited [oneOf [keyword "DEFAULT", ref "ExpressionSegment"]]]]]),
  .segment "InsertStatementSegment" "insert_statement"
    (seq [keyword "INSERT", (keyword "OVERWRITE").optional, keyword "INTO",
      ref "TableReferenceSegment", (ref "BracketedColumnReferenceListGrammar").optional,
      oneOf [ref "ValuesClauseSegment", ref "SelectableGrammar"]]),
  .segment "SetClauseSegment" "set_clause"
    (seq [ref "ColumnReferenceSegment", ref "EqualsSegment",
      oneOf [keyword "DEFAULT", ref "ExpressionSegment"]]),
  .segment "SetClauseListSegment" "set_clause_list"
    (seq [keyword "SET", indent, delimited [ref "SetClauseSegment"], dedent]),
  .segment "UpdateStatementSegment" "update_statement"
    (seq [keyword "UPDATE", ref "TableReferenceSegment",
      ((ref "AliasExpressionSegment").exclude (keyword "SET")).optional,
      ref "SetClauseListSegment", (ref "FromClauseSegment").optional,
      (ref "WhereClauseSegment").optional]),
  .segment "DeleteStatementSegment" "delete_statement"
    (seq [keyword "DELETE", ref "FromClauseSegment", (ref "WhereClauseSegment").optional]),
  .grammar "IfExistsGrammar" (seq [keyword "IF", keyword "EXISTS"]),
  .grammar "IfNotExistsGrammar" (seq [keyword "IF", keyword "NOT", keyword "EXISTS"]),
  .segment "ColumnConstraintSegment" "column_constraint_segment"
    (oneOf [seq [(keyword "NOT").optional, keyword "NULL"],
      seq [keyword "PRIMARY", keyword "KEY"], keyword "UNIQUE",
      seq [keyword "DEFAULT", oneOf [ref "LiteralGrammar", ref "FunctionSegment"]],
      seq [keyword "REFERENCES", ref "TableReferenceSegment",
          (ref "BracketedColumnReferenceListGrammar").optional]]),
  .segment "ColumnDefinitionSegment" "column_definition"
    (seq [ref "SingleIdentifierGrammar", ref "DatatypeSegment",
      anyNumberOf [ref "ColumnConstraintSegment"]]),
  .segment "TableConstraintSegment" "table_constraint"
    (seq [(seq [keyword "CONSTRAINT", ref "ObjectReferenceSegment"]).optional,
      oneOf [seq [keyword "PRIMARY", keyword "KEY", ref "BracketedColumnReferenceListGrammar"],
          seq [keyword "UNIQUE", ref "BracketedColumnReferenceListGrammar"],
          seq [keyword "FOREIGN", keyword "KEY", ref "BracketedColumnReferenceListGrammar",
              keyword "REFERENCES", ref "TableReferenceSegment",
              (ref "BracketedColumnReferenceListGrammar").optional]]]),
  .segment "CreateTableStatementSegment" "create_table_statement"
    (seq [keyword "CREATE", (seq [keyword "OR", keyword "REPLACE"]).optional,
      (oneOf [keyword "TEMPORARY", keyword "TEMP"]).optional, keyword "TABLE",
      (ref "IfNotExistsGrammar").optional, ref "TableReferenceSegment",
      oneOf [bracketed [delimited [oneOf [ref "TableConstraintSegment",
                      ref "ColumnDefinitionSegment"]]],
          seq [keyword "AS", ref "SelectableGrammar"]]]),
  .segment "DropTableStatementSegment" "drop_table_statement"
    (seq [keyword "DROP", keyword "TABLE", (ref "IfExistsGrammar").optional,
      delimited [ref "TableReferenceSegment"],
      (oneOf [keyword "RESTRICT", keyword "CASCADE"]).optional])]

end QueryLint.Ansi
