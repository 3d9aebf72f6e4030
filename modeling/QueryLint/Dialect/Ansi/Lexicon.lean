import QueryLint.Token.Rule

/-!
QueryLint.Dialect.Ansi.Lexicon — the tokens of standard SQL.

Block comments are divided at line ends, and white space at the ends of their lines is taken away
from them, so that rules about white space see it.
-/

namespace QueryLint.Ansi

/-- A rule for white space within a line. -/
def blankRule : Except GrammarError TokenRule :=
  TokenRule.ofPattern "whitespace" r"[^\S\r\n]+" "whitespace" .ofBlank

/-- A rule for line ends. -/
def newlineRule : Except GrammarError TokenRule :=
  TokenRule.ofPattern "newline" r"\r\n|\n" "newline" .ofBlank

/-- A rule for block comments. -/
def blockCommentRule : Except GrammarError LexRule := do
  let comment ← TokenRule.ofPattern "block_comment" r"/\*(?s:.)*?\*/" "comment" .ofComment
  return { token := comment, divider := some (← newlineRule), trimmer := some (← blankRule) }

/-- A rule for a symbol, whose name is its type. -/
def symbolRule (name text : String) : LexRule := { token := .ofLiteral name text name .ofCode }

/-- A rule for a pattern of code, whose name is its type. -/
def codeRule (name pattern : String) : Except GrammarError LexRule := do
  return { token := ← TokenRule.ofPattern name pattern name .ofCode }

/-- Symbols, with the names of their types. -/
def symbolRules : List LexRule := [
  symbolRule "casting_operator" "::",
  symbolRule "equals" "=",
  symbolRule "greater_than" ">",
  symbolRule "less_than" "<",
  symbolRule "not" "!",
  symbolRule "dot" ".",
  symbolRule "comma" ",",
  symbolRule "plus" "+",
  symbolRule "minus" "-",
  symbolRule "divide" "/",
  symbolRule "percent" "%",
  symbolRule "question" "?",
  symbolRule "ampersand" "&",
  symbolRule "vertical_bar" "|",
  symbolRule "caret" "^",
  symbolRule "star" "*",
  symbolRule "start_bracket" "(",
  symbolRule "end_bracket" ")",
  symbolRule "start_square_bracket" "[",
  symbolRule "end_square_bracket" "]",
  symbolRule "start_curly_bracket" "\x7b",
  symbolRule "end_curly_bracket" "\x7d",
  symbolRule "colon" ":",
  symbolRule "semicolon" ";"]

/-- The rules in order. -/
def lexRules : Except GrammarError (List LexRule) := do
  let comment ← TokenRule.ofPattern "inline_comment" r"(--|#)[^\n]*" "comment" .ofComment
  return [
    { token := ← blankRule },
    { token := comment },
    ← blockCommentRule,
    ← codeRule "single_quote" r"'([^'\\]|\\.|'')*'",
    ← codeRule "double_quote" "\"(\"\"|[^\"\\\\]|\\\\.)*\"",
    ← codeRule "back_quote" "\x60(?:[^\x60\\\\]|\\\\.)*\x60",
    ← codeRule "numeric_literal" r"(\d+\.\d+|\d+\.|\.\d+|\d+)([eE][+-]?\d+)?",
    { token := ← newlineRule }] ++ symbolRules ++ [← codeRule "word" "[0-9a-zA-Z_]+"]

end QueryLint.Ansi
