import QueryLint.Text.Category
import QueryLint.Text.Property.Table

/-!
QueryLint.Text.Property — the character classes this library asks about, and text in quotes.

The classes of ASCII characters are answered directly. Those of other characters follow from the
general category, with a table of exceptions where the category does not decide. `isBlank` is
Unicode white space, which is what trimming and splitting into words go by; `Char.isWhitespace`
knows only four characters of it.

`quoted` shows text as messages and dumps do: everything that would not show as itself is escaped,
the quote, the backslash, the four control characters that have a letter of their own, and by code
point all other characters that are invisible or would attach to the character before them.

The classes of patterns, `isDecimalDigit` and `isWordChar`, are those of Unicode 16.0; all others
are those of Unicode 17.0.
-/

namespace QueryLint.Text

/-- Letters and everything else with the property Alphabetic. -/
def isAlphabetic (c : Char) : Bool :=
  if c.toNat < 0x80 then c.isAlpha
  else Category.anyContains (.letterNumber :: Category.letters) c ||
    inRanges c.toNat otherAlphabeticRanges

/-- Digits, numerals and other characters that stand for numbers. -/
def isNumeric (c : Char) : Bool :=
  if c.toNat < 0x80 then c.isDigit else Category.anyContains Category.numbers c

/-- White space. -/
def isBlank (c : Char) : Bool :=
  inRanges c.toNat blankRanges

/-- A character that can begin an identifier, the underscore not counted. -/
def isIdentifierStart (c : Char) : Bool :=
  if c.toNat < 0x80 then c.isAlpha
  else inRanges c.toNat identifierStartAdded ||
    (Category.anyContains (.letterNumber :: Category.letters) c &&
      !inRanges c.toNat identifierStartOmitted)

/-- A character that can continue an identifier. -/
def isIdentifierContinue (c : Char) : Bool :=
  if c.toNat < 0x80 then c.isAlphanum || c == '_'
  else inRanges c.toNat identifierContinueAdded ||
    (Category.anyContains (.letterNumber :: .nonspacingMark :: .spacingMark :: .decimalNumber ::
        .connectorPunctuation :: Category.letters) c &&
      !inRanges c.toNat identifierContinueOmitted)

/-- A character that is assigned only since the latest version of Unicode. -/
def isRecent (c : Char) : Bool :=
  inRanges c.toNat recentRanges

/-- A decimal digit of any script. -/
def isDecimalDigit (c : Char) : Bool :=
  if c.toNat < 0x80 then c.isDigit else Category.decimalNumber.contains c && !isRecent c

/-- A join control, which is not seen but tells whether its neighbours are joined. -/
def isJoinControl (c : Char) : Bool :=
  c == '\u200c' || c == '\u200d'

/-- A character of a word: letters, marks, decimal digits, connectors and join controls. -/
def isWordChar (c : Char) : Bool :=
  if c.toNat < 0x80 then c.isAlphanum || c == '_'
  else !isRecent c && (isAlphabetic c || isJoinControl c ||
    Category.anyContains (.decimalNumber :: .connectorPunctuation :: Category.marks) c)

/-- A character that shows as itself: the space, and whatever is not a separator, a control, a
format character or a code point without a character. -/
def isVisible (c : Char) : Bool :=
  if c.toNat < 0x80 then 0x20 ≤ c.toNat && c.toNat < 0x7F
  else !Category.anyContains
    (.control :: .format :: .privateUse :: .unassigned :: Category.separators) c

/-- A character that attaches to the one before it. -/
def isGraphemeExtend (c : Char) : Bool :=
  if c.toNat < 0x80 then false
  else Category.anyContains [.nonspacingMark, .enclosingMark] c ||
    inRanges c.toNat otherGraphemeExtendRanges

/-- A letter that has case. -/
def isCased (c : Char) : Bool :=
  if c.toNat < 0x80 then c.isAlpha
  else Category.anyContains [.lowercaseLetter, .uppercaseLetter, .titlecaseLetter] c ||
    inRanges c.toNat otherLowercaseRanges || inRanges c.toNat otherUppercaseRanges

/-- A character that is passed over when looking for the cased letters around it. -/
def isCaseIgnorable (c : Char) : Bool :=
  inRanges c.toNat otherCaseIgnorableRanges ||
    Category.anyContains [.nonspacingMark, .enclosingMark, .format, .modifierLetter,
      .modifierSymbol] c

/-! ## Blanks at the ends, and words between blanks -/

/-- The text without the blanks in front. -/
def trimStart (cs : List Char) : List Char :=
  cs.dropWhile isBlank

/-- The text without the blanks at the end. -/
def trimEnd (cs : List Char) : List Char :=
  (cs.reverse.dropWhile isBlank).reverse

/-- The text without the blanks at either end. -/
def trim (s : String) : String :=
  String.ofList (trimEnd (trimStart s.toList))

/-- Whether the text is nothing but blanks. -/
def isAllBlank (s : String) : Bool :=
  s.toList.all isBlank

/-- The first word of the text: its first maximal run without blanks. -/
def firstWord (s : String) : String :=
  String.ofList ((trimStart s.toList).takeWhile (!isBlank ·))

/-- Pieces of the text between the characters that satisfy `p`. There is one more piece than
there are such characters. -/
def splitOn (p : Char → Bool) : List Char → List (List Char)
  | [] => [[]]
  | c :: cs =>
    if p c then [] :: splitOn p cs
    else
      match splitOn p cs with
      | [] => [[c]]
      | piece :: pieces => (c :: piece) :: pieces

/-- Lines of the text. A line ends with a line feed, or with a carriage return and a line feed;
a final line end starts no further line. -/
def lines (s : String) : List String :=
  let pieces := splitOn (· == '\n') s.toList
  let whole := if pieces.getLast? = some [] then pieces.dropLast else pieces
  (whole.zipIdx).map fun (piece, i) =>
    -- the last piece has no line feed after it, so its carriage return is text
    if i + 1 < pieces.length && piece.getLast? = some '\r' then String.ofList piece.dropLast
    else String.ofList piece

/-! ## Text in double quotes -/

/-- The digits of a number in base 16, in lower case. -/
def hex (n : Nat) : List Char :=
  Nat.toDigits 16 n

/-- One character inside double quotes. -/
def quoteChar (c : Char) : List Char :=
  if c = '"' then ['\\', '"']
  else if c = '\\' then ['\\', '\\']
  else if c = '\n' then ['\\', 'n']
  else if c = '\r' then ['\\', 'r']
  else if c = '\t' then ['\\', 't']
  else if c = '\x00' then ['\\', '0']
  else if isGraphemeExtend c || !isVisible c then
    ['\\', 'u', '\x7b'] ++ hex c.toNat ++ ['\x7d']
  else [c]

/-- The text in double quotes. -/
def quoted (s : String) : String :=
  String.ofList ('"' :: s.toList.flatMap quoteChar ++ ['"'])

/-- A number in decimal digits, filled up with spaces on the left to a width. -/
def padded (width n : Nat) : String :=
  let digits := toString n
  String.ofList (List.replicate (width - digits.length) ' ') ++ digits

end QueryLint.Text
