import QueryLint.Pattern.Property.Binary
import QueryLint.Pattern.Property.Script

/-!
QueryLint.Pattern.Property.Boundary — what a character does to the boundaries of graphemes, words
and sentences.

Each of the properties Grapheme_Cluster_Break, Word_Break and Sentence_Break divides the characters
into kinds; those of no kind are not listed. The sets are put together as the rules of text
segmentation define them.
-/

namespace QueryLint.Pattern

open Text CharSet

/-- The characters of a script, by its code. -/
def scriptByCode (code : String) : CharSet :=
  match scripts.find? (·.names.contains code) with
  | some s => .ranges s.ranges
  | none => .empty

/-- What is in no other set of a list. -/
def excluding (s : CharSet) (others : List CharSet) : CharSet :=
  others.foldl .diff s

/-! ## 1. Graphemes -/

/-- Spacing marks that do not attach to the letter before them. -/
def looseSpacingMarks : CharSet :=
  .ranges [(0x102B, 0x102C), (0x1038, 0x1038), (0x1062, 0x1064), (0x1067, 0x106D),
    (0x1083, 0x1083), (0x1087, 0x108C), (0x108F, 0x108F), (0x109A, 0x109C), (0x1A61, 0x1A61),
    (0x1A63, 0x1A64), (0xAA7B, 0xAA7B), (0xAA7D, 0xAA7D), (0x11720, 0x11721)]

/-- Characters that cling to the one after them. -/
def graphemePrepend : CharSet :=
  .union (.ranges prependedConcatenationMarkRanges)
    (.ranges [(0xD4E, 0xD4E), (0x111C2, 0x111C3), (0x113D1, 0x113D1), (0x1193F, 0x1193F),
      (0x11941, 0x11941), (0x11A3A, 0x11A3A), (0x11A84, 0x11A89), (0x11D46, 0x11D46),
      (0x11F02, 0x11F02)])

/-- Code points of Korean syllables. -/
def hangulSyllables : List Nat := (List.range 11172).map (0xAC00 + ·)

/-- Korean syllables that end with their vowel. -/
def openSyllables : CharSet :=
  .ranges ((hangulSyllables.filter fun n => (n - 0xAC00) % 28 == 0).map fun n => (n, n))

/-- Values of Grapheme_Cluster_Break with their names. -/
def graphemeBreaks : List (List String × CharSet) := [
  (["CN", "Control"],
    excluding (.union (categories [.control, .format, .lineSeparator, .paragraphSeparator])
        (.inter (category .unassigned) (.ranges defaultIgnorableCodePointRanges)))
      [.ofList ['\n', '\r', '\u200c', '\u200d'], .ranges prependedConcatenationMarkRanges,
        graphemeExtend]),
  (["CR"], .single '\r'),
  (["EX", "Extend"], .union graphemeExtend (.ranges emojiModifierRanges)),
  (["L"], .ranges [(0x1100, 0x115F), (0xA960, 0xA97C)]),
  (["LF"], .single '\n'),
  (["LV"], openSyllables),
  (["LVT"], .diff (.ranges [(0xAC00, 0xD7A3)]) openSyllables),
  (["PP", "Prepend"], graphemePrepend),
  (["RI", "Regional_Indicator"], .ranges [(0x1F1E6, 0x1F1FF)]),
  (["SM", "SpacingMark"],
    excluding (.union (category .spacingMark) (.ranges [(0xE33, 0xE33), (0xEB3, 0xEB3)]))
      [graphemeExtend, looseSpacingMarks]),
  (["T"], .ranges [(0x11A8, 0x11FF), (0xD7CB, 0xD7FB)]),
  (["V"], .ranges [(0x1160, 0x11A7), (0xD7B0, 0xD7C6), (0x16D63, 0x16D63), (0x16D67, 0x16D6A)]),
  (["ZWJ"], .single '\u200d')]

/-! ## 2. Words -/

/-- Characters that attach to the one before them, in words and sentences. -/
def wordExtend : CharSet := .union graphemeExtend (category .spacingMark)

/-- Hebrew letters. -/
def hebrewLetter : CharSet := .inter (scriptByCode "Hebr") (category .otherLetter)

/-- Katakana and the signs used with them. -/
def katakana : CharSet :=
  .union (scriptByCode "Kana")
    (.ranges [(0x3031, 0x3035), (0x309B, 0x309C), (0x30A0, 0x30A0), (0x30FC, 0x30FC),
      (0xFF70, 0xFF70)])

/-- Letters of scripts that write words without blanks between them. -/
def unspacedLetters : CharSet :=
  .ranges [(0xE01, 0xE30), (0xE32, 0xE33), (0xE40, 0xE46), (0xE81, 0xE82), (0xE84, 0xE84),
    (0xE86, 0xE8A), (0xE8C, 0xEA3), (0xEA5, 0xEA5), (0xEA7, 0xEB0), (0xEB2, 0xEB3),
    (0xEBD, 0xEBD), (0xEC0, 0xEC4), (0xEC6, 0xEC6), (0xEDC, 0xEDF), (0x1000, 0x102A),
    (0x103F, 0x103F), (0x1050, 0x1055), (0x105A, 0x105D), (0x1061, 0x1061), (0x1065, 0x1066),
    (0x106E, 0x1070), (0x1075, 0x1081), (0x108E, 0x108E), (0x1780, 0x17B3), (0x17D7, 0x17D7),
    (0x17DC, 0x17DC), (0x1950, 0x196D), (0x1970, 0x1974), (0x1980, 0x19AB), (0x19B0, 0x19C9),
    (0x1A20, 0x1A54), (0x1AA7, 0x1AA7), (0xA9E0, 0xA9E4), (0xA9E6, 0xA9EF), (0xA9FA, 0xA9FE),
    (0xAA60, 0xAA76), (0xAA7A, 0xAA7A), (0xAA7E, 0xAAAF), (0xAAB1, 0xAAB1), (0xAAB5, 0xAAB6),
    (0xAAB9, 0xAABD), (0xAAC0, 0xAAC0), (0xAAC2, 0xAAC2), (0xAADB, 0xAADD), (0x11700, 0x1171A),
    (0x11740, 0x11746)]

/-- Signs that count as letters of a word. -/
def wordSigns : CharSet :=
  .ranges [(0x2C2, 0x2C5), (0x2D2, 0x2D7), (0x2DE, 0x2DF), (0x2E5, 0x2EB), (0x2ED, 0x2ED),
    (0x2EF, 0x2FF), (0x55A, 0x55C), (0x55E, 0x55E), (0x58A, 0x58A), (0x5F3, 0x5F3),
    (0xA708, 0xA716), (0xA720, 0xA721), (0xA789, 0xA78A), (0xAB5B, 0xAB5B)]

/-- Values of Word_Break with their names. -/
def wordBreaks : List (List String × CharSet) := [
  (["LE", "ALetter"],
    excluding (.union alphabetic wordSigns)
      [.ranges ideographicRanges, katakana, unspacedLetters, scriptByCode "Hira", hebrewLetter,
        wordExtend]),
  (["CR"], .single '\r'),
  (["DQ", "Double_Quote"], .single '"'),
  (["Extend"], .union wordExtend (.ranges emojiModifierRanges)),
  (["EX", "ExtendNumLet"],
    .ranges [(0x5F, 0x5F), (0x202F, 0x202F), (0x203F, 0x2040), (0x2054, 0x2054),
      (0xFE33, 0xFE34), (0xFE4D, 0xFE4F), (0xFF3F, 0xFF3F)]),
  (["FO", "Format"],
    excluding (category .format) [graphemeExtend, .ofList ['\u200b', '\u200c', '\u200d']]),
  (["HL", "Hebrew_Letter"], hebrewLetter),
  (["KA", "Katakana"], katakana),
  (["LF"], .single '\n'),
  (["ML", "MidLetter"],
    .ranges [(0x3A, 0x3A), (0xB7, 0xB7), (0x387, 0x387), (0x55F, 0x55F), (0x5F4, 0x5F4),
      (0x2027, 0x2027), (0xFE13, 0xFE13), (0xFE55, 0xFE55), (0xFF1A, 0xFF1A)]),
  (["MN", "MidNum"],
    .ranges [(0x2C, 0x2C), (0x3B, 0x3B), (0x37E, 0x37E), (0x589, 0x589), (0x60C, 0x60D),
      (0x66C, 0x66C), (0x7F8, 0x7F8), (0x2044, 0x2044), (0xFE10, 0xFE10), (0xFE14, 0xFE14),
      (0xFE50, 0xFE50), (0xFE54, 0xFE54), (0xFF0C, 0xFF0C), (0xFF1B, 0xFF1B)]),
  (["MB", "MidNumLet"],
    .ranges [(0x2E, 0x2E), (0x2018, 0x2019), (0x2024, 0x2024), (0xFE52, 0xFE52),
      (0xFF07, 0xFF07), (0xFF0E, 0xFF0E)]),
  (["NL", "Newline"], .ranges [(0xB, 0xC), (0x85, 0x85), (0x2028, 0x2029)]),
  (["NU", "Numeric"], .union (category .decimalNumber) (.ranges [(0x66B, 0x66B)])),
  (["RI", "Regional_Indicator"], .ranges [(0x1F1E6, 0x1F1FF)]),
  (["SQ", "Single_Quote"], .single '\''),
  (["WSegSpace"],
    .ranges [(0x20, 0x20), (0x1680, 0x1680), (0x2000, 0x2006), (0x2008, 0x200A),
      (0x205F, 0x205F), (0x3000, 0x3000)]),
  (["ZWJ"], .single '\u200d')]

/-! ## 3. Sentences -/

/-- Full stops, which may end a sentence. -/
def fullStops : CharSet := .ofList ['.', '\u2024', '\ufe52', '\uff0e']

/-- Signs that end a sentence. -/
def sentenceEnds : CharSet := .diff (.ranges sentenceTerminalRanges) fullStops

/-- Ends of paragraphs other than line ends of ASCII. -/
def paragraphEnds : CharSet := .ofList ['\u0085', '\u2028', '\u2029']

/-- Attaching characters, the joiner among them. -/
def sentenceExtend : CharSet := .union wordExtend (.single '\u200d')

/-- Lowercase characters; Georgian letters are counted without case. -/
def sentenceLower : CharSet :=
  excluding lowercase [graphemeExtend, .ranges [(0x10D0, 0x10FA), (0x10FD, 0x10FF)]]

/-- Uppercase and titlecase characters; Georgian letters are counted without case. -/
def sentenceUpper : CharSet :=
  .diff (.union uppercase (category .titlecaseLetter))
    (.ranges [(0x1C90, 0x1CBA), (0x1CBD, 0x1CBF)])

/-- Values of Sentence_Break with their names. -/
def sentenceBreaks : List (List String × CharSet) := [
  (["AT", "ATerm"], fullStops),
  (["CL", "Close"],
    excluding (.union (categories [.openPunctuation, .closePunctuation, .initialPunctuation,
          .finalPunctuation])
        (.ranges [(0x22, 0x22), (0x27, 0x27), (0x275B, 0x2760), (0x2E00, 0x2E01),
          (0x2E06, 0x2E08), (0x2E0B, 0x2E0B), (0x1F676, 0x1F678)]))
      [fullStops, sentenceEnds]),
  (["CR"], .single '\r'),
  (["EX", "Extend"], sentenceExtend),
  (["FO", "Format"],
    excluding (category .format) [graphemeExtend, .ofList ['\u200c', '\u200d']]),
  (["LF"], .single '\n'),
  (["LO", "Lower"], sentenceLower),
  (["NU", "Numeric"], .union (category .decimalNumber) (.ranges [(0x66B, 0x66C)])),
  (["LE", "OLetter"],
    excluding (.union alphabetic (.single '\u05f3'))
      [sentenceLower, sentenceUpper, sentenceExtend]),
  (["SC", "SContinue"],
    .ranges [(0x2C, 0x2D), (0x3A, 0x3A), (0x55D, 0x55D), (0x60C, 0x60D), (0x7F8, 0x7F8),
      (0x1802, 0x1802), (0x1808, 0x1808), (0x2013, 0x2014), (0x3001, 0x3001), (0xFE10, 0xFE11),
      (0xFE13, 0xFE13), (0xFE31, 0xFE32), (0xFE50, 0xFE51), (0xFE55, 0xFE55), (0xFE58, 0xFE58),
      (0xFE63, 0xFE63), (0xFF0C, 0xFF0D), (0xFF1A, 0xFF1A), (0xFF64, 0xFF64)]),
  (["ST", "STerm"], sentenceEnds),
  (["SE", "Sep"], paragraphEnds),
  (["SP", "Sp"], excluding (.named .blank) [paragraphEnds, .ofList ['\n', '\r']]),
  (["UP", "Upper"], sentenceUpper)]

end QueryLint.Pattern
