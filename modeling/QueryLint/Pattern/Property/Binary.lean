import QueryLint.Pattern.CharSet
import QueryLint.Pattern.Property.Table

/-!
QueryLint.Pattern.Property.Binary — the properties that a character has or has not.

Many of them follow from the general category and a table of further code points; the sets here
are put together the way the Unicode Character Database defines them. `binaryProperties` lists
them with their names.
-/

namespace QueryLint.Pattern

open Text CharSet

/-! ## 1. Letters and case -/

/-- The part of a table of Unicode 17.0 that patterns know of. -/
def knownOf (rs : List (Nat × Nat)) : CharSet := .diff (.ranges rs) (.ranges recentRanges)

/-- Letters and letter numbers. -/
def letterLikes : CharSet := categories (.letterNumber :: Category.letters)

/-- Alphabetic characters. -/
def alphabetic : CharSet := .union letterLikes (knownOf otherAlphabeticRanges)

/-- Lowercase characters. -/
def lowercase : CharSet := .union (category .lowercaseLetter) (knownOf otherLowercaseRanges)

/-- Uppercase characters. -/
def uppercase : CharSet := .union (category .uppercaseLetter) (knownOf otherUppercaseRanges)

/-- Characters that have case. -/
def cased : CharSet := .union (.union lowercase uppercase) (category .titlecaseLetter)

/-- Characters passed over when looking for the cased letters around them. -/
def caseIgnorable : CharSet :=
  .union (categories [.nonspacingMark, .enclosingMark, .format, .modifierLetter, .modifierSymbol])
    (.ranges otherCaseIgnorableRanges)

/-- Characters that lower case changes. -/
def changesWhenLowercased : CharSet := .named .lowered

/-- Characters that upper case changes. Two letters have had an upper case only since
Unicode 17.0. -/
def changesWhenUppercased : CharSet :=
  .diff (.named .raised) (.ranges [(0xA7D3, 0xA7D3), (0xA7D5, 0xA7D5)])

/-- Characters that title case changes: digraphs have a form of their own there, and Georgian
letters stay as they are. -/
def changesWhenTitlecased : CharSet :=
  .union (.ranges [(0x1C4, 0x1C4), (0x1C7, 0x1C7), (0x1CA, 0x1CA), (0x1F1, 0x1F1)])
    (.diff changesWhenUppercased
      (.ranges [(0x1C5, 0x1C5), (0x1C8, 0x1C8), (0x1CB, 0x1CB), (0x1F2, 0x1F2), (0x10D0, 0x10FA),
        (0x10FD, 0x10FF), (0x1F88, 0x1F8F), (0x1F98, 0x1F9F), (0x1FA8, 0x1FAF), (0x1FBC, 0x1FBC),
        (0x1FCC, 0x1FCC), (0x1FFC, 0x1FFC)]))

/-- Characters that case folding changes. Cherokee letters fold to upper case. -/
def changesWhenCasefolded : CharSet :=
  .union (.diff changesWhenLowercased (.ranges [(0x13A0, 0x13F5)]))
    (.ranges [(0xB5, 0xB5), (0xDF, 0xDF), (0x149, 0x149), (0x17F, 0x17F), (0x345, 0x345),
      (0x3C2, 0x3C2), (0x3D0, 0x3D1), (0x3D5, 0x3D6), (0x3F0, 0x3F1), (0x3F5, 0x3F5),
      (0x587, 0x587), (0x13F8, 0x13FD), (0x1C80, 0x1C88), (0x1E9A, 0x1E9B), (0x1F80, 0x1F87),
      (0x1F90, 0x1F97), (0x1FA0, 0x1FA7), (0x1FB2, 0x1FB4), (0x1FB7, 0x1FB7), (0x1FC2, 0x1FC4),
      (0x1FC7, 0x1FC7), (0x1FF2, 0x1FF4), (0x1FF7, 0x1FF7), (0xAB70, 0xABBF), (0xFB00, 0xFB06),
      (0xFB13, 0xFB17)])

/-- Characters that some change of case changes. -/
def changesWhenCasemapped : CharSet :=
  .union changesWhenLowercased (.union changesWhenUppercased changesWhenTitlecased)

/-! ## 2. Identifiers -/

/-- Characters that start identifiers although they are no letters. -/
def otherIdStart : CharSet :=
  .ranges [(0x1885, 0x1886), (0x2118, 0x2118), (0x212E, 0x212E), (0x309B, 0x309C)]

/-- Characters that continue identifiers although their category does not say so. -/
def otherIdContinue : CharSet :=
  .ranges [(0xB7, 0xB7), (0x387, 0x387), (0x1369, 0x1371), (0x19DA, 0x19DA), (0x200C, 0x200D),
    (0x30FB, 0x30FB), (0xFF65, 0xFF65)]

/-- Characters that may start an identifier; a pattern's own signs are none of them. -/
def idStart : CharSet := .diff (.union letterLikes otherIdStart) (.ranges patternSyntaxRanges)

/-- Characters that may continue an identifier. -/
def idContinue : CharSet :=
  .union idStart (.union otherIdContinue
    (categories [.nonspacingMark, .spacingMark, .decimalNumber, .connectorPunctuation]))

/-- Characters that may start an identifier, compatibility forms included. -/
def xidStart : CharSet :=
  .union (.ranges identifierStartAdded) (.diff letterLikes (.ranges identifierStartOmitted))

/-- Characters that may continue an identifier, compatibility forms included. -/
def xidContinue : CharSet :=
  .union (.ranges identifierContinueAdded)
    (.union (categories [.nonspacingMark, .spacingMark, .decimalNumber, .connectorPunctuation])
      (.diff letterLikes (.ranges identifierContinueOmitted)))

/-! ## 3. Graphemes and signs -/

/-- Characters that attach to the one before them. -/
def graphemeExtend : CharSet :=
  .union (categories [.nonspacingMark, .enclosingMark]) (knownOf otherGraphemeExtendRanges)

/-- Characters that stand for themselves. -/
def graphemeBase : CharSet :=
  .compl (.union graphemeExtend
    (categories [.control, .format, .privateUse, .unassigned, .lineSeparator, .paragraphSeparator]))

/-- Mathematical characters. -/
def math : CharSet := .union (category .mathSymbol) (.ranges otherMathRanges)

/-- The digits of hexadecimal numbers in ASCII. -/
def asciiHexDigit : List (Nat × Nat) := [(0x30, 0x39), (0x41, 0x46), (0x61, 0x66)]

/-- Signs of a superscript, a subscript or a mathematical alphabet that may start an identifier. -/
def idCompatMathStart : List (Nat × Nat) :=
  [(0x2202, 0x2202), (0x2207, 0x2207), (0x221E, 0x221E), (0x1D6C1, 0x1D6C1), (0x1D6DB, 0x1D6DB),
   (0x1D6FB, 0x1D6FB), (0x1D715, 0x1D715), (0x1D735, 0x1D735), (0x1D74F, 0x1D74F),
   (0x1D76F, 0x1D76F), (0x1D789, 0x1D789), (0x1D7A9, 0x1D7A9), (0x1D7C3, 0x1D7C3)]

/-- Signs of a superscript, a subscript or a mathematical alphabet that may continue an
identifier. -/
def idCompatMathContinue : List (Nat × Nat) :=
  [(0xB2, 0xB3), (0xB9, 0xB9), (0x2070, 0x2070), (0x2074, 0x207E), (0x2080, 0x208E)] ++
    idCompatMathStart

/-! ## 4. Names -/

/-- The properties with their names. -/
def binaryProperties : List (List String × CharSet) := [
  (["AHex", "ASCII_Hex_Digit"], .ranges asciiHexDigit),
  (["Alpha", "Alphabetic"], alphabetic),
  (["Bidi_C", "Bidi_Control"],
    .ranges [(0x61C, 0x61C), (0x200E, 0x200F), (0x202A, 0x202E), (0x2066, 0x2069)]),
  (["CI", "Case_Ignorable"], caseIgnorable),
  (["Cased"], cased),
  (["CWCF", "Changes_When_Casefolded"], changesWhenCasefolded),
  (["CWCM", "Changes_When_Casemapped"], changesWhenCasemapped),
  (["CWL", "Changes_When_Lowercased"], changesWhenLowercased),
  (["CWT", "Changes_When_Titlecased"], changesWhenTitlecased),
  (["CWU", "Changes_When_Uppercased"], changesWhenUppercased),
  (["Dash"], .ranges dashRanges),
  (["DI", "Default_Ignorable_Code_Point"], .ranges defaultIgnorableCodePointRanges),
  (["Dep", "Deprecated"], .ranges deprecatedRanges),
  (["Dia", "Diacritic"], .ranges diacriticRanges),
  (["Emoji"], .ranges emojiRanges),
  (["EBase", "Emoji_Modifier_Base"], .ranges emojiModifierBaseRanges),
  (["EComp", "Emoji_Component"], .ranges emojiComponentRanges),
  (["EMod", "Emoji_Modifier"], .ranges emojiModifierRanges),
  (["EPres", "Emoji_Presentation"], .ranges emojiPresentationRanges),
  (["ExtPict", "Extended_Pictographic"], .ranges extendedPictographicRanges),
  (["Ext", "Extender"], .ranges extenderRanges),
  (["Gr_Base", "Grapheme_Base"], graphemeBase),
  (["Gr_Ext", "Grapheme_Extend"], graphemeExtend),
  (["Gr_Link", "Grapheme_Link"], .ranges graphemeLinkRanges),
  (["Hex", "Hex_Digit"],
    .ranges (asciiHexDigit ++ [(0xFF10, 0xFF19), (0xFF21, 0xFF26), (0xFF41, 0xFF46)])),
  (["Hyphen"], .ranges hyphenRanges),
  (["IDSB", "IDS_Binary_Operator"],
    .ranges [(0x2FF0, 0x2FF1), (0x2FF4, 0x2FFD), (0x31EF, 0x31EF)]),
  (["IDST", "IDS_Trinary_Operator"], .ranges [(0x2FF2, 0x2FF3)]),
  (["IDSU", "IDS_Unary_Operator"], .ranges [(0x2FFE, 0x2FFF)]),
  (["ID_Compat_Math_Continue"], .ranges idCompatMathContinue),
  (["ID_Compat_Math_Start"], .ranges idCompatMathStart),
  (["IDC", "ID_Continue"], idContinue),
  (["IDS", "ID_Start"], idStart),
  (["Ideo", "Ideographic"], .ranges ideographicRanges),
  (["Join_C", "Join_Control"], .ranges [(0x200C, 0x200D)]),
  (["LOE", "Logical_Order_Exception"], .ranges logicalOrderExceptionRanges),
  (["Lower", "Lowercase"], lowercase),
  (["Math"], math),
  (["MCM", "Modifier_Combining_Mark"], .ranges modifierCombiningMarkRanges),
  (["NChar", "Noncharacter_Code_Point"], .ranges noncharacterCodePointRanges),
  (["OAlpha", "Other_Alphabetic"], knownOf otherAlphabeticRanges),
  (["ODI", "Other_Default_Ignorable_Code_Point"],
    .ranges [(0x34F, 0x34F), (0x115F, 0x1160), (0x17B4, 0x17B5), (0x2065, 0x2065),
      (0x3164, 0x3164), (0xFFA0, 0xFFA0), (0xFFF0, 0xFFF8), (0xE0000, 0xE0000),
      (0xE0002, 0xE001F), (0xE0080, 0xE00FF), (0xE01F0, 0xE0FFF)]),
  (["OGr_Ext", "Other_Grapheme_Extend"], knownOf otherGraphemeExtendRanges),
  (["OIDC", "Other_ID_Continue"], otherIdContinue),
  (["OIDS", "Other_ID_Start"], otherIdStart),
  (["OLower", "Other_Lowercase"], knownOf otherLowercaseRanges),
  (["OMath", "Other_Math"], .ranges otherMathRanges),
  (["OUpper", "Other_Uppercase"], knownOf otherUppercaseRanges),
  (["Pat_Syn", "Pattern_Syntax"], .ranges patternSyntaxRanges),
  (["Pat_WS", "Pattern_White_Space"], .ranges patternWhiteSpaceRanges),
  (["PCM", "Prepended_Concatenation_Mark"], .ranges prependedConcatenationMarkRanges),
  (["QMark", "Quotation_Mark"], .ranges quotationMarkRanges),
  (["Radical"], .ranges radicalRanges),
  (["RI", "Regional_Indicator"], .ranges [(0x1F1E6, 0x1F1FF)]),
  (["STerm", "Sentence_Terminal"], .ranges sentenceTerminalRanges),
  (["SD", "Soft_Dotted"], .ranges softDottedRanges),
  (["Term", "Terminal_Punctuation"], .ranges terminalPunctuationRanges),
  (["UIdeo", "Unified_Ideograph"], .ranges unifiedIdeographRanges),
  (["Upper", "Uppercase"], uppercase),
  (["VS", "Variation_Selector"], .ranges variationSelectorRanges),
  (["WSpace", "White_Space", "space"], .named .blank),
  (["XIDC", "XID_Continue"], xidContinue),
  (["XIDS", "XID_Start"], xidStart)]

end QueryLint.Pattern
