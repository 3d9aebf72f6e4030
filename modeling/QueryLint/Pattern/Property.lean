import QueryLint.Pattern.Property.Age
import QueryLint.Pattern.Property.Boundary

/-!
QueryLint.Pattern.Property — sets of characters by the names of their Unicode properties.

A pattern names a property as `Greek`, `Uppercase_Letter` or `Script=Greek`. Names are matched
loosely: case, blanks, hyphens, underscores, an `is` in front and characters outside ASCII do not
count.

* `Property.named?` — a property, a general category or a script by its name alone.
* `Property.valued?` — a value of a property.
-/

namespace QueryLint.Pattern.Property

open Text CharSet

/-! ## 1. Names -/

/-- What counts of a name. The name `isc` is kept whole, so that it is not read as `c`. -/
def looseName (name : List Char) : List Char :=
  let startsWithIs := (name.take 2).map Char.toLower == ['i', 's']
  let rest := if startsWithIs then name.drop 2 else name
  let kept := rest.filter fun c => c.toNat < 0x80 && c != ' ' && c != '_' && c != '-'
  let loose := kept.map Char.toLower
  if startsWithIs && loose == ['c'] then ['i', 's', 'c'] else loose

/-- The entry of a list under a loose name. -/
def lookup? {α : Type} (name : List Char) (entries : List (List String × α)) : Option α :=
  (entries.find? fun e => e.1.any fun known => looseName known.toList == name).map Prod.snd

/-! ## 2. Categories, scripts and ages -/

/-- General categories and groups of them with their names. -/
def categoryNames : List (List String × CharSet) := [
  (["Any"], .all),
  (["Assigned"], .compl (category .unassigned)),
  (["ASCII"], .ascii),
  (["L", "Letter"], categories Category.letters),
  (["LC", "Cased_Letter"], categories [.uppercaseLetter, .lowercaseLetter, .titlecaseLetter]),
  (["Lu", "Uppercase_Letter"], category .uppercaseLetter),
  (["Ll", "Lowercase_Letter"], category .lowercaseLetter),
  (["Lt", "Titlecase_Letter"], category .titlecaseLetter),
  (["Lm", "Modifier_Letter"], category .modifierLetter),
  (["Lo", "Other_Letter"], category .otherLetter),
  (["M", "Mark", "Combining_Mark"], categories Category.marks),
  (["Mn", "Nonspacing_Mark"], category .nonspacingMark),
  (["Mc", "Spacing_Mark"], category .spacingMark),
  (["Me", "Enclosing_Mark"], category .enclosingMark),
  (["N", "Number"], categories Category.numbers),
  (["Nd", "Decimal_Number", "digit"], .named .digit),
  (["Nl", "Letter_Number"], category .letterNumber),
  (["No", "Other_Number"], category .otherNumber),
  (["P", "Punctuation", "punct"], categories Category.punctuation),
  (["Pc", "Connector_Punctuation"], category .connectorPunctuation),
  (["Pd", "Dash_Punctuation"], category .dashPunctuation),
  (["Ps", "Open_Punctuation"], category .openPunctuation),
  (["Pe", "Close_Punctuation"], category .closePunctuation),
  (["Pi", "Initial_Punctuation"], category .initialPunctuation),
  (["Pf", "Final_Punctuation"], category .finalPunctuation),
  (["Po", "Other_Punctuation"], category .otherPunctuation),
  (["S", "Symbol"], categories Category.symbols),
  (["Sm", "Math_Symbol"], category .mathSymbol),
  (["Sc", "Currency_Symbol"], category .currencySymbol),
  (["Sk", "Modifier_Symbol"], category .modifierSymbol),
  (["So", "Other_Symbol"], category .otherSymbol),
  (["Z", "Separator"], categories Category.separators),
  (["Zs", "Space_Separator"], category .spaceSeparator),
  (["Zl", "Line_Separator"], category .lineSeparator),
  (["Zp", "Paragraph_Separator"], category .paragraphSeparator),
  (["C", "Other"], categories [.control, .format, .privateUse, .unassigned]),
  (["Cc", "Control", "cntrl"], category .control),
  (["Cf", "Format"], category .format),
  (["Co", "Private_Use"], category .privateUse),
  (["Cn", "Unassigned"], category .unassigned)]

/-- The characters of a script. -/
def script? (name : List Char) : Option CharSet :=
  lookup? name (scripts.map fun s => (s.names, .ranges s.ranges))

/-- The code points that scripts share. -/
def sharedRanges : List (Nat × Nat) := scripts.flatMap (·.shared)

/-- The characters that are written in a script, shared ones among them. Common and inherited
are those that no script shares. -/
def scriptExtension? (name : List Char) : Option CharSet :=
  lookup? name (scripts.map fun s =>
    if s.names.contains "Zyyy" || s.names.contains "Zinh" then
      (s.names, .diff (.ranges s.ranges) (.ranges sharedRanges))
    else (s.names, .ranges (s.ranges ++ s.shared)))

/-- The characters that a version of Unicode has. -/
def age? (name : List Char) : Option CharSet :=
  let isNamed (e : List String × List (Nat × Nat)) : Bool :=
    e.1.any fun known => looseName known.toList == name
  match ages.findIdx? isNamed with
  | some i => some (.ranges ((ages.take (i + 1)).flatMap (·.2)))
  | none => none

/-! ## 3. Properties -/

/-- The set a name stands for by itself: a property, else a general category, else a script. The
names `cf`, `lc` and `sc` are those of categories. -/
def named? (name : List Char) : Option CharSet :=
  let name := looseName name
  (lookup? name binaryProperties).or ((lookup? name categoryNames).or (script? name))

/-- The characters for which a property has a value. -/
def valued? (property value : List Char) : Option CharSet :=
  let value := looseName value
  let named (names : List String) : Bool :=
    names.any fun known => looseName known.toList == looseName property
  if named ["gc", "General_Category"] then lookup? value categoryNames
  else if named ["sc", "Script"] then script? value
  else if named ["scx", "Script_Extensions"] then scriptExtension? value
  else if named ["age", "Age"] then age? value
  else if named ["GCB", "Grapheme_Cluster_Break"] then lookup? value graphemeBreaks
  else if named ["WB", "Word_Break"] then lookup? value wordBreaks
  else if named ["SB", "Sentence_Break"] then lookup? value sentenceBreaks
  else none

end QueryLint.Pattern.Property
