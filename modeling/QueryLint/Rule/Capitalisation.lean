import QueryLint.Rule.Basic

/-!
QueryLint.Rule.Capitalisation — the rule about upper and lower case of keywords.

All keywords of a file are to be in one style. Without a style that is asked for, it is the style
that fits all keywords for as long as one does: every word refutes the styles it does not have.
-/

namespace QueryLint

namespace LetterCase

/-- All styles, those tried first coming first. -/
def all : List LetterCase := [upper, lower, capitalise]

/-- A word in a style. -/
def apply (style : LetterCase) (word : String) : String :=
  match style with
  | upper => Text.upper word
  | lower => Text.lower word
  | capitalise =>
    match word.toList with
    | [] => ""
    | c :: cs => String.ofList (Text.upperChar c ++ cs.flatMap Text.lowerChar)

/-- The end of a message. -/
def describe : LetterCase → String
  | upper => "upper case."
  | lower => "lower case."
  | capitalise => "capitalised."

/-- The styles that some word does not have, with a further word. -/
def refutedWith (word : String) (refuted : List LetterCase) : List LetterCase :=
  all.filter fun c => refuted.contains c || c.apply word != word

end LetterCase

/-- Which style keywords should have. -/
inductive CasePolicy where
  /-- The same one everywhere. -/
  | consistent
  | fixed (style : LetterCase)
  deriving DecidableEq, Repr

namespace CasePolicy

/-- The words for policies, in order. -/
def names : List (String × CasePolicy) := [
  ("consistent", consistent), ("upper", fixed .upper), ("lower", fixed .lower),
  ("capitalise", fixed .capitalise)]

/-- The setting that gives the policy. -/
def keyword : ConfigKeyword where
  name := "capitalisation_policy"
  description := "The capitalisation policy to enforce."
  default := "consistent"
  allowed := names.map (·.1)

/-- The start of a message. -/
def lead : CasePolicy → String
  | consistent => "Keywords must be consistently "
  | fixed _ => "Keywords must be "

end CasePolicy

namespace Rule

/-- A word whose style counts. -/
def isCasedWord (s : Segment) : Bool :=
  s.isLeaf && s.raw.toList.any Text.isAlphabetic && s.position.all (·.isLiteral)

/-- What is wrong with a word that should be in a style. -/
def recase (policy : CasePolicy) (style : LetterCase) (m : Memory) (s : Segment) :
    Fresh (List Finding) := do
  let word := style.apply s.raw
  if word = s.raw then return [.remember m]
  else
    let x ← Finding.respell s word
    return [{ x with memory := some m, description := some (policy.lead ++ style.describe) }]

/-- Keywords are in one style. -/
def keywordCase (policy : CasePolicy) : Rule where
  code := "L010"
  description := "Inconsistent capitalisation of keywords."
  keywords := [CasePolicy.keyword]
  target := .types ["keyword", "binary_operator"]
  eval c := do
    let s := c.segment
    if !isCasedWord s then return .ok []
    else
      let (before, latest) := match c.memory with
        | .cases refuted latest => (refuted, latest)
        | _ => ([], none)
      let refuted := LetterCase.refutedWith s.raw before
      match policy with
      | .fixed style => return .ok (← recase policy style (.cases refuted latest) s)
      | .consistent =>
        match LetterCase.all.find? (!refuted.contains ·) with
        | some style => return .ok [.remember (.cases refuted (some style))]
        | none =>
          return .ok (← recase policy (latest.getD .upper) (.cases refuted latest) s)

end Rule

end QueryLint
