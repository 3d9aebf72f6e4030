import QueryLint.Dialect.Basic
import QueryLint.Fix.Basic

/-!
QueryLint.Rule.Basic — rules, what they see and what they find.

A rule looks at one segment at a time. Segments do not know what is around them, so the rule is
given their surroundings, and what it chose to remember from the segments before.

* `Site` — a segment and what is around it.
* `Finding`, `Rule` — what a rule says about a site.
* `Violation` — what is reported.
-/

namespace QueryLint

/-! ## 1. What a rule sees -/

/-- A segment and what is around it. -/
structure Site where
  segment : Segment
  /-- The segments it is inside of, the root first. -/
  parents : List Segment
  /-- The segments before it in its parent, the nearest first. -/
  siblingsBefore : List Segment
  /-- The segments after it in its parent. -/
  siblingsAfter : List Segment
  /-- The leaves before it in the file, the nearest first. -/
  leavesBefore : List Segment

namespace Site

variable (s : Site)

/-- The segment it is directly inside of. -/
def parent? : Option Segment := s.parents.getLast?

/-- Leaves before it that are no markers, the nearest first. -/
def tokensBefore : List Segment := s.leavesBefore.filter (!·.isMarker)

/-- The segments after it in its parent that are no markers. -/
def nextSiblings : List Segment := s.siblingsAfter.filter (!·.isMarker)

end Site

/-- Styles of upper and lower case in words. -/
inductive LetterCase where
  | upper
  | lower
  /-- Only the first letter is in upper case. -/
  | capitalise
  deriving DecidableEq, Repr

/-- What a rule remembers from one site to the next. -/
inductive Memory where
  | empty
  | count (n : Nat)
  /-- The styles that some word does not have, and the last style that all words had. -/
  | cases (refuted : List LetterCase) (latest : Option LetterCase)
  deriving DecidableEq, Repr

namespace Memory

/-- Nothing is remembered. -/
def isEmpty (m : Memory) : Bool := m == empty

/-- The number it holds; none counts as zero. -/
def number : Memory → Nat
  | count n => n
  | _ => 0

end Memory

/-- All that a rule is given. -/
structure RuleContext extends Site where
  memory : Memory
  dialect : Dialect
  file : TemplatedFile

/-! ## 2. What a rule says -/

/-- What a rule finds at a site. Without an anchor it only remembers something. -/
structure Finding where
  anchor : Option Segment := none
  fixes : List Fix := []
  memory : Option Memory := none
  /-- In place of the description of the rule. -/
  description : Option String := none

namespace Finding

/-- Something wrong with a segment. -/
def about (s : Segment) : Finding := { anchor := some s }

/-- Nothing wrong, but something to remember. -/
def remember (m : Memory) : Finding := { memory := some m }

/-- A finding with fixes, except those that would change nothing. -/
def withFixes (x : Finding) (fixes : List Fix) : Finding :=
  { x with fixes := fixes.filter (!·.isTrivial) }

/-- A segment should have another text. -/
def respell (s : Segment) (text : String) : Fresh Finding := do
  return (about s).withFixes [.replace s [← s.edit (some text) none]]

end Finding

/-- A rule gave up. -/
inductive RuleFault where
  | because (reason : String)
  | unexplained
  deriving DecidableEq, Repr

namespace RuleFault

/-- The wording. -/
def message : RuleFault → String
  | because reason => reason
  | unexplained => "rule panicked"

end RuleFault

/-- Which segments a rule looks at. -/
inductive RuleTarget where
  | all
  /-- The root of the file. -/
  | root
  | types (names : List String)
  deriving DecidableEq, Repr

/-- A setting of a rule. -/
structure ConfigKeyword where
  name : String
  description : String
  default : String
  /-- The values it may have; none means any. -/
  allowed : List String
  deriving DecidableEq, Repr

/-- A rule. -/
structure Rule where
  code : String
  description : String
  keywords : List ConfigKeyword := []
  /-- It also looks at what the grammar could not place. -/
  worksOnUnparsable : Bool := false
  target : RuleTarget := .all
  eval : RuleContext → Fresh (Except RuleFault (List Finding))

/-- A rule looks at a site. -/
def Rule.wants (r : Rule) (s : Site) : Bool :=
  match r.target with
  | .all => true
  | .root => s.parents.isEmpty
  | .types names => s.segment.isAnyType names

/-! ## 3. What is reported -/

/-- Something wrong with a file. -/
structure Violation where
  /-- The code of a rule, or of a kind of errors. -/
  code : String
  description : String
  place : Place := ⟨1, 1⟩
  source : Span := .point 0
  severity : Severity := .error
  fixes : List Fix := []

namespace Violation

variable (v : Violation)

/-- A violation at a position, or at the start of the file. -/
def ofPosition (code description : String) (p : Option Position) : Violation :=
  { code, description
    place := (p.map (·.place)).getD ⟨1, 1⟩
    source := (p.map (·.source)).getD (.point 0) }

/-- An error of the grammar. -/
def ofParseError (e : ParseError) : Violation :=
  { code := e.code.tag, description := e.message, place := e.place, source := e.source }

/-- An error of the tokens. -/
def ofLexError (e : LexError) : Violation :=
  { code := e.code.tag, description := e.message, place := e.place, source := e.source }

/-- A failure of a rule. -/
def ofFailure (e : RuleFailure) : Violation :=
  { code := e.code, description := e.display, place := e.place }

/-- It can be fixed. -/
def isFixable : Bool := !v.fixes.isEmpty

/-- It comes from a rule. Codes of rules are an `L` and three more bytes. -/
def isFromRule : Bool := v.code.toList.head? == some 'L' && v.code.utf8ByteSize == 4

/-- The same violation without fixes. -/
def withoutFixes : Violation := { v with fixes := [] }

/-- A violation in one line. -/
def display : String :=
  "L:" ++ Text.padded 4 v.place.line ++ " | P:" ++ Text.padded 4 v.place.column ++ " | " ++
    v.code ++ " | " ++ v.description

end Violation

end QueryLint
