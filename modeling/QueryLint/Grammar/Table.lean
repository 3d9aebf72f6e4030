import QueryLint.Grammar.Expr
import QueryLint.Pattern.Reader

/-!
QueryLint.Grammar.Table — compiled grammars.

A dialect is compiled into one block of tables. Each grammar is an `Instruction`; its parts, its
terminators, its parameters and the hint that says how it can begin lie in tables beside it, and
the instruction says where. Strings are held once and named by their number.

* `Tables` — the tables of a dialect.
* `Tables.parts`, `Tables.terminatorsOf`, `Tables.parameters` — what belongs to an instruction.
* `Tables.shape` — what an instruction stands for.
* `Tables.admits` — whether a token can begin a grammar, by its hint.
-/

namespace QueryLint

/-! ## 1. Instructions -/

/-- Kinds of instructions. -/
inductive InstructionKind where
  | ref | sequence | oneOf | anyNumberOf | delimited | bracketed
  | string | typed | multiString | pattern
  | nothing | anything | marker | token | missing
  deriving DecidableEq, Repr

namespace InstructionKind

/-- How dumps and messages name it. -/
def name : InstructionKind → String
  | ref => "Ref"
  | sequence => "Sequence"
  | oneOf => "OneOf"
  | anyNumberOf => "AnyNumberOf"
  | delimited => "Delimited"
  | bracketed => "Bracketed"
  | string => "StringParser"
  | typed => "TypedParser"
  | multiString => "MultiStringParser"
  | pattern => "RegexParser"
  | nothing => "Nothing"
  | anything => "Anything"
  | marker => "Meta"
  | token => "Token"
  | missing => "Missing"

/-- Least number of parameters. -/
def footprint : InstructionKind → Nat
  | ref | anyNumberOf | bracketed | pattern => 3
  | delimited | string | typed | multiString => 2
  | oneOf | marker => 1
  | sequence | nothing | anything | token | missing => 0

/-- Matches one token or none. -/
def isTerminal : InstructionKind → Bool
  | string | typed | multiString | pattern | token => true
  | _ => false

end InstructionKind

/-- Flags of an instruction. -/
structure InstructionFlags where
  optional : Bool := false
  resetTerminators : Bool := false
  allowGaps : Bool := false
  allowTrailing : Bool := false
  optionalDelimiter : Bool := false
  hasHint : Bool := false
  hasExclude : Bool := false
  isConditional : Bool := false
  deriving DecidableEq, Repr

namespace InstructionFlags

/-- Flags in the order of their bits, the lowest first. -/
def toList (f : InstructionFlags) : List (Bool × String) :=
  [(f.optional, "optional"), (f.resetTerminators, "reset_terminators"),
    (f.allowGaps, "allow_gaps"), (f.allowTrailing, "allow_trailing"),
    (f.optionalDelimiter, "optional_delimiter"), (f.hasHint, "has_simple_hint"),
    (f.hasExclude, "has_exclude"), (f.isConditional, "is_conditional")]

/-- The flags as a number. -/
def bits (f : InstructionFlags) : Nat :=
  f.toList.foldr (fun (on, _) rest => on.toNat + 2 * rest) 0

/-- How dumps write the flags. -/
def display (f : InstructionFlags) : String :=
  "GrammarFlags(" ++ "|".intercalate ((f.toList.filter (·.1)).map (·.2)) ++ ")"

end InstructionFlags

/-- One grammar. -/
structure Instruction where
  kind : InstructionKind
  mode : ParseMode := .strict
  flags : InstructionFlags := {}
  firstPart : Nat := 0
  partCount : Nat := 0
  /-- Least number of repetitions. -/
  least : Nat := 0
  firstTerminator : Nat := 0
  terminatorCount : Nat := 0
  deriving DecidableEq, Repr

namespace Instruction

instance : Inhabited Instruction := ⟨{ kind := .missing }⟩

/-- A sequence may leave it out. So it may any number of something, if none is enough. -/
def isOptional (i : Instruction) : Bool :=
  i.flags.optional || (i.kind == .anyNumberOf && i.least == 0)

end Instruction

/-- Where a hint lies in the table of hint strings: the texts, in upper case, and the types of the
tokens that can begin a grammar. -/
structure HintSpan where
  rawStart : Nat
  rawCount : Nat
  typeStart : Nat
  typeCount : Nat
  deriving DecidableEq, Repr

instance : Inhabited HintSpan := ⟨⟨0, 0, 0, 0⟩⟩

/-- A pair of brackets, which also bounds what a scan for terminators looks at. -/
structure BracketPair where
  type : String
  opening : GrammarId
  closing : GrammarId
  /-- The brackets make a segment in the tree. -/
  persists : Bool
  deriving DecidableEq, Repr

/-- A pattern with the text it was read from. -/
structure TablePattern where
  text : String
  pattern : Pattern

namespace TablePattern

/-- The whole text of a token, in any case. -/
def wholeText (text : String) : String := "(?i)^(?:" ++ text ++ ")$"

/-- Read a pattern for the whole text of a token. -/
def read? (text : String) : Except GrammarError TablePattern :=
  match Pattern.read? (wholeText text) with
  | some p => .ok ⟨text, p⟩
  | none => .error (.invalidPattern text none)

end TablePattern

/-- The tables of a dialect. -/
structure Tables where
  instructions : Array Instruction := #[]
  partIds : Array Nat := #[]
  terminatorIds : Array Nat := #[]
  strings : Array String := #[]
  /-- Parameters of all instructions, one after the other. -/
  aux : Array Nat := #[]
  /-- Where the parameters of each instruction start, and where the last ones end. -/
  auxOffsets : Array Nat := #[]
  patterns : Array TablePattern := #[]
  hints : Array HintSpan := #[]
  hintStrings : Array Nat := #[]
  /-- Number of the hint of each instruction. -/
  hintOf : Array Nat := #[]
  segmentTypes : Array Nat := #[]
  segmentClasses : Array Nat := #[]
  casefolds : Array Nat := #[]
  trimStarts : Array Nat := #[]
  trimCounts : Array Nat := #[]
  trimStrings : Array Nat := #[]
  bracketPairs : List BracketPair := []
  names : List (String × GrammarId) := []
  root : GrammarId := ⟨0⟩

/-- What an instruction stands for, its parameters read. -/
inductive Shape where
  | ref (name : String) (target exclude : Option GrammarId)
  | sequence
  | oneOf (exclude : Option GrammarId)
  | anyNumberOf (most perPart : Option Nat) (exclude : Option GrammarId)
  | delimited (delimiter : Option GrammarId) (least : Nat)
  /-- Opening and closing bracket, and whether they make a segment. -/
  | bracketed (pair : Option (GrammarId × GrammarId × Bool))
  | string (template type : String)
  | multiString (templates : List String) (type : String)
  | typed (template type : String)
  | pattern (text anti : Option TablePattern) (type : String)
  | nothing
  | anything
  | token
  | missing
  | marker (kind : Option MarkerKind) (condition : Option (String × String))

namespace Tables

variable (t : Tables)

/-! ## 2. Looking things up -/

/-- Number of instructions. -/
def size : Nat := t.instructions.size

/-- The instruction of a number. -/
def instruction (id : GrammarId) : Instruction := t.instructions.getD id.index default

/-- Numbers in a range of a table. -/
def idsIn (table : Array Nat) (start count : Nat) : List Nat :=
  (table.extract start (start + count)).toList

/-- The parts of an instruction. -/
def parts (id : GrammarId) : List GrammarId :=
  let i := t.instruction id
  (idsIn t.partIds i.firstPart i.partCount).map (⟨·⟩)

/-- The terminators of an instruction. -/
def terminatorsOf (id : GrammarId) : List GrammarId :=
  let i := t.instruction id
  (idsIn t.terminatorIds i.firstTerminator i.terminatorCount).map (⟨·⟩)

/-- The parameters of an instruction. -/
def parameters (id : GrammarId) : List Nat :=
  let start := t.auxOffsets.getD id.index 0
  idsIn t.aux start (t.auxOffsets.getD (id.index + 1) 0 - start)

/-- One parameter; a slot beyond those of the instruction holds no number. -/
def parameter (id : GrammarId) (slot : Nat) : Nat :=
  let place := t.auxOffsets.getD id.index 0 + slot
  if place < t.auxOffsets.getD (id.index + 1) 0 then t.aux.getD place GrammarId.absent
  else GrammarId.absent

/-- The string of a number. -/
def string (number : Nat) : String := t.strings.getD number ""

/-- The grammar or segment of a name. -/
def lookup? (name : String) : Option GrammarId := t.names.lookup name

/-- A number from a slot that may hold none. -/
def slotNat? (slot : Nat) : Option Nat := if slot = GrammarId.absent then none else some slot

/-- The kind of marker of a number. -/
def markerKind? (number : Nat) : Option MarkerKind := MarkerKind.all[number]?

/-- The pattern in a slot that may hold none. -/
def pattern? (slot : Nat) : Option TablePattern := (slotNat? slot).bind (t.patterns[·]?)

/-- The exclude grammar in a slot, if the instruction has one. -/
def excludeIn (id : GrammarId) (slot : Nat) : Option GrammarId :=
  if (t.instruction id).flags.hasExclude then GrammarId.ofSlot? (t.parameter id slot) else none

/-- What an instruction stands for. -/
def shape (id : GrammarId) : Shape :=
  let p := t.parameter id
  let s (slot : Nat) : String := t.string (p slot)
  match (t.instruction id).kind with
  | .ref => .ref (s 0) (GrammarId.ofSlot? (p 1)) (t.excludeIn id 2)
  | .sequence => .sequence
  | .oneOf => .oneOf (t.excludeIn id 0)
  | .anyNumberOf => .anyNumberOf (slotNat? (p 0)) (slotNat? (p 1)) (t.excludeIn id 2)
  | .delimited => .delimited (GrammarId.ofSlot? (p 0)) (p 1)
  | .bracketed => .bracketed do
      let opening ← GrammarId.ofSlot? (p 0)
      let closing ← GrammarId.ofSlot? (p 1)
      return (opening, closing, p 2 != 0)
  | .string => .string (s 0) (s 1)
  | .multiString => .multiString (((t.parameters id).drop 2).take (p 1) |>.map t.string) (s 0)
  | .typed => .typed (s 0) (s 1)
  | .pattern => .pattern (t.pattern? (p 0)) (t.pattern? (p 1)) (s 2)
  | .nothing => .nothing
  | .anything => .anything
  | .token => .token
  | .missing => .missing
  | .marker => .marker (markerKind? (p 0))
      (if (t.instruction id).flags.isConditional then some (s 1, s 2) else none)

/-- The exclude grammar of an instruction, if it has one. -/
def exclude? (id : GrammarId) : Option GrammarId :=
  match t.shape id with
  | .ref _ _ x | .oneOf x | .anyNumberOf _ _ x => x
  | _ => none

/-- The condition of a marker, if it has one. -/
def condition? (id : GrammarId) : Option (String × String) :=
  if (t.instruction id).flags.isConditional then
    some (t.string (t.parameter id 1), t.string (t.parameter id 2))
  else none

/-- How a typed token is normalised. -/
def casefold (id : GrammarId) : Casefold := .ofNumber (t.casefolds.getD id.index 0)

/-- Texts that are taken away from a typed token when it is normalised. -/
def trim (id : GrammarId) : List String :=
  (idsIn t.trimStrings (t.trimStarts.getD id.index 0) (t.trimCounts.getD id.index 0)).map t.string

/-- Type of the segment that a match is put into, if it is. -/
def segmentType? (id : GrammarId) : Option String :=
  ((t.segmentTypes[id.index]?).bind slotNat?).map t.string

/-- Name of the segment grammar that an instruction is, if it is one. -/
def segmentClass? (id : GrammarId) : Option String :=
  ((t.segmentClasses[id.index]?).bind slotNat?).map t.string

/-! ## 3. Hints -/

/-- Texts, in upper case, and types of the tokens that can begin a grammar; nothing is known of a
grammar without a hint. -/
def hint? (id : GrammarId) : Option (List String × List String) :=
  if (t.instruction id).flags.hasHint then
    match (t.hintOf[id.index]?).bind (t.hints[·]?) with
    | some h => some ((idsIn t.hintStrings h.rawStart h.rawCount).map t.string,
        (idsIn t.hintStrings h.typeStart h.typeCount).map t.string)
    | none => none
  else none

/-- A token of this text and these types can begin the grammar, as far as its hint says. -/
def admits (id : GrammarId) (rawUpper : String) (types : List String) : Bool :=
  match t.hint? id with
  | none => true
  | some (raws, hinted) => raws.contains rawUpper || hinted.any types.contains

/-! ## 4. Descriptions -/

/-- A short description for messages. -/
def describe (id : GrammarId) : String :=
  match t.segmentClass? id with
  | some name => name
  | none =>
    match t.shape id with
    | .ref name _ _ => name
    | .string template _ => "'" ++ template ++ "'"
    | .typed template _ => "<" ++ template ++ ">"
    | .multiString templates _ => " or ".intercalate (templates.map fun s => "'" ++ s ++ "'")
    | .pattern (some p) _ _ => "/" ++ TablePattern.wholeText p.text ++ "/"
    | .pattern none _ type => type
    | _ => (t.instruction id).kind.name

end Tables

end QueryLint
