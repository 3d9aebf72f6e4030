import QueryLint.Grammar.Table.Check

/-!
QueryLint.Grammar.Compile — grammars by name, compiled into tables.

Every name gets an instruction first, in the order of the definitions; the grammars inside a
definition get theirs as they are met. Parts and terminators are listed once the instructions they
name are complete. Then references are resolved, hints are worked out, and the tables are checked.

* `GrammarBook` — grammars by name with the pairs of brackets.
* `GrammarBook.compile` — the tables of a book, or why there are none.
-/

namespace QueryLint

/-! ## 1. Books of grammars -/

/-- A named grammar; a segment grammar has the type of the segments it makes. -/
structure Definition where
  name : String
  body : Grammar
  segmentType : Option String

namespace Definition

/-- A grammar; its matches become part of what is around them. -/
def grammar (name : String) (g : Grammar) : Definition := ⟨name, g, none⟩

/-- A segment grammar; its matches become segments of a type. -/
def segment (name type : String) (g : Grammar) : Definition := ⟨name, g, some type⟩

end Definition

/-- A pair of brackets by the names of their grammars. -/
structure BracketDefinition where
  type : String
  opening : String
  closing : String
  persists : Bool
  deriving DecidableEq, Repr

/-- Grammars by name, and the pairs of brackets. -/
structure GrammarBook where
  root : String
  definitions : List Definition := []
  brackets : List BracketDefinition := []

namespace GrammarBook

/-- The names in order. -/
def names (b : GrammarBook) : List String := b.definitions.map (·.name)

/-- Whether a name is defined. -/
def contains (b : GrammarBook) (name : String) : Bool := b.names.contains name

/-- Add a definition. -/
def define (b : GrammarBook) (d : Definition) : GrammarBook :=
  { b with definitions := b.definitions ++ [d] }

/-- Put another grammar in place of one that is defined; the type of its segments stays. -/
def replace (b : GrammarBook) (name : String) (g : Grammar) : Except GrammarError GrammarBook :=
  if b.contains name then
    .ok { b with definitions := b.definitions.map fun d =>
      if d.name = name then { d with body := g } else d }
  else .error (.unknownReference name)

/-- Add a pair of brackets. -/
def bracketPair (b : GrammarBook) (type opening closing : String) (persists : Bool) :
    GrammarBook :=
  { b with brackets := b.brackets ++ [⟨type, opening, closing, persists⟩] }

/-- The first name that is defined again. -/
def firstRepeated : List String → List String → Option String
  | _, [] => none
  | seen, name :: rest =>
    if seen.contains name then some name else firstRepeated (name :: seen) rest

/-- The first name that is defined again. -/
def duplicate? (b : GrammarBook) : Option String := firstRepeated [] b.names

/-- The instruction of a name. -/
def slot? (b : GrammarBook) (name : String) : Option Nat := b.names.idxOf? name

end GrammarBook

/-! ## 2. Compiling -/

/-- What is known of an instruction while tables are being made. -/
structure Slot where
  instruction : Instruction := default
  parameters : List Nat := []
  segmentType : Nat := GrammarId.absent
  segmentClass : Nat := GrammarId.absent
  casefold : Nat := 0
  trimStart : Nat := 0
  trimCount : Nat := 0
  deriving Inhabited

/-- Tables being made. -/
structure Draft where
  slots : Array Slot := #[]
  partIds : Array Nat := #[]
  terminatorIds : Array Nat := #[]
  strings : Array String := #[]
  patterns : Array String := #[]
  trimStrings : Array Nat := #[]
  /-- Instructions that are references, with the names, in the order they were met. -/
  references : List (Nat × String) := []

/-- Steps of compiling. -/
abbrev Compiling := StateT Draft (Except GrammarError)

namespace Compiling

/-- A new instruction. -/
def alloc : Compiling Nat :=
  modifyGet fun d => (d.slots.size, { d with slots := d.slots.push {} })

/-- The number of a string, a new one if it has none yet. -/
def intern (s : String) : Compiling Nat :=
  modifyGet fun d =>
    match d.strings.idxOf? s with
    | some n => (n, d)
    | none => (d.strings.size, { d with strings := d.strings.push s })

/-- The number of a pattern, a new one if it has none yet. -/
def internPattern (text : String) : Compiling Nat :=
  modifyGet fun d =>
    match d.patterns.idxOf? text with
    | some n => (n, d)
    | none => (d.patterns.size, { d with patterns := d.patterns.push text })

/-- Fill an instruction's slot. -/
def setSlot (n : Nat) (f : Slot → Slot) : Compiling Unit :=
  modify fun d => { d with slots := d.slots.modify n f }

/-- Counts are kept to 16 bits. -/
def count (what : String) (n : Nat) : Compiling Nat :=
  if n < UInt16.size then pure n else throw (.overflow what)

/-- Add to the list of parts; gives where they start and how many they are. -/
def listParts (ids : List Nat) : Compiling (Nat × Nat) := do
  let start := (← get).partIds.size
  let n ← count "children" ids.length
  modify fun d => { d with partIds := d.partIds ++ ids }
  return (start, n)

/-- Add to the list of terminators; gives where they start and how many they are. -/
def listTerminators (ids : List Nat) : Compiling (Nat × Nat) := do
  let start := (← get).terminatorIds.size
  let n ← count "terminators" ids.length
  modify fun d => { d with terminatorIds := d.terminatorIds ++ ids }
  return (start, n)

/-- An instruction that is a reference to a name. -/
def reference (b : GrammarBook) (n : Nat) (name : String) (exclude : Nat) :
    Compiling (List Nat) := do
  modify fun d => { d with references := d.references ++ [(n, name)] }
  return [← intern name, (b.slot? name).getD GrammarId.absent, exclude]

/-- A new instruction that is a reference to a name and nothing else. -/
def bareReference (b : GrammarBook) (name : String) : Compiling Nat := do
  let n ← alloc
  let parameters ← reference b n name GrammarId.absent
  let (firstPart, _) ← listParts []
  let (firstTerminator, _) ← listTerminators []
  setSlot n fun s => { s with
    parameters := parameters
    instruction := {
      kind := .ref, flags := { allowGaps := true }
      firstPart := firstPart, firstTerminator := firstTerminator } }
  return n

end Compiling

namespace GrammarForm

/-- The kind of instruction it becomes. -/
def instructionKind : GrammarForm → InstructionKind
  | ref _ => .ref
  | sequence => .sequence
  | oneOf => .oneOf
  | anyNumberOf _ _ => .anyNumberOf
  | delimited _ => .delimited
  | bracketed _ _ => .bracketed
  | string _ _ => .string
  | multiString _ _ => .multiString
  | typed _ _ _ _ => .typed
  | pattern _ _ _ => .pattern
  | nothing => .nothing
  | anything => .anything
  | token => .token
  | missing => .missing
  | marker _ _ => .marker

/-- A marker on a condition. -/
def isConditional : GrammarForm → Bool
  | marker _ (some _) => true
  | _ => false

end GrammarForm

/-- The number of a kind of marker. -/
def MarkerKind.number (k : MarkerKind) : Nat := MarkerKind.all.idxOf k

namespace Grammar

open Compiling

/-- The pair of brackets of a grammar that is bracketed; the type must be declared. -/
def pairOf (b : GrammarBook) : GrammarForm → Compiling (Option BracketDefinition)
  | .bracketed type _ =>
    match b.brackets.find? (·.type == type) with
    | some pair => pure (some pair)
    | none => throw (.unknownReference type)
  | _ => pure none

/-- The parameters of an instruction, which stands in slot `n`. -/
def parametersOf (b : GrammarBook) (n : Nat) (exclude delimiter : Nat)
    (pair : Option BracketDefinition) : GrammarForm → Compiling (List Nat)
  | .ref name => reference b n name exclude
  | .sequence | .nothing | .anything | .token | .missing => return []
  | .oneOf => return [exclude]
  | .anyNumberOf most perPart =>
    return [most.getD GrammarId.absent, perPart.getD GrammarId.absent, exclude]
  | .delimited least => return [delimiter, least]
  | .bracketed _ persists =>
    match pair with
    | none => return []
    | some p => do
      let opening ← bareReference b p.opening
      let closing ← bareReference b p.closing
      return [opening, closing, (persists.getD p.persists).toNat]
  | .string template type => return [← intern template, ← intern type]
  | .multiString templates type => do
    let type ← intern type
    let templates ← templates.mapM intern
    return type :: templates.length :: templates
  | .typed template type fold trim => do
    let template ← intern template
    let type ← intern type
    let trimStart := (← get).trimStrings.size
    let trimCount ← count "trim chars" trim.length
    let texts ← trim.mapM intern
    modify fun d => { d with trimStrings := d.trimStrings ++ texts }
    setSlot n ({ · with casefold := fold.number, trimStart := trimStart, trimCount := trimCount })
    return [template, type]
  | .pattern text anti type => do
    let text ← internPattern text
    let anti ← match anti with
      | some p => internPattern p
      | none => pure GrammarId.absent
    return [text, anti, ← intern type]
  | .marker kind none => return [kind.number]
  | .marker kind (some (key, value)) => return [kind.number, ← intern key, ← intern value]

mutual

/-- Compile a grammar into slot `n`. -/
def compileInto (b : GrammarBook) (n : Nat) : Grammar → Compiling Unit
  | mk form parts terminators exclude delimiter s => do
    let terminatorIds ← compileAll b terminators
    let excludeId ← compileOption b exclude
    let pair ← pairOf b form
    let ids ← compileAll b parts
    let delimiterId ← compileOption b delimiter
    let parameters ← parametersOf b n excludeId delimiterId pair form
    let (firstPart, partCount) ← listParts ids
    let (firstTerminator, terminatorCount) ← listTerminators terminatorIds
    setSlot n fun slot => { slot with
      parameters := parameters
      instruction := {
        kind := form.instructionKind, mode := s.mode, least := s.least
        flags := {
          optional := s.optional, resetTerminators := s.resetTerminators
          allowGaps := s.allowGaps, allowTrailing := s.allowTrailing
          optionalDelimiter := s.optionalDelimiter, hasExclude := exclude.isSome
          isConditional := form.isConditional }
        firstPart := firstPart, partCount := partCount
        firstTerminator := firstTerminator, terminatorCount := terminatorCount } }

/-- Compile grammars into new slots. -/
def compileAll (b : GrammarBook) : List Grammar → Compiling (List Nat)
  | [] => return []
  | g :: rest => do
    let n ← alloc
    compileInto b n g
    let ids ← compileAll b rest
    return n :: ids

/-- Compile a grammar that may be missing into a new slot. -/
def compileOption (b : GrammarBook) : Option Grammar → Compiling Nat
  | none => return GrammarId.absent
  | some g => do
    let n ← alloc
    compileInto b n g
    return n

end

end Grammar

/-! ## 3. Hints -/

/-- The texts and types of the tokens that can begin a grammar, each in order. -/
structure FirstSet where
  raws : List String := []
  types : List String := []
  deriving DecidableEq, Repr

/-- Add to a sorted list of distinct strings. -/
def insertSorted (s : String) : List String → List String
  | [] => [s]
  | x :: xs => if s = x then x :: xs else if s < x then s :: x :: xs else x :: insertSorted s xs

namespace FirstSet

/-- What begins one or the other. -/
def union (a b : FirstSet) : FirstSet :=
  ⟨b.raws.foldr insertSorted a.raws, b.types.foldr insertSorted a.types⟩

/-- What begins any of several; nothing is known if nothing is known of one. -/
def unionAll : List (Option FirstSet) → Option FirstSet
  | [] => some {}
  | h :: rest => do return (← h).union (← unionAll rest)

end FirstSet

/-- How far the first set of an instruction has been worked out. -/
inductive HintState where
  | unvisited
  /-- It is being worked out: a grammar that begins with itself. -/
  | inProgress
  /-- Done; nothing is known if any token might begin it. -/
  | done (h : Option FirstSet)

namespace Draft

variable (d : Draft)

/-- The slot of an instruction. -/
def slot (n : Nat) : Slot := d.slots.getD n {}

/-- The parts of an instruction. -/
def partsOf (n : Nat) : List Nat :=
  let i := (d.slot n).instruction
  Tables.idsIn d.partIds i.firstPart i.partCount

/-- The string in a parameter. -/
def stringIn (n slot : Nat) : Option String :=
  ((d.slot n).parameters[slot]?).map fun s => d.strings.getD s ""

/-- Working out first sets. -/
abbrev Hinting := StateM (Array HintState)

/-- What can begin a sequence: what can begin its first part, and, as long as parts may be left
out, the part after it. Markers take no token. -/
def sequenceHint (hint : Nat → Hinting (Option FirstSet)) : List Nat → Hinting (Option FirstSet)
  | [] => return some {}
  | part :: rest => do
    let i := (d.slot part).instruction
    if i.kind = .marker then sequenceHint hint rest
    else
      match ← hint part with
      | none => return none
      | some h =>
        if i.isOptional then
          return (← sequenceHint hint rest).map h.union
        else return some h

/-- What can begin an instruction, given what can begin others. -/
def hintFrom (hint : Nat → Hinting (Option FirstSet)) (n : Nat) : Hinting (Option FirstSet) :=
  match (d.slot n).instruction.kind with
  | .ref =>
    match (d.slot n).parameters[1]? with
    | some target => hint target
    | none => return none
  | .sequence => d.sequenceHint hint (d.partsOf n)
  | .oneOf | .anyNumberOf | .delimited => return FirstSet.unionAll (← (d.partsOf n).mapM hint)
  | .bracketed =>
    match (d.slot n).parameters[0]? with
    | some opening => hint opening
    | none => return none
  | .string => return (d.stringIn n 0).map fun s => ⟨[s], []⟩
  | .multiString =>
    let number := ((d.slot n).parameters[1]?).getD 0
    let texts := (List.range number).filterMap fun k => d.stringIn n (k + 2)
    return some ⟨texts.foldr insertSorted [], []⟩
  | .typed => return (d.stringIn n 0).map fun s => ⟨[], [s]⟩
  | .nothing | .missing => return some {}
  | .pattern | .anything | .token | .marker => return none

/-- What can begin an instruction; nothing is known of what begins with itself. The fuel bounds how
deep grammars begin with one another, so the number of instructions is enough. -/
def hint : Nat → Nat → Hinting (Option FirstSet)
  | 0, _ => return none
  | fuel + 1, n => do
    match (← get).getD n .unvisited with
    | .done h => return h
    | .inProgress => return none
    | .unvisited =>
      modify (·.setIfInBounds n .inProgress)
      let h ← d.hintFrom (hint fuel) n
      modify (·.setIfInBounds n (.done h))
      return h

/-- What can begin each instruction. -/
def allHints : List (Option FirstSet) :=
  let n := d.slots.size
  ((List.range n).mapM (d.hint (n + 1)) (Array.replicate n .unvisited)).1

end Draft

/-! ## 4. Finishing the tables -/

/-- Tables of hints being made. -/
structure HintTables where
  hints : Array HintSpan := #[]
  hintStrings : Array Nat := #[]
  hintOf : Array Nat := #[]

namespace HintTables

/-- Add the hint of the next instruction. -/
def push (h : HintTables) : Option FirstSet → Compiling HintTables
  | none => return { h with hintOf := h.hintOf.push GrammarId.absent }
  | some f => do
    let raws ← f.raws.mapM Compiling.intern
    let types ← f.types.mapM Compiling.intern
    let start := h.hintStrings.size
    return {
      hints := h.hints.push ⟨start, raws.length, start + raws.length, types.length⟩
      hintStrings := h.hintStrings ++ raws ++ types
      hintOf := h.hintOf.push h.hints.size }

end HintTables

namespace GrammarBook

open Compiling

/-- Compile the definitions, each into the slot of its name. -/
def compileDefinitions (b : GrammarBook) : Compiling Unit := do
  for _ in b.definitions do
    discard alloc
  for (d, n) in b.definitions.zipIdx do
    d.body.compileInto b n
    if let some type := d.segmentType then
      let type ← intern type
      let name ← intern d.name
      setSlot n ({ · with segmentType := type, segmentClass := name })

/-- Compile the pairs of brackets. -/
def compileBrackets (b : GrammarBook) : Compiling (List BracketPair) :=
  b.brackets.mapM fun d => do
    let opening ← bareReference b d.opening
    let closing ← bareReference b d.closing
    return ⟨d.type, ⟨opening⟩, ⟨closing⟩, d.persists⟩

/-- Every reference names a definition, and none names itself. -/
def checkReferences (b : GrammarBook) : List (Nat × String) → Except GrammarError Unit
  | [] => .ok ()
  | (n, name) :: rest =>
    match b.slot? name with
    | none => .error (.unknownReference name)
    | some target => if target = n then .error (.selfReference name) else checkReferences b rest

/-- Where each list of a sequence starts when they are put one after the other, and where the last
ends. -/
def offsets (start : Nat) : List (List Nat) → List Nat
  | [] => [start]
  | xs :: rest => start :: offsets (start + xs.length) rest

/-- The finished tables. -/
def finish (b : GrammarBook) (root : Nat) (pairs : List BracketPair) : Compiling Tables := do
  let firsts := (← get).allHints
  let hints ← firsts.foldlM (fun h f => h.push f) ({} : HintTables)
  let d ← get
  let patterns ← d.patterns.mapM fun p => (TablePattern.read? p : Compiling TablePattern)
  let slots := d.slots.toList
  return {
    instructions := ((slots.zip firsts).map fun (s, f) =>
      { s.instruction with flags := { s.instruction.flags with hasHint := f.isSome } }).toArray
    partIds := d.partIds
    terminatorIds := d.terminatorIds
    strings := d.strings
    aux := (slots.flatMap (·.parameters)).toArray
    auxOffsets := (offsets 0 (slots.map (·.parameters))).toArray
    patterns := patterns
    hints := hints.hints
    hintStrings := hints.hintStrings
    hintOf := hints.hintOf
    segmentTypes := (slots.map (·.segmentType)).toArray
    segmentClasses := (slots.map (·.segmentClass)).toArray
    casefolds := (slots.map (·.casefold)).toArray
    trimStarts := (slots.map (·.trimStart)).toArray
    trimCounts := (slots.map (·.trimCount)).toArray
    trimStrings := d.trimStrings
    bracketPairs := pairs
    names := b.names.zipIdx.map fun (name, n) => (name, ⟨n⟩)
    root := ⟨root⟩ }

/-- The steps of compiling a book. -/
def compileSteps (b : GrammarBook) : Compiling Tables := do
  b.compileDefinitions
  let pairs ← b.compileBrackets
  b.checkReferences (← get).references
  match b.slot? b.root with
  | none => throw (.missingRoot b.root)
  | some root => b.finish root pairs

/-- The tables of a book, or why there are none. -/
def compile (b : GrammarBook) : Except GrammarError Tables :=
  match b.duplicate? with
  | some name => .error (.duplicateDefinition name)
  | none => do
    let (tables, _) ← b.compileSteps.run {}
    tables.validate
    return tables

end GrammarBook

end QueryLint
