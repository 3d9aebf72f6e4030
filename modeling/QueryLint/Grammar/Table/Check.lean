import QueryLint.Grammar.Table

/-!
QueryLint.Grammar.Table.Check — whether tables hold together.

Every number in a table must lie inside the table that it points into. `Tables.checks` lists all
that has to hold, in the order in which it is reported; tables are sound when every check holds,
and `Tables.validate` gives the first that does not.
-/

namespace QueryLint

/-- Something that has to hold, and the error if it does not. -/
structure TableCheck where
  holds : Bool
  failure : GrammarError

namespace Tables

variable (t : Tables)

/-- A number names an instruction. -/
def hasInstruction (number : Nat) : Bool := number < t.size

/-- The numbers of strings name strings; `inst` is the instruction they belong to. -/
def stringChecks (inst : Nat) (numbers : List Nat) : List TableCheck :=
  numbers.map fun n => ⟨n < t.strings.size, .stringOutOfRange inst n⟩

/-- The numbers of grammars name instructions; `inst` is the instruction they belong to. -/
def partChecks (inst : Nat) (numbers : List Nat) : List TableCheck :=
  numbers.map fun n => ⟨t.hasInstruction n, .childOutOfRange inst n⟩

/-- The numbers in slots that hold one. -/
def present (slots : List Nat) : List Nat := slots.filter (· ≠ GrammarId.absent)

/-- Every table by instruction has as many entries as there are instructions. -/
def sizeChecks : List TableCheck :=
  ⟨t.auxOffsets.size = t.size + 1, .sliceOutOfRange t.size "aux offsets"⟩ ::
  [(t.hintOf.size, "simple hint index"), (t.segmentTypes.size, "segment type"),
    (t.segmentClasses.size, "segment class"), (t.casefolds.size, "casefold"),
    (t.trimStarts.size, "trim chars offsets"), (t.trimCounts.size, "trim chars counts")].map
    (fun (n, part) => ⟨n = t.size, .sliceOutOfRange n part⟩) ++
  [⟨t.hasInstruction t.root.index, .missingRoot t.root.display⟩]

/-- The parts of an instruction lie in the table of parts and name instructions, and so do its
terminators. -/
def partsChecks (inst : Nat) (i : Instruction) : List TableCheck :=
  ⟨i.firstPart + i.partCount ≤ t.partIds.size, .sliceOutOfRange inst "child"⟩ ::
  t.partChecks inst (idsIn t.partIds i.firstPart i.partCount) ++
  ⟨i.firstTerminator + i.terminatorCount ≤ t.terminatorIds.size,
    .sliceOutOfRange inst "terminator"⟩ ::
  (idsIn t.terminatorIds i.firstTerminator i.terminatorCount).map
    (fun n => ⟨t.hasInstruction n, .terminatorOutOfRange inst n⟩)

/-- Number of parameters that an instruction has at least. The second parameter of a choice of
strings counts the strings after it. -/
def footprint (i : Instruction) (offset : Nat) : Nat :=
  i.kind.footprint + (if i.flags.isConditional then 2 else 0) +
    (if i.kind = .multiString then t.aux.getD (offset + 1) 0 else 0)

/-- The parameters of an instruction name what they should. `slot` gives a parameter. -/
def parameterChecks (inst : Nat) (i : Instruction) (offset stop : Nat) : List TableCheck :=
  let slot (n : Nat) : Nat := t.aux.getD (offset + n) GrammarId.absent
  match i.kind with
  | .ref =>
    t.stringChecks inst [slot 0] ++
    ⟨slot 1 ≠ GrammarId.absent, .unknownReference (t.string (slot 0))⟩ ::
    t.partChecks inst (slot 1 :: present [slot 2])
  | .oneOf => t.partChecks inst (present [slot 0])
  | .anyNumberOf => t.partChecks inst (present [slot 2])
  | .delimited => t.partChecks inst [slot 0]
  | .bracketed => t.partChecks inst [slot 0, slot 1]
  | .string | .typed => t.stringChecks inst [slot 0, slot 1]
  | .multiString =>
    t.stringChecks inst (slot 0 :: idsIn t.aux (offset + 2) (t.footprint i offset - 2))
  | .pattern =>
    (present [slot 0, slot 1]).map
      (fun n => ⟨n < t.patterns.size, .patternOutOfRange inst n⟩) ++
    ⟨slot 0 ≠ GrammarId.absent, .patternOutOfRange inst GrammarId.absent⟩ ::
    t.stringChecks inst [slot 2]
  | .marker =>
    ⟨(markerKind? (slot 0)).isSome, .auxOutOfRange inst offset stop t.aux.size⟩ ::
    (if i.flags.isConditional then t.stringChecks inst [slot 1, slot 2] else [])
  | .sequence | .nothing | .anything | .token | .missing => []

/-- The parameters of an instruction lie in their table, and name what they should. -/
def auxChecks (inst : Nat) (i : Instruction) : List TableCheck :=
  let offset := t.auxOffsets.getD inst 0
  let stop := t.auxOffsets.getD (inst + 1) 0
  ⟨offset ≤ stop && offset + t.footprint i offset ≤ stop && stop ≤ t.aux.size,
    .auxOutOfRange inst offset (offset + t.footprint i offset) t.aux.size⟩ ::
  t.parameterChecks inst i offset stop

/-- The hint of an instruction that has one lies in the tables of hints and names strings. -/
def hintChecks (inst : Nat) (i : Instruction) : List TableCheck :=
  if i.flags.hasHint then
    let number := t.hintOf.getD inst 0
    let h := t.hints.getD number default
    ⟨number < t.hints.size, .sliceOutOfRange inst "simple hint"⟩ ::
    [(h.rawStart, h.rawCount), (h.typeStart, h.typeCount)].flatMap fun (start, count) =>
      ⟨start + count ≤ t.hintStrings.size, .sliceOutOfRange inst "hint strings"⟩ ::
      t.stringChecks inst (idsIn t.hintStrings start count)
  else []

/-- The names that an instruction gives to segments are strings, and so are the texts it trims. -/
def stringTableChecks (inst : Nat) : List TableCheck :=
  let start := t.trimStarts.getD inst 0
  let count := t.trimCounts.getD inst 0
  t.stringChecks inst (present [t.segmentTypes.getD inst 0, t.segmentClasses.getD inst 0]) ++
  ⟨start + count ≤ t.trimStrings.size, .sliceOutOfRange inst "trim chars"⟩ ::
  t.stringChecks inst (idsIn t.trimStrings start count)

/-- All that has to hold for one instruction. -/
def instructionChecks (inst : Nat) (i : Instruction) : List TableCheck :=
  t.partsChecks inst i ++ t.auxChecks inst i ++ t.hintChecks inst i ++ t.stringTableChecks inst

/-- All that has to hold, in the order in which it is reported. -/
def checks : List TableCheck :=
  t.sizeChecks ++
  t.instructions.toList.zipIdx.flatMap (fun (i, inst) => t.instructionChecks inst i) ++
  t.bracketPairs.flatMap fun p =>
    [p.opening, p.closing].map fun id =>
      ⟨t.hasInstruction id.index, .childOutOfRange id.index id.index⟩

/-- The tables hold together, or the first thing that does not. -/
def validate : Except GrammarError Unit :=
  match t.checks.find? (!·.holds) with
  | some c => .error c.failure
  | none => .ok ()

/-- Tables are accepted exactly when all that has to hold does. -/
theorem validate_eq_ok_iff : t.validate = .ok () ↔ ∀ c ∈ t.checks, c.holds = true := by
  unfold validate
  cases h : t.checks.find? (!·.holds) with
  | some c =>
    simp only [reduceCtorEq, false_iff]
    intro hall
    have := List.find?_some h
    simp [hall c (List.mem_of_find?_eq_some h)] at this
  | none => simpa using h

end Tables

end QueryLint
