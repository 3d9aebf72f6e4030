import QueryLint.Proofs.Grammar.Filed

/-!
QueryLint.Proofs.Grammar.Checked — lookups in checked tables stay inside.

The parser looks things up without asking whether they are there: a lookup that misses its table
gives some default. Here every lookup is written a second time so that it fails as soon as one
number on its way lies outside of the table it points into, or leads to nothing where something
has to be. In tables that `Tables.validate` accepts no such lookup fails, each gives what the
parser's lookup gives, and each number of a grammar that it yields is again one of an instruction.
So a chain of lookups never leaves the tables, however long it is.

* `Tables.readShape`, `Tables.readHint`, `Tables.readTrim`, … — the lookups that can fail.
* `Tables.Inside` — none of them fails for an instruction.
* `Tables.yields`, `Tables.Chained` — the grammars that an instruction leads to, and those that a
  chain of lookups leads to.
* `validate_sufficient` — checked tables are safe to look things up in.
-/

namespace QueryLint

/-- The grammars that the parameters of an instruction name. -/
def Shape.ids : Shape → List GrammarId
  | .ref _ target exclude => target.toList ++ exclude.toList
  | .oneOf exclude | .anyNumberOf _ _ exclude => exclude.toList
  | .delimited delimiter _ => delimiter.toList
  | .bracketed (some (opening, closing, _)) => [opening, closing]
  | _ => []

namespace Tables

variable (t : Tables)

/-! ## 1. Lookups that can fail -/

/-- Numbers in a range of a table that holds all of the range. -/
def readIds (table : Array Nat) (start count : Nat) : Option (List Nat) :=
  if start + count ≤ table.size then some (idsIn table start count) else none

/-- Strings that all are in the table of strings. -/
def readStrings (numbers : List Nat) : Option (List String) := numbers.mapM (t.strings[·]?)

/-- A string whose number may be left out, but not wrong. -/
def readName (slot : Nat) : Option (Option String) :=
  match slotNat? slot with
  | none => some none
  | some n => (t.strings[n]?).map some

/-- A pattern whose number may be left out, but not wrong. -/
def readPattern (slot : Nat) : Option (Option TablePattern) :=
  match slotNat? slot with
  | none => some none
  | some n => (t.patterns[n]?).map some

/-- The instruction of a number. -/
def readInstruction (id : GrammarId) : Option Instruction := t.instructions[id.index]?

/-- The parts of an instruction. -/
def readParts (id : GrammarId) : Option (List GrammarId) := do
  let i ← t.readInstruction id
  let numbers ← readIds t.partIds i.firstPart i.partCount
  return numbers.map (⟨·⟩)

/-- The terminators of an instruction. -/
def readTerminators (id : GrammarId) : Option (List GrammarId) := do
  let i ← t.readInstruction id
  let numbers ← readIds t.terminatorIds i.firstTerminator i.terminatorCount
  return numbers.map (⟨·⟩)

/-- The parameters of an instruction: where they start and end is known, in this order. -/
def readParameters (id : GrammarId) : Option (List Nat) := do
  let start ← t.auxOffsets[id.index]?
  let stop ← t.auxOffsets[id.index + 1]?
  if start ≤ stop then readIds t.aux start (stop - start) else none

/-- One parameter, which the instruction has. -/
def readParameter (id : GrammarId) (slot : Nat) : Option Nat := do
  let numbers ← t.readParameters id
  numbers[slot]?

/-- The string that a parameter names. -/
def readText (id : GrammarId) (slot : Nat) : Option String := do
  let n ← t.readParameter id slot
  t.strings[n]?

/-- The exclude grammar in a slot, if the instruction has one. -/
def readExclude (id : GrammarId) (slot : Nat) : Option (Option GrammarId) := do
  let i ← t.readInstruction id
  let n ← t.readParameter id slot
  return if i.flags.hasExclude then GrammarId.ofSlot? n else none

/-- The condition of a marker, if it has one. -/
def readCondition (id : GrammarId) : Option (Option (String × String)) := do
  let i ← t.readInstruction id
  if i.flags.isConditional then
    let key ← t.readText id 1
    let value ← t.readText id 2
    return some (key, value)
  else return none

/-- What an instruction stands for. A reference leads somewhere, a pattern is one, and a marker is
of some kind. -/
def readShape (id : GrammarId) : Option Shape := do
  let i ← t.readInstruction id
  let p := t.readParameter id
  match i.kind with
  | .ref =>
    let target ← GrammarId.ofSlot? (← p 1)
    return .ref (← t.readText id 0) (some target) (← t.readExclude id 2)
  | .sequence => return .sequence
  | .oneOf => return .oneOf (← t.readExclude id 0)
  | .anyNumberOf =>
    return .anyNumberOf (slotNat? (← p 0)) (slotNat? (← p 1)) (← t.readExclude id 2)
  | .delimited => return .delimited (GrammarId.ofSlot? (← p 0)) (← p 1)
  | .bracketed =>
    let opening ← p 0
    let closing ← p 1
    let persists ← p 2
    return .bracketed do
      let opening ← GrammarId.ofSlot? opening
      let closing ← GrammarId.ofSlot? closing
      return (opening, closing, persists != 0)
  | .string => return .string (← t.readText id 0) (← t.readText id 1)
  | .multiString =>
    let numbers ← t.readParameters id
    let count ← p 1
    if 2 + count ≤ numbers.length then
      return .multiString (← t.readStrings ((numbers.drop 2).take count)) (← t.readText id 0)
    else none
  | .typed => return .typed (← t.readText id 0) (← t.readText id 1)
  | .pattern =>
    let text ← (← t.readPattern (← p 0))
    return .pattern (some text) (← t.readPattern (← p 1)) (← t.readText id 2)
  | .nothing => return .nothing
  | .anything => return .anything
  | .token => return .token
  | .missing => return .missing
  | .marker =>
    let kind ← markerKind? (← p 0)
    return .marker (some kind) (← t.readCondition id)

/-- How a typed token is normalised. -/
def readCasefold (id : GrammarId) : Option Casefold := (t.casefolds[id.index]?).map .ofNumber

/-- Texts that are taken away from a typed token when it is normalised. -/
def readTrim (id : GrammarId) : Option (List String) := do
  let start ← t.trimStarts[id.index]?
  let count ← t.trimCounts[id.index]?
  t.readStrings (← readIds t.trimStrings start count)

/-- Type of the segment that a match is put into, if it is. -/
def readSegmentType (id : GrammarId) : Option (Option String) := do
  t.readName (← t.segmentTypes[id.index]?)

/-- Name of the segment grammar that an instruction is, if it is one. -/
def readSegmentClass (id : GrammarId) : Option (Option String) := do
  t.readName (← t.segmentClasses[id.index]?)

/-- Texts and types of the tokens that can begin a grammar, if it has a hint. -/
def readHint (id : GrammarId) : Option (Option (List String × List String)) := do
  let i ← t.readInstruction id
  if i.flags.hasHint then
    let h ← t.hints[← t.hintOf[id.index]?]?
    let raws ← t.readStrings (← readIds t.hintStrings h.rawStart h.rawCount)
    let types ← t.readStrings (← readIds t.hintStrings h.typeStart h.typeCount)
    return some (raws, types)
  else return none

/-- Every lookup for an instruction stays inside the tables, and gives what the parser sees. -/
structure Inside (id : GrammarId) : Prop where
  instruction : t.readInstruction id = some (t.instruction id)
  parts : t.readParts id = some (t.parts id)
  terminators : t.readTerminators id = some (t.terminatorsOf id)
  parameters : t.readParameters id = some (t.parameters id)
  shape : t.readShape id = some (t.shape id)
  condition : (t.instruction id).kind = .marker → t.readCondition id = some (t.condition? id)
  casefold : t.readCasefold id = some (t.casefold id)
  trim : t.readTrim id = some (t.trim id)
  segmentType : t.readSegmentType id = some (t.segmentType? id)
  segmentClass : t.readSegmentClass id = some (t.segmentClass? id)
  hint : t.readHint id = some (t.hint? id)

/-- The grammars that an instruction leads to: its parts, its terminators and those that its
parameters name. -/
def yields (id : GrammarId) : List GrammarId :=
  t.parts id ++ t.terminatorsOf id ++ (t.shape id).ids

/-- What chains of lookups lead to that start at the root or at a bracket of a declared pair. -/
inductive Chained : GrammarId → Prop
  | root : Chained t.root
  | opening {p : BracketPair} : p ∈ t.bracketPairs → Chained p.opening
  | closing {p : BracketPair} : p ∈ t.bracketPairs → Chained p.closing
  | next {id other : GrammarId} : Chained id → other ∈ t.yields id → Chained other

/-! ## 2. Tables of numbers and strings -/

variable {t}

theorem getElem?_eq_some_getD {α : Type} {xs : Array α} {n : Nat} (x : α) (h : n < xs.size) :
    xs[n]? = some (xs.getD n x) := by
  simp [h]

theorem readIds_eq {table : Array Nat} {start count : Nat} (h : start + count ≤ table.size) :
    readIds table start count = some (idsIn table start count) := if_pos h

theorem string?_eq {n : Nat} (h : n < t.strings.size) : t.strings[n]? = some (t.string n) :=
  getElem?_eq_some_getD "" h

theorem readStrings_eq {numbers : List Nat} (h : ∀ n ∈ numbers, n < t.strings.size) :
    t.readStrings numbers = some (numbers.map t.string) := by
  induction numbers with
  | nil => rfl
  | cons n numbers ih =>
    obtain ⟨hn, hrest⟩ := List.forall_mem_cons.1 h
    have rest : numbers.mapM (t.strings[·]?) = some (numbers.map t.string) := ih hrest
    simp [readStrings, List.mapM_cons, string?_eq hn, rest]

/-- A number that may be left out names a string if it is one of those that are present. -/
theorem readName_eq {slot : Nat} (h : slot ≠ GrammarId.absent → slot < t.strings.size) :
    t.readName slot = some ((slotNat? slot).map t.string) := by
  unfold readName slotNat?
  by_cases absent : slot = GrammarId.absent
  · rw [if_pos absent]
    rfl
  · rw [if_neg absent]
    simp [string?_eq (h absent)]

theorem readPattern_eq {slot : Nat} (h : slot ≠ GrammarId.absent → slot < t.patterns.size) :
    t.readPattern slot = some (t.pattern? slot) := by
  unfold readPattern pattern? slotNat?
  by_cases absent : slot = GrammarId.absent
  · rw [if_pos absent]
    rfl
  · rw [if_neg absent]
    simp [h absent]

theorem length_idsIn {table : Array Nat} {start count : Nat} (h : start + count ≤ table.size) :
    (idsIn table start count).length = count := by
  simp only [idsIn, Array.length_toList, Array.size_extract]
  omega

theorem getElem?_idsIn {table : Array Nat} {start count k : Nat} (hk : k < count)
    (h : start + count ≤ table.size) (x : Nat) :
    (idsIn table start count)[k]? = some (table.getD (start + k) x) := by
  have inside : start + k < table.size := by omega
  simp [idsIn, hk, inside]

/-! ## 3. One instruction -/

section
variable {id : GrammarId} (h : t.validate = .ok ()) (hid : id.index < t.size)
include h

theorem allHold_sizeChecks : AllHold t.sizeChecks := fun c hc =>
  t.validate_eq_ok_iff.1 h c (List.mem_append_left _ (List.mem_append_left _ hc))

/-- There is an offset for every instruction and one more. -/
theorem size_auxOffsets : t.auxOffsets.size = t.size + 1 := by
  simpa [sizeChecks] using (allHold_cons.1 (allHold_sizeChecks h)).1

/-- The other tables by instruction have an entry for each. -/
theorem sizes_eq : t.hintOf.size = t.size ∧ t.segmentTypes.size = t.size ∧
    t.segmentClasses.size = t.size ∧ t.casefolds.size = t.size ∧ t.trimStarts.size = t.size ∧
    t.trimCounts.size = t.size := by
  have rest := (allHold_append.1 (allHold_cons.1 (allHold_sizeChecks h)).2).1
  simpa using rest

theorem root_lt : t.root.index < t.size := by
  have last := (allHold_append.1 (allHold_cons.1 (allHold_sizeChecks h)).2).2
  simpa [hasInstruction] using last

include hid

omit h in
theorem readInstruction_eq : t.readInstruction id = some (t.instruction id) :=
  getElem?_eq_some_getD default hid

theorem allHold_instructionChecks :
    AllHold (t.instructionChecks id.index (t.instruction id)) := fun _ hc =>
  GrammarBook.holds_of_validate h hid hc

theorem allHold_partsChecks : AllHold (t.partsChecks id.index (t.instruction id)) := by
  have all := allHold_instructionChecks h hid
  exact (allHold_append.1 (allHold_append.1 (allHold_append.1 all).1).1).1

theorem allHold_auxChecks : AllHold (t.auxChecks id.index (t.instruction id)) := by
  have all := allHold_instructionChecks h hid
  exact (allHold_append.1 (allHold_append.1 (allHold_append.1 all).1).1).2

theorem allHold_hintChecks : AllHold (t.hintChecks id.index (t.instruction id)) := by
  have all := allHold_instructionChecks h hid
  exact (allHold_append.1 (allHold_append.1 all).1).2

theorem allHold_stringTableChecks : AllHold (t.stringTableChecks id.index) :=
  (allHold_append.1 (allHold_instructionChecks h hid)).2

theorem readParts_eq :
    t.readParts id = some (t.parts id) ∧ ∀ x ∈ t.parts id, x.index < t.size := by
  obtain ⟨hlies, hall⟩ := allHold_cons.1 (allHold_append.1 (allHold_partsChecks h hid)).1
  have hlies := of_decide_eq_true hlies
  have hall := allHold_partChecks.1 hall
  constructor
  · simp [readParts, readInstruction_eq hid, readIds_eq hlies, parts]
  · intro x hx
    obtain ⟨n, hn, rfl⟩ := List.mem_map.1 hx
    exact hall n hn

theorem readTerminators_eq :
    t.readTerminators id = some (t.terminatorsOf id) ∧
      ∀ x ∈ t.terminatorsOf id, x.index < t.size := by
  obtain ⟨hlies, hall⟩ := allHold_cons.1 (allHold_append.1 (allHold_partsChecks h hid)).2
  have hlies := of_decide_eq_true hlies
  constructor
  · simp [readTerminators, readInstruction_eq hid, readIds_eq hlies, terminatorsOf]
  · intro x hx
    obtain ⟨n, hn, rfl⟩ := List.mem_map.1 hx
    have := hall _ (List.mem_map.2 ⟨n, hn, rfl⟩)
    simpa [hasInstruction] using this

/-- The parameters lie between two offsets, as many of them as the instruction needs. -/
theorem offsets_of_validate :
    t.auxOffsets.getD id.index 0 + t.footprint (t.instruction id) (t.auxOffsets.getD id.index 0) ≤
        t.auxOffsets.getD (id.index + 1) 0 ∧
      t.auxOffsets.getD (id.index + 1) 0 ≤ t.aux.size := by
  have first := (allHold_cons.1 (allHold_auxChecks h hid)).1
  simp only [Bool.and_eq_true, decide_eq_true_eq] at first
  exact ⟨first.1.2, first.2⟩

theorem readParameters_eq : t.readParameters id = some (t.parameters id) := by
  have size := size_auxOffsets h
  obtain ⟨hfits, hstop⟩ := offsets_of_validate h hid
  have start : t.auxOffsets[id.index]? = some (t.auxOffsets.getD id.index 0) :=
    getElem?_eq_some_getD 0 (by omega)
  have stop : t.auxOffsets[id.index + 1]? = some (t.auxOffsets.getD (id.index + 1) 0) :=
    getElem?_eq_some_getD 0 (by omega)
  unfold readParameters parameters
  simp only [start, stop, Option.bind_eq_bind, Option.bind_some]
  rw [if_pos (by omega), readIds_eq (by omega)]

theorem footprint_le_length :
    t.footprint (t.instruction id) (t.auxOffsets.getD id.index 0) ≤ (t.parameters id).length := by
  obtain ⟨hfits, hstop⟩ := offsets_of_validate h hid
  unfold parameters
  rw [length_idsIn (by omega)]
  omega

/-- A parameter that the instruction needs is there. -/
theorem readParameter_eq (slot : Nat)
    (hslot : slot < t.footprint (t.instruction id) (t.auxOffsets.getD id.index 0)) :
    t.readParameter id slot = some (t.parameter id slot) ∧
      t.parameter id slot =
        t.aux.getD (t.auxOffsets.getD id.index 0 + slot) GrammarId.absent := by
  obtain ⟨hfits, hstop⟩ := offsets_of_validate h hid
  have found : t.parameter id slot =
      t.aux.getD (t.auxOffsets.getD id.index 0 + slot) GrammarId.absent :=
    if_pos (by omega)
  refine ⟨?_, found⟩
  have listed : (t.parameters id)[slot]? = some (t.parameter id slot) := by
    rw [found]
    exact getElem?_idsIn (by omega) (by omega) _
  simp [readParameter, readParameters_eq h hid, listed]

theorem readText_eq (slot : Nat)
    (hslot : slot < t.footprint (t.instruction id) (t.auxOffsets.getD id.index 0))
    (hlt : t.parameter id slot < t.strings.size) :
    t.readText id slot = some (t.string (t.parameter id slot)) := by
  simp [readText, (readParameter_eq h hid slot hslot).1, string?_eq hlt]

theorem readExclude_eq (slot : Nat)
    (hslot : slot < t.footprint (t.instruction id) (t.auxOffsets.getD id.index 0)) :
    t.readExclude id slot = some (t.excludeIn id slot) := by
  simp [readExclude, readInstruction_eq hid, (readParameter_eq h hid slot hslot).1, excludeIn]

/-- The parameters name what they should, said of the parameters as they are looked up. -/
theorem allHold_parameterChecks :
    AllHold (t.parameterChecks id.index (t.instruction id) (t.auxOffsets.getD id.index 0)
      (t.auxOffsets.getD (id.index + 1) 0)) :=
  (allHold_cons.1 (allHold_auxChecks h hid)).2

omit h hid in
/-- An exclude grammar is an instruction if its slot, unless empty, holds the number of one. -/
theorem excludeIn_lt {slot : Nat}
    (hlt : t.parameter id slot ≠ GrammarId.absent → t.parameter id slot < t.size) :
    ∀ x ∈ (t.excludeIn id slot).toList, x.index < t.size := by
  intro x hx
  unfold excludeIn GrammarId.ofSlot? at hx
  split at hx
  · split at hx
    · simp at hx
    · next hne =>
      obtain rfl : x = ⟨t.parameter id slot⟩ := by simpa using hx
      exact hlt hne
  · simp at hx

omit h hid in
/-- A kind's own parameters are among those that the instruction needs. -/
theorem kind_footprint_le {k : InstructionKind} (hkind : (t.instruction id).kind = k) :
    k.footprint ≤ t.footprint (t.instruction id) (t.auxOffsets.getD id.index 0) := by
  subst hkind
  unfold footprint
  omega

theorem readShape_ref (hkind : (t.instruction id).kind = .ref) :
    t.readShape id = some (t.shape id) ∧ ∀ x ∈ (t.shape id).ids, x.index < t.size := by
  have checks := allHold_parameterChecks h hid
  have needs : 3 ≤ t.footprint (t.instruction id) (t.auxOffsets.getD id.index 0) :=
    kind_footprint_le hkind
  obtain ⟨-, p₀⟩ := readParameter_eq h hid 0 (by omega)
  obtain ⟨r₁, p₁⟩ := readParameter_eq h hid 1 (by omega)
  obtain ⟨-, p₂⟩ := readParameter_eq h hid 2 (by omega)
  simp only [parameterChecks, hkind, ← p₀, ← p₁, ← p₂, allHold_append, allHold_cons,
    allHold_stringChecks, allHold_partChecks, List.forall_mem_cons, decide_eq_true_eq] at checks
  obtain ⟨⟨name, -⟩, present, target, exclude⟩ := checks
  have shape : t.shape id = .ref (t.string (t.parameter id 0)) (some ⟨t.parameter id 1⟩)
      (t.excludeIn id 2) := by
    simp [Tables.shape, hkind, GrammarId.ofSlot?, present]
  constructor
  · simp [readShape, readInstruction_eq hid, hkind, r₁, GrammarId.ofSlot?, present,
      readText_eq h hid 0 (by omega) name, readExclude_eq h hid 2 (by omega),
      shape]
  · rw [shape]
    intro x hx
    rcases List.mem_cons.1 hx with rfl | hx
    · exact target
    · exact excludeIn_lt (fun hne => exclude _ (mem_present.2 ⟨by simp, hne⟩)) x hx

theorem readShape_oneOf (hkind : (t.instruction id).kind = .oneOf) :
    t.readShape id = some (t.shape id) ∧ ∀ x ∈ (t.shape id).ids, x.index < t.size := by
  have checks := allHold_parameterChecks h hid
  have needs : 1 ≤ t.footprint (t.instruction id) (t.auxOffsets.getD id.index 0) :=
    kind_footprint_le hkind
  obtain ⟨-, p₀⟩ := readParameter_eq h hid 0 (by omega)
  simp only [parameterChecks, hkind, ← p₀, allHold_partChecks] at checks
  have shape : t.shape id = .oneOf (t.excludeIn id 0) := by simp [Tables.shape, hkind]
  constructor
  · simp [readShape, readInstruction_eq hid, hkind, readExclude_eq h hid 0 (by omega),
      shape]
  · rw [shape]
    exact excludeIn_lt fun hne => checks _ (mem_present.2 ⟨by simp, hne⟩)

theorem readShape_anyNumberOf (hkind : (t.instruction id).kind = .anyNumberOf) :
    t.readShape id = some (t.shape id) ∧ ∀ x ∈ (t.shape id).ids, x.index < t.size := by
  have checks := allHold_parameterChecks h hid
  have needs : 3 ≤ t.footprint (t.instruction id) (t.auxOffsets.getD id.index 0) :=
    kind_footprint_le hkind
  obtain ⟨r₀, -⟩ := readParameter_eq h hid 0 (by omega)
  obtain ⟨r₁, -⟩ := readParameter_eq h hid 1 (by omega)
  obtain ⟨-, p₂⟩ := readParameter_eq h hid 2 (by omega)
  simp only [parameterChecks, hkind, ← p₂, allHold_partChecks] at checks
  have shape : t.shape id = .anyNumberOf (slotNat? (t.parameter id 0))
      (slotNat? (t.parameter id 1)) (t.excludeIn id 2) := by
    simp [Tables.shape, hkind]
  constructor
  · simp [readShape, readInstruction_eq hid, hkind, r₀, r₁,
      readExclude_eq h hid 2 (by omega), shape]
  · rw [shape]
    exact excludeIn_lt fun hne => checks _ (mem_present.2 ⟨by simp, hne⟩)

omit h hid in
/-- What a slot yields is an instruction if the number in the slot is one. -/
theorem ofSlot?_lt {n : Nat} (hlt : n < t.size) :
    ∀ x, GrammarId.ofSlot? n = some x → x.index < t.size := by
  intro x hx
  unfold GrammarId.ofSlot? at hx
  split at hx
  · cases hx
  · cases hx
    exact hlt

theorem readShape_delimited (hkind : (t.instruction id).kind = .delimited) :
    t.readShape id = some (t.shape id) ∧ ∀ x ∈ (t.shape id).ids, x.index < t.size := by
  have checks := allHold_parameterChecks h hid
  have needs : 2 ≤ t.footprint (t.instruction id) (t.auxOffsets.getD id.index 0) :=
    kind_footprint_le hkind
  obtain ⟨r₀, p₀⟩ := readParameter_eq h hid 0 (by omega)
  obtain ⟨r₁, -⟩ := readParameter_eq h hid 1 (by omega)
  simp only [parameterChecks, hkind, ← p₀, allHold_partChecks, List.forall_mem_singleton] at checks
  have shape : t.shape id = .delimited (GrammarId.ofSlot? (t.parameter id 0))
      (t.parameter id 1) := by
    simp [Tables.shape, hkind]
  constructor
  · simp [readShape, readInstruction_eq hid, hkind, r₀, r₁, shape]
  · rw [shape]
    intro x hx
    exact ofSlot?_lt checks x (Option.mem_toList.1 hx)

theorem readShape_bracketed (hkind : (t.instruction id).kind = .bracketed) :
    t.readShape id = some (t.shape id) ∧ ∀ x ∈ (t.shape id).ids, x.index < t.size := by
  have checks := allHold_parameterChecks h hid
  have needs : 3 ≤ t.footprint (t.instruction id) (t.auxOffsets.getD id.index 0) :=
    kind_footprint_le hkind
  obtain ⟨r₀, p₀⟩ := readParameter_eq h hid 0 (by omega)
  obtain ⟨r₁, p₁⟩ := readParameter_eq h hid 1 (by omega)
  obtain ⟨r₂, -⟩ := readParameter_eq h hid 2 (by omega)
  simp only [parameterChecks, hkind, ← p₀, ← p₁, allHold_partChecks,
    List.forall_mem_cons] at checks
  obtain ⟨opening, closing, -⟩ := checks
  constructor
  · simp [readShape, Tables.shape, readInstruction_eq hid, hkind, r₀, r₁, r₂]
  · have hopening := ofSlot?_lt opening
    have hclosing := ofSlot?_lt closing
    simp only [Tables.shape, hkind]
    cases o : GrammarId.ofSlot? (t.parameter id 0) with
    | none => simp [Shape.ids]
    | some o' =>
      cases e : GrammarId.ofSlot? (t.parameter id 1) with
      | none => simp [Shape.ids]
      | some e' => simp [Shape.ids, hopening o' o, hclosing e' e]

/-- A string and a typed token have the same two parameters. -/
theorem readShape_template
    (hkind : (t.instruction id).kind = .string ∨ (t.instruction id).kind = .typed) :
    t.readShape id = some (t.shape id) ∧ ∀ x ∈ (t.shape id).ids, x.index < t.size := by
  have checks := allHold_parameterChecks h hid
  have needs : 2 ≤ t.footprint (t.instruction id) (t.auxOffsets.getD id.index 0) := by
    rcases hkind with hkind | hkind <;> exact kind_footprint_le hkind
  obtain ⟨-, p₀⟩ := readParameter_eq h hid 0 (by omega)
  obtain ⟨-, p₁⟩ := readParameter_eq h hid 1 (by omega)
  have strings : AllHold (t.stringChecks id.index [t.parameter id 0, t.parameter id 1]) := by
    rw [p₀, p₁]
    rcases hkind with hkind | hkind <;> simpa only [parameterChecks, hkind] using checks
  rw [allHold_stringChecks, List.forall_mem_cons, List.forall_mem_singleton] at strings
  have template := readText_eq h hid 0 (by omega) strings.1
  have type := readText_eq h hid 1 (by omega) strings.2
  rcases hkind with hkind | hkind <;>
    simp [readShape, Tables.shape, readInstruction_eq hid, hkind, template, type, Shape.ids]

/-- The templates of a choice of strings are the parameters after the first two; how many there are
is the second one, and all of them are checked. -/
theorem readShape_multiString (hkind : (t.instruction id).kind = .multiString) :
    t.readShape id = some (t.shape id) ∧ ∀ x ∈ (t.shape id).ids, x.index < t.size := by
  have checks := allHold_parameterChecks h hid
  have kinds : 2 ≤ t.footprint (t.instruction id) (t.auxOffsets.getD id.index 0) :=
    kind_footprint_le hkind
  obtain ⟨-, p₀⟩ := readParameter_eq h hid 0 (by omega)
  obtain ⟨r₁, p₁⟩ := readParameter_eq h hid 1 (by omega)
  obtain ⟨hfits, hstop⟩ := offsets_of_validate h hid
  have length_le := footprint_le_length h hid
  have needs : 2 + t.parameter id 1 ≤
      t.footprint (t.instruction id) (t.auxOffsets.getD id.index 0) := by
    have inside : t.auxOffsets.getD id.index 0 + 1 < t.aux.size := by omega
    have count : t.aux.getD (t.auxOffsets.getD id.index 0 + 1) 0 = t.parameter id 1 := by
      rw [p₁]
      exact Option.some.inj ((getElem?_eq_some_getD 0 inside).symm.trans
        (getElem?_eq_some_getD GrammarId.absent inside))
    unfold footprint
    rw [if_pos hkind, count, hkind, InstructionKind.footprint]
    omega
  simp only [parameterChecks, hkind, ← p₀, allHold_stringChecks, List.forall_mem_cons] at checks
  obtain ⟨type, templates⟩ := checks
  have listed : ∀ n ∈ ((t.parameters id).drop 2).take (t.parameter id 1), n < t.strings.size := by
    intro n hn
    obtain ⟨k, hk, rfl⟩ := List.mem_iff_getElem.1 hn
    have hk' : k < t.parameter id 1 := by
      rw [List.length_take] at hk
      omega
    refine templates _ (List.mem_iff_getElem?.2 ⟨k, ?_⟩)
    rw [getElem?_idsIn (by omega) (by omega) 0, ← List.getElem?_eq_getElem hk,
      List.getElem?_take_of_lt hk', List.getElem?_drop, parameters,
      getElem?_idsIn (by omega) (by omega) 0, Nat.add_assoc]
  constructor
  · simp [readShape, Tables.shape, readInstruction_eq hid, hkind, readParameters_eq h hid, r₁,
      Nat.le_trans needs length_le, readStrings_eq listed,
      readText_eq h hid 0 (by omega) type]
  · simp [Tables.shape, hkind, Shape.ids]

theorem readShape_pattern (hkind : (t.instruction id).kind = .pattern) :
    t.readShape id = some (t.shape id) ∧ ∀ x ∈ (t.shape id).ids, x.index < t.size := by
  have checks := allHold_parameterChecks h hid
  have needs : 3 ≤ t.footprint (t.instruction id) (t.auxOffsets.getD id.index 0) :=
    kind_footprint_le hkind
  obtain ⟨r₀, p₀⟩ := readParameter_eq h hid 0 (by omega)
  obtain ⟨r₁, p₁⟩ := readParameter_eq h hid 1 (by omega)
  obtain ⟨-, p₂⟩ := readParameter_eq h hid 2 (by omega)
  simp only [parameterChecks, hkind, ← p₀, ← p₁, ← p₂, allHold_append, allHold_cons,
    allHold_stringChecks, List.forall_mem_singleton, decide_eq_true_eq] at checks
  obtain ⟨patterns, present, type⟩ := checks
  have lies : ∀ n ∈ [t.parameter id 0, t.parameter id 1], n ≠ GrammarId.absent →
      n < t.patterns.size := by
    intro n hn hne
    exact of_decide_eq_true (patterns _ (List.mem_map.2 ⟨n, mem_present.2 ⟨hn, hne⟩, rfl⟩))
  have text := readPattern_eq (lies _ (by simp : t.parameter id 0 ∈ _))
  have anti := readPattern_eq (lies _ (by simp : t.parameter id 1 ∈ _))
  obtain ⟨p, found⟩ : ∃ p, t.pattern? (t.parameter id 0) = some p := by
    have hlt := lies _ (by simp : t.parameter id 0 ∈ _) present
    exact ⟨t.patterns[t.parameter id 0], by simp [pattern?, slotNat?, present, hlt]⟩
  constructor
  · simp [readShape, Tables.shape, readInstruction_eq hid, hkind, r₀, r₁, text, anti, found,
      readText_eq h hid 2 (by omega) type]
  · simp [Tables.shape, hkind, Shape.ids]

/-- A marker's condition lies in the parameters that only conditional markers have. -/
theorem readCondition_eq (hkind : (t.instruction id).kind = .marker) :
    t.readCondition id = some (t.condition? id) := by
  have checks := allHold_parameterChecks h hid
  simp only [parameterChecks, hkind, allHold_cons] at checks
  unfold readCondition condition?
  by_cases conditional : (t.instruction id).flags.isConditional = true
  · have needs : 3 ≤ t.footprint (t.instruction id) (t.auxOffsets.getD id.index 0) := by
      simp [footprint, hkind, InstructionKind.footprint, conditional]
    obtain ⟨-, p₁⟩ := readParameter_eq h hid 1 (by omega)
    obtain ⟨-, p₂⟩ := readParameter_eq h hid 2 (by omega)
    have strings := checks.2
    rw [if_pos conditional, ← p₁, ← p₂, allHold_stringChecks, List.forall_mem_cons,
      List.forall_mem_singleton] at strings
    simp [readInstruction_eq hid, conditional,
      readText_eq h hid 1 (by omega) strings.1,
      readText_eq h hid 2 (by omega) strings.2]
  · simp [readInstruction_eq hid, conditional]

theorem readShape_marker (hkind : (t.instruction id).kind = .marker) :
    t.readShape id = some (t.shape id) ∧ ∀ x ∈ (t.shape id).ids, x.index < t.size := by
  have checks := allHold_parameterChecks h hid
  have needs : 1 ≤ t.footprint (t.instruction id) (t.auxOffsets.getD id.index 0) :=
    kind_footprint_le hkind
  obtain ⟨r₀, p₀⟩ := readParameter_eq h hid 0 (by omega)
  simp only [parameterChecks, hkind, ← p₀, allHold_cons] at checks
  obtain ⟨kind, known⟩ := Option.isSome_iff_exists.1 checks.1
  have shape : t.shape id = .marker (some kind) (t.condition? id) := by
    simp [Tables.shape, hkind, known, condition?]
  constructor
  · simp [readShape, readInstruction_eq hid, hkind, r₀, known, readCondition_eq h hid hkind, shape]
  · simp [shape, Shape.ids]

/-- What an instruction stands for can be looked up, and names instructions only. -/
theorem readShape_eq :
    t.readShape id = some (t.shape id) ∧ ∀ x ∈ (t.shape id).ids, x.index < t.size := by
  cases hkind : (t.instruction id).kind with
  | ref => exact readShape_ref h hid hkind
  | oneOf => exact readShape_oneOf h hid hkind
  | anyNumberOf => exact readShape_anyNumberOf h hid hkind
  | delimited => exact readShape_delimited h hid hkind
  | bracketed => exact readShape_bracketed h hid hkind
  | string => exact readShape_template h hid (.inl hkind)
  | typed => exact readShape_template h hid (.inr hkind)
  | multiString => exact readShape_multiString h hid hkind
  | pattern => exact readShape_pattern h hid hkind
  | marker => exact readShape_marker h hid hkind
  | sequence | nothing | anything | token | missing =>
    simp [readShape, Tables.shape, readInstruction_eq hid, hkind, Shape.ids]

theorem readTrim_eq : t.readTrim id = some (t.trim id) := by
  obtain ⟨-, -, -, -, starts, counts⟩ := sizes_eq h
  obtain ⟨lies, strings⟩ := allHold_cons.1 (allHold_append.1 (allHold_stringTableChecks h hid)).2
  have lies := of_decide_eq_true lies
  have strings := readStrings_eq (allHold_stringChecks.1 strings)
  have start : t.trimStarts[id.index]? = some (t.trimStarts.getD id.index 0) :=
    getElem?_eq_some_getD 0 (by omega)
  have count : t.trimCounts[id.index]? = some (t.trimCounts.getD id.index 0) :=
    getElem?_eq_some_getD 0 (by omega)
  unfold readTrim trim
  simp only [start, count, Option.bind_eq_bind, Option.bind_some, readIds_eq lies, strings]

/-- The names that an instruction gives to segments are there. -/
theorem readSegments_eq :
    t.readSegmentType id = some (t.segmentType? id) ∧
      t.readSegmentClass id = some (t.segmentClass? id) := by
  obtain ⟨-, types, classes, -⟩ := sizes_eq h
  have strings := allHold_stringChecks.1 (allHold_append.1 (allHold_stringTableChecks h hid)).1
  have lies (n : Nat)
      (hn : n ∈ [t.segmentTypes.getD id.index 0, t.segmentClasses.getD id.index 0]) :
      n ≠ GrammarId.absent → n < t.strings.size :=
    fun hne => strings n (mem_present.2 ⟨hn, hne⟩)
  have type : t.segmentTypes[id.index]? = some (t.segmentTypes.getD id.index 0) :=
    getElem?_eq_some_getD 0 (by omega)
  have name : t.segmentClasses[id.index]? = some (t.segmentClasses.getD id.index 0) :=
    getElem?_eq_some_getD 0 (by omega)
  constructor
  · unfold readSegmentType segmentType?
    rw [type, Option.bind_eq_bind, Option.bind_some, Option.bind_some,
      readName_eq (lies _ (by simp))]
  · unfold readSegmentClass segmentClass?
    rw [name, Option.bind_eq_bind, Option.bind_some, Option.bind_some,
      readName_eq (lies _ (by simp))]

theorem readHint_eq : t.readHint id = some (t.hint? id) := by
  have size := (sizes_eq h).1
  have checks := allHold_hintChecks h hid
  unfold readHint hint?
  rw [readInstruction_eq hid, Option.bind_eq_bind, Option.bind_some]
  by_cases hinted : (t.instruction id).flags.hasHint = true
  · unfold hintChecks at checks
    rw [if_pos hinted] at checks
    have number : t.hintOf[id.index]? = some (t.hintOf.getD id.index 0) :=
      getElem?_eq_some_getD 0 (by omega)
    generalize t.hintOf.getD id.index 0 = n at checks number
    simp only [allHold_cons, List.flatMap_cons, List.flatMap_nil, allHold_append,
      allHold_stringChecks, decide_eq_true_eq] at checks
    obtain ⟨hn, ⟨raws_le, raws⟩, ⟨types_le, types⟩, -⟩ := checks
    have found : t.hints[n]? = some (t.hints.getD n default) := getElem?_eq_some_getD default hn
    generalize t.hints.getD n default = span at raws_le raws types_le types found
    rw [if_pos hinted, if_pos hinted, number]
    simp only [Option.bind_eq_bind, Option.bind_some, found, readIds_eq raws_le,
      readIds_eq types_le, readStrings_eq raws, readStrings_eq types]
    rfl
  · rw [if_neg hinted, if_neg hinted]
    rfl

/-- Checked tables are safe for every instruction. -/
theorem inside_of_validate : t.Inside id where
  instruction := readInstruction_eq hid
  parts := (readParts_eq h hid).1
  terminators := (readTerminators_eq h hid).1
  parameters := readParameters_eq h hid
  shape := (readShape_eq h hid).1
  condition := readCondition_eq h hid
  casefold := by
    have size := (sizes_eq h).2.2.2.1
    rw [readCasefold, getElem?_eq_some_getD 0 (by omega : id.index < t.casefolds.size)]
    rfl
  trim := readTrim_eq h hid
  segmentType := (readSegments_eq h hid).1
  segmentClass := (readSegments_eq h hid).2
  hint := readHint_eq h hid

/-- All that an instruction leads to are instructions: one step of a chain of lookups. -/
theorem lt_size_of_yields {other : GrammarId} (ho : other ∈ t.yields id) :
    other.index < t.size := by
  rcases List.mem_append.1 ho with ho | ho
  · rcases List.mem_append.1 ho with ho | ho
    · exact (readParts_eq h hid).2 other ho
    · exact (readTerminators_eq h hid).2 other ho
  · exact (readShape_eq h hid).2 other ho

end

/-! ## 4. Chains of lookups -/

/-- A chain of lookups leads to instructions only. -/
theorem Chained.lt_size (h : t.validate = .ok ()) {id : GrammarId} (hid : t.Chained id) :
    id.index < t.size := by
  induction hid with
  | root => exact root_lt h
  | opening hp => exact (GrammarBook.lt_size_of_mem_bracketPairs h hp).1
  | closing hp => exact (GrammarBook.lt_size_of_mem_bracketPairs h hp).2
  | next _ ho ih => exact lt_size_of_yields h ih ho

end Tables

/-- Checked tables are safe to look things up in: no lookup for an instruction leaves the table
that it looks into, whatever grammar it yields is an instruction again, so are the root and the
brackets of the declared pairs, and so no chain of lookups leaves the tables. -/
theorem validate_sufficient (t : Tables) (h : t.validate = .ok ()) :
    (∀ id : GrammarId, id.index < t.size →
      t.Inside id ∧ ∀ other ∈ t.yields id, other.index < t.size) ∧
    t.root.index < t.size ∧
    (∀ p ∈ t.bracketPairs, p.opening.index < t.size ∧ p.closing.index < t.size) ∧
    ∀ id, t.Chained id → id.index < t.size ∧ t.Inside id := by
  refine ⟨fun id hid => ?_, Tables.root_lt h, fun p hp => ?_, fun id hid => ?_⟩
  · exact ⟨Tables.inside_of_validate h hid, fun other ho => Tables.lt_size_of_yields h hid ho⟩
  · exact GrammarBook.lt_size_of_mem_bracketPairs h hp
  · have hlt := hid.lt_size h
    exact ⟨hlt, Tables.inside_of_validate h hlt⟩

/-- Keywords between commas: a delimited grammar, the choice of keywords and the comma. -/
def keywordTables : Tables where
  instructions := #[
    { kind := .delimited, firstPart := 0, partCount := 1, firstTerminator := 0,
      terminatorCount := 1 },
    { kind := .multiString, flags := { hasHint := true } },
    { kind := .string }]
  partIds := #[1]
  terminatorIds := #[2]
  strings := #["keyword", "A", "B", ",", "comma"]
  aux := #[2, 0, 0, 2, 1, 2, 3, 4]
  auxOffsets := #[0, 2, 6, 8]
  hints := #[⟨0, 2, 2, 0⟩]
  hintStrings := #[1, 2]
  hintOf := #[GrammarId.absent, 0, GrammarId.absent]
  segmentTypes := #[GrammarId.absent, GrammarId.absent, 4]
  segmentClasses := #[GrammarId.absent, GrammarId.absent, 4]
  casefolds := #[0, 0, 0]
  trimStarts := #[0, 0, 0]
  trimCounts := #[0, 0, 0]

/-- These tables are accepted; a chain of lookups leads from the root to the comma, and what the
choice of keywords stands for can be looked up. -/
theorem validate_sufficient_keywords :
    keywordTables.validate = .ok () ∧ keywordTables.Chained ⟨2⟩ ∧ keywordTables.Inside ⟨2⟩ ∧
      keywordTables.readShape ⟨1⟩ = some (.multiString ["A", "B"] "keyword") := by
  have accepted : keywordTables.validate = .ok () := rfl
  have chained : keywordTables.Chained ⟨2⟩ := .next .root (by decide)
  have lookups := validate_sufficient keywordTables accepted
  have choice := (lookups.1 ⟨1⟩ (by decide)).1.shape
  exact ⟨accepted, chained, (lookups.2.2.2 ⟨2⟩ chained).2, choice⟩

end QueryLint
