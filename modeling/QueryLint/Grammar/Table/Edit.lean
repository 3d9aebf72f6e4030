import QueryLint.Grammar.Table

/-!
QueryLint.Grammar.Table.Edit — changing single entries of compiled tables.

Tables that the compiler made hold together. Tables that were changed by hand need not, and the
checks of `Tables.validate` are there to notice. A column is named as in dumps; what is put into
it is kept to the width that its numbers have.

* `Column` — the columns of the tables.
* `Tables.cut` — a column with its first entries only.
* `Tables.put?`, `Tables.putString?` — another entry in a column.
-/

namespace QueryLint

/-- The columns of the tables. -/
inductive Column where
  | instructions | partIds | terminatorIds | strings | aux | auxOffsets | patterns
  | hints | hintStrings | hintOf | segmentTypes | segmentClasses
  | casefolds | trimStarts | trimCounts | trimStrings | bracketPairs
  /-- Columns within the instructions. -/
  | firstPart | partCount | firstTerminator | terminatorCount
  /-- Columns within the hints. -/
  | rawCount | typeStart
  /-- Columns within the pairs of brackets. -/
  | opening | closing
  deriving DecidableEq, Repr

namespace Column

/-- The columns with their names. -/
def names : List (String × Column) := [
  ("instructions", instructions), ("child_ids", partIds), ("terminators", terminatorIds),
  ("strings", strings), ("aux_data", aux), ("aux_data_offsets", auxOffsets),
  ("regex_patterns", patterns), ("simple_hints", hints), ("hint_string_indices", hintStrings),
  ("simple_hint_indices", hintOf), ("segment_type_offsets", segmentTypes),
  ("segment_class_offsets", segmentClasses), ("casefold_offsets", casefolds),
  ("trim_chars_offsets", trimStarts), ("trim_chars_counts", trimCounts),
  ("trim_chars_data", trimStrings), ("bracket_pairs", bracketPairs),
  ("first_child", firstPart), ("child_count", partCount),
  ("first_terminator", firstTerminator), ("terminator_count", terminatorCount),
  ("hint_raw_count", rawCount), ("hint_type_start", typeStart), ("bracket_start", opening),
  ("bracket_end", closing)]

/-- The column of a name. -/
def ofName? (name : String) : Option Column := names.lookup name

/-- Its numbers lie below this one. -/
def bound : Column → Nat
  | casefolds => UInt8.size
  | trimCounts | partCount | terminatorCount => UInt16.size
  | _ => UInt32.size

end Column

namespace Tables

variable (t : Tables)

/-- A column with its first entries only. Columns within others cannot be cut by themselves. -/
def cut (n : Nat) : Column → Tables
  | .instructions => { t with instructions := t.instructions.extract 0 n }
  | .partIds => { t with partIds := t.partIds.extract 0 n }
  | .terminatorIds => { t with terminatorIds := t.terminatorIds.extract 0 n }
  | .strings => { t with strings := t.strings.extract 0 n }
  | .aux => { t with aux := t.aux.extract 0 n }
  | .auxOffsets => { t with auxOffsets := t.auxOffsets.extract 0 n }
  | .patterns => { t with patterns := t.patterns.extract 0 n }
  | .hints => { t with hints := t.hints.extract 0 n }
  | .hintStrings => { t with hintStrings := t.hintStrings.extract 0 n }
  | .hintOf => { t with hintOf := t.hintOf.extract 0 n }
  | .segmentTypes => { t with segmentTypes := t.segmentTypes.extract 0 n }
  | .segmentClasses => { t with segmentClasses := t.segmentClasses.extract 0 n }
  | .casefolds => { t with casefolds := t.casefolds.extract 0 n }
  | .trimStarts => { t with trimStarts := t.trimStarts.extract 0 n }
  | .trimCounts => { t with trimCounts := t.trimCounts.extract 0 n }
  | .trimStrings => { t with trimStrings := t.trimStrings.extract 0 n }
  | .bracketPairs => { t with bracketPairs := t.bracketPairs.take n }
  | _ => t

/-- An array with another entry, if it has that row. -/
def replaceRow? {α : Type} (xs : Array α) (row : Nat) (x : α) : Option (Array α) :=
  if row < xs.size then some (xs.setIfInBounds row x) else none

/-- Another instruction in a row. -/
def mapInstruction? (row : Nat) (f : Instruction → Instruction) : Option Tables := do
  let x ← t.instructions[row]?
  return { t with instructions := t.instructions.setIfInBounds row (f x) }

/-- Another hint in a row. -/
def mapHint? (row : Nat) (f : HintSpan → HintSpan) : Option Tables := do
  let x ← t.hints[row]?
  return { t with hints := t.hints.setIfInBounds row (f x) }

/-- Another pair of brackets in a row. -/
def mapPair? (row : Nat) (f : BracketPair → BracketPair) : Option Tables := do
  let x ← t.bracketPairs[row]?
  return { t with bracketPairs := t.bracketPairs.set row (f x) }

/-- Another number in a column of numbers, if the column has that row. -/
def put? (row value : Nat) (c : Column) : Option Tables :=
  let x := value % c.bound
  match c with
  | .partIds => (replaceRow? t.partIds row x).map ({ t with partIds := · })
  | .terminatorIds => (replaceRow? t.terminatorIds row x).map ({ t with terminatorIds := · })
  | .aux => (replaceRow? t.aux row x).map ({ t with aux := · })
  | .auxOffsets => (replaceRow? t.auxOffsets row x).map ({ t with auxOffsets := · })
  | .hintStrings => (replaceRow? t.hintStrings row x).map ({ t with hintStrings := · })
  | .hintOf => (replaceRow? t.hintOf row x).map ({ t with hintOf := · })
  | .segmentTypes => (replaceRow? t.segmentTypes row x).map ({ t with segmentTypes := · })
  | .segmentClasses => (replaceRow? t.segmentClasses row x).map ({ t with segmentClasses := · })
  | .casefolds => (replaceRow? t.casefolds row x).map ({ t with casefolds := · })
  | .trimStarts => (replaceRow? t.trimStarts row x).map ({ t with trimStarts := · })
  | .trimCounts => (replaceRow? t.trimCounts row x).map ({ t with trimCounts := · })
  | .trimStrings => (replaceRow? t.trimStrings row x).map ({ t with trimStrings := · })
  | .firstPart => t.mapInstruction? row ({ · with firstPart := x })
  | .partCount => t.mapInstruction? row ({ · with partCount := x })
  | .firstTerminator => t.mapInstruction? row ({ · with firstTerminator := x })
  | .terminatorCount => t.mapInstruction? row ({ · with terminatorCount := x })
  | .rawCount => t.mapHint? row ({ · with rawCount := x })
  | .typeStart => t.mapHint? row ({ · with typeStart := x })
  | .opening => t.mapPair? row ({ · with opening := ⟨x⟩ })
  | .closing => t.mapPair? row ({ · with closing := ⟨x⟩ })
  | .instructions | .strings | .patterns | .hints | .bracketPairs => none

/-- Another string in the table of strings, if it has that row. -/
def putString? (row : Nat) (s : String) : Option Tables :=
  (replaceRow? t.strings row s).map ({ t with strings := · })

end Tables

end QueryLint
