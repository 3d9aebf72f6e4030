import QueryLint.Template.Slice
import QueryLint.Text.Property

/-!
QueryLint.Template.File — the source, the templated text and the map between them.

The slices of a `TemplatedFile` tile their texts: this is part of the type, and `ofSlices` is the
only way to make one from slices of other origin.

* `TemplatedFile.toSource?` — the source of a span of templated text, if there is one.
* `TemplatedFile.enclosing?` — the same, widened to whole pieces of markup where there is none.
* `TemplatedFile.rawSpanning` — the raw slices that a span of the source touches.
-/

namespace QueryLint

/-- A source text, the text rendered from it, and both slicings. -/
structure TemplatedFile where
  source : String
  templated : String
  name : String
  slices : List RenderedSlice
  raw : List RawSlice
  slices_tile : renderedTiling? templated.utf8ByteSize source.utf8ByteSize 0 slices = none
  raw_tile : rawTiling? source 0 raw = none

namespace TemplatedFile

/-! ## 1. Making a file -/

/-- A whole text is its own slice. -/
theorem slice?_whole (s : String) : Text.slice? s 0 s.utf8ByteSize = some s := by
  have h : s.utf8ByteSize = Text.byteCount s.toList := by
    have key : ∀ cs : List Char, (String.ofList cs).utf8ByteSize = Text.byteCount cs := by
      intro cs
      induction cs with
      | nil => rfl
      | cons c cs ih =>
        rw [show c :: cs = [c] ++ cs from rfl, String.ofList_append, String.utf8ByteSize_append, ih]
        simp
    rw [← key, String.ofList_toList]
  have ht := Text.takeBytes?_append s.toList []
  rw [List.append_nil] at ht
  simp [Text.slice?, h, ht]

/-- A file without markup: the templated text is the source. -/
def ofString (source : String) (name : String := "<string>") : TemplatedFile where
  source := source
  templated := source
  name := name
  slices := [⟨.literal, ⟨0, source.utf8ByteSize, Nat.zero_le _⟩,
    ⟨0, source.utf8ByteSize, Nat.zero_le _⟩⟩]
  raw := [{ text := source, kind := .literal, start := 0 }]
  slices_tile := by simp [renderedTiling?]
  raw_tile := by simp [rawTiling?, RawSlice.stop, slice?_whole]

/-- A file with the given slices, if they tile their texts. -/
def ofSlices (source templated name : String) (slices : List RenderedSlice)
    (raw : List RawSlice) : Except TemplateError TemplatedFile :=
  match h₁ : renderedTiling? templated.utf8ByteSize source.utf8ByteSize 0 slices with
  | some e => .error (.invalidSlices e)
  | none =>
    match h₂ : rawTiling? source 0 raw with
    | some e => .error (.invalidSlices e)
    | none => .ok ⟨source, templated, name, slices, raw, h₁, h₂⟩

variable (f : TemplatedFile)

/-- Number of bytes of the templated text. -/
def length : Nat := f.templated.utf8ByteSize

/-- Templating changed nothing. -/
def isIdentity : Bool := f.raw.all (·.kind.isLiteral) && f.source == f.templated

/-! ## 2. Blocks -/

/-- Block number of the slice that starts at an offset. Where empty slices make several start
there, the last counts. -/
def blockAt? (start : Nat) : Option Nat :=
  (f.raw.reverse.find? (·.start == start)).map (·.block)

/-- Block number of a slice, by where it starts. -/
def blockOf (s : RawSlice) : Nat := (f.blockAt? s.start).getD s.block

/-- Block numbers of the loop bodies without markup that renders text. -/
def literalLoopBlocks : List Nat := literalLoops [] f.raw

/-! ## 3. Lines and columns -/

/-- Offsets where lines of a text start. -/
def lineStarts (text : String) : List Nat :=
  0 :: (Text.offsetsOf '\n' text.toList 0).map (· + 1)

/-- The place of an offset in a text. -/
def placeIn (text : String) (offset : Nat) : Place :=
  let before := (lineStarts text).takeWhile (· ≤ offset)
  ⟨max before.length 1, offset - before.getLastD 0 + 1⟩

/-- The place of an offset in the templated text. -/
def place (offset : Nat) : Place := placeIn f.templated offset

/-- The place of an offset in the source. -/
def sourcePlace (offset : Nat) : Place := placeIn f.source offset

/-! ## 4. From the templated text to the source -/

/-- The source offset of a point in the templated text. Where slices meet, the first of their
ends in the source counts. -/
def pointToSource? (pos : Nat) : Except MappingError Nat :=
  let near := f.slices.takeWhile (·.templated.start ≤ pos)
  let ends := near.flatMap fun s =>
    (if s.templated.start = pos then [s.source.start] else []) ++
      (if s.templated.stop = pos then [s.source.stop] else [])
  match ends with
  | e :: es => .ok (es.foldl min e)
  | [] =>
    match f.slices.find? fun s => s.templated.start < pos && pos < s.templated.stop with
    | some s =>
      if s.kind.isLiteral then .ok (s.source.start + pos - s.templated.start)
      else .error (.insideTemplated (.point pos))
    | none => .error (.insideTemplated (.point pos))

/-- The source offset where the text from `start` on begins; `whole` is the span asked about. -/
def sourceStart? (start : Nat) (whole : Span) : Except MappingError Nat :=
  match f.slices.find? fun s => s.templated.start ≤ start && start < s.templated.stop with
  | none => .error (.outOfRange whole f.length)
  | some s =>
    if s.kind.isLiteral then .ok (s.source.start + start - s.templated.start)
    else if start = s.templated.start then .ok s.source.start
    else .error (.insideTemplated whole)

/-- The source offset where the text up to `stop` ends; `whole` is the span asked about. -/
def sourceStop? (stop : Nat) (whole : Span) : Except MappingError Nat :=
  match f.slices.find? fun s => s.templated.start < stop && stop ≤ s.templated.stop with
  | none => .error (.outOfRange whole f.length)
  | some s =>
    if s.kind.isLiteral then .ok (s.source.stop - (s.templated.stop - stop))
    else if stop = s.templated.stop then .ok s.source.stop
    else .error (.insideTemplated whole)

/-- The source of every slice that the templated text between two offsets touches. -/
def widest (start stop : Nat) : Span :=
  let touched := f.slices.filter fun s =>
    if start = stop then s.templated.start ≤ start && start ≤ s.templated.stop
    else s.templated.start < stop && start < s.templated.stop
  match touched with
  | [] => .point start
  | s :: rest => rest.foldl (fun acc t => acc.cover t.source) s.source

/-- The source of a span of templated text. There is none if an end lies strictly inside the text
of one expression, since no source text stands for a part of it. Loops may put the source of the
end before that of the start; then the whole source of the span is meant. -/
def toSource? (s : Span) : Except MappingError Span :=
  if f.length < s.stop then .error (.outOfRange s f.length)
  else if f.slices.isEmpty then .ok s
  else if s.isEmpty then (f.pointToSource? s.start).map .point
  else do
    let start ← f.sourceStart? s.start s
    let stop ← f.sourceStop? s.stop s
    if h : start ≤ stop then return ⟨start, stop, h⟩ else return f.widest s.start s.stop

/-- The source of a span of templated text, widened to whole expressions where an end lies inside
one. There is none only for a span that reaches beyond the text. -/
def enclosing? (s : Span) : Option Span :=
  if f.length < s.stop then none
  else
    match f.toSource? s with
    | .ok t => some t
    | .error (.outOfRange _ _) => none
    | .error (.insideTemplated _) =>
      some (f.widest s.start (min (max s.stop (s.start + 1)) f.length))

/-! ## 5. Slices of the source -/

/-- The list from the last slice that starts at or before an offset, as far as the starts of the
slices rise. -/
def fromSliceAt (start : Nat) : List RawSlice → List RawSlice
  | a :: b :: rest => if b.start ≤ start then fromSliceAt start (b :: rest) else a :: b :: rest
  | short => short

/-- Raw slices that a span of the source touches, in order. An empty span at a boundary touches
the slice that starts there; a span that starts at or beyond the end touches none. -/
def rawSpanning (s : Span) : List RawSlice :=
  match f.raw.getLast? with
  | none => []
  | some last =>
    if last.stop ≤ s.start then []
    else
      match fromSliceAt s.start f.raw with
      | [] => []
      | first :: rest => first :: rest.takeWhile (·.start < s.stop)

/-- All markup, in order. -/
def sourceOnly : List RawSlice := f.raw.filter (·.isSourceOnly)

/-- Whether the slices of a list that a span touches are literal; `sofar` answers for those before
the list. -/
def literalFrom (s : Span) (sofar : Bool) : List RawSlice → Bool
  | [] => sofar
  | r :: rest =>
    if r.start ≤ s.start then literalFrom s r.kind.isLiteral rest
    else if s.stop ≤ r.start then sofar
    else literalFrom s (sofar && r.kind.isLiteral) rest

/-- Whether a span of the source touches literal slices only. -/
def isLiteralSource (s : Span) : Bool :=
  f.raw.isEmpty || s.isEmpty || literalFrom s true f.raw

end TemplatedFile

end QueryLint
