import QueryLint.Segment.Patch

/-!
QueryLint.Fix.Splice — from the patches of a tree to new source text.

A patch says what changed in the templated text. It is carried over to the source if it has a
place there, and kept if that place holds literal text only. A patch that reaches markup is kept
in two cases: it inserts at the edge of a slice, or the text it replaces stands exactly once in
the source beside the markup.

* `sourcePatches` — the patches of a tree that can be made in the source, by where they start.
* `splice` — the source with patches made; markup between them is copied as it is.
* `fixedSource`, `fixString` — the source of a fixed tree.
-/

namespace QueryLint

/-! ## 1. Which patches to keep -/

/-- Where `pat` stands in a text, if it stands there once. Copies that overlap the first do not
count. -/
def soleOccurrence? (pat text : String) : Option Nat := do
  let start ← Text.find? pat.toList text.toList 0
  let rest ← Text.dropBytes? text.toList (start + pat.utf8ByteSize)
  if (Text.find? pat.toList rest 0).isNone then some start else none

namespace Patch

/-- A patch of the templated text at its place in the source, if it has one. Source fixes are
there already. -/
def toSource? (f : TemplatedFile) (p : Patch) : Option Patch :=
  if p.category = .source then some p
  else
    match f.toSource? p.templated with
    | .ok s => some (.ofSpans f p.category s p.templated p.fixed)
    | .error _ => none

/-- The patch made smaller, to the one place where the text it replaces stands in the source. -/
def relocated? (p : Patch) : Option Patch :=
  if p.templatedText.isEmpty then none
  else
    (soleOccurrence? p.templatedText p.sourceText).map fun offset =>
      let start := p.source.start + offset
      { p with
        source := ⟨start, start + p.templatedText.utf8ByteSize, Nat.le_add_right _ _⟩
        sourceText := p.templatedText }

/-- The patch as it can be made without touching markup, if it can. -/
def safe? (f : TemplatedFile) (p : Patch) : Option Patch :=
  let slices := f.rawSpanning p.source
  if slices.all (·.kind.isLiteral) then some p
  else if p.category = .source then some p
  else if p.source.isEmpty && slices.head?.any (·.start == p.source.start) then some p
  else if !slices.any (·.kind.isLiteral) then none
  else if 2 < slices.length then none
  else p.relocated?

/-- The patches that can be made, each once; those with a key in `seen` have been kept before. -/
def allSafe (f : TemplatedFile) (seen : List (Span × String)) : List Patch → List Patch
  | [] => []
  | p :: rest =>
    if seen.contains p.key then allSafe f seen rest
    else
      match p.safe? f with
      | some q => q :: allSafe f (p.key :: seen) rest
      | none => allSafe f seen rest

end Patch

/-- The patches of a tree that can be made in the source, by where they start. -/
def sourcePatches (f : TemplatedFile) (tree : Segment) : List Patch :=
  (Patch.allSafe f [] ((tree.patches f).filterMap (·.toSource? f))).mergeSort
    fun p q => p.source.start ≤ q.source.start

/-! ## 2. Making them -/

/-- The source between two offsets; none if they are no cut of it. -/
def copied (source : String) (start stop : Nat) : String :=
  (Text.slice? source start stop).getD ""

/-- The source from `start` to `stop`, and where it ends. Each slice of markup in between is
copied by itself. -/
def copiedAround (source : String) (start : Nat) : List RawSlice → String × Nat
  | [] => ("", start)
  | s :: rest =>
    let (text, stop) := copiedAround source s.stop rest
    (copied source start s.start ++ s.text ++ text, stop)

/-- The source from `start` on with patches made. A patch that begins before the end of the one
before it is passed over. -/
def spliceFrom (f : TemplatedFile) (start : Nat) : List Patch → String
  | [] => (Text.sliceFrom? f.source start).getD ""
  | p :: rest =>
    if p.source.start < start then spliceFrom f start rest
    else
      let between := f.sourceOnly.filter fun s => start ≤ s.start && s.stop ≤ p.source.start
      let (text, stop) := copiedAround f.source start between
      text ++ copied f.source stop p.source.start ++ p.fixed ++ spliceFrom f p.source.stop rest

/-- The source with patches made, which are given by where they start. -/
def splice (f : TemplatedFile) (patches : List Patch) : String := spliceFrom f 0 patches

/-- The source of a fixed tree. -/
def fixedSource (f : TemplatedFile) (tree : Segment) : String :=
  match sourcePatches f tree with
  | [] => f.source
  | patches => splice f patches

/-- The source of a fixed tree, and whether it is another than before. -/
def fixString (f : TemplatedFile) (tree : Segment) : String × Bool :=
  (fixedSource f tree, fixedSource f tree != f.source)

end QueryLint
