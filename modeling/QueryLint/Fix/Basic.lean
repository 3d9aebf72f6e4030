import QueryLint.Segment.Patch

/-!
QueryLint.Fix.Basic — changes that a rule proposes.

A rule does not change the tree. It names a segment, the anchor, and says what to do with it; the
anchor is found again by its identity when the change is made. Whether the change is safe is asked
of the templated file, because text that markup rendered has no source of its own to edit.

* `Edit`, `Fix` — what to do, and to which segment.
* `Fix.isTrivial`, `Fix.isSourceOnly` — fixes without effect on the text.
* `Fix.touched`, `Fix.conflicts` — the raw slices a fix reaches, and whether they forbid it.
* `safeFixes` — fixes that may all be made.
-/

namespace QueryLint

/-- What to do with an anchor. -/
inductive Edit where
  | insertBefore (new : List Segment)
  | insertAfter (new : List Segment)
  | replace (new : List Segment)
  | delete

namespace Edit

/-- The segments it brings in. -/
def new : Edit → List Segment
  | insertBefore new | insertAfter new | replace new => new
  | delete => []

/-- The word for it. -/
def name : Edit → String
  | insertBefore _ => "create_before"
  | insertAfter _ => "create_after"
  | replace _ => "replace"
  | delete => "delete"

/-- It takes the anchor away. -/
def isDelete : Edit → Bool
  | delete => true
  | _ => false

/-- It puts something else in place of the anchor. -/
def isReplace : Edit → Bool
  | replace _ => true
  | _ => false

/-- It puts something in front of the anchor. -/
def isInsertBefore : Edit → Bool
  | insertBefore _ => true
  | _ => false

/-- It puts something behind the anchor. -/
def isInsertAfter : Edit → Bool
  | insertAfter _ => true
  | _ => false

/-- It keeps the anchor and puts something beside it. -/
def isInsertion (e : Edit) : Bool := e.isInsertBefore || e.isInsertAfter

end Edit

/-- A change to one place of a tree. -/
structure Fix where
  edit : Edit
  anchor : Segment
  /-- Segments that the new ones were made from, whose source must be safe too. -/
  origins : List Segment := []

namespace Fix

/-! ## 1. Making fixes -/

/-- Put segments in front of an anchor. They get their position from where they end up. -/
def insertBefore (anchor : Segment) (new : List Segment) : Fix :=
  ⟨.insertBefore (new.map (·.withPosition none)), anchor, []⟩

/-- Put segments behind an anchor. They get their position from where they end up. -/
def insertAfter (anchor : Segment) (new : List Segment) : Fix :=
  ⟨.insertAfter (new.map (·.withPosition none)), anchor, []⟩

/-- Put segments in place of an anchor. -/
def replace (anchor : Segment) (new : List Segment) : Fix := ⟨.replace new, anchor, []⟩

/-- Take an anchor away. -/
def delete (anchor : Segment) : Fix := ⟨.delete, anchor, []⟩

variable (x : Fix)

/-- The segments it brings in. -/
def new : List Segment := x.edit.new

/-- The text it brings in. -/
def text : String := Segment.rawAll x.new

/-- The source fixes it brings in. -/
def sourceFixes : List SourceFix := Segment.sourceFixesAll x.new

/-- A replacement by one segment of the same text. -/
def keepsText : Bool :=
  match x.edit with
  | .replace [s] => s.raw == x.anchor.raw
  | _ => false

/-- It would change nothing. -/
def isTrivial : Bool :=
  match x.edit with
  | .insertBefore new | .insertAfter new => new.isEmpty
  | .replace [s] =>
    s.raw == x.anchor.raw && s.classTypes == x.anchor.classTypes && s.sourceFixes.isEmpty
  | _ => false

/-- It changes the source but not the text. -/
def isSourceOnly : Bool := x.keepsText && !x.sourceFixes.isEmpty

/-- Two fixes that do the same to the same anchor. New segments count by their text and their
source fixes. -/
def same (y : Fix) : Bool :=
  x.edit.name == y.edit.name && x.anchor.id == y.anchor.id &&
    x.anchor.classTypes == y.anchor.classTypes &&
    x.new.map (fun s => (s.raw, s.sourceFixes)) == y.new.map (fun s => (s.raw, s.sourceFixes))

/-- A fix in one line. -/
def display : String :=
  let arrow := if x.edit.isDelete then "" else " -> " ++ Text.quoted x.text
  "LintFix(" ++ x.edit.name ++ " " ++ x.anchor.display ++ arrow ++ ")"

/-! ## 2. The source it reaches -/

/-- The templated spans that a fix with its anchor at `p` reaches; none stands for the outside of
the file. An insertion reaches a character to either side, or with `within` only the one on the
side of the anchor that it is made on. -/
def spans (within : Bool) (p : Position) : List (Option Span) :=
  let start := p.templated.start
  let stop := p.templated.stop
  match x.edit with
  | .insertBefore _ =>
    if start = 0 then [none]
    else [some (.between (start - 1) (if within then start else start + 1))]
  | .insertAfter _ =>
    if within then [some (.between stop (stop + 1))]
    else if stop = 0 then [none] else [some (.between (stop - 1) (stop + 1))]
  | .replace _ =>
    if p.source.isEmpty then []
    else if x.isSourceOnly then x.sourceFixes.map (some ·.templated)
    else [some p.templated]
  | .delete => [some p.templated]

/-- The slice that stands for the outside of a file. -/
def outside (f : TemplatedFile) : RawSlice :=
  { text := "", kind := .literal, start := f.source.utf8ByteSize }

/-- The raw slices that a templated span reaches. -/
def slicesOf (f : TemplatedFile) (s : Option Span) : List RawSlice :=
  match ((s.bind f.enclosing?).map f.rawSpanning).getD [] with
  | [] => [outside f]
  | found => found

/-- The raw slices that templated spans reach, each once. -/
def slicesOfAll (f : TemplatedFile) (ss : List (Option Span)) : List RawSlice :=
  (ss.flatMap (slicesOf f)).eraseDups

/-- The raw slices a fix reaches. -/
def touched (f : TemplatedFile) (within : Bool) : List RawSlice :=
  match x.anchor.position with
  | none => []
  | some p => slicesOfAll f (x.spans within p)

/-- The fix would change text that markup rendered. An insertion may stand beside such text. -/
def conflicts (f : TemplatedFile) : Bool :=
  let rendered (s : RawSlice) : Bool := s.kind == .templated
  let slices := x.touched f false
  !x.isSourceOnly &&
    ((if x.edit.isInsertion then !slices.isEmpty && slices.all rendered
      else slices.any rendered) ||
    (slicesOfAll f (x.origins.filterMap fun s => s.position.map (some ·.templated))).any rendered)

/-- Block numbers of the literal text a fix reaches. -/
def blocks (f : TemplatedFile) : List Nat :=
  (x.touched f true).filterMap fun s => if s.isSourceOnly then none else f.blockAt? s.start

end Fix

/-- Some fix of a list must not be made: it changes rendered text, or together they reach more
than one block, or a loop whose body renders the same text each time. -/
def isUnsafe (f : TemplatedFile) (fixes : List Fix) : Bool :=
  let blocks := fixes.flatMap (·.blocks f)
  fixes.any (·.conflicts f) || blocks.any (fun a => blocks.any (· ≠ a)) ||
    blocks.any f.literalLoopBlocks.contains

/-- The fixes of one finding, which are made together or not at all. -/
def safeFixes (f : TemplatedFile) (fixes : List Fix) : List Fix :=
  if isUnsafe f fixes then [] else fixes

end QueryLint
