import QueryLint.Segment.Layout
import QueryLint.Template.File

/-!
QueryLint.Segment.Patch — where a tree differs from the templated text.

A tree that fixes have changed is walked beside the text it came from, and every difference
becomes a patch. A segment whose text is still the text at its position is passed over whole.

* `Patch` — text to put in place of a span.
* `Segment.patches` — the patches of a tree in order.
-/

namespace QueryLint

/-- How a patch came about. -/
inductive PatchCategory where
  /-- A segment on literal source has another text. -/
  | literal
  /-- A segment carries a source fix. -/
  | source
  /-- Text was added or removed between two segments. -/
  | midPoint
  /-- Text was added or removed after the last segment. -/
  | endPoint
  deriving DecidableEq, Repr

namespace PatchCategory

/-- All categories, in order. -/
def all : List PatchCategory := [literal, source, midPoint, endPoint]

/-- The word for it. -/
def name : PatchCategory → String
  | literal => "literal"
  | source => "source"
  | midPoint => "mid_point"
  | endPoint => "end_point"

end PatchCategory

/-- Text to put in place of a span of the source. -/
structure Patch where
  category : PatchCategory
  source : Span
  templated : Span
  /-- The new text. -/
  fixed : String
  /-- The text of the templated span. -/
  templatedText : String
  /-- The text of the source span. -/
  sourceText : String
  deriving DecidableEq, Repr

namespace Patch

/-- Two patches with the same key do the same. -/
def key (p : Patch) : Span × String := (p.source, p.fixed)

/-- A patch with the texts that a file has at its spans. -/
def ofSpans (f : TemplatedFile) (category : PatchCategory) (source templated : Span)
    (fixed : String) : Patch :=
  ⟨category, source, templated, fixed, (templated.text? f.templated).getD "",
    (source.text? f.source).getD ""⟩

/-- The patch of a source fix. -/
def ofSourceFix (f : TemplatedFile) (x : SourceFix) : Patch :=
  ofSpans f .source x.source x.templated x.edit

end Patch

namespace Segment

/-- How far the segments in a node have been compared: the ends of the last one in both texts,
and text that was added since, with the position of its first segment. -/
structure Walk where
  source : Nat
  templated : Nat
  added : String := ""
  first : Option Position := none

/-- The patch before a segment at `p`, if something was added or is missing there. -/
def Walk.gapPatch (w : Walk) (p : Position) : List Patch :=
  if w.templated < p.templated.start || !w.added.isEmpty then
    let first := w.first.getD p
    [⟨.midPoint, .between w.source first.source.start,
      .between w.templated first.templated.start, w.added, "", ""⟩]
  else []

/-- The patch after the last segment of a node at `p`. -/
def Walk.endPatch (w : Walk) (f : TemplatedFile) (p : Position) : List Patch :=
  if p.templated.stop ≠ w.templated ∨ !w.added.isEmpty then
    [.ofSpans f .endPoint (.between w.source p.source.stop)
      (.between w.templated p.templated.stop) w.added]
  else []

mutual

/-- The patches of a tree, in order. -/
def patches (f : TemplatedFile) : Segment → List Patch
  | mk i cs =>
    match i.position with
    | none => []
    | some p =>
      let text := (mk i cs).raw
      if p.templated.text? f.templated = some text then
        (mk i cs).sourceFixes.map (.ofSourceFix f)
      else
        i.sourceFixes.map (.ofSourceFix f) ++
          if p.isLiteral then [.ofSpans f .literal p.source p.templated text]
          else
            match cs with
            | [] => []
            | c :: rest =>
              patchesFrom f p { source := p.source.start, templated := p.templated.start }
                (c :: rest)

/-- The patches of the segments in a node at `p`, of which those before the list have been
compared. -/
def patchesFrom (f : TemplatedFile) (p : Position) (w : Walk) : List Segment → List Patch
  | [] => w.endPatch f p
  | s :: rest =>
    match s.position with
    | none => patchesFrom f p w rest
    | some q =>
      if !s.raw.isEmpty && q.isPoint then
        patchesFrom f p { w with added := w.added ++ s.raw, first := w.first.or (some q) } rest
      else
        w.gapPatch q ++ patches f s ++
          patchesFrom f p { source := q.source.stop, templated := q.templated.stop } rest

end

end Segment

end QueryLint
