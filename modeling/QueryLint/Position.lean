import QueryLint.Span
import QueryLint.Text.Property

/-!
QueryLint.Position — where a segment lies.

A segment lies in two texts at once: the source as written, and the text that templating made of
it. Lines and columns are those of the templated text; both count from one, and columns count
bytes. Besides the place where the segment was read there is a working place, which follows the
segment when fixes move it.
-/

namespace QueryLint

/-- A line and a column, both from one. -/
structure Place where
  line : Nat
  column : Nat
  deriving DecidableEq, Repr

instance : Inhabited Place := ⟨⟨1, 1⟩⟩

/-- The place after `raw` when it starts at `p`. -/
def Place.after (p : Place) (raw : String) : Place :=
  let pieces := Text.splitOn (· == '\n') raw.toList
  match pieces with
  | [] | [_] => ⟨p.line, p.column + raw.utf8ByteSize⟩
  | _ :: rest => ⟨p.line + rest.length, Text.byteCount (rest.getLastD []) + 1⟩

/-- Where a segment lies in the source and in the templated text. -/
structure Position where
  source : Span
  templated : Span
  place : Place
  /-- The place while fixes move things. -/
  working : Place
  /-- The source here is literal text, not template markup. -/
  isLiteral : Bool
  deriving DecidableEq, Repr

namespace Position

/-- A position that has not been moved. -/
def ofSpans (source templated : Span) (place : Place) (isLiteral : Bool) : Position :=
  ⟨source, templated, place, place, isLiteral⟩

/-- An empty position. -/
def ofPoints (source templated : Nat) (place : Place) (isLiteral : Bool) : Position :=
  ofSpans (.point source) (.point templated) place isLiteral

/-- From the start of one position to the start of another, or a point if that lies before. -/
def betweenStarts (a b : Position) : Position :=
  { a with
    source := .between a.source.start b.source.start
    templated := .between a.templated.start b.templated.start
    isLiteral := a.isLiteral && b.isLiteral }

/-- The smallest position that holds all of a list; its place is the first one's. -/
def cover? : List Position → Option Position
  | [] => none
  | p :: ps => some (ps.foldl (fun acc q =>
      { acc with
        source := acc.source.cover q.source
        templated := acc.templated.cover q.templated
        isLiteral := acc.isLiteral && q.isLiteral }) p)

/-- Empty in both texts. -/
def isPoint (p : Position) : Bool := p.source.isEmpty && p.templated.isEmpty

/-- The point where a position starts. -/
def startPoint (p : Position) : Position :=
  { p with source := .point p.source.start, templated := .point p.templated.start }

/-- The point where a position ends; its place is the working place of the whole. -/
def endPoint (p : Position) : Position :=
  { p with
    source := .point p.source.stop
    templated := .point p.templated.stop
    place := p.working }

/-- The same position at another working place. -/
def moved (p : Position) (working : Place) : Position := { p with working := working }

end Position

end QueryLint
