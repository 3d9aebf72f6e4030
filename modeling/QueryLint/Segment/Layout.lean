import QueryLint.Segment.Basic

/-!
QueryLint.Segment.Layout — placing segments among their neighbours.

Segments read from a file have a position; those that a grammar or a fix puts in between have
none until they are laid out. A marker is placed at a point between its neighbours when its node
is made. After fixes, `positionAll` places the new segments and moves the working places of all
that follow.

* `fillPositions` — positions for what a grammar inserted.
* `Segment.node`, `Segment.bracketed`, `Segment.unparsable`, `Segment.file` — making nodes.
* `positionAll` — positions after fixes.
-/

namespace QueryLint.Segment

/-! ## 1. Points between segments -/

/-- The point after a segment, with the place that its text leads to. -/
def endPointAfter (s : Segment) : Option Position :=
  s.position.map fun p =>
    let place := p.working.after s.raw
    { p.endPoint with place := place, working := place }

/-- The point where the first placed segment of a list starts. A segment starts with its first
placed leaf, or else by its own position. -/
def nextStartPoint : List Segment → Option Position
  | [] => none
  | s :: rest =>
    match (s.leaves.findSome? (·.position)).or s.position with
    | some p => some p.startPoint
    | none => nextStartPoint rest

/-- Place every segment of a list that has no position at a point: after the segment before it,
or else where the next placed one starts. `before` is the segment before the list. -/
def fillPositions (before : Option Segment) : List Segment → List Segment
  | [] => []
  | s :: rest =>
    let placed :=
      match s.position with
      | some _ => s
      | none =>
        match (before.bind endPointAfter).or (nextStartPoint rest) with
        | some p => s.withPosition (some p)
        | none => s
    placed :: fillPositions (some placed) rest

/-! ## 2. Making nodes -/

/-- A node over segments, placed where they are. -/
def branch (k : SegmentKind) (type : String) (cs : List Segment) : Fresh Segment := do
  let cs := fillPositions none cs
  return mk ⟨k, type, [type], ← freshId, Position.cover? (cs.filterMap (·.position)), []⟩ cs

/-- A node that a segment grammar builds. -/
def node (type : String) (grammar : Option GrammarId) (cs : List Segment) : Fresh Segment :=
  branch (.node grammar) type cs

/-- A pair of brackets with what is between them. -/
def bracketed (cs : List Segment) : Fresh Segment := branch .bracketed "bracketed" cs

/-- Segments that the grammar could not place, and what it expected. -/
def unparsable (cs : List Segment) (expected : Option String) : Fresh Segment :=
  branch (.unparsable expected) "unparsable" cs

/-- The root of a file. -/
def file (cs : List Segment) : Fresh Segment := branch .file "file" cs

/-! ## 3. Positions after fixes -/

/-- The working place where a list of segments starts under a parent. -/
def startPlace (cs : List Segment) (parent : Option Position) : Place :=
  ((cs.findSome? (·.position)).or parent).elim ⟨1, 1⟩ (·.working)

/-- A position for a segment that has none: from the end of the segment before it, or the start
of its parent, to the start of the next one. -/
def gapPosition (before : Option Segment) (parent : Option Position) (rest : List Segment) :
    Option Position :=
  let start : Option Position := match before with
    | some b => b.position.map (·.endPoint)
    | none => parent.map (·.startPoint)
  match start, nextStartPoint rest with
  | some a, some b =>
    if a.source ≠ b.source ∨ a.templated ≠ b.templated then some (a.betweenStarts b) else some a
  | some a, none => some a
  | none, b => b

mutual

/-- The segment at a new position. If that is not the old one, all inside is placed anew. -/
def placeAt (p : Position) : Segment → Segment
  | mk i cs =>
    if i.position = some p then mk i cs
    else
      match cs with
      | [] => mk { i with position := some p } []
      | c :: rest =>
        mk { i with position := some p }
          (positionFrom (some p) (startPlace (c :: rest) (some p)) none (c :: rest))

/-- Place the segments of a list from a working place on; `before` is the segment before the
list. -/
def positionFrom (parent : Option Position) (place : Place) (before : Option Segment) :
    List Segment → List Segment
  | [] => []
  | s :: rest =>
    match s.position.or (gapPosition before parent rest) with
    | none => s :: positionFrom parent place (some s) rest
    | some p =>
      let placed := placeAt (p.moved place) s
      placed :: positionFrom parent (place.after s.raw) (some placed) rest

end

/-- Place segments under a parent. Those without a position get one between their neighbours, and
the working places of all follow from the text before them. -/
def positionAll (cs : List Segment) (parent : Option Position) : List Segment :=
  positionFrom parent (startPlace cs parent) none cs

end QueryLint.Segment
