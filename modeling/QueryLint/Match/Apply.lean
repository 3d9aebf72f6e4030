import QueryLint.Match.Basic
import QueryLint.Segment.Layout

/-!
QueryLint.Match.Apply — segments from a match.

The tokens of a match keep their order. Where the markers and inner matches of a match start at the
same token, the markers come first; between them stand the tokens that no inner match claims.

* `Match.apply` — the segments that a match makes of the tokens.
* `Match.fits` — a match claims no token that is not there.
-/

namespace QueryLint.Match

/-- Something that goes between the tokens of a match: where, the segments, and the first token
after it. -/
structure Inlay where
  start : Nat
  segments : List Segment
  stop : Nat

/-- Put an inlay into a list in the order of their starts, before those that start at the same
token. -/
def insertInlay (x : Inlay) : List Inlay → List Inlay
  | [] => [x]
  | y :: ys => if x.start ≤ y.start then x :: y :: ys else y :: insertInlay x ys

/-- Inlays in the order of their starts; those that start at the same token stay in order. -/
def sortInlays (xs : List Inlay) : List Inlay := xs.foldr insertInlay []

/-- Tokens in a range. -/
def tokensIn (tokens : Array Segment) (start stop : Nat) : List Segment :=
  (tokens.extract start stop).toList

/-- The tokens from `i` up to `stop` with the inlays in order. -/
def layOut (tokens : Array Segment) (stop : Nat) (i : Nat) : List Inlay → List Segment
  | [] => tokensIn tokens i stop
  | x :: xs =>
    tokensIn tokens i x.start ++ x.segments ++
      layOut tokens stop (max (max i x.start) x.stop) xs

/-- A token of another type. Markers and nodes stay as they are. -/
def retypeToken (type : String) (normalized : Option String) (s : Segment) : Fresh Segment :=
  if !s.isLeaf || s.isMarker then return s
  else do
    let s ← s.retyped type []
    return (normalized.map s.withNormalized).getD s

/-- Put segments into what a match puts them into. A node over markers alone is not made. -/
def build (content : List Segment) : Option MatchClass → Fresh (List Segment)
  | none => return content
  | some (.token type normalized) => content.mapM (retypeToken type normalized)
  | some (.node type grammar) =>
    if content.all (·.isMarker) then return content
    else return [← Segment.node type (some grammar) content]
  | some .bracketed => return [← Segment.bracketed content]
  | some (.unparsable expected) => return [← Segment.unparsable content (some expected)]

/-- Markers without a position. -/
def newMarkers : List (Nat × MarkerKind) → Fresh (List Segment)
  | [] => return []
  | (_, k) :: rest => return (← Segment.marker k none) :: (← newMarkers rest)

/-- The inlays of markers. -/
def markerInlays : List (Nat × MarkerKind) → Fresh (List Inlay)
  | [] => return []
  | (i, k) :: rest => return ⟨i, [← Segment.marker k none], i⟩ :: (← markerInlays rest)

mutual

/-- The segments that a match makes of the tokens. A match of no token makes its markers. -/
def apply (tokens : Array Segment) : Match → Fresh (List Segment)
  | mk start stop c inserts children =>
    if stop ≤ start then newMarkers inserts
    else do
      let markers ← markerInlays inserts
      let inner ← applyAll tokens children
      build (layOut tokens stop start (sortInlays (markers ++ inner))) c

/-- The inlays of inner matches. -/
def applyAll (tokens : Array Segment) : List Match → Fresh (List Inlay)
  | [] => return []
  | m :: rest => return ⟨m.start, ← m.apply tokens, m.stop⟩ :: (← applyAll tokens rest)

end

mutual

/-- A match claims no token beyond the first `n`, and nothing in it starts beyond them. -/
def fits (n : Nat) : Match → Bool
  | mk start stop _ inserts children =>
    stop ≤ start || (stop ≤ n && inserts.all (·.1 ≤ n) && fitsAll n children)

/-- The same of inner matches. -/
def fitsAll (n : Nat) : List Match → Bool
  | [] => true
  | m :: rest => m.start ≤ n && m.fits n && fitsAll n rest

end

end QueryLint.Match
