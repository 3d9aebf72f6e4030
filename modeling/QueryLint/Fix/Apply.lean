import QueryLint.Fix.Group
import QueryLint.Parse

/-!
QueryLint.Fix.Apply — making fixes in a tree.

The tree is rebuilt from the root. In every node the anchors among the segments directly inside
are replaced first; then the segments inside are rebuilt, also those that a fix brought in. White
space that a fix left at the edge of a node moves out of it. A node that may have lost its form is
checked against its grammar; if it fails, the node around it has to hold instead.

* `FixGroup.inPlaceOf` — what becomes of an anchor.
* `Segment.applyFixes` — a tree with fixes made, and whether it still has the form it should.
-/

namespace QueryLint

/-! ## 1. One anchor -/

/-- New segments of a replacement. The first with the text of the anchor takes its position. -/
def placeFirst (anchor : Segment) : List Segment → List Segment
  | [] => []
  | s :: rest =>
    if s.raw = anchor.raw then s.withPosition anchor.position :: rest
    else s :: placeFirst anchor rest

namespace Fix

/-- What a fix leaves in place of its anchor. Of two insertions, the one in front keeps it. -/
def inPlaceOf (anchor : Segment) (alone : Bool) (x : Fix) : List Segment :=
  match x.edit with
  | .delete => []
  | .replace new => placeFirst anchor new
  | .insertBefore new => new ++ [anchor]
  | .insertAfter new => (if alone then [anchor] else []) ++ new

/-- A replacement of an anchor by one segment of the same types, which changes no form. -/
def keepsForm (anchor : Segment) (x : Fix) : Bool :=
  match x.edit with
  | .replace [s] => s.classTypes == anchor.classTypes
  | _ => false

end Fix

namespace FixGroup

/-- The fixes in the order in which they are made: of two, an insertion behind the anchor comes
last. -/
def ordered (g : FixGroup) : List Fix :=
  match g.fixes with
  | [x, y] => if x.edit.isInsertAfter then [y, x] else [x, y]
  | fixes => fixes

/-- What becomes of an anchor. -/
def inPlaceOf (g : FixGroup) (anchor : Segment) : List Segment :=
  g.ordered.flatMap (·.inPlaceOf anchor (g.size == 1))

/-- The fixes change no form. -/
def keepsForm (g : FixGroup) (anchor : Segment) : Bool := g.fixes.all (·.keepsForm anchor)

end FixGroup

/-! ## 2. One node -/

/-- A rebuilt segment. -/
structure Applied where
  segment : Segment
  /-- What moved out of it at the start. -/
  before : List Segment := []
  /-- What moved out of it at the end. -/
  after : List Segment := []
  /-- It has the form that its grammar asks for. -/
  validated : Bool := true

namespace Applied

/-- The segment with what moved out of it. -/
def all (a : Applied) : List Segment := a.before ++ a.segment :: a.after

end Applied

/-- Take off what is not code at both ends. Markers stay. -/
def splitEdges (cs : List Segment) : List Segment × List Segment × List Segment :=
  let front := cs.takeWhile (!·.isCode)
  let rest := cs.dropWhile (!·.isCode)
  let back := (rest.reverse.takeWhile (!·.isCode)).reverse
  let middle := (rest.reverse.dropWhile (!·.isCode)).reverse
  let markers (ss : List Segment) : List Segment := ss.filter (·.isMarker)
  let others (ss : List Segment) : List Segment := ss.filter (!·.isMarker)
  (others front, markers front ++ middle ++ markers back, others back)

/-- Making fixes: the plan holds the groups whose anchor has not been found. -/
abbrev Applying := StateT FixPlan Fresh

/-- What becomes of a segment, if it is an anchor. -/
def takeAnchor (s : Segment) : Applying (Option FixGroup × Segment) :=
  modifyGet fun plan =>
    let (group, rest) := plan.take s.id
    ((group, s), rest)

/-- A fixed file has no more unparsable segments when its tokens are parsed again than its tree
has. -/
def Parser.reparses (p : Parser) (s : Segment) : Fresh Bool := do
  let r ← p.parse (s.leaves.filter fun x => !x.isMarker || x.isTemplateMarker)
  return decide (r.errors.length ≤ (unparsableErrors s).length)

/-- A fixed segment has the form it should. -/
def Parser.accepts (p : Parser) (s : Segment) : Fresh Bool :=
  if s.isFile then p.reparses s
  else return s.grammar?.isSome && p.revalidate s

namespace Segment

/-- A node over the segments that its fixes left, with what moved out of it. -/
def rebuilt (p : Parser) (s : Segment) (cs : List Segment) (keepsForm : Bool) : Fresh Applied := do
  let (before, kept, after) := if s.mayHaveLooseEnds then ([], cs, []) else splitEdges cs
  let new := s.withChildren (positionAll kept s.position) s.position
  let validated ← if keepsForm then pure true else p.accepts new
  return ⟨new, before, after, validated⟩

/-- Make the fixes of a plan in a segment, as many levels deep as `fuel` says. -/
def applyWithin (p : Parser) : Nat → Segment → Applying Applied
  | 0, s => return { segment := s }
  | fuel + 1, s => do
    if (← get).isEmpty || s.children.isEmpty then return { segment := s }
    else
      let found ← s.children.mapM takeAnchor
      let pieces := found.flatMap fun (g, c) => (g.map (·.inPlaceOf c)).getD [c]
      let placed :=
        if found.any (·.1.isSome) then positionAll pieces s.position else pieces
      let inner ← placed.mapM (applyWithin p fuel)
      let keepsForm := found.all (fun (g, c) => g.all (·.keepsForm c)) &&
        inner.all (·.validated)
      rebuilt p s (inner.flatMap (·.all)) keepsForm

mutual

/-- Number of levels. -/
def depth : Segment → Nat
  | mk _ cs => depthAll cs + 1

/-- The most levels of any segment of a list. -/
def depthAll : List Segment → Nat
  | [] => 0
  | s :: rest => max s.depth (depthAll rest)

end

/-- Enough levels: those of the tree, and those that each fix may bring in. -/
def levels (s : Segment) (plan : FixPlan) : Nat :=
  (plan.flatMap (·.2.fixes)).foldl (fun n x => n + depthAll x.new) (s.depth + 1)

/-- Make the fixes of a plan in a segment and all inside it. What is left of the plan has anchors
that are not there. Segments that no fix reaches keep their identity. -/
def applyFixes (p : Parser) (s : Segment) (plan : FixPlan) : Fresh (Applied × FixPlan) :=
  (applyWithin p (s.levels plan) s).run plan

end Segment

end QueryLint
