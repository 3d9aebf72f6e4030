import QueryLint.Fix.Basic

/-!
QueryLint.Fix.Group — the fixes of one anchor.

Fixes that say the same count once. Fixes that change the source only are merged into the
replacement of their anchor, in whatever order they come, so that one segment carries them all.

* `FixGroup.add` — add a fix to those of its anchor.
* `FixGroup.isValid` — the fixes of an anchor can all be made.
* `FixPlan.ofFixes` — fixes by anchor.
-/

namespace QueryLint

/-- The fixes of one anchor. -/
structure FixGroup where
  fixes : List Fix := []
  /-- The source fixes of those that change the source only. -/
  sourceFixes : List SourceFix := []

/-- A list with the members of another that it lacks behind it. -/
def mergeSourceFixes (own extra : List SourceFix) : List SourceFix :=
  extra.foldl (fun all s => if all.contains s then all else all ++ [s]) own

namespace FixGroup

/-- The first replacement of a list, if there is one. -/
def firstReplace? (fixes : List Fix) : Option Fix := fixes.find? (·.edit.isReplace)

/-- Another fix in place of the first replacement. -/
def setFirstReplace (x : Fix) : List Fix → List Fix
  | [] => []
  | y :: rest => if y.edit.isReplace then x :: rest else y :: setFirstReplace x rest

/-- A fix whose first new segment carries further source fixes. -/
def carrying (extra : List SourceFix) (x : Fix) : Fresh Fix := do
  match x.edit with
  | .replace (s :: more) =>
    let s ← s.edit none (some (mergeSourceFixes s.ownSourceFixes extra))
    return { x with edit := .replace (s :: more) }
  | _ => return x

/-- Put all source fixes of the group on a replacement, which takes the place of the first. -/
def condense (g : FixGroup) (x : Fix) : Fresh FixGroup := do
  return { g with fixes := setFirstReplace (← carrying g.sourceFixes x) g.fixes }

/-- Add a fix. -/
def add (g : FixGroup) (x : Fix) : Fresh FixGroup :=
  if g.fixes.any (·.same x) then return g
  else if x.isSourceOnly then
    let g := { g with sourceFixes := mergeSourceFixes g.sourceFixes x.sourceFixes }
    match firstReplace? g.fixes with
    | some y => g.condense y
    | none => return { g with fixes := g.fixes ++ [x] }
  else if x.edit.isReplace && (firstReplace? g.fixes).any (·.isSourceOnly) then g.condense x
  else return { g with fixes := g.fixes ++ [x] }

/-- Number of fixes. -/
def size (g : FixGroup) : Nat := g.fixes.length

/-- There is one fix, or one insertion on each side. -/
def isValid (g : FixGroup) : Bool :=
  g.size ≤ 1 || (g.size == 2 && g.fixes.any (·.edit.isInsertBefore) &&
    g.fixes.any (·.edit.isInsertAfter))

end FixGroup

/-- Groups of fixes by the identity of their anchor, in the order in which anchors came up. -/
abbrev FixPlan := List (Nat × FixGroup)

namespace FixPlan

/-- Add a fix to the group of its anchor. -/
def add (x : Fix) : FixPlan → Fresh FixPlan
  | [] => return [(x.anchor.id, ← ({} : FixGroup).add x)]
  | (id, g) :: rest => do
    if id = x.anchor.id then return (id, ← g.add x) :: rest
    else return (id, g) :: (← add x rest)

/-- Group fixes by anchor. -/
def ofFixes (fixes : List Fix) : Fresh FixPlan := fixes.foldlM (fun plan x => add x plan) []

/-- The fixes of every anchor can be made. -/
def isValid (plan : FixPlan) : Bool := plan.all (·.2.isValid)

/-- The group of an anchor, and all others. -/
def take (id : Nat) : FixPlan → Option FixGroup × FixPlan
  | [] => (none, [])
  | (i, g) :: rest =>
    if i = id then (some g, rest)
    else
      let (found, others) := take id rest
      (found, (i, g) :: others)

end FixPlan

end QueryLint
