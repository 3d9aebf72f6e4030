import QueryLint.Fix.Apply
import QueryLint.Lint.Noqa
import QueryLint.Rule.Crawl

/-!
QueryLint.Lint.FixLoop — running rules until nothing is left to fix.

The rules run in order, over and over. What a rule proposes is made at once, so that the next rule
sees the fixed tree. Fixes are turned down if the rule proposed the same ones before, if they do
not go together, if the tree would lose its form, or if it would be one that was there before; then
the tree stays as it is. The loop ends when a round changes nothing, or after a number of rounds.

* `FixLoop.attempt` — what becomes of the fixes that a rule proposes.
* `FixLoop.run` — the tree in the end, and what the first round found.
-/

namespace QueryLint

/-- What tells one state of a file from another: its text and its source fixes. -/
abbrev Version := String × List SourceFix

/-- The state of a file that a tree is. -/
def Segment.version (tree : Segment) : Version := (tree.raw, tree.sourceFixes)

/-- What becomes of proposed fixes. -/
inductive Attempt where
  /-- Nothing was proposed, or nothing is to be fixed. -/
  | idle
  /-- The rule proposed the same before. -/
  | repeated
  /-- Fixes of one anchor do not go together. -/
  | conflicting
  /-- The tree would lose its form. -/
  | malformed
  /-- The tree would be one that was there before. -/
  | cycle
  | accepted (tree : Segment)

/-- How far the loop has come. -/
structure FixRun where
  tree : Segment
  /-- What the first round found. -/
  violations : List Violation := []
  warnings : List FixWarning := []
  /-- The fixes that each rule proposed last. -/
  proposed : List (String × List Fix) := []
  /-- The states that were there, the last first. -/
  seen : List Version
  /-- Rounds that have begun. -/
  rounds : Nat := 0
  /-- The round has changed the tree. -/
  changed : Bool := false

/-- What the loop works with. -/
structure FixLoop where
  rules : List Rule
  parser : Parser
  file : TemplatedFile
  mask : IgnoreMask
  /-- Fixes are made. -/
  fixing : Bool
  /-- The most rounds to run; at least one is run. -/
  limit : Nat

/-- Two lists of fixes that do the same. -/
def sameFixes : List Fix → List Fix → Bool
  | [], [] => true
  | x :: xs, y :: ys => x.same y && sameFixes xs ys
  | _, _ => false

namespace FixRun

variable (r : FixRun)

/-- Note what a rule proposes. -/
def propose (code : String) (fixes : List Fix) : FixRun :=
  { r with proposed := (code, fixes) :: r.proposed.filter (·.1 != code) }

/-- The rule proposed the same fixes last time. -/
def repeats (code : String) (fixes : List Fix) : Bool :=
  (r.proposed.lookup code).any (sameFixes · fixes)

/-- Note a warning. -/
def warn (w : FixWarning) : FixRun := { r with warnings := r.warnings ++ [w] }

/-- Go on with another tree. -/
def accept (tree : Segment) : FixRun :=
  { r with tree := tree, seen := tree.version :: r.seen, changed := true }

/-- Take note of violations, in the first round only. -/
def report (vs : List Violation) : FixRun :=
  if r.rounds ≤ 1 then { r with violations := r.violations ++ vs } else r

/-- Number of the round, from zero. -/
def index : Nat := r.rounds - 1

end FixRun

namespace FixLoop

variable (l : FixLoop)

/-- What becomes of the fixes that a rule proposes. -/
def attempt (r : FixRun) (code : String) (fixes : List Fix) : Fresh Attempt := do
  if !l.fixing || fixes.isEmpty then return .idle
  else if r.repeats code fixes then return .repeated
  else
    let plan ← FixPlan.ofFixes fixes
    if !plan.isValid then return .conflicting
    else
      let (a, _) ← r.tree.applyFixes l.parser plan
      if !a.validated then return .malformed
      else if r.seen.contains a.segment.version then return .cycle
      else return .accepted a.segment

/-- The run after an attempt. -/
def conclude (r : FixRun) (code : String) (fixes : List Fix) : Attempt → FixRun
  | .idle => r
  | .repeated => r.warn (.repeatedFixes code r.index)
  | .conflicting => (r.propose code fixes).warn (.conflictingFixes code)
  | .malformed => r.propose code fixes
  | .cycle => (r.propose code fixes).warn (.cycle code r.index)
  | .accepted tree => (r.propose code fixes).accept tree

/-- What is reported of violations after an attempt: fixes that do not go together are no fixes. -/
def afterAttempt (vs : List Violation) : Attempt → List Violation
  | .conflicting => vs.map (·.withoutFixes)
  | _ => vs

/-- Run one rule. -/
def step (r : FixRun) (rule : Rule) : Fresh FixRun := do
  let found ← rule.crawl l.parser.dialect l.file r.tree
  let vs := l.mask.keep found.violations
  let fixes := vs.flatMap (·.fixes)
  let a ← l.attempt r rule.code fixes
  let failed := (found.failure.map .ofFailure).toList
  return (conclude r rule.code fixes a).report (failed ++ afterAttempt vs a)

/-- Run all rules once. -/
def round (r : FixRun) : Fresh FixRun :=
  l.rules.foldlM l.step { r with rounds := r.rounds + 1, changed := false }

/-- The most rounds. -/
def roundLimit : Nat := max l.limit 1

/-- Run rounds until one changes nothing, or the number of rounds left is used up. -/
def rounds : Nat → FixRun → Fresh FixRun
  | 0, r => return r.warn (.runawayLimit l.roundLimit)
  | n + 1, r => do
    let r ← l.round r
    if r.changed then rounds n r else return r

/-- The run that starts with a tree. -/
def start (tree : Segment) : FixRun := { tree := tree, seen := [tree.version] }

/-- Run the rules over a tree: once if nothing is to be fixed. -/
def run (tree : Segment) : Fresh FixRun :=
  if l.fixing then l.rounds l.roundLimit (start tree) else l.round (start tree)

end FixLoop

end QueryLint
