import QueryLint.Rule.Basic

/-!
QueryLint.Rule.Crawl — running a rule over a tree.

The sites of a tree come in the order of its text, each before the sites inside it. What the
grammar could not place has no sites for most rules, but its leaves still stand before those that
follow. A rule that gives up is not asked again, and what it found before that counts.

* `Segment.sites` — the sites of a tree.
* `Rule.crawl` — what a rule finds in a tree.
-/

namespace QueryLint

/-! ## 1. Sites -/

namespace Segment

mutual

/-- The sites of a tree, given what is around it. With `whole` unset those in unparsable segments
are left out. -/
def sitesIn (whole : Bool) (parents before after leaves : List Segment) : Segment → List Site
  | mk i cs =>
    let s := mk i cs
    if s.isUnparsable && !whole then []
    else ⟨s, parents, before, after, leaves⟩ :: sitesInAll whole (parents ++ [s]) [] leaves cs

/-- The sites of segments in a row, of which those in `before` have been passed. -/
def sitesInAll (whole : Bool) (parents before leaves : List Segment) : List Segment → List Site
  | [] => []
  | s :: rest =>
    sitesIn whole parents before rest leaves s ++
      sitesInAll whole parents (s :: before) (s.leaves.reverse ++ leaves) rest

end

/-- The sites of a tree. With `whole` unset those in unparsable segments are left out. -/
def sites (whole : Bool) (tree : Segment) : List Site := sitesIn whole [] [] [] [] tree

end Segment

/-! ## 2. Running -/

/-- What a rule found in a tree. -/
structure Crawl where
  violations : List Violation := []
  /-- The rule gave up. -/
  failure : Option RuleFailure := none

namespace Rule

variable (r : Rule)

/-- The violation that a finding is, with the fixes that are safe. -/
def violation? (f : TemplatedFile) (x : Finding) : Option Violation :=
  x.anchor.map fun anchor =>
    { Violation.ofPosition r.code (x.description.getD r.description) anchor.position with
      fixes := safeFixes f x.fixes }

/-- What is remembered after findings: the last that was asked for, if any was. -/
def memoryAfter (m : Memory) (found : List Finding) : Memory :=
  ((found.filterMap (·.memory)).getLast?).getD m

/-- Look at sites one after the other. -/
def crawlSites (d : Dialect) (f : TemplatedFile) (m : Memory) : List Site → Fresh Crawl
  | [] => return {}
  | s :: rest => do
    match ← r.eval ⟨s, m, d, f⟩ with
    | .error fault =>
      return { failure := some (.ofPosition r.code fault.message s.segment.position) }
    | .ok found =>
      let later ← crawlSites d f (memoryAfter m found) rest
      return { later with violations := found.filterMap (r.violation? f) ++ later.violations }

/-- The sites that a rule looks at. -/
def sites (tree : Segment) : List Site := (tree.sites r.worksOnUnparsable).filter r.wants

/-- What a rule finds in a tree. -/
def crawl (d : Dialect) (f : TemplatedFile) (tree : Segment) : Fresh Crawl :=
  r.crawlSites d f .empty (r.sites tree)

end Rule

end QueryLint
