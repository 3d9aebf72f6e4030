import QueryLint.Rule.Basic

/-!
QueryLint.Rule.Probe — rules that try out the crawl and the fixes.

A probe says something about every segment it is shown, whatever the segment is. Probes show what
a rule is given, whether memory is kept, and what becomes of fixes that never settle.

* `Probe` — what to do with a segment.
* `Probe.eval` — the findings of a probe.
-/

namespace QueryLint

/-- What a probe does with a segment. -/
inductive Probe where
  /-- Put it in lower case if it is in upper case, and else in upper case. -/
  | flipCase
  /-- Put a text behind it. -/
  | grow (text : String)
  /-- Count it. -/
  | count
  /-- Count it, and say something about every other one only. -/
  | everyOther
  /-- Say what is around it. -/
  | surroundings
  /-- Give up. -/
  | fail (fault : RuleFault)
  deriving DecidableEq, Repr

namespace Probe

/-- A segment in one line, if there is one. -/
def shown (s : Option Segment) : String := (s.map (·.display)).getD "-"

/-- A list by its size. -/
def sized (label : String) (ss : List Segment) : String := label ++ toString ss.length

/-- What a rule is given, in one line. -/
def surroundingsOf (c : RuleContext) : String :=
  c.segment.display ++ " parent=" ++ (c.parent?.map (·.type)).getD "-" ++
    " prev=" ++ shown c.tokensBefore.head? ++ " next=" ++ shown c.nextSiblings.head? ++
    sized " pre=" c.siblingsBefore ++ sized " post=" c.siblingsAfter ++
    sized " stack=" c.leavesBefore ++ sized " depth=" c.parents ++
    " memory=" ++ (if c.memory.isEmpty then "false" else "true")

/-- The other case. -/
def flipped (text : String) : String :=
  if text = Text.upper text then Text.lower text else Text.upper text

/-- The findings of a probe. -/
def eval (p : Probe) (c : RuleContext) : Fresh (Except RuleFault (List Finding)) := do
  let s := c.segment
  let seen := c.memory.number + 1
  match p with
  | flipCase => return .ok [← Finding.respell s (flipped s.raw)]
  | grow text => return .ok [← Finding.respell s (s.raw ++ text)]
  | count =>
    return .ok [{ Finding.about s with
      memory := some (.count seen), description := some ("Seen " ++ toString seen ++ ".") }]
  | everyOther =>
    return .ok [{ anchor := if seen % 2 = 0 then some s else none, memory := some (.count seen) }]
  | surroundings =>
    return .ok [{ Finding.about s with description := some (surroundingsOf c) }]
  | fail fault => return .error fault

end Probe

end QueryLint
