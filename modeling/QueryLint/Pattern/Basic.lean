import QueryLint.Pattern.CharSet

/-!
QueryLint.Pattern.Basic — regular expressions and where they match.

A pattern matches at a cursor, and `Pattern.ends` lists the cursors where such a match may end in
order of preference: the left alternative before the right one, one more repetition before
stopping (or after, for a lazy repetition). Each end is listed once, at its first place. The
match that counts is the first of the list, so the answer is the one a backtracking matcher would
find, while equal ends are never explored twice.

* `Anchor`, `Anchor.holds` — conditions on a place.
* `Pattern`, `Pattern.ends` — patterns and their ends.
* `Pattern.find?`, `Pattern.isMatch` — the leftmost match.
-/

namespace QueryLint

open Text

/-! ## 1. Cursors and anchors -/

/-- A place in a text: how many characters lie before it, the last of them, and the characters
after it. -/
structure Cursor where
  offset : Nat
  before : Option Char
  rest : List Char
  deriving Repr

namespace Cursor

/-- The start of a text. -/
def start (cs : List Char) : Cursor := ⟨0, none, cs⟩

/-- Past one character. -/
def advance (k : Cursor) (c : Char) (cs : List Char) : Cursor := ⟨k.offset + 1, some c, cs⟩

end Cursor

/-- Where words begin and end. -/
inductive WordEdge where
  /-- A word begins or ends. -/
  | boundary
  /-- No word begins or ends. -/
  | inside
  | start | stop
  /-- No word goes on from before. -/
  | startHalf
  /-- No word goes on after. -/
  | stopHalf
  deriving Repr, DecidableEq

/-- A condition on a place, which takes no text. -/
inductive Anchor where
  | textStart | textEnd | lineStart | lineEnd | crlfStart | crlfEnd
  /-- An edge of words, which are made of the word characters or of those of ASCII only. -/
  | word (ascii : Bool) (edge : WordEdge)
  deriving Repr, DecidableEq

/-- Whether an edge is between two places, if `before` and `after` say which of the two
characters around it belong to words. -/
def WordEdge.holds (before after : Bool) : WordEdge → Bool
  | boundary => before != after
  | inside => before == after
  | start => !before && after
  | stop => before && !after
  | startHalf => !before
  | stopHalf => !after

namespace Anchor

/-- Whether the condition holds at a place. -/
def holds (k : Cursor) : Anchor → Bool
  | textStart => k.before.isNone
  | textEnd => k.rest.isEmpty
  | lineStart => k.before.isNone || k.before == some '\n'
  | lineEnd => k.rest.isEmpty || k.rest.head? == some '\n'
  -- a carriage return and line feed are one line end, so no line starts or ends between them
  | crlfStart => k.before.isNone || k.before == some '\n' ||
      (k.before == some '\r' && k.rest.head? != some '\n')
  | crlfEnd => k.rest.isEmpty || k.rest.head? == some '\r' ||
      (k.rest.head? == some '\n' && k.before != some '\r')
  | word ascii edge =>
    let isPart (c : Char) : Bool := isWordChar c && !(ascii && 0x80 ≤ c.toNat)
    edge.holds (k.before.any isPart) (k.rest.head?.any isPart)

end Anchor

/-! ## 2. Patterns -/

/-- A regular expression. -/
inductive Pattern where
  /-- No text. -/
  | empty
  /-- One character of a set. -/
  | set (s : CharSet)
  /-- A condition on the place. -/
  | anchor (a : Anchor)
  /-- One after the other. -/
  | seq (p q : Pattern)
  /-- The first, or else the second. -/
  | alt (p q : Pattern)
  /-- One repetition or more: as many as possible when `greedy`, else as few. -/
  | plus (greedy : Bool) (p : Pattern)
  /-- Exactly `n` repetitions. -/
  | times (n : Nat) (p : Pattern)
  /-- At most `n` repetitions: as many as possible when `greedy`, else as few. -/
  | upTo (greedy : Bool) (n : Nat) (p : Pattern)
  deriving Repr

namespace Pattern

/-- Whether a list has a place. -/
def reached (found : List Cursor) (k : Cursor) : Bool :=
  found.any (·.offset == k.offset)

/-- Add a place to a list of distinct places. -/
def addEnd (ends : List Cursor) (k : Cursor) : List Cursor :=
  if reached ends k then ends else ends ++ [k]

/-- The distinct places of a list, each at its first position. -/
def distinct (ends : List Cursor) : List Cursor :=
  ends.foldl addEnd []

/-- Ends of repeating a pattern from `k`, where one repetition has ended, added to those found
already. `step` gives the ends of one repetition; a repetition that takes no text is none. -/
def repeatFrom (step : Cursor → List Cursor) (greedy : Bool) (k : Cursor) (found : List Cursor) :
    List Cursor :=
  let found := if greedy then found else addEnd found k
  let found := (step k).foldl (fun found next =>
    if reached found next then found
    else if _shorter : next.rest.length < k.rest.length then repeatFrom step greedy next found
    else found) found
  if greedy then addEnd found k else found
termination_by k.rest.length
decreasing_by exact _shorter

/-- Ends of one repetition or more. The first one may take no text. -/
def repeated (step : Cursor → List Cursor) (greedy : Bool) (k : Cursor) : List Cursor :=
  (step k).foldl (fun found next =>
    if reached found next then found
    else if next.rest.length < k.rest.length then repeatFrom step greedy next found
    else addEnd found next) []

/-- Places after `n` steps from some places. -/
def afterSteps (step : Cursor → List Cursor) : Nat → List Cursor → List Cursor
  | 0, ks => ks
  | n + 1, ks => afterSteps step n (distinct (ks.flatMap step))

/-- What a walk of bounded length has come by: the places it may end at, and the pairs of a place
and a number of steps left that it has explored. -/
structure Walk where
  found : List Cursor := []
  seen : List (Nat × Nat) := []

/-- Ends of at most `n` steps from `k`, added to those found already. What follows a place with
the same number of steps left is explored once. -/
def walk (step : Cursor → List Cursor) (greedy : Bool) : Nat → Cursor → Walk → Walk
  | 0, k, w => { w with found := addEnd w.found k }
  | n + 1, k, w =>
    if w.seen.contains (n, k.offset) then w
    else
      let w := { w with seen := (n, k.offset) :: w.seen }
      let w := if greedy then w else { w with found := addEnd w.found k }
      let w := (step k).foldl (fun w next => walk step greedy n next w) w
      if greedy then { w with found := addEnd w.found k } else w

/-- A number of repetitions that makes as many places as `n` does. Of more repetitions than there
are characters, some take no text, and more of those make no difference. -/
def enough (n : Nat) (k : Cursor) : Nat :=
  min n (k.rest.length + 1)

/-- Where a match that starts at the cursor may end, in order of preference. -/
def ends : Pattern → Cursor → List Cursor
  | empty, k => [k]
  | set s, k =>
    match k.rest with
    | [] => []
    | c :: cs => if s.contains c then [k.advance c cs] else []
  | anchor a, k => if a.holds k then [k] else []
  | seq p q, k => distinct ((p.ends k).flatMap q.ends)
  | alt p q, k => distinct (p.ends k ++ q.ends k)
  | plus greedy p, k => repeated p.ends greedy k
  | times n p, k => afterSteps p.ends (enough n k) [k]
  | upTo greedy n p, k => (walk p.ends greedy (enough n k) k {}).found

/-- A pattern that can match at the start of the text only. -/
def isAnchored : Pattern → Bool
  | anchor .textStart => true
  | seq p _ => p.isAnchored
  | alt p q => p.isAnchored && q.isAnchored
  | _ => false

/-- The preferred match from one place, if its end satisfies `ok`. -/
def matchAt? (p : Pattern) (ok : Cursor → Cursor → Bool) (k : Cursor) : Option (Nat × Nat) :=
  (p.ends k).head?.bind fun e => if ok k e then some (k.offset, e.offset) else none

/-- The first preferred match, at or after `k`, whose end satisfies `ok`; the list holds the
characters after `k`. -/
def findFrom (p : Pattern) (ok : Cursor → Cursor → Bool) : Cursor → List Char → Option (Nat × Nat)
  | k, [] => p.matchAt? ok k
  | k, c :: cs =>
    match p.matchAt? ok k with
    | some m => some m
    | none => findFrom p ok (k.advance c cs) cs

/-- The leftmost match: how many characters lie before its start and before its end. -/
def find? (p : Pattern) (cs : List Char) : Option (Nat × Nat) :=
  let k := Cursor.start cs
  if p.isAnchored then p.matchAt? (fun _ _ => true) k
  else findFrom p (fun _ _ => true) k k.rest

/-- The leftmost match that takes text. -/
def findNonEmpty? (p : Pattern) (cs : List Char) : Option (Nat × Nat) :=
  let k := Cursor.start cs
  findFrom p (fun k e => k.offset < e.offset) k k.rest

/-- Whether the pattern matches anywhere in the text. -/
def isMatch (p : Pattern) (s : String) : Bool :=
  (p.find? s.toList).isSome

/-! ## 3. Patterns made of others -/

/-- One after the other; what is empty is left out. -/
def andThen : Pattern → Pattern → Pattern
  | empty, q => q
  | p, empty => p
  | p, q => seq p q

/-- One after the other, in order. -/
def concat (ps : List Pattern) : Pattern :=
  ps.foldl andThen empty

/-- At most one occurrence. -/
def optional (greedy : Bool) (p : Pattern) : Pattern :=
  if greedy then alt p empty else alt empty p

/-- Any number of repetitions. -/
def star (greedy : Bool) (p : Pattern) : Pattern :=
  optional greedy (plus greedy p)

/-- Whether a match can take text. -/
def takesText : Pattern → Bool
  | empty | anchor _ => false
  | set _ => true
  | seq p q | alt p q => p.takesText || q.takesText
  | plus _ p => p.takesText
  | times n p | upTo _ n p => n != 0 && p.takesText

/-- Repetitions, `low` at least and `high` at most. Of what takes no text, one is as good as
many. -/
def bounded (greedy : Bool) (p : Pattern) (low : Nat) (high : Option Nat) : Pattern :=
  let low := if p.takesText then low else min low 1
  let high := if p.takesText then high else some (min (high.getD 1) 1)
  match low, high with
  | 0, some 0 => empty
  | 1, some 1 => p
  | 0, some 1 => optional greedy p
  | low, some high =>
    andThen (if low = 0 then empty else times low p)
      (if high ≤ low then empty else upTo greedy (high - low) p)
  | 0, none => star greedy p
  | 1, none => plus greedy p
  | low, none => seq (times (low - 1) p) (plus greedy p)

/-! ## 4. Size -/

/-- Bytes that a machine for the pattern takes, roughly: each repetition of a counted pattern has
states of its own. -/
def weight : Pattern → Nat
  | empty | anchor _ => 32
  | set s => s.weight
  | seq p q => p.weight + q.weight
  | alt p q => p.weight + q.weight + 64
  | plus _ p => p.weight + 32
  | times n p => n * p.weight
  | upTo _ n p => n * (p.weight + 32)

/-- Bytes that a machine may take. -/
def weightLimit : Nat := 10 * 1024 * 1024

end Pattern

end QueryLint
