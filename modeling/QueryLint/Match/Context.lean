import Std.Data.HashMap
import QueryLint.Grammar.Table
import QueryLint.Match.Basic
import QueryLint.Text.Property

/-!
QueryLint.Match.Context — what matching looks at and what it keeps.

The tables, the tokens and the settings stay the same while a list of tokens is matched. What
changes is a memo of matches that were found before, and notes for the reader of the result. A
match depends on where it starts, on how far it may look and on the terminators around it, so these
make up the key of the memo.

* `MatchContext` — what matching looks at.
* `Matching` — steps of matching.
* `Matcher` — a way of matching grammars, given terminators.
-/

namespace QueryLint

/-- A token with what grammars ask of it. -/
structure TokenView where
  segment : Segment
  /-- Its text in upper case. -/
  upper : String
  /-- The first word of that. -/
  firstWord : String
  /-- Its text is nothing but white space. -/
  isAllBlank : Bool
  isCode : Bool
  isMarker : Bool

namespace TokenView

/-- The view of a token. -/
def ofSegment (s : Segment) : TokenView :=
  let upper := s.rawUpper
  { segment := s
    upper := upper
    firstWord := Text.firstWord upper
    isAllBlank := Text.isAllBlank s.raw
    isCode := s.isCode
    isMarker := s.isMarker }

end TokenView

/-- What matching looks at. -/
structure MatchContext where
  tables : Tables
  tokens : Array TokenView
  /-- Settings of indentation, which conditional markers ask for. -/
  settings : List (String × String) := []
  /-- Matches that were found before are not worked out again. -/
  memoize : Bool := true

namespace MatchContext

/-- The context for a list of segments. -/
def ofSegments (t : Tables) (ss : List Segment) (settings : List (String × String)) :
    MatchContext :=
  { tables := t, tokens := (ss.map TokenView.ofSegment).toArray, settings := settings }

/-- Number of tokens. -/
def size (c : MatchContext) : Nat := c.tokens.size

/-- The token at a place before a limit. -/
def token? (c : MatchContext) (limit i : Nat) : Option TokenView :=
  if i < limit then c.tokens[i]? else none

/-- The token at a place is code. -/
def isCodeAt (c : MatchContext) (i : Nat) : Bool := (c.tokens[i]?).any (·.isCode)

/-- How messages show the token at a place. -/
def displayAt (c : MatchContext) (i : Nat) : String :=
  ((c.tokens[i]?).map (·.segment.display)).getD ""

/-- The value of a setting. -/
def setting? (c : MatchContext) (key : String) : Option String := c.settings.lookup key

end MatchContext

/-- A note for the reader of a parse. -/
structure ParseNote where
  message : String
  position : Option Position
  deriving DecidableEq, Repr

/-- All that a match of a reference depends on. -/
structure MemoKey where
  start : Nat
  limit : Nat
  grammar : GrammarId
  terminators : List GrammarId
  deriving DecidableEq, Hashable

/-- What matching keeps. -/
structure MatchState where
  memo : Std.HashMap MemoKey Match := {}
  notes : List ParseNote := []

/-- Steps of matching. -/
abbrev Matching := StateM MatchState

namespace Matching

/-- Keep a note. -/
def note (message : String) (position : Option Position) : Matching Unit :=
  modify fun s => { s with notes := s.notes ++ [⟨message, position⟩] }

/-- A match that was found before, or else what is worked out now, which is kept. -/
def memoized (on : Bool) (key : MemoKey) (work : Matching Match) : Matching Match :=
  if on then do
    match (← get).memo[key]? with
    | some m => return m
    | none =>
      let m ← work
      modify fun s => { s with memo := s.memo.insert key m }
      return m
  else work

end Matching

/-- A way of matching: with terminators, up to a limit and from a place on, a grammar. -/
abbrev Matcher := List GrammarId → Nat → Nat → GrammarId → Matching Match

namespace Matcher

/-- Matches nothing: the grammar is too deep inside others. -/
def refuse : Matcher := fun _ _ i _ => return .empty i

end Matcher

/-- Terminators with more of them, each once; without those around, if they are to be hidden. -/
def pushTerminators (hide : Bool) (more around : List GrammarId) : List GrammarId :=
  more.foldl (fun ts t => if ts.contains t then ts else ts ++ [t]) (if hide then [] else around)

end QueryLint
