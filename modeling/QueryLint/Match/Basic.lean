import QueryLint.Grammar.Id
import QueryLint.Segment.Basic

/-!
QueryLint.Match.Basic — what a grammar claims of the tokens.

Matching makes no segments. A match says which tokens are claimed, what they are put into, which
markers go where, and what is matched inside; only when the whole is settled are segments made of
it. Tokens are named by their place in the list that is read.

* `Match` — a claim on tokens.
* `Match.append`, `Match.wrap` — putting matches together.
-/

namespace QueryLint

/-- What claimed tokens are put into. -/
inductive MatchClass where
  /-- A segment of a type, with the grammar that makes it. -/
  | node (type : String) (grammar : GrammarId)
  /-- One token of another type, with its normalised text if that is kept. -/
  | token (type : String) (normalized : Option String)
  /-- A pair of brackets with what is between them. -/
  | bracketed
  /-- What the grammar could not place. -/
  | unparsable (expected : String)
  deriving DecidableEq, Repr

/-- A claim on the tokens from `start` up to, not including, `stop`. -/
inductive Match where
  | mk (start stop : Nat) (class? : Option MatchClass) (inserts : List (Nat × MarkerKind))
    (children : List Match)

namespace Match

/-- The first token claimed. -/
def start : Match → Nat
  | mk a _ _ _ _ => a

/-- The token after the last one claimed. -/
def stop : Match → Nat
  | mk _ b _ _ _ => b

/-- What the tokens are put into. -/
def class? : Match → Option MatchClass
  | mk _ _ c _ _ => c

/-- Markers to put in, each before a token. -/
def inserts : Match → List (Nat × MarkerKind)
  | mk _ _ _ is _ => is

/-- The matches inside. -/
def children : Match → List Match
  | mk _ _ _ _ cs => cs

/-- Nothing is claimed. -/
def empty (i : Nat) : Match := mk i i none [] []

instance : Inhabited Match := ⟨empty 0⟩

/-- Tokens that stay as they are. -/
def range (start stop : Nat) : Match := mk start stop none [] []

/-- One token of another type. -/
def token (i : Nat) (type : String) (normalized : Option String) : Match :=
  mk i (i + 1) (some (.token type normalized)) [] []

/-- Tokens that the grammar could not place. -/
def unparsable (start stop : Nat) (expected : String) : Match :=
  mk start stop (some (.unparsable expected)) [] []

/-- A marker and no token. -/
def marker (i : Nat) (kind : MarkerKind) : Match := mk i i none [(i, kind)] []

/-- Number of tokens claimed. -/
def length (m : Match) : Nat := m.stop - m.start

/-- No token is claimed. -/
def isEmpty (m : Match) : Bool := m.stop ≤ m.start

/-- Something is claimed or put in. -/
def isMatch (m : Match) : Bool := !m.isEmpty || !m.inserts.isEmpty

/-- It claims more than another. -/
def isLongerThan (m other : Match) : Bool := other.length < m.length

mutual

/-- Something in the match could not be placed. -/
def hasUnparsable : Match → Bool
  | mk _ _ c _ cs =>
    match c with
    | some (.unparsable _) => true
    | _ => anyUnparsable cs

/-- Something in one of the matches could not be placed. -/
def anyUnparsable : List Match → Bool
  | [] => false
  | m :: rest => m.hasUnparsable || anyUnparsable rest

end

/-- The markers a match adds to one that it becomes part of: those of a match that is put into
something stay inside. -/
def outerInserts (m : Match) : List (Nat × MarkerKind) :=
  if m.class?.isSome then [] else m.inserts

/-- The matches a match adds to one that it becomes part of. -/
def outerChildren (m : Match) : List Match :=
  if m.class?.isSome then [m] else m.children

/-- A match with the one after it. A match of nothing changes nothing. -/
def append (a b : Match) : Match :=
  if !a.isMatch then b
  else if !b.isMatch then a
  else mk a.start b.stop none (a.outerInserts ++ b.outerInserts)
    (a.outerChildren ++ b.outerChildren)

/-- Put what is matched into something. A match of nothing stays as it is. -/
def wrap (m : Match) (c : MatchClass) : Match :=
  if !m.isMatch then m
  else if m.class?.isNone then mk m.start m.stop (some c) m.inserts m.children
  else mk m.start m.stop (some c) [] [m]

/-- A match that becomes something if there is something it becomes. -/
def wrap? (m : Match) : Option MatchClass → Match
  | some c => m.wrap c
  | none => m

/-! ## How matches are shown -/

/-- The word for a class. -/
def classLabel : Option MatchClass → String
  | none => ""
  | some (.node type _) => " " ++ type
  | some (.token type _) => " token:" ++ type
  | some .bracketed => " bracketed"
  | some (.unparsable _) => " unparsable"

/-- How dumps of matches name a kind of marker. -/
def markerLabel : MarkerKind → String
  | .indent => "Indent"
  | .dedent => "Dedent"
  | .implicitIndent => "ImplicitIndent"
  | .endOfFile => "EndOfFile"
  | .placeholder => "Placeholder"

/-- The markers of a match. -/
def insertsLabel (is : List (Nat × MarkerKind)) : String :=
  if is.isEmpty then ""
  else " +[" ++ ", ".intercalate
    (is.map fun (i, k) => "(" ++ toString i ++ ", " ++ markerLabel k ++ ")") ++ "]"

mutual

/-- A match with the matches inside it, a line for each. -/
def outline (depth : Nat) : Match → String
  | mk a b c is cs =>
    String.join (List.replicate depth "  ") ++ "Match (" ++ toString a ++ ".." ++ toString b ++
      ")" ++ classLabel c ++ insertsLabel is ++ "\n" ++ outlineAll (depth + 1) cs

/-- Several matches with the matches inside them. -/
def outlineAll (depth : Nat) : List Match → String
  | [] => ""
  | m :: rest => m.outline depth ++ outlineAll depth rest

end

end Match

end QueryLint
