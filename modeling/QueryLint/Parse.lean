import QueryLint.Dialect.Basic
import QueryLint.Match.Apply
import QueryLint.Match.Grammar

/-!
QueryLint.Parse — from tokens to a tree.

The grammar of a file is matched between the first and the last code; what stands before and after
stays outside it. Every token ends up in the tree, in order: what no grammar can place is put into
an unparsable segment, and one error is reported for each of those.

* `Parser.parse` — the tree of a list of tokens.
* `Parser.revalidate` — whether a segment still matches the grammar that made it.
-/

namespace QueryLint

/-- Levels of grammars inside one another, unless another limit is set. -/
def defaultMaxDepth : Nat := 4096

/-- How to parse. -/
structure Parser where
  dialect : Dialect
  /-- Settings of indentation, which conditional markers ask for. -/
  settings : List (String × String) := []
  maxDepth : Nat := defaultMaxDepth

/-- The result of parsing. -/
structure Parsed where
  tree : Segment
  errors : List ParseError
  notes : List ParseNote

/-- How much of an unparsable text a message shows. -/
def snippetLength : Nat := 40

/-- The start of a text that is too long for a message. -/
def snippet (text : String) : String :=
  let cs := text.toList
  if cs.length < snippetLength then text
  else String.ofList (cs.take snippetLength) ++ "..."

/-- The error of an unparsable segment that has a position. -/
def unparsableError? (s : Segment) : Option ParseError :=
  s.position.map (.ofPosition ("Found unparsable section: " ++ Text.quoted (snippet s.raw))
    s.expected?)

/-- The errors of all unparsable segments of a tree, in order. -/
def unparsableErrors (tree : Segment) : List ParseError :=
  (tree.crawl ["unparsable"] true).filterMap unparsableError?

namespace Parser

variable (p : Parser)

/-- The context for a list of tokens. -/
def context (tokens : List Segment) : MatchContext :=
  .ofSegments p.dialect.tables tokens p.settings

/-- Match a grammar, with all levels left and no terminators around it. -/
def matchAlone (c : MatchContext) (start stop : Nat) (g : GrammarId) : Match × MatchState :=
  (c.matchGrammar (p.maxDepth + 1) [] stop start g).run {}

/-- What follows the match of the grammar of a file: tokens up to the next code, and all from there
on as unparsable. -/
def unmatched (tokens : List Segment) : Fresh (List Segment) := do
  let blank := tokens.takeWhile (!·.isCode)
  match tokens.dropWhile (!·.isCode) with
  | [] => return blank
  | rest => return blank ++ [← Segment.unparsable rest (some "Nothing else in FileSegment.")]

/-- The code of a file, between two places, given the match of its grammar. -/
def code (tokens : List Segment) (start stop : Nat) (m : Match) : Fresh (List Segment) := do
  let between (a : Nat) : List Segment := (tokens.take stop).drop a
  if m.isMatch then return (← m.apply tokens.toArray) ++ (← unmatched (between (max m.stop start)))
  else
    let expected := p.dialect.tables.describe p.dialect.root
    return [← Segment.unparsable (between start) (some expected)]

/-- The tree of a list of tokens. -/
def parse (tokens : List Segment) : Fresh Parsed := do
  let c := p.context tokens
  let start := c.skipToCode 0 c.size
  let stop := c.trimToCode c.size start
  if start = stop then return ⟨← Segment.file tokens, [], []⟩
  else
    let (m, state) := p.matchAlone c start stop p.dialect.root
    let code ← p.code tokens start stop m
    let tree ← Segment.file (tokens.take start ++ code ++ tokens.drop stop)
    return ⟨tree, unparsableErrors tree, state.notes⟩

/-- A segment still matches the grammar that made it, all of it and without anything unparsable. A
segment that no grammar made always does. -/
def revalidate (s : Segment) : Bool :=
  match s.grammar? with
  | none => true
  | some g =>
    let c := p.context (s.leaves.filter fun x => !x.isMarker || x.isTemplateMarker)
    let start := c.skipToCode 0 c.size
    let stop := c.trimToCode c.size start
    let (m, _) := p.matchAlone c start stop g
    m.start == start && m.stop == stop && !m.hasUnparsable

end Parser

end QueryLint
