import QueryLint.Rule.Basic

/-!
QueryLint.Rule.Whitespace — rules about spaces and line ends.

Markers of the grammar have no width and are looked through. Markers of markup stand for text of
the source, so white space in front of one does not end a line.
-/

namespace QueryLint.Rule

/-! ## 1. Ends of lines -/

/-- A line end or the end of the file. -/
def isLineEnd (s : Segment) : Bool :=
  s.isType "newline" || s.marker?.any (·.kind == .endOfFile)

/-- White space that stands in the source as it is. -/
def isWrittenBlank (s : Segment) : Bool :=
  s.isType "whitespace" && s.position.any (·.isLiteral)

/-- White space of a list that stands before a line end. -/
def beforeLineEnds : List Segment → List Segment
  | a :: b :: rest =>
    if isLineEnd b && isWrittenBlank a then a :: beforeLineEnds (b :: rest)
    else beforeLineEnds (b :: rest)
  | _ => []

/-- Leaves that stand for text, and the end of the file. -/
def isVisible (s : Segment) : Bool :=
  !s.isMarker || s.isTemplateMarker || s.marker?.any (·.kind == .endOfFile)

/-- No white space at the end of a line, unless markup made it. -/
def trailingWhitespace : Rule where
  code := "L001"
  description := "Unnecessary trailing whitespace."
  target := .root
  eval c := return .ok <|
    (beforeLineEnds (c.segment.leaves.filter isVisible)).map fun s =>
      (Finding.about s).withFixes [.delete s]

/-- Line ends at the end of a list, in order. -/
def finalNewlines (leaves : List Segment) : List Segment :=
  (leaves.reverse.takeWhile (·.isType "newline")).reverse

/-- A file with anything but white space ends with one line end. -/
def finalNewline : Rule where
  code := "L009"
  description := "Files must end with a single trailing newline."
  target := .root
  eval c := do
    let leaves := c.segment.leaves.filter (!·.isMarker)
    if !leaves.any (fun s => s.isCode || s.isComment) then return .ok []
    else
      match finalNewlines leaves, leaves.getLast? with
      | [], some last =>
        return .ok [(Finding.about last).withFixes [.insertAfter last [← Segment.newline "\n"]]]
      | _ :: first :: rest, _ =>
        return .ok [(Finding.about first).withFixes ((first :: rest).map .delete)]
      | _, _ => return .ok []

/-! ## 2. Commas -/

/-- No white space before a comma, unless it indents the line. -/
def spaceBeforeComma : Rule where
  code := "L005"
  description := "Commas should not have whitespace directly before them."
  target := .types ["comma"]
  eval c :=
    match c.tokensBefore with
    | s :: before :: _ =>
      if s.isType "whitespace" && !before.isType "newline" then
        return .ok [(Finding.about s).withFixes [.delete s]]
      else return .ok []
    | _ => return .ok []

/-- Nothing more comes in the line, except for a comment. -/
def endsLine : List Segment → Bool
  | [] => true
  | s :: _ => s.isType "newline" || s.isComment

/-- One space after a comma, unless the line ends there. -/
def spaceAfterComma : Rule where
  code := "L008"
  description := "Commas should be followed by a single whitespace unless followed by a comment."
  target := .types ["comma"]
  eval c := do
    match c.nextSiblings with
    | [] => return .ok []
    | s :: rest =>
      if endsLine (s :: rest) then return .ok []
      else if s.isType "whitespace" then
        if s.raw == " " || endsLine rest then return .ok []
        else return .ok [← Finding.respell s " "]
      else
        return .ok [(Finding.about s).withFixes [.insertBefore s [← Segment.whitespace " "]]]

end QueryLint.Rule
