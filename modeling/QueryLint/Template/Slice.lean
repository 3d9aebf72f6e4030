import QueryLint.Diagnostic.Error

/-!
QueryLint.Template.Slice — the pieces of a templated file.

A file is sliced twice. Raw slices cut the source at its markup, so that each is literal text, an
expression, a block tag or a comment. Rendered slices cut the templated text at the places where
it comes from another raw slice, and point back into the source.

* `RawSlice`, `RenderedSlice` — the two kinds of slices.
* `renderedTiling?`, `rawTiling?` — what is wrong with a list of slices that should tile a text.
* `literalLoops` — the blocks of loop bodies without any markup that renders text.
-/

namespace QueryLint

/-- What a slice of the source is. -/
inductive SliceKind where
  | literal
  /-- An expression that renders text. -/
  | templated
  | blockStart
  | blockEnd
  | comment
  deriving DecidableEq, Repr

namespace SliceKind

/-- All kinds, in order. -/
def all : List SliceKind := [literal, templated, blockStart, blockEnd, comment]

/-- The word for it. -/
def name : SliceKind → String
  | literal => "literal"
  | templated => "templated"
  | blockStart => "block_start"
  | blockEnd => "block_end"
  | comment => "comment"

/-- Plain text. -/
def isLiteral (k : SliceKind) : Bool := k == literal

end SliceKind

/-- A piece of the source. -/
structure RawSlice where
  text : String
  kind : SliceKind
  start : Nat
  /-- Number of the block it lies in, which changes at every block tag. -/
  block : Nat := 0
  /-- Keyword of a block tag. -/
  tag : Option String := none
  deriving DecidableEq, Repr

namespace RawSlice

/-- Where it stops in the source. -/
def stop (s : RawSlice) : Nat := s.start + s.text.utf8ByteSize

/-- Its bytes in the source. -/
def span (s : RawSlice) : Span := ⟨s.start, s.stop, Nat.le_add_right _ _⟩

/-- Markup, which does not stand in the templated text as it is. -/
def isSourceOnly (s : RawSlice) : Bool := !s.kind.isLiteral

end RawSlice

/-- A piece of the templated text with the source it comes from. -/
structure RenderedSlice where
  kind : SliceKind
  source : Span
  templated : Span
  deriving DecidableEq, Repr

/-! ## 1. Tilings -/

/-- What keeps rendered slices from tiling a text of `length` bytes from `offset` on, or from
pointing into a source of `sourceLength` bytes. -/
def renderedTiling? (length sourceLength : Nat) : Nat → List RenderedSlice → Option TilingError
  | offset, [] => if offset = length then none else some (.templatedEnd offset length)
  | offset, s :: rest =>
    if s.templated.start ≠ offset then some (.gap offset s.templated.start)
    else if sourceLength < s.source.stop then some (.sourceBeyondEnd s.source)
    else renderedTiling? length sourceLength s.templated.stop rest

/-- What keeps raw slices from tiling the source from `offset` on. -/
def rawTiling? (source : String) : Nat → List RawSlice → Option TilingError
  | offset, [] =>
    if offset = source.utf8ByteSize then none else some (.rawEnd offset source.utf8ByteSize)
  | offset, s :: rest =>
    if s.start ≠ offset then some (.rawStart s.start offset)
    else if Text.slice? source s.start s.stop ≠ some s.text then some (.rawText s.start)
    else rawTiling? source s.stop rest

/-! ## 2. Blocks -/

/-- An open block: its tag, whether its body so far renders literal text only, and the block
numbers of the literal text directly in it. -/
structure OpenBlock where
  tag : Option String
  literalOnly : Bool
  body : List Nat

/-- The innermost open block has markup in its body. -/
def spoil : List OpenBlock → List OpenBlock
  | [] => []
  | b :: bs => { b with literalOnly := false } :: bs

/-- The innermost open block has literal text in its body. -/
def noteLiteral (block : Nat) : List OpenBlock → List OpenBlock
  | [] => []
  | b :: bs => { b with body := b.body ++ [block] } :: bs

/-- Block numbers of the literal text in loops whose body is literal text and comments only, given
the blocks that are open, innermost first. -/
def literalLoops : List OpenBlock → List RawSlice → List Nat
  | _, [] => []
  | open_, s :: rest =>
    match s.kind with
    | .blockStart => literalLoops (⟨s.tag, true, []⟩ :: spoil open_) rest
    | .blockEnd =>
      match open_ with
      | [] => literalLoops [] rest
      | b :: bs =>
        (if b.tag = some "for" && b.literalOnly then b.body else []) ++ literalLoops bs rest
    | .literal => literalLoops (noteLiteral s.block open_) rest
    | .templated => literalLoops (spoil open_) rest
    | .comment => literalLoops open_ rest

end QueryLint
