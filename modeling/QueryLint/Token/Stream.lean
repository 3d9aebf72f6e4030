import QueryLint.Segment.Basic
import QueryLint.Template.File
import QueryLint.Token.Lexeme

/-!
QueryLint.Token.Stream — a templated file as tokens.

The templated text is cut into lexemes, and every lexeme becomes a token that knows where it came
from in the source. Markup of the source that renders no text lies at points of the templated
text; it becomes a marker there, and a lexeme that spans such a point is cut in two. The stream
ends with a marker for the end of the file.

* `weave` — lexemes and points of markup in the order of the text.
* `lex` — the tokens of a file, and what could not be read.

`textOf_weave` says that weaving loses no text either.
-/

namespace QueryLint

open Text

/-! ## 1. Weaving lexemes and markup -/

/-- A lexeme, or markup that renders no text. -/
inductive Piece where
  | text (start : Nat) (l : Lexeme)
  | markup (s : RenderedSlice)
  deriving DecidableEq, Repr

namespace Piece

/-- The piece of a lexeme; an empty lexeme makes none. -/
def ofLexeme (start : Nat) (l : Lexeme) : List Piece :=
  if l.text.isEmpty then [] else [text start l]

/-- The lexeme of a piece, if it is one. -/
def lexeme? : Piece → Option Lexeme
  | text _ l => some l
  | markup _ => none

end Piece

/-- Cut characters so that the second part starts `n` bytes on. A cut inside a character is made
after it. -/
def splitBytes : List Char → Nat → List Char × List Char
  | [], _ => ([], [])
  | c :: cs, n =>
    if n = 0 then ([], c :: cs)
    else
      let (front, back) := splitBytes cs (n - c.utf8Size)
      (c :: front, back)

/-- The pieces of a lexeme that starts at an offset, with the points of markup before its end, and
the points after them. -/
def weaveLexeme (l : Lexeme) (start : Nat) :
    List RenderedSlice → List Piece × List RenderedSlice
  | [] => (Piece.ofLexeme start l, [])
  | p :: ps =>
    if start + byteCount l.text ≤ p.templated.start then (Piece.ofLexeme start l, p :: ps)
    else
      let (front, back) := splitBytes l.text (p.templated.start - start)
      let (pieces, left) := weaveLexeme { l with text := back } (start + byteCount front) ps
      (Piece.ofLexeme start { l with text := front } ++ .markup p :: pieces, left)

/-- The pieces of lexemes from an offset on, with all points of markup that are left. -/
def weave (start : Nat) (points : List RenderedSlice) : List Lexeme → List Piece
  | [] => points.map .markup
  | l :: ls =>
    let (pieces, left) := weaveLexeme l start points
    pieces ++ weave (start + byteCount l.text) left ls

/-! ## 2. From pieces to segments -/

namespace TemplatedFile

variable (f : TemplatedFile)

/-- The slices of markup that renders no text. -/
def points : List RenderedSlice :=
  f.slices.filter fun s => s.templated.isEmpty && !s.source.isEmpty

/-- All markup that renders no text lies between characters, of the source as of the templated
text. No templater makes other files. -/
def pointsBetweenChars : Bool :=
  f.points.all fun s =>
    (dropBytes? f.templated.toList s.templated.start).isSome && (s.source.text? f.source).isSome

/-- The position of a token. Inside the text of one expression it is the position of the whole
expression. -/
def tokenPosition (s : Span) : Position :=
  let place := f.place s.start
  match f.toSource? s with
  | .ok source => .ofSpans source s place (f.isLiteralSource source)
  | .error _ => .ofSpans ((f.enclosing? s).getD (.point 0)) s place false

/-- The markers of markup that renders no text. A block indents what is in it. -/
def markup (s : RenderedSlice) : Fresh (List Segment) := do
  let at_ (source : Span) : Option Position :=
    let offset := s.templated.start
    some (.ofSpans source (.point offset) (f.place offset) false)
  let text := (s.source.text? f.source).getD ""
  let whole ← Segment.templateMarker .placeholder text s.kind (at_ s.source)
  match s.kind with
  | .blockStart =>
    return [whole, ← Segment.templateMarker .indent "" .blockStart (at_ (.point s.source.stop))]
  | .blockEnd =>
    return [← Segment.templateMarker .dedent "" .blockEnd (at_ (.point s.source.start)), whole]
  | _ => return [whole]

/-- The marker of the end. -/
def endMarker : Fresh Segment :=
  Segment.marker .endOfFile
    (some (.ofPoints f.source.utf8ByteSize f.length (f.place f.length) true))

end TemplatedFile

namespace Piece

/-- The templated span of a lexeme. -/
def span (start : Nat) (l : Lexeme) : Span :=
  ⟨start, start + byteCount l.text, Nat.le_add_right _ _⟩

/-- The segments of a piece. -/
def segments (f : TemplatedFile) : Piece → Fresh (List Segment)
  | text start l => do
    let s ← Segment.token (String.ofList l.text) l.type l.flags
      (some (f.tokenPosition (span start l)))
    return [s]
  | markup s => f.markup s

/-- The error of a piece that no rule takes. -/
def error? (f : TemplatedFile) : Piece → Option LexError
  | text start l =>
    if l.type = unlexable then
      some (.ofPosition ("Unable to lex characters: " ++ quoted (String.ofList l.text))
        (f.tokenPosition (span start l)))
    else none
  | markup _ => none

end Piece

/-! ## 3. Whole files -/

/-- Whether blocks of markup indent what is in them. -/
inductive BlocksIndent where
  /-- Unless more blocks open than close, or fewer. -/
  | enabled
  | disabled
  /-- In any case. -/
  | force
  deriving DecidableEq, Repr

/-- The tokens of a file. -/
structure Lexed where
  segments : List Segment
  errors : List LexError
  /-- Blocks of markup indent what is in them. -/
  blocksIndent : Bool

/-- By how much the blocks of markup indent together. -/
def blockBalance (ss : List Segment) : Int :=
  ((ss.filter (·.isTemplateMarker)).map (·.indentation)).foldl (· + ·) 0

/-- Markers of markup that do not indent. -/
def flattenBlocks (ss : List Segment) : List Segment :=
  ss.map fun s => if s.isTemplateMarker && s.indentation ≠ 0 then s.withIndentation 0 else s

/-- The pieces of a file. -/
def TemplatedFile.pieces (f : TemplatedFile) (rules : List LexRule) : List Piece :=
  weave 0 f.points (scan rules f.templated.toList)

/-- Whether the blocks among some segments indent what is in them. -/
def BlocksIndent.holds (ss : List Segment) : BlocksIndent → Bool
  | .force => true
  | .disabled => false
  | .enabled => blockBalance ss == 0

/-- Segments with blocks that indent, or that do not. -/
def indentBlocks (ss : List Segment) : Bool → List Segment
  | true => ss
  | false => flattenBlocks ss

/-- The tokens of a file. -/
def lex (rules : List LexRule) (blocks : BlocksIndent) (f : TemplatedFile) : Fresh Lexed := do
  let pieces := f.pieces rules
  let woven ← pieces.mapM (·.segments f)
  let segments := woven.flatten ++ [← f.endMarker]
  return {
    segments := indentBlocks segments (blocks.holds segments)
    errors := pieces.filterMap (·.error? f)
    blocksIndent := blocks.holds segments }

/-! ## Nothing is lost -/

theorem splitBytes_append (cs : List Char) (n : Nat) :
    (splitBytes cs n).1 ++ (splitBytes cs n).2 = cs := by
  fun_induction splitBytes cs n with
  | case1 => rfl
  | case2 => rfl
  | case3 c cs n _ front back h ih => simpa [h] using ih

/-- The text of the pieces that are lexemes. -/
def textOfPieces (ps : List Piece) : List Char := textOf (ps.filterMap (·.lexeme?))

@[simp] theorem textOfPieces_append (xs ys : List Piece) :
    textOfPieces (xs ++ ys) = textOfPieces xs ++ textOfPieces ys := by
  simp [textOfPieces]

@[simp] theorem textOfPieces_markup (s : RenderedSlice) (ps : List Piece) :
    textOfPieces (.markup s :: ps) = textOfPieces ps := rfl

@[simp] theorem textOfPieces_ofLexeme (start : Nat) (l : Lexeme) :
    textOfPieces (Piece.ofLexeme start l) = l.text := by
  unfold Piece.ofLexeme
  split
  · next h => simp_all [textOfPieces]
  · simp [textOfPieces, Piece.lexeme?]

theorem textOf_weaveLexeme (l : Lexeme) (start : Nat) (points : List RenderedSlice) :
    textOfPieces (weaveLexeme l start points).1 = l.text := by
  induction points generalizing l start with
  | nil => simp [weaveLexeme]
  | cons p ps ih =>
    unfold weaveLexeme
    split
    · simp
    · simp only [textOfPieces_append, textOfPieces_ofLexeme, textOfPieces_markup]
      rw [ih]
      exact splitBytes_append _ _

/-- Weaving keeps the text of the lexemes. -/
theorem textOf_weave (start : Nat) (points : List RenderedSlice) (ls : List Lexeme) :
    textOfPieces (weave start points ls) = textOf ls := by
  induction ls generalizing start points with
  | nil =>
    simp only [weave, textOf_nil]
    induction points with
    | nil => rfl
    | cons p ps ih => simpa using ih
  | cons l ls ih => simp [weave, textOf_weaveLexeme, ih]

end QueryLint
