import QueryLint.Grammar.Id
import QueryLint.Position
import QueryLint.Template.Slice
import QueryLint.Text.Case
import QueryLint.Text.Property

/-!
QueryLint.Segment.Basic — the segments of a parse tree.

A segment is a token, a marker of no width, or a node over other segments. It has a type, the
class types it also counts as, a position if it has been placed, and an identity that it keeps
while fixes change its surroundings. Segments are never changed in place: an edit makes a new
one, with the old identity or a fresh one as the edit demands.

* `Segment`, `Segment.raw`, `Segment.leaves`, `Segment.crawl` — trees and what they hold.
* `Fresh` — computations that draw fresh identities.
* `Segment.token`, `Segment.marker`, `Segment.retyped`, `Segment.edit`, … — making segments.

`rawAll_leaves` says that the text of a segment is the text of its leaves.
-/

namespace QueryLint

/-! ## 1. Kinds -/

/-- Kinds of markers. -/
inductive MarkerKind where
  | indent
  | dedent
  | implicitIndent
  | endOfFile
  /-- Stands for markup of the source that renders no text. -/
  | placeholder
  deriving DecidableEq, Repr, Hashable

namespace MarkerKind

/-- All kinds, in order. -/
def all : List MarkerKind := [indent, dedent, implicitIndent, endOfFile, placeholder]

/-- The word for it, which is also its segment type. -/
def name : MarkerKind → String
  | indent => "indent"
  | dedent => "dedent"
  | implicitIndent => "implicit_indent"
  | endOfFile => "end_of_file"
  | placeholder => "placeholder"

/-- By how much it changes the indentation. -/
def indentation : MarkerKind → Int
  | indent | implicitIndent => 1
  | dedent => -1
  | endOfFile | placeholder => 0

end MarkerKind

/-- A change of source text that has no counterpart in the templated text. -/
structure SourceFix where
  edit : String
  source : Span
  templated : Span
  deriving DecidableEq, Repr

/-- What a token counts as. -/
structure TokenFlags where
  code : Bool := false
  comment : Bool := false
  blank : Bool := false
  deriving DecidableEq, Repr

namespace TokenFlags

/-- Flags of code. -/
def ofCode : TokenFlags := { code := true }

/-- Flags of comments. -/
def ofComment : TokenFlags := { comment := true }

/-- Flags of white space. -/
def ofBlank : TokenFlags := { blank := true }

end TokenFlags

/-- What a marker stands for. -/
structure Marker where
  kind : MarkerKind
  indentation : Int
  /-- The markup of the source it stands for, if it stands for any. -/
  markup : Option (String × SliceKind) := none
  deriving DecidableEq, Repr

/-- What a segment is. -/
inductive SegmentKind where
  /-- A token; typed grammars may note a normalised form of its text. -/
  | token (text : String) (flags : TokenFlags) (normalized : Option String)
  | marker (m : Marker)
  /-- A node that a segment grammar built. -/
  | node (grammar : Option GrammarId)
  | bracketed
  /-- Tokens that the grammar could not place, and what it expected. -/
  | unparsable (expected : Option String)
  | file
  deriving DecidableEq, Repr

namespace SegmentKind

/-- Tokens and markers have no segments inside. -/
def isLeaf : SegmentKind → Bool
  | token _ _ _ | marker _ => true
  | _ => false

end SegmentKind

/-- All of a segment but what is inside it. -/
structure SegmentInfo where
  kind : SegmentKind
  type : String
  /-- The types it counts as; its own type is one of them. -/
  classTypes : List String
  id : Nat
  position : Option Position
  /-- Source fixes that belong to this segment itself. -/
  sourceFixes : List SourceFix
  deriving DecidableEq, Repr

/-- A node of the parse tree. -/
inductive Segment where
  | mk (info : SegmentInfo) (children : List Segment)

/-- Computations that draw fresh identities from a counter. -/
abbrev Fresh := StateM Nat

namespace Segment

/-- All but the segments inside. -/
def info : Segment → SegmentInfo
  | mk i _ => i

/-- The segments directly inside. -/
def children : Segment → List Segment
  | mk _ cs => cs

instance : Inhabited Segment :=
  ⟨mk ⟨.file, "file", ["file"], 0, none, []⟩ []⟩

/-- Its kind. -/
def kind (s : Segment) : SegmentKind := s.info.kind

/-- Its type. -/
def type (s : Segment) : String := s.info.type

/-- The types it counts as. -/
def classTypes (s : Segment) : List String := s.info.classTypes

/-- Its identity. -/
def id (s : Segment) : Nat := s.info.id

/-- Its position, once it has one. -/
def position (s : Segment) : Option Position := s.info.position

/-- It counts as a type. -/
def isType (s : Segment) (t : String) : Bool := s.classTypes.contains t

/-- It counts as one of several types. -/
def isAnyType (s : Segment) (ts : List String) : Bool := ts.any s.isType

/-- A token or marker. -/
def isLeaf (s : Segment) : Bool := s.kind.isLeaf

/-- What a marker stands for. -/
def marker? (s : Segment) : Option Marker :=
  match s.kind with
  | .marker m => some m
  | _ => none

/-- A marker. -/
def isMarker (s : Segment) : Bool := s.marker?.isSome

/-- A marker that stands for markup. -/
def isTemplateMarker (s : Segment) : Bool := s.marker?.any (·.markup.isSome)

/-- By how much it changes the indentation. -/
def indentation (s : Segment) : Int := (s.marker?.map (·.indentation)).getD 0

/-- Tokens that the grammar could not place. -/
def isUnparsable (s : Segment) : Bool :=
  match s.kind with
  | .unparsable _ => true
  | _ => false

/-- What the grammar expected in place of an unparsable segment. -/
def expected? (s : Segment) : Option String :=
  match s.kind with
  | .unparsable e => e
  | _ => none

/-- The grammar that built a node. -/
def grammar? (s : Segment) : Option GrammarId :=
  match s.kind with
  | .node g => g
  | _ => none

/-- The root of a file. -/
def isFile (s : Segment) : Bool := s.kind == .file

/-- A pair of brackets with what is between them. -/
def isBracketed (s : Segment) : Bool := s.kind == .bracketed

/-- Fixes may leave it starting or ending with something that is not code. -/
def mayHaveLooseEnds (s : Segment) : Bool := s.isFile || s.isUnparsable

/-- Source fixes of this segment itself. -/
def ownSourceFixes (s : Segment) : List SourceFix := s.info.sourceFixes

/-! ## 2. Text and leaves -/

mutual

/-- The text of all leaves. -/
def raw : Segment → String
  | mk i cs =>
    match i.kind with
    | .token text _ _ => text
    | .marker _ => ""
    | _ => rawAll cs

/-- The text of several segments. -/
def rawAll : List Segment → String
  | [] => ""
  | s :: rest => s.raw ++ rawAll rest

end

mutual

/-- Tokens and markers in order. -/
def leaves : Segment → List Segment
  | mk i cs => if i.kind.isLeaf then [mk i cs] else leavesAll cs

/-- Tokens and markers of several segments. -/
def leavesAll : List Segment → List Segment
  | [] => []
  | s :: rest => s.leaves ++ leavesAll rest

end

mutual

/-- The identities of a segment and all inside it. -/
def ids : Segment → List Nat
  | mk i cs => i.id :: idsAll cs

/-- The identities of several segments and all inside them. -/
def idsAll : List Segment → List Nat
  | [] => []
  | s :: rest => s.ids ++ idsAll rest

end

/-- The text of two lists is the text of both together. -/
theorem rawAll_append (xs ys : List Segment) : rawAll (xs ++ ys) = rawAll xs ++ rawAll ys := by
  induction xs with
  | nil => simp [rawAll]
  | cons x xs ih => simp [rawAll, ih, String.append_assoc]

/-- The text in upper case. -/
def rawUpper (s : Segment) : String := Text.upper s.raw

/-- The normalised text of a token, or else its text. -/
def rawNormalized (s : Segment) : String :=
  match s.kind with
  | .token _ _ (some n) => n
  | _ => s.raw

mutual

/-- It holds code. -/
def isCode : Segment → Bool
  | mk i cs =>
    match i.kind with
    | .token _ f _ => f.code
    | .marker _ => false
    | _ => anyCode cs

/-- Some segment of a list holds code. -/
def anyCode : List Segment → Bool
  | [] => false
  | s :: rest => s.isCode || anyCode rest

end

mutual

/-- It is nothing but comments. -/
def isComment : Segment → Bool
  | mk i cs =>
    match i.kind with
    | .token _ f _ => f.comment
    | .marker _ => false
    | _ => !cs.isEmpty && allComments cs

/-- All segments of a list are comments. -/
def allComments : List Segment → Bool
  | [] => true
  | s :: rest => s.isComment && allComments rest

end

mutual

/-- It is nothing but white space. -/
def isBlank : Segment → Bool
  | mk i cs =>
    match i.kind with
    | .token _ f _ => f.blank
    | .marker _ => false
    | _ => !cs.isEmpty && allBlank cs

/-- All segments of a list are white space. -/
def allBlank : List Segment → Bool
  | [] => true
  | s :: rest => s.isBlank && allBlank rest

end

mutual

/-- Source fixes of this segment and all inside it. -/
def sourceFixes : Segment → List SourceFix
  | mk i cs => i.sourceFixes ++ sourceFixesAll cs

/-- Source fixes of several segments and all inside them. -/
def sourceFixesAll : List Segment → List SourceFix
  | [] => []
  | s :: rest => s.sourceFixes ++ sourceFixesAll rest

end

mutual

/-- All segments inside, the segment itself first, that count as one of the types, each before
what is inside it. With `deep` unset, nothing inside a segment of the list is looked at. -/
def crawl (types : List String) (deep : Bool) : Segment → List Segment
  | mk i cs =>
    if types.any i.classTypes.contains then
      mk i cs :: if deep then crawlAll types deep cs else []
    else crawlAll types deep cs

/-- The same for several segments. -/
def crawlAll (types : List String) (deep : Bool) : List Segment → List Segment
  | [] => []
  | s :: rest => s.crawl types deep ++ crawlAll types deep rest

end

/-- The first segment directly inside that counts as one of the types. -/
def child? (s : Segment) (types : List String) : Option Segment :=
  s.children.find? (·.isAnyType types)

/-- All segments directly inside that count as one of the types. -/
def childrenOf (s : Segment) (types : List String) : List Segment :=
  s.children.filter (·.isAnyType types)

/-- The first segment directly inside that holds code. -/
def firstCode? (s : Segment) : Option Segment := s.children.find? (·.isCode)

/-! ## 3. How segments are shown -/

/-- A segment in one line: type, text and place. -/
def display (s : Segment) : String :=
  let place := match s.position with
    | some p => " @ L" ++ toString p.place.line ++ "P" ++ toString p.place.column
    | none => ""
  s.type ++ "(" ++ Text.quoted s.raw ++ place ++ ")"

mutual

/-- The tree under a segment, a line for each segment. -/
def outline (depth : Nat) : Segment → String
  | mk i cs =>
    let place := (i.position.map (·.place)).getD ⟨0, 0⟩
    let head := "[L:" ++ Text.padded 3 place.line ++ ", P:" ++ Text.padded 3 place.column ++
      "]  " ++ String.join (List.replicate depth "    ") ++ i.type ++ ":"
    match i.kind with
    | .token text _ _ =>
      head ++ (if text.isEmpty then "" else "  " ++ Text.quoted text) ++ "\n"
    | .marker _ => head ++ "\n"
    | _ => head ++ "\n" ++ outlineAll (depth + 1) cs

/-- The trees under several segments. -/
def outlineAll (depth : Nat) : List Segment → String
  | [] => ""
  | s :: rest => s.outline depth ++ outlineAll depth rest

end

/-! ## 4. Copies that stay the same segment -/

/-- A list of class types with the own type among them. -/
def withOwnType (type : String) (classTypes : List String) : List String :=
  if classTypes.contains type then classTypes else type :: classTypes

/-- The same segment at another position, or at none. -/
def withPosition (s : Segment) (p : Option Position) : Segment :=
  mk { s.info with position := p } s.children

/-- The same segment with other segments inside and at another position. -/
def withChildren (s : Segment) (cs : List Segment) (p : Option Position) : Segment :=
  mk { s.info with position := p } cs

/-- The same token with a normalised text noted; other segments stay as they are. -/
def withNormalized (s : Segment) (text : String) : Segment :=
  match s.kind with
  | .token t f _ => mk { s.info with kind := .token t f (some text) } s.children
  | _ => s

/-- The same marker with another change of indentation; other segments stay as they are. -/
def withIndentation (s : Segment) (n : Int) : Segment :=
  match s.kind with
  | .marker m => mk { s.info with kind := .marker { m with indentation := n } } []
  | _ => s

/-! ## 5. Fresh segments -/

/-- Draw an identity. -/
def freshId : Fresh Nat := modifyGet fun n => (n, n + 1)

/-- A token. -/
def token (text type : String) (flags : TokenFlags) (p : Option Position) : Fresh Segment := do
  return mk ⟨.token text flags none, type, [type], ← freshId, p, []⟩ []

/-- A code token that has not been placed. -/
def code (text type : String) : Fresh Segment := token text type .ofCode none

/-- A keyword. -/
def keyword (text : String) : Fresh Segment := code text "keyword"

/-- White space within a line. -/
def whitespace (text : String) : Fresh Segment := token text "whitespace" .ofBlank none

/-- A line end. -/
def newline (text : String) : Fresh Segment := token text "newline" .ofBlank none

/-- A comma. -/
def comma : Fresh Segment := code "," "comma"

/-- A marker that a grammar inserts. -/
def marker (k : MarkerKind) (p : Option Position) : Fresh Segment := do
  return mk ⟨.marker ⟨k, k.indentation, none⟩, k.name, withOwnType k.name ["meta"], ← freshId, p,
    []⟩ []

/-- A marker that stands for markup. -/
def templateMarker (k : MarkerKind) (source : String) (block : SliceKind) (p : Option Position) :
    Fresh Segment := do
  return mk ⟨.marker ⟨k, k.indentation, some (source, block)⟩, k.name,
    withOwnType k.name ["meta"], ← freshId, p, []⟩ []

/-- Remove neighbours that are equal. -/
def dedupNeighbours : List String → List String
  | a :: b :: rest =>
    if a = b then dedupNeighbours (b :: rest) else a :: dedupNeighbours (b :: rest)
  | short => short

/-- A copy of another type, as grammars make of tokens. The new type comes before the types it
counted as so far. -/
def retyped (s : Segment) (type : String) (extra : List String) : Fresh Segment := do
  let types := dedupNeighbours (type :: extra ++ s.classTypes)
  return mk { s.info with type := type, classTypes := types, id := ← freshId } s.children

/-- An edited copy: another text for a token, other source fixes, or both. -/
def edit (s : Segment) (text : Option String) (fixes : Option (List SourceFix)) :
    Fresh Segment := do
  let kind := match s.kind, text with
    | .token _ f _, some t => .token t f none
    | k, _ => k
  return mk { s.info with
    kind := kind, id := ← freshId, sourceFixes := fixes.getD s.ownSourceFixes } s.children

/-! ## 6. Laws of text and leaves -/

mutual

/-- The text of a segment is the text of its leaves. -/
theorem rawAll_leaves (s : Segment) : rawAll s.leaves = s.raw := by
  match s with
  | mk i cs =>
    have ih := rawAll_leavesAll cs
    unfold leaves raw
    cases hk : i.kind <;> simp [SegmentKind.isLeaf, rawAll, raw, hk, ih]

/-- The text of several segments is the text of their leaves. -/
theorem rawAll_leavesAll (ss : List Segment) : rawAll (leavesAll ss) = rawAll ss := by
  match ss with
  | [] => rfl
  | s :: rest =>
    have h := rawAll_leaves s
    have ih := rawAll_leavesAll rest
    rw [leavesAll, rawAll, ← h, ← ih, rawAll_append]

end

end Segment

end QueryLint
