import QueryLint.Template.Slice
import QueryLint.Text.Property

/-!
QueryLint.Template.Markup — finding the markup in a source text.

The markup is a small set of tags in braces: an expression in two braces, a statement in a brace
and a percent sign, a comment in a brace and a hash sign. Statements open and close conditions
and loops.

A tag that is never closed is no tag: from there on the text is literal.

* `pieces` — the source cut into literal text and tags.
* `Mark` — what a tag says; `Mark.read` reads it.
* `marks` — the raw slices of a source, each with what it says.
-/

namespace QueryLint.Markup

open Text

/-! ## 1. Cutting out the tags -/

/-- What a piece of the source looks like from outside. -/
inductive Shape where
  | text | expression | statement | comment
  deriving DecidableEq, Repr

/-- The text up to the closing sign and brace, with both, and the rest. `sign` is the character
that stands before the closing brace; followed by anything else it is text, together with that
character. -/
def closing? (sign : Char) : List Char → Option (List Char × List Char)
  | [] => none
  | [_] => none
  | c :: d :: rest =>
    if c = sign then
      if d = '\x7d' then some ([c, d], rest)
      else (closing? sign rest).map fun (inside, after) => (c :: d :: inside, after)
    else (closing? sign (d :: rest)).map fun (inside, after) => (c :: inside, after)

/-- The tag that starts with a brace and a second character: its shape, its text and the rest.
Nothing if the second character opens no tag. -/
def tagShape? : Char → Option (Shape × Char)
  | '\x7b' => some (.expression, '\x7d')
  | '%' => some (.statement, '%')
  | '#' => some (.comment, '#')
  | _ => none

theorem closing?_length {sign : Char} {cs inside after : List Char}
    (h : closing? sign cs = some (inside, after)) : after.length < cs.length := by
  fun_induction closing? sign cs generalizing inside after with
  | case1 => cases h
  | case2 => cases h
  | case3 rest =>
    simp only [Option.some.injEq, Prod.mk.injEq] at h
    simp only [List.length_cons, ← h.2]
    omega
  | case4 d rest hd ih =>
    obtain ⟨⟨i, a⟩, hi, he⟩ := Option.map_eq_some_iff.1 h
    simp only [Prod.mk.injEq] at he
    have := ih hi
    simp only [List.length_cons, ← he.2]
    omega
  | case5 c d rest hc ih =>
    obtain ⟨⟨i, a⟩, hi, he⟩ := Option.map_eq_some_iff.1 h
    simp only [Prod.mk.injEq] at he
    have := ih hi
    simp only [List.length_cons, ← he.2] at this ⊢
    omega

/-- Put text in front of a list of pieces, joining it to text that comes first. -/
def consText (cs : List Char) : List (Shape × List Char) → List (Shape × List Char)
  | (.text, ds) :: rest => (.text, cs ++ ds) :: rest
  | rest => (.text, cs) :: rest

/-- The source cut into tags and the text between them. -/
def pieces : List Char → List (Shape × List Char)
  | [] => []
  | c :: cs =>
    if c = '\x7b' then
      match cs with
      | [] => [(.text, [c])]
      | d :: ds =>
        match tagShape? d with
        | none => consText [c] (pieces (d :: ds))
        | some (shape, sign) =>
          match h : closing? sign ds with
          | none => [(.text, c :: d :: ds)]
          | some (inside, after) =>
            have := closing?_length h
            (shape, c :: d :: inside) :: pieces after
    else consText [c] (pieces cs)
termination_by cs => cs.length
decreasing_by all_goals simp only [List.length_cons]; omega

/-! ## 2. What tags say -/

/-- What a piece of the source says. -/
inductive Mark where
  | literal
  | expression (name : String)
  | comment
  | openIf (name : String) (negate : Bool)
  | openFor (bound : String) (items : List String)
  | endIf
  | endFor
  deriving DecidableEq, Repr

namespace Mark

/-- The kind of raw slice. -/
def kind : Mark → SliceKind
  | literal => .literal
  | expression _ => .templated
  | comment => .comment
  | openIf _ _ | openFor _ _ => .blockStart
  | endIf | endFor => .blockEnd

/-- Keyword of a block tag. -/
def keyword? : Mark → Option String
  | openIf _ _ => some "if"
  | openFor _ _ => some "for"
  | endIf => some "endif"
  | endFor => some "endfor"
  | _ => none

end Mark

/-- The text without the given characters at either end. -/
def stripped (p : Char → Bool) (cs : List Char) : List Char :=
  ((cs.dropWhile p).reverse.dropWhile p).reverse

/-- The text inside a tag, without its two signs at either end, blanks, and the hyphens that ask
to strip blanks around the tag. -/
def inner (tag : List Char) : List Char :=
  let body := (tag.drop 2).take (tag.length - 4)
  stripped isBlank (stripped (· == '-') (stripped isBlank body))

/-- A name: identifiers joined by dots. -/
def isName (cs : List Char) : Bool :=
  (splitOn (· == '.') cs).all fun
    | [] => false
    | c :: rest => (c == '_' || isIdentifierStart c) && rest.all isIdentifierContinue

/-- Maximal runs without blanks. -/
def words (cs : List Char) : List (List Char) :=
  (splitOn isBlank cs).filter (!·.isEmpty)

/-- The items of a list as loops write it: between commas, with optional brackets around the list
and quotes around the items. -/
def splitItems (cs : List Char) : List String :=
  let isBracket (c : Char) : Bool := c == '[' || c == ']' || c == '(' || c == ')'
  let isQuote (c : Char) : Bool := c == '\'' || c == '"'
  let items := (splitOn (· == ',') (stripped isBracket cs)).map fun item =>
    stripped isQuote (stripped isBlank item)
  (items.filter (!·.isEmpty)).map String.ofList

/-- The name a tag gives, refused if it is none. -/
def readName (cs : List Char) (offset : Nat) : Except TemplateError String :=
  if isName cs then .ok (String.ofList cs) else .error (.invalidName (String.ofList cs) offset)

/-- What a statement says. -/
def readStatement (cs : List Char) (offset : Nat) : Except TemplateError Mark :=
  let all := words cs
  let keyword := String.ofList (all.headD [])
  let unsupported : Except TemplateError Mark := .error (.unsupportedTag keyword offset)
  match keyword, all.tail with
  | "if", [first, name] =>
    if first = "not".toList then return .openIf (← readName name offset) true else unsupported
  | "if", [name] => return .openIf (← readName name offset) false
  | "if", _ => unsupported
  | "endif", _ => .ok .endIf
  | "for", bound :: second :: rest =>
    if second = "in".toList then
      return .openFor (← readName bound offset) (splitItems ([' '].intercalate rest))
    else unsupported
  | "for", _ => unsupported
  | "endfor", _ => .ok .endFor
  | _, _ => unsupported

/-- What a piece says; `offset` is where it starts. -/
def Mark.read (shape : Shape) (cs : List Char) (offset : Nat) : Except TemplateError Mark :=
  match shape with
  | .text => .ok .literal
  | .comment => .ok .comment
  | .expression => return .expression (← readName (inner cs) offset)
  | .statement => readStatement (inner cs) offset

/-! ## 3. Raw slices -/

/-- A raw slice and what it says. -/
structure Marked where
  slice : RawSlice
  mark : Mark

/-- The raw slices of the pieces from `offset` on. Opening tags belong to the block around them,
and the block number rises after an opening and before a closing tag. -/
def marksFrom (offset block : Nat) : List (Shape × List Char) → Except TemplateError (List Marked)
  | [] => .ok []
  | (shape, cs) :: rest => do
    let mark ← Mark.read shape cs offset
    let own := if mark.kind = .blockEnd then block + 1 else block
    let next := if mark.kind = .blockStart then own + 1 else own
    let slice : RawSlice := ⟨String.ofList cs, mark.kind, offset, own, mark.keyword?⟩
    return ⟨slice, mark⟩ :: (← marksFrom (offset + byteCount cs) next rest)

/-- The raw slices of a source, each with what it says. -/
def marks (source : String) : Except TemplateError (List Marked) :=
  marksFrom 0 0 (pieces source.toList)

end QueryLint.Markup
