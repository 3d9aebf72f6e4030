import QueryLint.Template.File
import QueryLint.Template.Markup

/-!
QueryLint.Template.Render — rendering a template with values for its variables.

The slices of a source nest as conditions and loops; a name that has no value renders as itself,
so that the result can still be parsed. Every raw slice that is rendered becomes a rendered
slice, as often as it is rendered; tags and comments render no text.

* `Block`, `Block.ofMarks` — the nesting.
* `Block.render` — the rendered slices in order, each with its text.
* `Templater.process` — a source text made into a `TemplatedFile`.
-/

namespace QueryLint

open Markup

/-! ## 1. Nesting -/

/-- A part of a template. -/
inductive Block where
  | literal (slice : RawSlice)
  | expression (slice : RawSlice) (name : String)
  | comment (slice : RawSlice)
  | cond (opening : RawSlice) (name : String) (negate : Bool) (body : List Block)
      (closing : RawSlice)
  | loop (opening : RawSlice) (bound : String) (items : List String) (body : List Block)
      (closing : RawSlice)

namespace Block

/-- An opening tag that waits for its end, with the parts read before it on its level, last
first. -/
structure Pending where
  opening : Marked
  before : List Block

/-- The block of an opening tag, the parts in it (last first) and the slice of its end, if the
two tags belong together. -/
def close? (opening : Marked) (parts : List Block) (closing : Marked) : Option Block :=
  match opening.mark, closing.mark with
  | .openIf name negate, .endIf =>
    some (.cond opening.slice name negate parts.reverse closing.slice)
  | .openFor bound items, .endFor =>
    some (.loop opening.slice bound items parts.reverse closing.slice)
  | _, _ => none

/-- Nest the marks. `waiting` holds the open tags, innermost first, and `parts` what was read
since the innermost, last first. -/
def nest (waiting : List Pending) (parts : List Block) :
    List Marked → Except TemplateError (List Block)
  | [] =>
    match waiting with
    | [] => .ok parts.reverse
    | w :: _ =>
      .error (.unclosedBlock (w.opening.mark.keyword?.getD "") w.opening.slice.start)
  | m :: rest =>
    match m.mark with
    | .literal => nest waiting (.literal m.slice :: parts) rest
    | .expression name => nest waiting (.expression m.slice name :: parts) rest
    | .comment => nest waiting (.comment m.slice :: parts) rest
    | .openIf _ _ | .openFor _ _ => nest (⟨m, parts⟩ :: waiting) [] rest
    | .endIf | .endFor =>
      let unexpected : Except TemplateError (List Block) :=
        .error (.unexpectedEnd (m.mark.keyword?.getD "") m.slice.start)
      match waiting with
      | [] => unexpected
      | w :: ws =>
        match close? w.opening parts m with
        | some block => nest ws (block :: w.before) rest
        | none => unexpected

/-- The nesting of a list of marks. -/
def ofMarks (ms : List Marked) : Except TemplateError (List Block) := nest [] [] ms

/-! ## 2. Values -/

/-- Values of variables, the innermost scope first. -/
abbrev Scope := List (String × String)

/-- Words that stand for false. -/
def falseWords : List String := ["", "0", "false", "False", "none", "None"]

/-- A value stands for true unless it is a word for false, blanks around it aside. -/
def isTruthy (value : String) : Bool := !falseWords.contains (Text.trim value)

/-- The items a loop runs over. A single name that has a value stands for the list in it. -/
def expandItems (scope : Scope) : List String → List String
  | [single] =>
    match scope.lookup single with
    | some value => splitItems value.toList
    | none => [single]
  | items => items

/-! ## 3. Rendering -/

mutual

/-- Rendered slices of a part, each with its text. -/
def render (scope : Scope) : Block → List (RawSlice × String)
  | literal s => [(s, s.text)]
  | expression s name => [(s, (scope.lookup name).getD name)]
  | comment s => [(s, "")]
  | cond opening name negate body closing =>
    let holds := (scope.lookup name).any isTruthy
    (opening, "") :: (if holds != negate then renderAll scope body else []) ++ [(closing, "")]
  | loop opening bound items body closing =>
    (opening, "") ::
      ((expandItems scope items).flatMap fun item => renderAll ((bound, item) :: scope) body) ++
      [(closing, "")]

/-- Rendered slices of several parts. -/
def renderAll (scope : Scope) : List Block → List (RawSlice × String)
  | [] => []
  | b :: bs => render scope b ++ renderAll scope bs

end

/-- Rendered slices laid out one after the other from an offset on. -/
def layOut (offset : Nat) : List (RawSlice × String) → List RenderedSlice
  | [] => []
  | (s, text) :: rest =>
    ⟨s.kind, s.span, ⟨offset, offset + text.utf8ByteSize, Nat.le_add_right _ _⟩⟩ ::
      layOut (offset + text.utf8ByteSize) rest

end Block

/-! ## 4. Templaters -/

/-- How a source text becomes a templated file. -/
inductive Templater where
  /-- The source is the text. -/
  | raw
  /-- Markup is rendered with values for the variables. -/
  | placeholder (values : List (String × String))

namespace Templater

/-- Short name. -/
def name : Templater → String
  | raw => "raw"
  | placeholder _ => "placeholder"

/-- Make a source text into a templated file. -/
def process (t : Templater) (source fileName : String) : Except TemplateError TemplatedFile :=
  match t with
  | raw => .ok (.ofString source fileName)
  | placeholder values => do
    let ms ← marks source
    let rendered := Block.renderAll values (← Block.ofMarks ms)
    TemplatedFile.ofSlices source (String.join (rendered.map (·.2))) fileName
      (Block.layOut 0 rendered) (ms.map (·.slice))

end Templater

end QueryLint
