import QueryLint.Rule.Basic

/-!
QueryLint.Lint.Noqa — comments that silence rules.

A comment that starts with `noqa` is a directive. It may name codes after a colon; without any it
is about all of them. By itself it covers its own line. With `disable=` or `enable=` before the
codes it covers all lines from its own on, until another directive says the opposite.

* `Directive.parse` — the directive in a comment.
* `IgnoreMask.ofTree` — the directives of a file.
* `IgnoreMask.masks` — whether a violation is silenced.
-/

namespace QueryLint

/-! ## 1. Directives -/

/-- Which lines a directive is about. -/
inductive DirectiveScope where
  /-- Its own line. -/
  | line
  /-- From its line on, codes are silenced. -/
  | disable
  /-- From its line on, codes are reported. -/
  | enable
  deriving DecidableEq, Repr

/-- A directive in a comment. -/
structure Directive where
  line : Nat
  /-- The codes it is about; all if none are given. -/
  codes : Option (List String)
  scope : DirectiveScope
  deriving DecidableEq, Repr

/-- Why a comment that starts like a directive is none. -/
inductive DirectiveError where
  /-- There is no list of codes. -/
  | codes
  /-- The word before the equals sign is not known. -/
  | scope
  deriving DecidableEq, Repr

namespace DirectiveError

/-- The wording. -/
def message : DirectiveError → String
  | codes => "Malformed 'noqa' section. Expected 'noqa: <rule>[,...]'"
  | scope => "Malformed 'noqa' section. Expected 'noqa: enable=<rule>[,...] | all' or " ++
      "'noqa: disable=<rule>[,...] | all'"

end DirectiveError

namespace Directive

/-- The text after a part at its start, if it starts with that. -/
def after? (part cs : List Char) : Option (List Char) :=
  if Text.startsWith part cs then some (cs.drop part.length) else none

/-- The text without blanks at either end. -/
def trimmed (cs : List Char) : List Char := Text.trimEnd (Text.trimStart cs)

/-- What a comment says, without the signs that make it a comment. -/
def body (comment : String) : List Char :=
  let front := Text.dropCopies "/*".toList (Text.dropCopies ['#']
    (Text.dropCopies "--".toList (trimmed comment.toList)))
  trimmed (Text.dropCopies "/*".toList front.reverse).reverse

/-- The codes of a list with commas between them, in upper case. -/
def codeList (cs : List Char) : List String :=
  ((Text.splitOn (· == ',') cs).map trimmed |>.filter (!·.isEmpty)).map fun piece =>
    Text.upper (String.ofList piece)

/-- The scope and the codes of what stands after the colon. -/
def scopeAndCodes (spec : List Char) : Except DirectiveError (DirectiveScope × List Char) :=
  match spec.dropWhile (· != '=') with
  | [] => .ok (.line, spec)
  | _ :: codes =>
    match String.ofList (trimmed (spec.takeWhile (· != '='))) with
    | "disable" => .ok (.disable, codes)
    | "enable" => .ok (.enable, codes)
    | _ => .error .scope

/-- The directive of what stands after the colon. -/
def ofSpec (line : Nat) (spec : List Char) : Except DirectiveError Directive := do
  let (scope, text) ← scopeAndCodes spec
  match codeList text with
  | [] => .error .codes
  | codes => return ⟨line, if codes.contains "ALL" then none else some codes, scope⟩

/-- The directive in a comment; nothing if the comment does not start like one. -/
def parse (comment : String) (line : Nat) : Except DirectiveError (Option Directive) :=
  match after? "noqa".toList (body comment) with
  | none => .ok none
  | some rest =>
    match trimmed rest with
    | [] => .ok (some ⟨line, none, .line⟩)
    | ':' :: spec => (ofSpec line spec).map some
    | _ => .error .codes

/-- It is about a code. -/
def covers (d : Directive) (code : String) : Bool := d.codes.all (·.contains code)

end Directive

/-! ## 2. Masks -/

/-- The directives of a file, by line. -/
structure IgnoreMask where
  directives : List Directive := []
  deriving DecidableEq, Repr

namespace IgnoreMask

/-- Comments of a file with what each says. -/
def comments (tree : Segment) : List (Segment × Except DirectiveError (Option Directive)) :=
  (tree.leaves.filter (·.isComment)).map fun c =>
    (c, Directive.parse c.raw ((c.position.map (·.place.line)).getD 1))

/-- The mask with given directives, which come in the order of the file. -/
def ofDirectives (ds : List Directive) : IgnoreMask := ⟨ds.mergeSort fun a b => a.line ≤ b.line⟩

/-- The directives of a file. -/
def ofTree (tree : Segment) : IgnoreMask :=
  ofDirectives ((comments tree).filterMap fun (_, r) => r.toOption.join)

/-- The comments of a file that start like a directive and are none. -/
def malformed (tree : Segment) : List Violation :=
  (comments tree).filterMap fun (c, r) =>
    match r with
    | .error e => some (.ofPosition ErrorCode.parsing.tag e.message c.position)
    | .ok _ => none

/-- Whether a code is silenced in a line by directives, which come in the order of their lines; it
was silenced before or not. A directive for that line settles it. -/
def silences (code : String) (line : Nat) : Bool → List Directive → Bool
  | silenced, [] => silenced
  | silenced, d :: ds =>
    if line < d.line then silenced
    else if !d.covers code then silences code line silenced ds
    else
      match d.scope with
      | .line => d.line == line || silences code line silenced ds
      | .disable => silences code line true ds
      | .enable => silences code line false ds

variable (m : IgnoreMask)

/-- There are no directives. -/
def isEmpty : Bool := m.directives.isEmpty

/-- A code is silenced in a line. -/
def masksCode (code : String) (line : Nat) : Bool := silences code line false m.directives

/-- A violation is silenced. -/
def masks (v : Violation) : Bool := m.masksCode v.code v.place.line

/-- The violations that are not silenced. -/
def keep (vs : List Violation) : List Violation :=
  if m.isEmpty then vs else vs.filter (!m.masks ·)

/-- Without directives nothing is silenced. -/
theorem masks_of_isEmpty {m : IgnoreMask} (h : m.isEmpty = true) (v : Violation) :
    m.masks v = false := by
  rw [masks, masksCode, List.isEmpty_iff.1 h]
  rfl

theorem keep_eq (vs : List Violation) : m.keep vs = vs.filter (!m.masks ·) := by
  unfold keep
  split
  · next h =>
    refine (List.filter_eq_self.2 fun v _ => ?_).symm
    rw [masks_of_isEmpty h, Bool.not_false]
  · rfl

theorem mem_keep {m : IgnoreMask} {vs : List Violation} {v : Violation} :
    v ∈ m.keep vs ↔ v ∈ vs ∧ m.masks v = false := by
  simp [keep_eq]

end IgnoreMask

end QueryLint
