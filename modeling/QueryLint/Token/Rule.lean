import QueryLint.Diagnostic.Error
import QueryLint.Pattern.Reader
import QueryLint.Segment.Basic

/-!
QueryLint.Token.Rule — the rules that tell tokens apart.

A rule looks for a literal text or a pattern and says what kind of token that makes. A `LexRule`
may also name a rule that divides what it found into finer tokens, and one that trims the pieces
in between. A rule never finds an empty text: every match takes at least one character, so reading
tokens always gets on.

* `TokenRule.matchLength?` — how much a rule takes at the start of a text.
* `TokenRule.search?` — the first place in a text where a rule takes something.
-/

namespace QueryLint

/-- What a token rule looks for. -/
inductive TokenForm where
  | literal (text : List Char)
  /-- A pattern, read twice: held to the start of the text, and as it stands. -/
  | pattern (held free : Pattern)
  deriving Repr

/-- A rule for one kind of token. -/
structure TokenRule where
  name : String
  form : TokenForm
  type : String
  flags : TokenFlags
  deriving Repr

namespace TokenRule

/-- A rule for a fixed text. -/
def ofLiteral (name text type : String) (flags : TokenFlags) : TokenRule :=
  ⟨name, .literal text.toList, type, flags⟩

/-- A rule for a pattern, if the text is one. -/
def ofPattern (name pattern type : String) (flags : TokenFlags) : Except GrammarError TokenRule :=
  match Pattern.read? ("^(?:" ++ pattern ++ ")"), Pattern.read? pattern with
  | some held, some free => .ok ⟨name, .pattern held free, type, flags⟩
  | _, _ => .error (.invalidPattern pattern none)

/-- Number of characters a rule takes at the very start of a text; never zero. -/
def matchLength? (r : TokenRule) (cs : List Char) : Option Nat :=
  let length? : Option Nat := match r.form with
    | .literal text => if Text.startsWith text cs then some text.length else none
    | .pattern held _ => (held.find? cs).map Prod.snd
  length?.filter (0 < ·)

/-- How many characters lie before the first occurrence of a text. -/
def occurrence? (text : List Char) : List Char → Option Nat
  | [] => if text.isEmpty then some 0 else none
  | c :: cs => if Text.startsWith text (c :: cs) then some 0 else (occurrence? text cs).map (· + 1)

/-- The first place where a rule takes something: the number of characters before it and the
number it takes, never zero. -/
def search? (r : TokenRule) (cs : List Char) : Option (Nat × Nat) :=
  let found? : Option (Nat × Nat) := match r.form with
    | .literal text => (occurrence? text cs).map (·, text.length)
    | .pattern _ free => (free.findNonEmpty? cs).map fun (start, stop) => (start, stop - start)
  found?.filter fun m => 0 < m.2

theorem matchLength?_pos {r : TokenRule} {cs : List Char} {n : Nat}
    (h : r.matchLength? cs = some n) : 0 < n := by
  simpa using (Option.filter_eq_some_iff.1 h).2

theorem search?_pos {r : TokenRule} {cs : List Char} {start n : Nat}
    (h : r.search? cs = some (start, n)) : 0 < n := by
  simpa using (Option.filter_eq_some_iff.1 h).2

end TokenRule

/-- A rule with the rules for what it found. -/
structure LexRule where
  token : TokenRule
  /-- Divides a match into finer tokens. -/
  divider : Option TokenRule := none
  /-- Takes away white space from both ends of the pieces between those. -/
  trimmer : Option TokenRule := none
  deriving Repr

end QueryLint
