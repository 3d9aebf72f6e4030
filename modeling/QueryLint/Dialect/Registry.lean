import QueryLint.Dialect.Ansi

/-!
QueryLint.Dialect.Registry — dialects by name.

Standard SQL is always there. Other dialects can be added; a later one takes the place of an
earlier one of the same name.
-/

namespace QueryLint

/-- Dialects that were added, in order. -/
structure DialectRegistry where
  added : List Dialect := []

namespace DialectRegistry

/-- Dialects that need not be added. -/
def builtin : List (String × Except GrammarError Dialect) := [("ansi", Ansi.dialect)]

/-- Add a dialect. -/
def add (r : DialectRegistry) (d : Dialect) : DialectRegistry := ⟨r.added ++ [d]⟩

/-- The dialect of a name: the last one added, or else a built-in one. -/
def find (r : DialectRegistry) (name : String) : Except LintError Dialect :=
  match r.added.reverse.find? (·.name == name) with
  | some d => .ok d
  | none =>
    match builtin.lookup name with
    | some (.ok d) => .ok d
    | some (.error e) => .error (.grammar e)
    | none => .error (.config (.unknownDialect name))

/-- The names of all dialects, each once. -/
def names (r : DialectRegistry) : List String :=
  r.added.foldl (fun ns d => if ns.contains d.name then ns else ns ++ [d.name])
    (builtin.map (·.1))

end DialectRegistry

end QueryLint
