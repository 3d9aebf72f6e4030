/-!
QueryLint.Grammar.Id — numbers of instructions in the tables of a dialect.

Grammars name each other only while a dialect is being written; afterwards every reference is a
number. A slot of the tables that holds no number holds `GrammarId.absent`.
-/

namespace QueryLint

/-- Number of an instruction. -/
structure GrammarId where
  index : Nat
  deriving DecidableEq, Hashable, Repr

namespace GrammarId

instance : Inhabited GrammarId := ⟨⟨0⟩⟩

/-- The value of a slot without a number: the greatest of 32 bits. -/
def absent : Nat := UInt32.size - 1

/-- The number in a slot. -/
def ofSlot? (slot : Nat) : Option GrammarId := if slot = absent then none else some ⟨slot⟩

/-- How dumps write it. -/
def display (id : GrammarId) : String := toString id.index

/-- How messages about the tables write it. -/
def label (id : GrammarId) : String := "g#" ++ id.display

end GrammarId

end QueryLint
