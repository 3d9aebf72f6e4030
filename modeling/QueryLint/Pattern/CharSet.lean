import QueryLint.Text.Case

/-!
QueryLint.Pattern.CharSet — sets of characters, as patterns name them.

A set is built from ranges of code points and named classes by the operations on sets. Membership
is decided for one character at a time, so a set need not be written out.

Patterns go by Unicode 16.0: what later versions assign is unassigned here.

* `CharClass`, `CharClass.contains` — the classes that tables decide.
* `CharSet`, `CharSet.contains` — sets.
* `CharSet.weight` — how much memory a set takes in a machine that reads bytes.
-/

namespace QueryLint

open Text

/-- The named classes of characters. -/
inductive CharClass where
  | digit | blank | word
  | category (k : Category)
  /-- Characters that lower case changes. -/
  | lowered
  /-- Characters that upper case changes. -/
  | raised
  deriving Repr, DecidableEq

namespace CharClass

/-- Membership in a named class. The letter `ʕ` is without case only since Unicode 17.0. -/
def contains (c : Char) : CharClass → Bool
  | digit => isDecimalDigit c
  | blank => isBlank c
  | word => isWordChar c
  | category .unassigned => Category.unassigned.contains c || isRecent c
  | category .lowercaseLetter => c == 'ʕ' || (Category.lowercaseLetter.contains c && !isRecent c)
  | category .otherLetter => c != 'ʕ' && Category.otherLetter.contains c && !isRecent c
  | category k => k.contains c && !isRecent c
  | lowered => lowerChar c != [c] && !isRecent c
  | raised => upperChar c != [c] && !isRecent c

/-- Number of ranges of code points that make up a class, roughly. -/
def size : CharClass → Nat
  | digit => 70
  | blank => 10
  | word => 800
  | category .unassigned => 740
  | category k => k.ranges.length
  | lowered | raised => 630

end CharClass

/-- A set of characters. -/
inductive CharSet where
  /-- The characters whose code points lie in one of the ranges, ends included. -/
  | ranges (rs : List (Nat × Nat))
  /-- A named class. -/
  | named (c : CharClass)
  | union (a b : CharSet)
  | inter (a b : CharSet)
  | diff (a b : CharSet)
  | symmDiff (a b : CharSet)
  | compl (a : CharSet)
  /-- All characters equal up to case to one in the set. -/
  | anyCase (a : CharSet)
  deriving Repr

namespace CharSet

/-- The empty set. -/
def empty : CharSet := ranges []

/-- Every character. -/
def all : CharSet := compl empty

/-- The set of one character. -/
def single (c : Char) : CharSet := ranges [(c.toNat, c.toNat)]

/-- The ASCII characters. -/
def ascii : CharSet := ranges [(0, 0x7F)]

/-- The set of a list of characters. -/
def ofList (cs : List Char) : CharSet :=
  ranges (cs.map fun c => (c.toNat, c.toNat))

/-- The characters of one general category. -/
def category (k : Category) : CharSet := named (.category k)

/-- The characters of some general categories. -/
def categories (ks : List Category) : CharSet :=
  ks.foldr (fun k s => union (category k) s) empty

/-- Membership. -/
def contains : CharSet → Char → Bool
  | ranges rs, c => inRanges c.toNat rs
  | named k, c => k.contains c
  | union a b, c => a.contains c || b.contains c
  | inter a b, c => a.contains c && b.contains c
  | diff a b, c => a.contains c && !b.contains c
  | symmDiff a b, c => a.contains c != b.contains c
  | compl a, c => !a.contains c
  | anyCase a, c => a.contains c || (caseVariants c).any a.contains

/-- Bytes that a machine takes for one range of code points: a single state for a range of ASCII
characters, and a state for each byte of the longer codes. -/
def rangeWeight (r : Nat × Nat) : Nat :=
  if r.2 < 0x80 then 32 else 60

/-- Bytes that a set takes in a machine that reads bytes, roughly. The ends of a complement add a
few ranges to those of the set. -/
def weight : CharSet → Nat
  | ranges rs => (rs.map rangeWeight).foldr (· + ·) 0
  | named k => 60 * k.size
  | union a b | inter a b | diff a b | symmDiff a b => a.weight + b.weight
  | compl a => a.weight + 900
  | anyCase a => 2 * a.weight

end CharSet

end QueryLint
