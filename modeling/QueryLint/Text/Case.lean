import QueryLint.Text.Case.Table
import QueryLint.Text.Property

/-!
QueryLint.Text.Case — upper case, lower case and letters equal up to case.

The mappings are the full Unicode ones, so a character may map to several. Lower case looks at
the surroundings of one character only: a capital sigma at the end of a word becomes the final
sigma.
-/

namespace QueryLint.Text

/-- Where a table of shifts moves code point `n`, if it lists it. -/
def shifted? (n : Nat) (shifts : List (Nat × Nat × Nat × Nat)) : Option Nat :=
  (shifts.find? fun (lo, hi, step, _) => lo ≤ n && n ≤ hi && (n - lo) % step == 0).map
    fun (lo, _, _, target) => n - lo + target

/-- A character mapped by a table of shifts and a table of expansions. -/
def mapped (shifts : List (Nat × Nat × Nat × Nat)) (expansions : List (Nat × List Nat))
    (c : Char) : List Char :=
  match shifted? c.toNat shifts with
  | some n => [Char.ofNat n]
  | none =>
    match expansions.lookup c.toNat with
    | some ns => ns.map Char.ofNat
    | none => [c]

/-- Upper case of one character. -/
def upperChar (c : Char) : List Char :=
  if c.toNat < 0x80 then [c.toUpper] else mapped upperShifts upperExpansions c

/-- Lower case of one character, whatever stands around it. -/
def lowerChar (c : Char) : List Char :=
  if c.toNat < 0x80 then [c.toLower] else mapped lowerShifts lowerExpansions c

/-- Upper case. -/
def upper (s : String) : String :=
  String.ofList (s.toList.flatMap upperChar)

/-- Whether the first character that is not passed over is a cased letter. -/
def nextIsCased (cs : List Char) : Bool :=
  match cs.dropWhile isCaseIgnorable with
  | [] => false
  | c :: _ => isCased c

/-- Lower case of the characters of a text; `before` holds those already passed, last first. -/
def lowerAfter (before : List Char) : List Char → List Char
  | [] => []
  | c :: cs =>
    (if c = 'Σ' then
      if nextIsCased before && !nextIsCased cs then ['ς'] else ['σ']
    else lowerChar c) ++ lowerAfter (c :: before) cs

/-- Lower case. -/
def lower (s : String) : String :=
  String.ofList (lowerAfter [] s.toList)

/-! ## Letters equal up to case -/

/-- The code point that stands for all letters equal to this one up to case. -/
def foldPoint (n : Nat) : Nat :=
  (shifted? n foldShifts).getD n

/-- Code points that fold to `n`, other than `n` itself. -/
def foldSources (n : Nat) : List Nat :=
  foldShifts.filterMap fun (lo, hi, step, target) =>
    let m := n - target + lo
    if target ≤ n && m ≤ hi && (m - lo) % step == 0 then some m else none

/-- All characters equal to `c` up to case, `c` among them. -/
def caseVariants (c : Char) : List Char :=
  let f := foldPoint c.toNat
  Char.ofNat f :: (foldSources f).map Char.ofNat

end QueryLint.Text
