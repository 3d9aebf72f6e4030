/-!
QueryLint.Text.Bytes — cutting text at byte offsets.

Every offset in this library counts UTF-8 bytes, because source files are cut and spliced by
bytes. A character is one to four bytes wide, so an offset may fall inside a character; a cut
there is refused rather than rounded.

* `byteCount cs` — the width of a list of characters.
* `dropBytes? cs n`, `takeBytes? cs n` — the text after, and before, the first `n` bytes.
* `slice? s a b` — the text in bytes `a` to `b`.

`dropBytes?_append` and `takeBytes?_append` say that a cut after a whole part gives back the
parts, and `append_of_cut` that the two halves of a cut make the text again.
-/

namespace QueryLint.Text

/-- Width of a list of characters in UTF-8 bytes. -/
def byteCount : List Char → Nat
  | [] => 0
  | c :: cs => c.utf8Size + byteCount cs

/-- The characters after the first `n` bytes; refused beyond the end or inside a character. -/
def dropBytes? : List Char → Nat → Option (List Char)
  | cs, 0 => some cs
  | [], _ + 1 => none
  | c :: cs, n + 1 => if c.utf8Size ≤ n + 1 then dropBytes? cs (n + 1 - c.utf8Size) else none

/-- The characters in the first `n` bytes; refused beyond the end or inside a character. -/
def takeBytes? : List Char → Nat → Option (List Char)
  | _, 0 => some []
  | [], _ + 1 => none
  | c :: cs, n + 1 =>
    if c.utf8Size ≤ n + 1 then (takeBytes? cs (n + 1 - c.utf8Size)).map (c :: ·) else none

/-- The text in bytes `start` to `stop`; refused when the offsets are reversed, lie beyond the
end or fall inside a character. -/
def slice? (s : String) (start stop : Nat) : Option String :=
  if start ≤ stop then
    ((dropBytes? s.toList start).bind (takeBytes? · (stop - start))).map String.ofList
  else none

/-- The text from byte `start` to the end. -/
def sliceFrom? (s : String) (start : Nat) : Option String :=
  (dropBytes? s.toList start).map String.ofList

/-- Byte offsets, from `base` on, of every occurrence of `c`. -/
def offsetsOf (c : Char) : List Char → Nat → List Nat
  | [], _ => []
  | d :: ds, base =>
    if d = c then base :: offsetsOf c ds (base + d.utf8Size)
    else offsetsOf c ds (base + d.utf8Size)

/-- Whether `pat` is an initial part of `cs`. -/
def startsWith : List Char → List Char → Bool
  | [], _ => true
  | _ :: _, [] => false
  | p :: ps, c :: cs => p == c && startsWith ps cs

/-- Byte offset, counted from `base`, of the first occurrence of `pat`. -/
def find? (pat : List Char) : List Char → Nat → Option Nat
  | [], base => if pat.isEmpty then some base else none
  | c :: cs, base =>
    if startsWith pat (c :: cs) then some base else find? pat cs (base + c.utf8Size)

/-- The text without copies of `t` at its start. -/
def dropCopies (t cs : List Char) : List Char :=
  if _h : 0 < t.length ∧ 0 < cs.length ∧ startsWith t cs then dropCopies t (cs.drop t.length)
  else cs
termination_by cs.length
decreasing_by simp only [List.length_drop]; omega

/-- The text without copies of `t` at its start and end. -/
def trimCopies (s t : String) : String :=
  let front := dropCopies t.toList s.toList
  String.ofList (dropCopies t.toList.reverse front.reverse).reverse

/-! ## Laws of the cuts -/

@[simp] theorem byteCount_nil : byteCount [] = 0 := rfl

@[simp] theorem byteCount_cons (c : Char) (cs : List Char) :
    byteCount (c :: cs) = c.utf8Size + byteCount cs := rfl

@[simp] theorem byteCount_append (xs ys : List Char) :
    byteCount (xs ++ ys) = byteCount xs + byteCount ys := by
  induction xs with
  | nil => simp
  | cons c cs ih => simp [ih, Nat.add_assoc]

@[simp] theorem dropBytes?_zero (cs : List Char) : dropBytes? cs 0 = some cs := by
  cases cs <;> rfl

@[simp] theorem takeBytes?_zero (cs : List Char) : takeBytes? cs 0 = some [] := by
  cases cs <;> rfl

theorem dropBytes?_cons (c : Char) (cs : List Char) (n : Nat) :
    dropBytes? (c :: cs) (c.utf8Size + n) = dropBytes? cs n := by
  have hc := Char.utf8Size_pos c
  obtain ⟨m, hm⟩ : ∃ m, c.utf8Size + n = m + 1 := ⟨c.utf8Size + n - 1, by omega⟩
  rw [hm, dropBytes?, if_pos (by omega)]
  congr 1
  omega

theorem takeBytes?_cons (c : Char) (cs : List Char) (n : Nat) :
    takeBytes? (c :: cs) (c.utf8Size + n) = (takeBytes? cs n).map (c :: ·) := by
  have hc := Char.utf8Size_pos c
  obtain ⟨m, hm⟩ : ∃ m, c.utf8Size + n = m + 1 := ⟨c.utf8Size + n - 1, by omega⟩
  rw [hm, takeBytes?, if_pos (by omega)]
  have : m + 1 - c.utf8Size = n := by omega
  rw [this]

/-- Cutting after a whole first part leaves the second. -/
theorem dropBytes?_append (xs ys : List Char) :
    dropBytes? (xs ++ ys) (byteCount xs) = some ys := by
  induction xs with
  | nil => simp
  | cons c cs ih => rw [List.cons_append, byteCount_cons, dropBytes?_cons, ih]

/-- Cutting after a whole first part keeps it. -/
theorem takeBytes?_append (xs ys : List Char) :
    takeBytes? (xs ++ ys) (byteCount xs) = some xs := by
  induction xs with
  | nil => simp
  | cons c cs ih => rw [List.cons_append, byteCount_cons, takeBytes?_cons, ih]; rfl

/-- The rest after a cut, with the bytes cut off in front, is the text. -/
theorem exists_append_of_dropBytes? {cs rest : List Char} {n : Nat}
    (h : dropBytes? cs n = some rest) : ∃ front, cs = front ++ rest ∧ byteCount front = n := by
  induction cs generalizing n with
  | nil =>
    cases n with
    | zero => simp at h; exact ⟨[], by simp [h], rfl⟩
    | succ n => simp [dropBytes?] at h
  | cons c cs ih =>
    cases n with
    | zero => simp at h; exact ⟨[], by simp [h], rfl⟩
    | succ n =>
      rw [dropBytes?] at h
      split at h
      · next hc =>
        obtain ⟨front, rfl, hf⟩ := ih h
        exact ⟨c :: front, rfl, by rw [byteCount_cons, hf]; omega⟩
      · cases h

/-- The part before a cut is an initial part of exactly the bytes asked for. -/
theorem exists_append_of_takeBytes? {cs front : List Char} {n : Nat}
    (h : takeBytes? cs n = some front) : ∃ rest, cs = front ++ rest ∧ byteCount front = n := by
  induction cs generalizing n front with
  | nil =>
    cases n with
    | zero =>
      simp only [takeBytes?_zero, Option.some.injEq] at h
      exact ⟨[], by simp [← h], by rw [← h]; rfl⟩
    | succ n => simp [takeBytes?] at h
  | cons c cs ih =>
    cases n with
    | zero =>
      simp only [takeBytes?_zero, Option.some.injEq] at h
      exact ⟨c :: cs, by simp [← h], by rw [← h]; rfl⟩
    | succ n =>
      rw [takeBytes?] at h
      split at h
      · next hc =>
        obtain ⟨front', hf', rfl⟩ := Option.map_eq_some_iff.1 h
        obtain ⟨rest, rfl, hf⟩ := ih hf'
        exact ⟨rest, rfl, by rw [byteCount_cons, hf]; omega⟩
      · cases h

/-- The two halves of a cut make the text again. -/
theorem append_of_cut {cs front rest : List Char} {n : Nat}
    (ht : takeBytes? cs n = some front) (hd : dropBytes? cs n = some rest) :
    front ++ rest = cs := by
  obtain ⟨f, rfl, hf⟩ := exists_append_of_dropBytes? hd
  have := takeBytes?_append f rest
  rw [hf, ht] at this
  rw [Option.some.inj this]

end QueryLint.Text
