import Mathlib.Data.List.Induction
import QueryLint.Proofs.Text.Bytes
import QueryLint.Template.File

/-!
QueryLint.Proofs.Place — lines and columns, counted in two ways.

Where an offset lies in a text is looked up among the offsets where its lines start. Where a text
leads to is told from the text alone: by its line feeds, and by what stands after the last of them.
Both are the same count. To see it, either is told one character at a time: a line feed starts a
line, and any other character moves on in its line by its width.

* `Place.next` — the place after a character.
* `Place.after_eq` — the place after a text, one character after the other.
* `TemplatedFile.placeIn_byteCount` — so is the place that is looked up.
* `TemplatedFile.after_place` — from the start of a span, its text leads to where it stops.
-/

namespace QueryLint

open Text

/-! ## 1. The place after a text -/

theorem Text.splitOn_ne_nil (p : Char → Bool) (cs : List Char) : splitOn p cs ≠ [] := by
  cases cs with
  | nil => simp [splitOn]
  | cons c cs =>
    rw [splitOn]
    split
    · simp
    · split <;> simp

/-- A text that is not cut is its only piece. -/
theorem Text.eq_of_splitOn_eq_singleton {p : Char → Bool} {cs piece : List Char}
    (h : splitOn p cs = [piece]) : piece = cs := by
  induction cs generalizing piece with
  | nil => simpa [splitOn] using h.symm
  | cons c cs ih =>
    rw [splitOn] at h
    split at h
    · simp [splitOn_ne_nil] at h
    · cases hpieces : splitOn p cs with
      | nil => exact absurd hpieces (splitOn_ne_nil p cs)
      | cons first rest =>
        rw [hpieces] at h
        simp only [List.cons.injEq] at h
        obtain ⟨rfl, rfl⟩ := h
        rw [ih hpieces]

namespace Place

/-- The place after a character. -/
def next (p : Place) (c : Char) : Place :=
  if c = '\n' then ⟨p.line + 1, 1⟩ else ⟨p.line, p.column + c.utf8Size⟩

/-- The place after the pieces of a text between its line feeds. -/
def afterPieces (p : Place) : List (List Char) → Place
  | [] => p
  | [piece] => ⟨p.line, p.column + byteCount piece⟩
  | _ :: rest => ⟨p.line + rest.length, byteCount (rest.getLastD []) + 1⟩

theorem after_eq_afterPieces (p : Place) (raw : String) :
    p.after raw = p.afterPieces (splitOn (· == '\n') raw.toList) := by
  unfold after
  dsimp only
  split
  · next h => exact absurd h (splitOn_ne_nil _ _)
  · next piece h =>
    rw [h, afterPieces, eq_of_splitOn_eq_singleton h, byteCount_toList]
  · next first rest hmore h =>
    rw [h, afterPieces]
    exact hmore

/-- The place after a text, one character after the other. -/
theorem after_eq (p : Place) (raw : String) : p.after raw = raw.toList.foldl next p := by
  rw [after_eq_afterPieces]
  generalize raw.toList = cs
  induction cs generalizing p with
  | nil => simp [splitOn, afterPieces]
  | cons c cs ih =>
    rw [List.foldl_cons, ← ih, splitOn]
    cases hpieces : splitOn (· == '\n') cs with
    | nil => exact absurd hpieces (splitOn_ne_nil _ _)
    | cons first rest =>
      by_cases hc : c = '\n'
      · cases rest with
        | nil => simp [hc, next, afterPieces, Nat.add_comm]
        | cons second rest => simp [hc, next, afterPieces]; omega
      · cases rest with
        | nil => simp [hc, next, afterPieces, Nat.add_assoc]
        | cons second rest => simp [hc, next, afterPieces]

/-- A text and then another lead to the place after both. -/
theorem after_append (p : Place) (x y : String) : p.after (x ++ y) = (p.after x).after y := by
  rw [after_eq, after_eq, after_eq, String.toList_append, List.foldl_append]

@[simp] theorem after_empty (p : Place) : p.after "" = p := by
  rw [after_eq]
  rfl

end Place

/-! ## 2. The place of an offset -/

namespace TemplatedFile

theorem offsetsOf_append (c : Char) (xs ys : List Char) (n : Nat) :
    offsetsOf c (xs ++ ys) n = offsetsOf c xs n ++ offsetsOf c ys (n + byteCount xs) := by
  induction xs generalizing n with
  | nil => rfl
  | cons x xs ih =>
    rw [List.cons_append, offsetsOf, offsetsOf, ih, byteCount_cons, Nat.add_assoc]
    split <;> rfl

theorem bounds_of_mem_offsetsOf {c : Char} {cs : List Char} {n k : Nat}
    (h : k ∈ offsetsOf c cs n) : n ≤ k ∧ k < n + byteCount cs := by
  induction cs generalizing n with
  | nil => cases h
  | cons d ds ih =>
    have := Char.utf8Size_pos d
    rw [byteCount_cons]
    rw [offsetsOf] at h
    split at h
    · rcases List.mem_cons.1 h with rfl | h
      · omega
      · have := ih h
        omega
    · have := ih h
      omega

/-- The lines that start up to a cut of a text are those of what stands before the cut. -/
theorem takeWhile_lineStarts {text : String} {front back : List Char}
    (h : text.toList = front ++ back) :
    (lineStarts text).takeWhile (· ≤ byteCount front) =
      0 :: (offsetsOf '\n' front 0).map (· + 1) := by
  rw [lineStarts, h, offsetsOf_append, List.map_append, ← List.cons_append,
    List.takeWhile_append_of_pos]
  · rw [Nat.zero_add]
    have behind : ((offsetsOf '\n' back (byteCount front)).map (· + 1)).takeWhile
        (· ≤ byteCount front) = [] := by
      cases hback : offsetsOf '\n' back (byteCount front) with
      | nil => rfl
      | cons k ks =>
        have := (bounds_of_mem_offsetsOf (hback ▸ List.mem_cons_self ..)).1
        rw [List.map_cons, List.takeWhile_cons_of_neg (by simp; omega)]
    rw [behind, List.append_nil]
  · intro k hk
    rcases List.mem_cons.1 hk with rfl | hk
    · simp
    · obtain ⟨j, hj, rfl⟩ := List.mem_map.1 hk
      have := (bounds_of_mem_offsetsOf hj).2
      simp only [decide_eq_true_eq]
      omega

/-- The place of a cut of a text, one character after the other. -/
theorem placeIn_byteCount {text : String} {front back : List Char}
    (h : text.toList = front ++ back) :
    placeIn text (byteCount front) = front.foldl Place.next ⟨1, 1⟩ := by
  unfold placeIn
  rw [takeWhile_lineStarts h]
  clear h
  induction front using List.reverseRecOn with
  | nil => simp [offsetsOf]
  | append_singleton front c ih =>
    rw [List.foldl_append, List.foldl_cons, List.foldl_nil, ← ih, offsetsOf_append, Nat.zero_add]
    by_cases hc : c = '\n'
    · subst hc
      have width : '\n'.utf8Size = 1 := rfl
      rw [offsetsOf, if_pos rfl, offsetsOf, List.map_append, ← List.cons_append, List.map_cons,
        List.map_nil]
      simp only [List.getLastD_concat, List.length_append, List.length_cons, List.length_nil,
        byteCount_append, byteCount_cons, byteCount_nil, width, Place.next]
      congr 1 <;> omega
    · have last : (0 :: (offsetsOf '\n' front 0).map (· + 1)).getLastD 0 ≤ byteCount front := by
        rw [List.getLastD_cons, List.getLastD_eq_getLast?, List.getLast?_map]
        cases hlast : (offsetsOf '\n' front 0).getLast? with
        | none => simp
        | some k =>
          have := (bounds_of_mem_offsetsOf (List.mem_of_mem_getLast? hlast)).2
          simp
          omega
      rw [offsetsOf, if_neg hc]
      simp only [offsetsOf, List.append_nil, Place.next, if_neg hc, byteCount_append,
        byteCount_cons, byteCount_nil]
      congr 1
      omega

variable {f : TemplatedFile}

/-- Where an offset lies is where the text before it leads to. -/
theorem place_eq_after {n : Nat} {before : String}
    (h : slice? f.templated 0 n = some before) : f.place n = Place.after ⟨1, 1⟩ before := by
  obtain ⟨front, back, htext, hfront, hn⟩ := slice?_eq_some_iff.1 h
  obtain rfl := byteCount_eq_zero_iff.1 hfront
  rw [Nat.zero_add, ← byteCount_toList] at hn
  rw [List.nil_append] at htext
  rw [place, ← hn, placeIn_byteCount htext, Place.after_eq]

/-- From where a span starts, its text leads to where it stops. -/
theorem after_place {a b : Nat} {text : String} (h : slice? f.templated a b = some text) :
    (f.place a).after text = f.place b := by
  obtain ⟨front, back, htext, hfront, hb⟩ := slice?_eq_some_iff.1 h
  have before : slice? f.templated 0 a = some (String.ofList front) := by
    refine slice?_eq_some_iff.2 ⟨[], text.toList ++ back, ?_, rfl, ?_⟩
    · rw [htext, String.toList_ofList, List.nil_append, List.append_assoc]
    · rw [utf8ByteSize_ofList, hfront, Nat.zero_add]
  rw [place_eq_after before, ← Place.after_append, ← place_eq_after (slice?_append before h)]

end TemplatedFile

end QueryLint
