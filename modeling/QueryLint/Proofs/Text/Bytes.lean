import QueryLint.Text.Bytes

/-!
QueryLint.Proofs.Text.Bytes — cuts of strings.

The laws of the cuts speak of lists of characters. Here they are said of strings, whose width the
library measures by other means.

* `Text.byteCount_toList` — the width of a string is that of its characters.
* `Text.slice?_eq_some_iff` — a slice is what stands between two cuts.
* `Text.replace?` — a text with other text between two cuts.
-/

namespace QueryLint.Text

/-- The width of a string is that of its characters. -/
theorem byteCount_toList (s : String) : byteCount s.toList = s.utf8ByteSize := by
  have ofList (cs : List Char) : (String.ofList cs).utf8ByteSize = byteCount cs := by
    induction cs with
    | nil => rfl
    | cons c cs ih =>
      rw [show c :: cs = [c] ++ cs from rfl, String.ofList_append, String.utf8ByteSize_append, ih]
      simp
  rw [← ofList, String.ofList_toList]

theorem utf8ByteSize_ofList (cs : List Char) : (String.ofList cs).utf8ByteSize = byteCount cs := by
  rw [← byteCount_toList, String.toList_ofList]

theorem byteCount_eq_zero_iff {cs : List Char} : byteCount cs = 0 ↔ cs = [] := by
  cases cs with
  | nil => simp
  | cons c cs =>
    have := Char.utf8Size_pos c
    simp only [byteCount_cons, reduceCtorEq, iff_false]
    omega

/-- What stands after a cut is known from any way to write the text with the cut in it. -/
theorem dropBytes?_of_eq_append {cs front rest : List Char} {n : Nat} (h : cs = front ++ rest)
    (hn : byteCount front = n) : dropBytes? cs n = some rest := by
  rw [h, ← hn]
  exact dropBytes?_append front rest

/-- A text has one cut at an offset. -/
theorem append_inj_of_byteCount {front rest front' rest' : List Char}
    (h : front ++ rest = front' ++ rest') (hn : byteCount front = byteCount front') :
    front = front' ∧ rest = rest' := by
  have drop := dropBytes?_append front rest
  rw [h, hn, dropBytes?_append, Option.some.injEq] at drop
  subst drop
  exact ⟨List.append_cancel_right h, rfl⟩

/-- Of two cuts of a text, what stands after the first ends in what stands after the second. -/
theorem exists_append_of_cuts {cs front rest front' rest' : List Char}
    (h : cs = front ++ rest) (h' : cs = front' ++ rest')
    (hle : byteCount front ≤ byteCount front') : ∃ between, rest = between ++ rest' := by
  rw [h] at h'
  rcases List.append_eq_append_iff.1 h' with ⟨between, -, hrest⟩ | ⟨between, hfront, hrest⟩
  · exact ⟨between, hrest⟩
  · rw [hfront, byteCount_append] at hle
    have := byteCount_eq_zero_iff.1 (show byteCount between = 0 by omega)
    subst this
    exact ⟨[], by simpa using hrest.symm⟩

/-- A slice is what stands between two cuts. -/
theorem slice?_eq_some_iff {s t : String} {a b : Nat} :
    slice? s a b = some t ↔ ∃ front back, s.toList = front ++ t.toList ++ back ∧
      byteCount front = a ∧ a + t.utf8ByteSize = b := by
  unfold slice?
  constructor
  · intro h
    split at h
    · next hab =>
      obtain ⟨cs, hcs, rfl⟩ := Option.map_eq_some_iff.1 h
      obtain ⟨rest, hrest, htake⟩ := Option.bind_eq_some_iff.1 hcs
      obtain ⟨front, hs, hfront⟩ := exists_append_of_dropBytes? hrest
      obtain ⟨back, rfl, hcount⟩ := exists_append_of_takeBytes? htake
      refine ⟨front, back, ?_, hfront, ?_⟩
      · rw [hs, String.toList_ofList, List.append_assoc]
      · rw [utf8ByteSize_ofList, hcount]
        omega
    · cases h
  · rintro ⟨front, back, hs, hfront, hb⟩
    have drop : dropBytes? s.toList a = some (t.toList ++ back) :=
      dropBytes?_of_eq_append (by rw [hs, List.append_assoc]) hfront
    have take : takeBytes? (t.toList ++ back) (b - a) = some t.toList := by
      have := takeBytes?_append t.toList back
      rwa [byteCount_toList, show t.utf8ByteSize = b - a by omega] at this
    rw [if_pos (by omega), drop, Option.bind_some, take, Option.map_some, String.ofList_toList]

/-- Two slices of which one starts where the other stops make one. -/
theorem slice?_append {s t u : String} {a b c : Nat} (h : slice? s a b = some t)
    (h' : slice? s b c = some u) : slice? s a c = some (t ++ u) := by
  obtain ⟨front, rest, hs, hfront, hb⟩ := slice?_eq_some_iff.1 h
  obtain ⟨front', back, hs', hfront', hc⟩ := slice?_eq_some_iff.1 h'
  rw [hs, List.append_assoc front'] at hs'
  obtain ⟨rfl, rfl⟩ := append_inj_of_byteCount hs'
    (by rw [byteCount_append, byteCount_toList, hfront, hb, hfront'])
  refine slice?_eq_some_iff.2 ⟨front, back, ?_, hfront, ?_⟩
  · rw [hs, String.toList_append]
    simp
  · rw [String.utf8ByteSize_append]
    omega

/-- There is a slice between two cuts, if they are in order. -/
theorem isSome_slice?_iff {s : String} {a b : Nat} :
    (slice? s a b).isSome = true ↔
      a ≤ b ∧ (dropBytes? s.toList a).isSome = true ∧ (dropBytes? s.toList b).isSome = true := by
  constructor
  · intro h
    obtain ⟨t, ht⟩ := Option.isSome_iff_exists.1 h
    obtain ⟨front, back, hs, hfront, hb⟩ := slice?_eq_some_iff.1 ht
    refine ⟨by omega, ?_, ?_⟩
    · rw [dropBytes?_of_eq_append (hs.trans (List.append_assoc ..)) hfront]
      rfl
    · rw [dropBytes?_of_eq_append hs (by rw [byteCount_append, byteCount_toList, hfront, hb])]
      rfl
  · rintro ⟨hab, ha, hb⟩
    obtain ⟨rest, hrest⟩ := Option.isSome_iff_exists.1 ha
    obtain ⟨back, hback⟩ := Option.isSome_iff_exists.1 hb
    obtain ⟨front, hs, hfront⟩ := exists_append_of_dropBytes? hrest
    obtain ⟨front', hs', hfront'⟩ := exists_append_of_dropBytes? hback
    obtain ⟨between, hbetween⟩ := exists_append_of_cuts hs hs' (by omega)
    have width : a + byteCount between = b := by
      rw [hbetween, ← List.append_assoc] at hs
      have := (append_inj_of_byteCount (hs'.symm.trans hs) (by
        have := congrArg byteCount (hs'.symm.trans hs)
        simp only [byteCount_append] at this ⊢
        omega)).1
      rw [← hfront', this, byteCount_append, hfront]
    refine Option.isSome_iff_exists.2 ⟨String.ofList between,
      slice?_eq_some_iff.2 ⟨front, back, ?_, hfront, ?_⟩⟩
    · rw [hs, hbetween, String.toList_ofList, List.append_assoc]
    · rw [utf8ByteSize_ofList, width]

/-- A slice has the width between its ends, and they lie in the text. -/
theorem le_of_slice? {s t : String} {a b : Nat} (h : slice? s a b = some t) :
    a + t.utf8ByteSize = b ∧ b ≤ s.utf8ByteSize := by
  obtain ⟨front, back, hs, hfront, hb⟩ := slice?_eq_some_iff.1 h
  refine ⟨hb, ?_⟩
  rw [← byteCount_toList s, hs, byteCount_append, byteCount_append, byteCount_toList]
  omega

/-- A part of a text that lies within another part of it. -/
theorem exists_append_of_within {cs front part back front' part' back' : List Char}
    (h : cs = front ++ part ++ back) (h' : cs = front' ++ part' ++ back')
    (hstart : byteCount front ≤ byteCount front')
    (hstop : byteCount front' + byteCount part' ≤ byteCount front + byteCount part) :
    ∃ left right, part = left ++ part' ++ right ∧ front' = front ++ left ∧
      back' = right ++ back := by
  obtain ⟨left, hleft⟩ := exists_append_of_cuts (h.trans (List.append_assoc ..))
    (h'.trans (List.append_assoc ..)) hstart
  obtain ⟨right, hright⟩ := exists_append_of_cuts h' h
    (by rw [byteCount_append, byteCount_append]; exact hstop)
  refine ⟨left, right, ?_, ?_, hright⟩
  · rw [hright, ← List.append_assoc, ← List.append_assoc, List.append_cancel_right_eq] at hleft
    exact hleft
  · rw [h', List.append_assoc, List.append_assoc front, hleft, ← List.append_assoc front,
      List.append_cancel_right_eq] at h
    exact h

/-- A text with other text in place of bytes `start` to `stop`; refused where a cut is. -/
def replace? (s : String) (start stop : Nat) (new : String) : Option String := do
  let front ← takeBytes? s.toList start
  let back ← dropBytes? s.toList stop
  return String.ofList (front ++ new.toList ++ back)

theorem replace?_eq_some {s new : String} {start stop : Nat} {front part back : List Char}
    (h : s.toList = front ++ part ++ back) (hstart : byteCount front = start)
    (hstop : start + byteCount part = stop) :
    replace? s start stop new = some (String.ofList (front ++ new.toList ++ back)) := by
  have take : takeBytes? s.toList start = some front := by
    rw [h, List.append_assoc, ← hstart]
    exact takeBytes?_append front _
  have drop : dropBytes? s.toList stop = some back :=
    dropBytes?_of_eq_append h (by rw [byteCount_append, hstart, hstop])
  rw [replace?, take, drop]
  rfl

end QueryLint.Text
