import QueryLint.Pattern.Reader

/-!
QueryLint.Proofs.Pattern.Caseless — patterns for letters of either case.

Texts that differ in the case of ASCII letters only have the same text in lower case. A pattern is
caseless if none of its sets tells an ASCII letter from its other case. Then matching commutes with
lowering a text: the places a match may end at are the same ones. So a caseless pattern matches
texts alike that differ in the case of ASCII letters only.

* `Text.Recased` — texts that differ in the case of ASCII letters only.
* `CharSet.IsCaseless`, `Pattern.IsCaseless` — sets and patterns that do not tell cases apart.
* `Pattern.IsCaseless.ignoresCase` — caseless patterns match such texts alike.
-/

namespace QueryLint

/-! ## 1. Letters and texts -/

namespace Text

theorem toLower_upperLetter : ∀ n : Fin 26,
    (Char.ofNat (n + 65)).toLower = Char.ofNat (n + 97) := by
  decide

/-- What does not tell the lower case of an ASCII letter from its upper case does not tell a
character from its lower case. -/
theorem toLower_invariant {α : Type} {f : Char → α}
    (h : ∀ n : Fin 26, f (Char.ofNat (n + 97)) = f (Char.ofNat (n + 65))) (c : Char) :
    f c.toLower = f c := by
  by_cases upper : 'A'.val ≤ c.val ∧ c.val ≤ 'Z'.val
  · have low : 65 ≤ c.toNat := UInt32.le_iff_toNat_le.1 upper.1
    have high : c.toNat ≤ 90 := UInt32.le_iff_toNat_le.1 upper.2
    obtain ⟨n, hn⟩ : ∃ n : Fin 26, c = Char.ofNat (n + 65) :=
      ⟨⟨c.toNat - 65, by omega⟩, by rw [Nat.sub_add_cancel low, Char.ofNat_toNat]⟩
    rw [hn, toLower_upperLetter, h n]
  · have unchanged : c.toLower = c := by
      unfold Char.toLower
      exact dif_neg upper
    rw [unchanged]

/-- Texts that differ in the case of ASCII letters only. -/
def Recased (s s' : String) : Prop := s.toList.map Char.toLower = s'.toList.map Char.toLower

instance (s s' : String) : Decidable (Recased s s') := inferInstanceAs (Decidable (_ = _))

/-- A function of characters that does not tell cases apart makes the same of such texts. -/
theorem Recased.map_eq {α : Type} {f : Char → α} (hf : ∀ c, f c.toLower = f c) {s s' : String}
    (h : Recased s s') : s.toList.map f = s'.toList.map f := by
  have lowered (cs : List Char) : cs.map f = (cs.map Char.toLower).map f := by
    simp [hf]
  rw [lowered, lowered s'.toList, show s.toList.map Char.toLower = _ from h]

theorem upperChar_toLower (c : Char) : upperChar c.toLower = upperChar c :=
  toLower_invariant (by decide) c

/-- Upper case does not tell such texts apart. -/
theorem Recased.upper_eq {s s' : String} (h : Recased s s') : upper s = upper s' := by
  have same := h.map_eq upperChar_toLower
  rw [upper, upper, List.flatMap_def, List.flatMap_def, same]

/-- One is blank if the other is. -/
theorem Recased.isAllBlank_eq {s s' : String} (h : Recased s s') :
    isAllBlank s = isAllBlank s' := by
  have blank : ∀ c : Char, isBlank c.toLower = isBlank c := toLower_invariant (by decide)
  have all_eq (cs : List Char) : cs.all isBlank = (cs.map isBlank).all id := by
    simp [List.all_map]
  rw [isAllBlank, isAllBlank, all_eq, all_eq s'.toList, h.map_eq blank]

/-- One is empty if the other is. -/
theorem Recased.isEmpty_eq {s s' : String} (h : Recased s s') : s.isEmpty = s'.isEmpty := by
  have length := congrArg List.length h
  simp only [List.length_map] at length
  rw [Bool.eq_iff_iff, String.isEmpty_iff, String.isEmpty_iff, ← String.toList_eq_nil_iff,
    ← String.toList_eq_nil_iff, ← List.length_eq_zero_iff, ← List.length_eq_zero_iff, length]

end Text

/-! ## 2. Sets -/

namespace CharSet

/-- The set holds an ASCII letter if it holds its other case. -/
def IsCaseless (s : CharSet) : Prop := ∀ c : Char, s.contains c.toLower = s.contains c

namespace IsCaseless

variable {a b : CharSet}

theorem compl (h : a.IsCaseless) : (CharSet.compl a).IsCaseless := fun c => by
  rw [contains, contains, h c]

theorem inter (ha : a.IsCaseless) (hb : b.IsCaseless) : (CharSet.inter a b).IsCaseless :=
  fun c => by rw [contains, contains, ha c, hb c]

/-- Letters of one case have the same counterparts as those of the other, and are among them. -/
theorem anyCase (a : CharSet) : (CharSet.anyCase a).IsCaseless := by
  have among (c : Char) (h : c ∈ Text.caseVariants c) :
      (CharSet.anyCase a).contains c = (Text.caseVariants c).any a.contains := by
    rw [contains, Bool.or_eq_right_iff_imp]
    intro hc
    exact List.any_eq_true.2 ⟨c, h, hc⟩
  have folds : ∀ n : Fin 26, Text.foldPoint (n + 97) = n + 97 ∧ Text.foldPoint (n + 65) = n + 97 ∧
      n.val + 65 ∈ Text.foldSources (n + 97) := by
    decide +kernel
  refine Text.toLower_invariant fun n => ?_
  obtain ⟨lower, upper, source⟩ := folds n
  have code : ∀ m < 128, (Char.ofNat m).toNat = m := by decide
  have same : Text.caseVariants (Char.ofNat (n + 97)) = Text.caseVariants (Char.ofNat (n + 65)) := by
    rw [Text.caseVariants, Text.caseVariants, code _ (by omega), code _ (by omega), lower, upper]
  have mem_lower : Char.ofNat (n + 97) ∈ Text.caseVariants (Char.ofNat (n + 97)) := by
    rw [Text.caseVariants, code _ (by omega), lower]
    exact List.mem_cons_self
  have mem_upper : Char.ofNat (n + 65) ∈ Text.caseVariants (Char.ofNat (n + 65)) := by
    rw [Text.caseVariants, code _ (by omega), upper]
    exact List.mem_cons_of_mem _ (List.mem_map_of_mem source)
  rw [among _ mem_lower, among _ mem_upper, same]

/-- A set without ASCII letters, or with all of them. -/
theorem ofLetters {s : CharSet} (h : ∀ n : Fin 26,
    s.contains (Char.ofNat (n + 97)) = s.contains (Char.ofNat (n + 65))) : s.IsCaseless :=
  Text.toLower_invariant h

end IsCaseless

end CharSet

/-! ## 3. Where patterns match -/

namespace Cursor

/-- The same place in the text in lower case. -/
def lowered (k : Cursor) : Cursor :=
  ⟨k.offset, k.before.map Char.toLower, k.rest.map Char.toLower⟩

@[simp] theorem offset_lowered (k : Cursor) : k.lowered.offset = k.offset := rfl

@[simp] theorem length_rest_lowered (k : Cursor) :
    k.lowered.rest.length = k.rest.length := by
  simp [lowered]

theorem lowered_start (cs : List Char) : (start cs).lowered = start (cs.map Char.toLower) := rfl

theorem lowered_advance (k : Cursor) (c : Char) (cs : List Char) :
    (k.advance c cs).lowered = k.lowered.advance c.toLower (cs.map Char.toLower) := rfl

end Cursor

/-- Conditions on a place do not tell cases apart: they ask for line ends and for words. -/
theorem Anchor.holds_lowered (a : Anchor) (k : Cursor) : a.holds k.lowered = a.holds k := by
  have newline : ∀ c : Char, (c.toLower == '\n') = (c == '\n') :=
    Text.toLower_invariant (f := (· == '\n')) (by decide)
  have carriage : ∀ c : Char, (c.toLower == '\r') = (c == '\r') :=
    Text.toLower_invariant (f := (· == '\r')) (by decide)
  have part (ascii : Bool) : ∀ c : Char,
      (Text.isWordChar c.toLower && !(ascii && 0x80 ≤ c.toLower.toNat)) =
        (Text.isWordChar c && !(ascii && 0x80 ≤ c.toNat)) :=
    Text.toLower_invariant (f := fun c => Text.isWordChar c && !(ascii && 0x80 ≤ c.toNat))
      (by cases ascii <;> decide)
  have isNewline (o : Option Char) : (o.map Char.toLower == some '\n') = (o == some '\n') := by
    cases o with
    | none => rfl
    | some c => exact newline c
  have isCarriage (o : Option Char) : (o.map Char.toLower == some '\r') = (o == some '\r') := by
    cases o with
    | none => rfl
    | some c => exact carriage c
  cases a with
  | word ascii edge =>
    simp only [holds, Cursor.lowered, List.head?_map, Option.any_map, part]
  | textStart | textEnd | lineStart | lineEnd | crlfStart | crlfEnd =>
    simp only [holds, Cursor.lowered, List.head?_map, Option.isNone_map, List.isEmpty_map, bne,
      isNewline, isCarriage]

namespace Pattern

/-- No set of the pattern tells an ASCII letter from its other case. -/
def IsCaseless : Pattern → Prop
  | empty | anchor _ => True
  | set s => s.IsCaseless
  | seq p q | alt p q => p.IsCaseless ∧ q.IsCaseless
  | plus _ p | times _ p | upTo _ _ p => p.IsCaseless

/-! ### Places are looked for by their offset -/

section
variable (found : List Cursor) (k : Cursor)

theorem reached_lowered :
    reached (found.map Cursor.lowered) k.lowered = reached found k := by
  simp [reached, List.any_map, Function.comp_def]

theorem addEnd_lowered :
    addEnd (found.map Cursor.lowered) k.lowered = (addEnd found k).map Cursor.lowered := by
  unfold addEnd
  rw [reached_lowered]
  split <;> simp

theorem distinct_lowered :
    distinct (found.map Cursor.lowered) = (distinct found).map Cursor.lowered := by
  unfold distinct
  rw [List.foldl_map]
  change List.foldl _ (([] : List Cursor).map Cursor.lowered) found = _
  exact List.foldl_hom (List.map Cursor.lowered) fun found k => addEnd_lowered found k

end

/-! ### Repetitions -/

section
variable {step : Cursor → List Cursor} (hstep : ∀ k, step k.lowered = (step k).map Cursor.lowered)
  (greedy : Bool)
include hstep

theorem repeatFrom_lowered (k : Cursor) (found : List Cursor) :
    repeatFrom step greedy k.lowered (found.map Cursor.lowered) =
      (repeatFrom step greedy k found).map Cursor.lowered := by
  induction n : k.rest.length using Nat.strongRecOn generalizing k found with
  | ind n ih =>
    have walked (found : List Cursor) :
        (step k.lowered).foldl (fun found next =>
            if reached found next then found
            else if next.rest.length < k.lowered.rest.length then
              repeatFrom step greedy next found
            else found) (found.map Cursor.lowered) =
          ((step k).foldl (fun found next =>
            if reached found next then found
            else if next.rest.length < k.rest.length then repeatFrom step greedy next found
            else found) found).map Cursor.lowered := by
      rw [hstep, List.foldl_map]
      refine List.foldl_hom (List.map Cursor.lowered) fun found next => ?_
      rw [reached_lowered, Cursor.length_rest_lowered, Cursor.length_rest_lowered]
      split
      · rfl
      · split
        · next shorter => exact ih _ (by omega) next found rfl
        · rfl
    rw [repeatFrom, repeatFrom]
    cases greedy with
    | true =>
      simp only [if_true, dite_eq_ite]
      rw [walked, addEnd_lowered]
    | false =>
      simp only [Bool.false_eq_true, if_false, dite_eq_ite]
      rw [addEnd_lowered, walked]

theorem repeated_lowered (k : Cursor) :
    repeated step greedy k.lowered = (repeated step greedy k).map Cursor.lowered := by
  unfold repeated
  rw [hstep, List.foldl_map]
  change List.foldl _ (([] : List Cursor).map Cursor.lowered) _ = _
  refine List.foldl_hom (List.map Cursor.lowered) fun found next => ?_
  rw [reached_lowered, Cursor.length_rest_lowered, Cursor.length_rest_lowered,
    repeatFrom_lowered hstep, addEnd_lowered]
  split
  · rfl
  · split <;> rfl

theorem afterSteps_lowered (n : Nat) (ks : List Cursor) :
    afterSteps step n (ks.map Cursor.lowered) = (afterSteps step n ks).map Cursor.lowered := by
  induction n generalizing ks with
  | zero => rfl
  | succ n ih =>
    have next : (ks.map Cursor.lowered).flatMap step = (ks.flatMap step).map Cursor.lowered := by
      rw [List.flatMap_map, List.map_flatMap]
      simp only [hstep]
    rw [afterSteps, next, distinct_lowered, ih, afterSteps]

end

/-- A walk with its places in lower case. -/
def Walk.lowered (w : Walk) : Walk := { w with found := w.found.map Cursor.lowered }

theorem walk_lowered {step : Cursor → List Cursor}
    (hstep : ∀ k, step k.lowered = (step k).map Cursor.lowered) (greedy : Bool) (n : Nat)
    (k : Cursor) (w : Walk) :
    walk step greedy n k.lowered w.lowered = (walk step greedy n k w).lowered := by
  induction n generalizing k w with
  | zero => simp only [walk, Walk.lowered, addEnd_lowered]
  | succ n ih =>
    have walked (w : Walk) : (step k.lowered).foldl (fun w next => walk step greedy n next w)
        w.lowered = ((step k).foldl (fun w next => walk step greedy n next w) w).lowered := by
      rw [hstep, List.foldl_map]
      exact List.foldl_hom Walk.lowered fun w next => ih next w
    unfold walk
    by_cases seen : w.seen.contains (n, k.offset) = true
    · exact (if_pos seen).trans (congrArg Walk.lowered (if_pos seen)).symm
    · refine (if_neg seen).trans (.trans ?_ (congrArg Walk.lowered (if_neg seen)).symm)
      cases greedy with
      | true =>
        have noted := walked { w with seen := (n, k.offset) :: w.seen }
        simp only [Walk.lowered, if_true, Cursor.offset_lowered] at noted ⊢
        rw [noted]
        simp only [addEnd_lowered]
      | false =>
        have noted := walked { found := addEnd w.found k, seen := (n, k.offset) :: w.seen }
        simp only [Walk.lowered, Bool.false_eq_true, if_false, Cursor.offset_lowered,
          ← addEnd_lowered] at noted ⊢
        exact noted

/-! ### Ends and matches -/

/-- In lower case, a caseless pattern ends at the same places. -/
theorem ends_lowered {p : Pattern} (hp : p.IsCaseless) (k : Cursor) :
    p.ends k.lowered = (p.ends k).map Cursor.lowered := by
  induction p generalizing k with
  | empty => rfl
  | set s =>
    obtain ⟨offset, before, rest⟩ := k
    cases rest with
    | nil => rfl
    | cons c cs =>
      have same : s.contains c.toLower = s.contains c := hp c
      simp only [ends, Cursor.lowered, List.map_cons, same]
      split <;> rfl
  | anchor a =>
    simp only [ends, a.holds_lowered]
    split <;> rfl
  | seq p q ihp ihq =>
    simp only [ends]
    rw [ihp hp.1, List.flatMap_map, ← distinct_lowered, List.map_flatMap]
    simp only [ihq hp.2]
  | alt p q ihp ihq =>
    simp only [ends]
    rw [ihp hp.1, ihq hp.2, ← List.map_append, distinct_lowered]
  | plus greedy p ih => exact repeated_lowered (ih hp) greedy k
  | times n p ih =>
    have enough : enough n k.lowered = enough n k := by simp [enough]
    simp only [ends, enough]
    exact afterSteps_lowered (ih hp) _ [k]
  | upTo greedy n p ih =>
    have enough : enough n k.lowered = enough n k := by simp [enough]
    have walked := walk_lowered (ih hp) greedy (Pattern.enough n k) k {}
    simp only [ends, enough]
    exact congrArg Walk.found walked

theorem matchAt?_lowered {p : Pattern} (hp : p.IsCaseless) (k : Cursor) :
    p.matchAt? (fun _ _ => true) k.lowered = p.matchAt? (fun _ _ => true) k := by
  unfold matchAt?
  rw [ends_lowered hp, List.head?_map]
  cases (p.ends k).head? <;> rfl

theorem findFrom_lowered {p : Pattern} (hp : p.IsCaseless) (k : Cursor) (cs : List Char) :
    p.findFrom (fun _ _ => true) k.lowered (cs.map Char.toLower) =
      p.findFrom (fun _ _ => true) k cs := by
  induction cs generalizing k with
  | nil => exact matchAt?_lowered hp k
  | cons c cs ih =>
    rw [List.map_cons, findFrom, findFrom, matchAt?_lowered hp, ← Cursor.lowered_advance, ih]

/-- A caseless pattern is found at the same place. -/
theorem find?_lowered {p : Pattern} (hp : p.IsCaseless) (cs : List Char) :
    p.find? (cs.map Char.toLower) = p.find? cs := by
  have first := matchAt?_lowered hp (Cursor.start cs)
  have found := findFrom_lowered hp (Cursor.start cs) cs
  rw [Cursor.lowered_start] at first found
  unfold find?
  dsimp only
  split
  · exact first
  · exact found

/-- The pattern matches texts alike that differ in the case of ASCII letters only. -/
def IgnoresCase (p : Pattern) : Prop :=
  ∀ s s', Text.Recased s s' → p.isMatch s = p.isMatch s'

/-- A caseless pattern matches texts alike that differ in the case of ASCII letters only. -/
theorem IsCaseless.ignoresCase {p : Pattern} (hp : p.IsCaseless) : p.IgnoresCase := by
  intro s s' h
  rw [isMatch, isMatch, ← find?_lowered hp, ← find?_lowered hp s'.toList,
    show s.toList.map Char.toLower = _ from h]

end Pattern

end QueryLint
