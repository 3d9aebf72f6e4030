import QueryLint.Pattern.Basic

/-!
QueryLint.Proofs.Pattern.Leftmost — what a search for a pattern finds.

A search tries one place after the other, and at each place the pattern lists the ends it may
have. For many patterns the first of these ends is a plain function of the text ahead: so many
characters, or no match. Then the search needs no cursors to be spoken of. It finds the first
place where that function gives a length, and fails if there is none.

However a pattern is put together, it reads on from a place character by character. What reading one
character keeps is therefore true of every place where a match may end, so these are places of the
text that was read. What a match starts or ends with can often be seen in the pattern: there is none
where the character ahead is in no set that it may start with, and if a set stands last, the last
character of a match is one of it.

* `Pattern.Takes` — the text ahead says how much a pattern takes.
* `Pattern.takes_run` — a greedy repetition of a set takes the run of its characters.
* `Pattern.Takes.findNonEmpty?_eq_some`, `Pattern.Takes.findNonEmpty?_eq_none` — what a search
  finds.
* `Pattern.forall_mem_ends` — what reading a character keeps.
* `Pattern.opens` — the characters that a match may start with.
-/

namespace QueryLint

/-- Length of the run of characters with a property at the start of a text, if there is one. -/
def Text.run? (p : Char → Bool) (cs : List Char) : Option Nat :=
  if (cs.takeWhile p).isEmpty then none else some (cs.takeWhile p).length

/-- One character with a property at the start of a text, and what a function says of the text
behind it. -/
def Text.after? (p : Char → Bool) (len : List Char → Option Nat) : List Char → Option Nat
  | [] => none
  | c :: cs => if p c then (len cs).map (· + 1) else none

namespace Text

variable {p : Char → Bool} {cs : List Char}

theorem run?_eq_some {n : Nat} : run? p cs = some n ↔ (cs.takeWhile p).length = n ∧ 0 < n := by
  unfold run?
  cases cs.takeWhile p with
  | nil => simp only [List.isEmpty_nil, if_true, reduceCtorEq, List.length_nil, false_iff]; omega
  | cons c run => simp only [List.isEmpty_cons, Bool.false_eq_true, if_false, Option.some.injEq,
      List.length_cons]; omega

/-- There is no run where the character ahead is not of the kind. -/
theorem run?_eq_none : run? p cs = none ↔ ∀ c ∈ cs.head?, p c = false := by
  cases cs with
  | nil => simp [run?]
  | cons c cs => cases hc : p c <;> simp [run?, hc]

theorem getD_run? : (run? p cs).getD 0 = (cs.takeWhile p).length := by
  unfold run?
  cases cs.takeWhile p <;> rfl

end Text

namespace Pattern

/-! ## 1. The preferred end -/

theorem head?_addEnd (found : List Cursor) (k : Cursor) :
    (addEnd found k).head? = found.head?.or (some k) := by
  cases found with
  | nil => rfl
  | cons e es =>
    unfold addEnd
    split <;> rfl

/-- Leaving out places listed before does not change the first place. -/
theorem head?_distinct (ks : List Cursor) : (distinct ks).head? = ks.head? := by
  have head?_foldl (found : List Cursor) :
      (ks.foldl addEnd found).head? = found.head?.or ks.head? := by
    induction ks generalizing found with
    | nil => simp
    | cons k ks ih => rw [List.foldl_cons, ih, head?_addEnd, Option.or_assoc, Option.some_or,
        List.head?_cons]
  exact head?_foldl []

/-- At every place the preferred match of a pattern takes as many characters as `len` says of the
text ahead, and there is no match where it says nothing. -/
def Takes (p : Pattern) (len : List Char → Option Nat) : Prop :=
  ∀ k : Cursor, (p.ends k).head?.map Cursor.offset = (len k.rest).map (k.offset + ·)

theorem ends_set_of_contains {s : CharSet} {c : Char} (hc : s.contains c = true) (n : Nat)
    (before : Option Char) (cs : List Char) :
    (set s).ends ⟨n, before, c :: cs⟩ = [⟨n + 1, some c, cs⟩] := by
  simp [ends, hc, Cursor.advance]

theorem ends_set_of_not_contains {s : CharSet} {c : Char} (hc : s.contains c = false) (n : Nat)
    (before : Option Char) (cs : List Char) : (set s).ends ⟨n, before, c :: cs⟩ = [] := by
  simp [ends, hc]

/-- The longest repetition from a place takes the run of characters of the set. -/
theorem head?_repeatFrom_set (s : CharSet) (k : Cursor) :
    (repeatFrom (set s).ends true k []).head?.map Cursor.offset =
      some (k.offset + (k.rest.takeWhile s.contains).length) := by
  obtain ⟨n, before, cs⟩ := k
  induction cs generalizing n before with
  | nil => simp [repeatFrom, ends, addEnd, reached]
  | cons c cs ih =>
    rw [repeatFrom]
    cases hc : s.contains c with
    | false => simp [ends_set_of_not_contains hc, hc, addEnd, reached]
    | true =>
      obtain ⟨e, he, hoffset⟩ := Option.map_eq_some_iff.1 (ih (n + 1) (some c))
      simp only [ends_set_of_contains hc, List.foldl_cons, List.foldl_nil, reached, List.any_nil,
        Bool.false_eq_true, if_false, if_true, List.length_cons, Nat.lt_add_one, dite_true]
      rw [head?_addEnd, he, Option.some_or, Option.map_some, hoffset,
        List.takeWhile_cons_of_pos hc, List.length_cons, Option.some.injEq]
      exact Nat.add_right_comm n 1 _

/-- A greedy repetition of a set takes the run of its characters. -/
theorem takes_run (s : CharSet) : (plus true (set s)).Takes (Text.run? s.contains) := by
  rintro ⟨n, before, cs⟩
  rw [ends, repeated]
  cases cs with
  | nil => rfl
  | cons c cs =>
    cases hc : s.contains c with
    | false => simp [ends_set_of_not_contains hc, Text.run?, hc]
    | true =>
      have further := head?_repeatFrom_set s ⟨n + 1, some c, cs⟩
      simp only [ends_set_of_contains hc, List.foldl_cons, List.foldl_nil, reached, List.any_nil,
        Bool.false_eq_true, if_false, List.length_cons, Nat.lt_add_one, if_true]
      rw [further, Text.run?_eq_some.2 ⟨rfl, by simp [hc]⟩, List.takeWhile_cons_of_pos hc,
        List.length_cons, Option.map_some, Option.some.injEq]
      exact Nat.add_right_comm n 1 _

/-- A set takes one of its characters. -/
theorem takes_set (s : CharSet) : (set s).Takes (Text.after? s.contains fun _ => some 0) := by
  rintro ⟨n, before, cs⟩
  cases cs with
  | nil => rfl
  | cons c cs =>
    cases hc : s.contains c with
    | false => simp [ends_set_of_not_contains hc, Text.after?, hc]
    | true => simp [ends_set_of_contains hc, Text.after?, hc]

/-- Behind a character of a set a pattern takes what the text there says. -/
theorem Takes.behind {p : Pattern} {len : List Char → Option Nat} (h : p.Takes len) (s : CharSet) :
    (seq (set s) p).Takes (Text.after? s.contains len) := by
  rintro ⟨n, before, cs⟩
  rw [ends, head?_distinct]
  cases cs with
  | nil => rfl
  | cons c cs =>
    cases hc : s.contains c with
    | false => simp [ends_set_of_not_contains hc, Text.after?, hc]
    | true =>
      rw [ends_set_of_contains hc, List.flatMap_singleton, h ⟨n + 1, some c, cs⟩]
      simp only [Text.after?, hc, if_true, Option.map_map]
      congr 1
      funext k
      simp only [Function.comp_apply]
      omega

/-- Of two alternatives the second takes what the first does not match. -/
theorem Takes.alt {p q : Pattern} {f g : List Char → Option Nat} (hp : p.Takes f)
    (hq : q.Takes g) : (Pattern.alt p q).Takes fun cs => (f cs).or (g cs) := by
  intro k
  rw [ends, head?_distinct, List.head?_append, Option.map_or, Option.map_or, hp k, hq k]

/-! ## 2. Searching -/

namespace Takes

variable {p : Pattern} {len : List Char → Option Nat} (h : p.Takes len)
include h

/-- A pattern held to the start of a text takes what it takes there. -/
theorem find?_held (cs : List Char) :
    ((seq (anchor .textStart) p).find? cs).map Prod.snd = len cs := by
  have here : ((p.ends (Cursor.start cs)).head?.map Cursor.offset) = len cs := by
    simpa [Cursor.start] using h (Cursor.start cs)
  have held : ((seq (anchor .textStart) p).ends (Cursor.start cs)).head? =
      (p.ends (Cursor.start cs)).head? := by
    simp [ends, Anchor.holds, Cursor.start, head?_distinct]
  simp only [find?, isAnchored, if_true, matchAt?, held, ← here]
  cases (p.ends (Cursor.start cs)).head? <;> rfl

variable (pos : ∀ cs n, len cs = some n → 0 < n)
include pos

/-- A search goes from place to place until the text ahead gives a length. -/
theorem findFrom_eq (k : Cursor) (cs : List Char) (hk : k.rest = cs) :
    findFrom p (fun k e => k.offset < e.offset) k cs =
      match len cs with
      | some n => some (k.offset, k.offset + n)
      | none =>
        match cs with
        | [] => none
        | c :: cs => findFrom p (fun k e => k.offset < e.offset) (k.advance c cs) cs := by
  have here : p.matchAt? (fun k e => k.offset < e.offset) k =
      (len cs).map fun n => (k.offset, k.offset + n) := by
    have preferred := h k
    rw [hk] at preferred
    rw [matchAt?]
    cases hlen : len cs with
    | none =>
      rw [hlen, Option.map_none, Option.map_eq_none_iff] at preferred
      rw [preferred]
      rfl
    | some n =>
      rw [hlen, Option.map_some, Option.map_eq_some_iff] at preferred
      obtain ⟨e, he, hoffset⟩ := preferred
      have := pos cs n hlen
      rw [he, Option.bind_some, hoffset, if_pos (by simpa using this)]
      rfl
  cases cs with
  | nil => cases hlen : len [] <;> simp [findFrom, here, hlen]
  | cons c cs => cases hlen : len (c :: cs) <;> simp [findFrom, here, hlen]

/-- A search that finds a match finds the first place where the text ahead gives a length. -/
theorem findFrom_eq_some {k : Cursor} {cs : List Char} (hk : k.rest = cs) {m : Nat × Nat}
    (found : findFrom p (fun k e => k.offset < e.offset) k cs = some m) :
    ∃ i n, m = (k.offset + i, k.offset + i + n) ∧ len (cs.drop i) = some n ∧
      ∀ j < i, len (cs.drop j) = none := by
  induction cs generalizing k with
  | nil =>
    rw [findFrom_eq h pos k [] hk] at found
    cases hlen : len [] with
    | none => simp [hlen] at found
    | some n => exact ⟨0, n, by simpa [hlen] using found.symm, hlen, nofun⟩
  | cons c cs ih =>
    rw [findFrom_eq h pos k _ hk] at found
    cases hlen : len (c :: cs) with
    | some n => exact ⟨0, n, by simpa [hlen] using found.symm, hlen, nofun⟩
    | none =>
      simp only [hlen] at found
      obtain ⟨i, n, rfl, taken, before⟩ := ih rfl found
      refine ⟨i + 1, n, ?_, taken, ?_⟩
      · simp only [Cursor.advance, Prod.mk.injEq]
        omega
      · rintro (_ | j) hj
        · exact hlen
        · exact before j (by omega)

/-- A search that fails has found no length at any place. -/
theorem findFrom_eq_none {k : Cursor} {cs : List Char} (hk : k.rest = cs)
    (missed : findFrom p (fun k e => k.offset < e.offset) k cs = none) (j : Nat)
    (hj : j ≤ cs.length) : len (cs.drop j) = none := by
  induction cs generalizing k j with
  | nil =>
    rw [findFrom_eq h pos k [] hk] at missed
    rw [List.drop_nil]
    cases hlen : len [] with
    | none => rfl
    | some n => simp [hlen] at missed
  | cons c cs ih =>
    rw [findFrom_eq h pos k _ hk] at missed
    cases hlen : len (c :: cs) with
    | some n => simp [hlen] at missed
    | none =>
      simp only [hlen] at missed
      cases j with
      | zero => exact hlen
      | succ j => exact ih rfl missed j (by simpa using hj)

/-- The leftmost match that takes text starts at the first place where the text ahead gives a
length, and has that length. -/
theorem findNonEmpty?_eq_some {cs : List Char} {i j : Nat}
    (found : p.findNonEmpty? cs = some (i, j)) :
    len (cs.drop i) = some (j - i) ∧ ∀ m < i, len (cs.drop m) = none := by
  obtain ⟨start, n, hm, taken, before⟩ := findFrom_eq_some h pos rfl found
  simp only [Cursor.start, Nat.zero_add, Prod.mk.injEq] at hm
  obtain ⟨rfl, rfl⟩ := hm
  rw [Nat.add_sub_cancel_left]
  exact ⟨taken, before⟩

/-- Without a match that takes text there is no length at any place. -/
theorem findNonEmpty?_eq_none {cs : List Char} (missed : p.findNonEmpty? cs = none) {j : Nat}
    (hj : j ≤ cs.length) : len (cs.drop j) = none :=
  findFrom_eq_none h pos rfl missed j hj

end Takes

end Pattern

namespace Pattern

/-! ## 3. Reading on -/

section
variable {Q : Cursor → Prop} {k : Cursor} {found : List Cursor}

theorem forall_mem_addEnd (h : ∀ e ∈ found, Q e) (hk : Q k) : ∀ e ∈ addEnd found k, Q e := by
  unfold addEnd
  split
  · exact h
  · exact List.forall_mem_append.2 ⟨h, List.forall_mem_singleton.2 hk⟩

theorem forall_mem_distinct {ks : List Cursor} (h : ∀ e ∈ ks, Q e) : ∀ e ∈ distinct ks, Q e :=
  List.foldlRecOn (motive := fun found => ∀ e ∈ found, Q e) ks addEnd (by simp)
    fun _ hfound e he => forall_mem_addEnd hfound (h e he)

variable {step : Cursor → List Cursor} (hstep : ∀ k, Q k → ∀ e ∈ step k, Q e) (greedy : Bool)
include hstep

theorem forall_mem_repeatFrom (hk : Q k) (h : ∀ e ∈ found, Q e) :
    ∀ e ∈ repeatFrom step greedy k found, Q e := by
  induction n : k.rest.length using Nat.strongRecOn generalizing k found with
  | ind n ih =>
    have walked (found : List Cursor) (h : ∀ e ∈ found, Q e) :
        ∀ e ∈ (step k).foldl (fun found next =>
          if reached found next then found
          else if next.rest.length < k.rest.length then repeatFrom step greedy next found
          else found) found, Q e := by
      refine List.foldlRecOn (motive := fun found => ∀ e ∈ found, Q e) (step k) _ h ?_
      intro found hfound next hnext
      split
      · exact hfound
      · split
        · next shorter => exact ih _ (by omega) (hstep k hk next hnext) hfound rfl
        · exact hfound
    rw [repeatFrom]
    cases greedy with
    | true =>
      simp only [if_true, dite_eq_ite]
      exact forall_mem_addEnd (walked found h) hk
    | false =>
      simp only [Bool.false_eq_true, if_false, dite_eq_ite]
      exact walked _ (forall_mem_addEnd h hk)

theorem forall_mem_repeated (hk : Q k) : ∀ e ∈ repeated step greedy k, Q e := by
  refine List.foldlRecOn (motive := fun found => ∀ e ∈ found, Q e) (step k) _ (by simp) ?_
  intro found hfound next hnext
  have hnext := hstep k hk next hnext
  split
  · exact hfound
  · split
    · exact forall_mem_repeatFrom hstep greedy hnext hfound
    · exact forall_mem_addEnd hfound hnext

omit greedy in
theorem forall_mem_afterSteps (n : Nat) {ks : List Cursor} (h : ∀ e ∈ ks, Q e) :
    ∀ e ∈ afterSteps step n ks, Q e := by
  induction n generalizing ks with
  | zero => exact h
  | succ n ih =>
    refine ih (forall_mem_distinct fun e he => ?_)
    obtain ⟨k, hk, he⟩ := List.mem_flatMap.1 he
    exact hstep k (h k hk) e he

theorem forall_mem_walk (n : Nat) (hk : Q k) {w : Walk} (h : ∀ e ∈ w.found, Q e) :
    ∀ e ∈ (walk step greedy n k w).found, Q e := by
  induction n generalizing k w with
  | zero => exact forall_mem_addEnd h hk
  | succ n ih =>
    have walked (w : Walk) (h : ∀ e ∈ w.found, Q e) :
        ∀ e ∈ ((step k).foldl (fun w next => walk step greedy n next w) w).found, Q e :=
      List.foldlRecOn (motive := fun w : Walk => ∀ e ∈ w.found, Q e) (step k) _ h
        fun w hw next hnext => ih (hstep k hk next hnext) hw
    unfold walk
    split
    · exact h
    · cases greedy with
      | true => exact forall_mem_addEnd (walked _ h) hk
      | false => exact walked _ (forall_mem_addEnd h hk)

end

/-- What reading one character keeps is kept by a match. -/
theorem forall_mem_ends {Q : Cursor → Prop}
    (advance : ∀ k c cs, k.rest = c :: cs → Q k → Q (k.advance c cs)) (p : Pattern) {k : Cursor}
    (hk : Q k) : ∀ e ∈ p.ends k, Q e := by
  induction p generalizing k with
  | empty => exact List.forall_mem_singleton.2 hk
  | set s =>
    unfold ends
    split
    · simp
    · next c cs hrest =>
      split
      · exact List.forall_mem_singleton.2 (advance k c cs hrest hk)
      · simp
  | anchor a =>
    unfold ends
    split
    · exact List.forall_mem_singleton.2 hk
    · simp
  | seq p q ihp ihq =>
    refine forall_mem_distinct fun e he => ?_
    obtain ⟨k', hk', he⟩ := List.mem_flatMap.1 he
    exact ihq (ihp hk k' hk') e he
  | alt p q ihp ihq => exact forall_mem_distinct (List.forall_mem_append.2 ⟨ihp hk, ihq hk⟩)
  | plus greedy p ih => exact forall_mem_repeated (fun k hk => ih hk) greedy hk
  | times n p ih =>
    exact forall_mem_afterSteps (fun k hk => ih hk) _ (List.forall_mem_singleton.2 hk)
  | upTo greedy n p ih =>
    exact forall_mem_walk (fun k hk => ih hk) greedy _ hk (w := {}) (by simp)

end Pattern

/-- The cursor is at a place of a text. -/
structure Cursor.IsIn (text : List Char) (k : Cursor) : Prop where
  before : k.before = (text.take k.offset).getLast?
  rest : k.rest = text.drop k.offset

namespace Cursor

variable {text cs : List Char} {k : Cursor} {c : Char}

theorem isIn_start (text : List Char) : (start text).IsIn text := ⟨rfl, rfl⟩

theorem IsIn.advance (h : k.IsIn text) (hrest : k.rest = c :: cs) : (k.advance c cs).IsIn text := by
  have ahead := h.rest.symm.trans hrest
  have here : text[k.offset]? = some c := by
    rw [← List.head?_drop, ahead]
    rfl
  constructor
  · show some c = (text.take (k.offset + 1)).getLast?
    rw [List.take_add_one, here, Option.toList_some, List.getLast?_concat]
  · show cs = text.drop (k.offset + 1)
    rw [← List.drop_drop, ahead]
    rfl

end Cursor

namespace Pattern

/-! ## 4. Starting and ending -/

/-- A match may start with the character, as far as that can be seen at once. -/
def opens (c : Char) : Pattern → Bool
  | set s => s.contains c
  | seq (anchor _) q => q.opens c
  | seq p _ => p.opens c
  | alt p q => p.opens c || q.opens c
  | plus _ p => p.opens c
  | _ => true

/-- There is no match where the character ahead is none that one may start with. -/
theorem ends_eq_nil_of_opens {c : Char} {p : Pattern} (h : p.opens c = false) {k : Cursor}
    {cs : List Char} (hk : k.rest = c :: cs) : p.ends k = [] := by
  fun_induction opens c p with
  | case1 s => simp [ends, hk, h]
  | case2 a q ih =>
    rw [ends, ends]
    split
    · rw [List.flatMap_singleton, ih h]
      rfl
    · rfl
  | case3 p q _ ih =>
    rw [ends, ih h]
    rfl
  | case4 p q ihp ihq =>
    rw [Bool.or_eq_false_iff] at h
    rw [ends, ihp h.1, ihq h.2]
    rfl
  | case5 greedy p ih =>
    rw [ends, repeated, ih h]
    rfl
  | case6 => cases h

theorem mem_ends_seq {p q : Pattern} {k e : Cursor} (he : e ∈ (seq p q).ends k) :
    ∃ k' ∈ p.ends k, e ∈ q.ends k' := by
  have members : ∀ e ∈ distinct ((p.ends k).flatMap q.ends), e ∈ (p.ends k).flatMap q.ends :=
    forall_mem_distinct fun _ he => he
  exact List.mem_flatMap.1 (members e he)

theorem before_of_mem_ends_set {s : CharSet} {k e : Cursor} (he : e ∈ (set s).ends k) :
    ∃ c, e.before = some c ∧ s.contains c = true := by
  unfold ends at he
  split at he
  · cases he
  · next c cs _ =>
    split at he
    · next hc =>
      rw [List.mem_singleton.1 he]
      exact ⟨c, rfl, hc⟩
    · cases he

end Pattern

end QueryLint
