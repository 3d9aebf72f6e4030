import QueryLint.Match.Basic

/-!
QueryLint.Proofs.Match.Tidy — matches that claim no token twice.

A tidy match keeps its markers and the matches inside it between its ends. Where the brackets of a
dialect are known to be one token each, matches side by side also claim different tokens; `apart`
says whether that is known. Both ways of putting matches together, one after the other and one
inside something, keep matches tidy. They put matches into nothing but what they are given.

* `Match.Apart` — two matches that claim different tokens.
* `Match.Tidy` — nothing in a match reaches over its ends.
* `Match.Inside` — tidy matches side by side between two places.
* `Match.Classed` — all classes of a match are of a kind.
-/

namespace QueryLint.Match

/-- One match ends before the other starts. -/
def Apart (a b : Match) : Prop := a.stop ≤ b.start ∨ b.stop ≤ a.start

/-- Nothing in the match reaches over its ends, and, if matches are to be kept apart, no two
matches side by side in it claim the same token. -/
inductive Tidy (apart : Prop) : Match → Prop where
  | mk {a b : Nat} {c : Option MatchClass} {is : List (Nat × MarkerKind)} {cs : List Match}
      (le : a ≤ b) (inserts : ∀ x ∈ is, a ≤ x.1 ∧ x.1 ≤ b)
      (bounds : ∀ m ∈ cs, a ≤ m.start ∧ m.stop ≤ b) (children : ∀ m ∈ cs, Tidy apart m)
      (pairwise : apart → cs.Pairwise Apart) : Tidy apart (.mk a b c is cs)

/-- Tidy matches between two places. -/
structure Inside (apart : Prop) (a b : Nat) (ms : List Match) : Prop where
  bounds : ∀ m ∈ ms, a ≤ m.start ∧ m.stop ≤ b
  tidy : ∀ m ∈ ms, m.Tidy apart
  pairwise : apart → ms.Pairwise Apart

/-- Markers between two places. -/
def MarkersInside (a b : Nat) (is : List (Nat × MarkerKind)) : Prop :=
  ∀ x ∈ is, a ≤ x.1 ∧ x.1 ≤ b

@[simp] theorem start_mk (a b : Nat) (c : Option MatchClass) (is : List (Nat × MarkerKind))
    (cs : List Match) : (mk a b c is cs).start = a := rfl

@[simp] theorem stop_mk (a b : Nat) (c : Option MatchClass) (is : List (Nat × MarkerKind))
    (cs : List Match) : (mk a b c is cs).stop = b := rfl

@[simp] theorem isMatch_empty (i : Nat) : (empty i).isMatch = false := by
  simp [isMatch, isEmpty, inserts, empty]

theorem isEmpty_eq_false_iff (m : Match) : m.isEmpty = false ↔ m.start < m.stop := by
  unfold isEmpty
  rw [decide_eq_false_iff_not, Nat.not_le]

theorem isMatch_of_not_isEmpty {m : Match} (h : m.isEmpty = false) : m.isMatch = true := by
  simp [isMatch, h]

/-- A match of tokens. -/
theorem isMatch_of_lt {m : Match} (h : m.start < m.stop) : m.isMatch = true :=
  isMatch_of_not_isEmpty (m.isEmpty_eq_false_iff.2 h)

/-- A match without markers takes a token. -/
theorem start_lt_stop_of_isMatch {m : Match} (h : m.isMatch = true) (hi : m.inserts = []) :
    m.start < m.stop := by
  rw [← isEmpty_eq_false_iff]
  simpa [isMatch, hi] using h

/-- A match of one token, or none. -/
def IsOne (m : Match) : Prop := m.isMatch = true → m.stop = m.start + 1

theorem IsOne.empty (i : Nat) : (Match.empty i).IsOne := by
  intro h
  rw [isMatch_empty] at h
  cases h

theorem IsOne.single (i : Nat) (k : Option MatchClass) : (Match.mk i (i + 1) k [] []).IsOne :=
  fun _ => rfl

variable {apart : Prop} {a b : Nat}

/-! ## 1. Lists of matches -/

namespace Inside

theorem nil (a b : Nat) : Inside apart a b [] :=
  ⟨by simp, by simp, fun _ => .nil⟩

theorem single {m : Match} (hm : m.Tidy apart) (ha : a ≤ m.start) (hb : m.stop ≤ b) :
    Inside apart a b [m] :=
  ⟨by simpa using ⟨ha, hb⟩, by simpa using hm, fun _ => List.pairwise_singleton _ _⟩

theorem mono {a' b' : Nat} {ms : List Match} (h : Inside apart a b ms) (ha : a' ≤ a)
    (hb : b ≤ b') : Inside apart a' b' ms := by
  refine ⟨fun m hm => ?_, h.tidy, h.pairwise⟩
  have := h.bounds m hm
  omega

/-- Matches and then matches that start after their end. -/
theorem append {x y : Nat} {xs ys : List Match} (hx : Inside apart a x xs)
    (hy : Inside apart y b ys) (hxy : x ≤ y) (hax : a ≤ x) (hyb : y ≤ b) :
    Inside apart a b (xs ++ ys) where
  bounds m hm := by
    rcases List.mem_append.1 hm with hm | hm
    · have := hx.bounds m hm; omega
    · have := hy.bounds m hm; omega
  tidy m hm := (List.mem_append.1 hm).elim (hx.tidy m) (hy.tidy m)
  pairwise h := by
    refine List.pairwise_append.2 ⟨hx.pairwise h, hy.pairwise h, fun m hm n hn => .inl ?_⟩
    have := hx.bounds m hm
    have := hy.bounds n hn
    omega

theorem filter {ms : List Match} (h : Inside apart a b ms) (p : Match → Bool) :
    Inside apart a b (ms.filter p) :=
  ⟨fun m hm => h.bounds m (List.mem_filter.1 hm).1,
    fun m hm => h.tidy m (List.mem_filter.1 hm).1, fun hp => (h.pairwise hp).filter p⟩

/-- Matches that end before another place. -/
theorem filter_stop {ms : List Match} (h : Inside apart a b ms) (n : Nat) :
    Inside apart a n (ms.filter (·.stop ≤ n)) := by
  refine ⟨fun m hm => ?_, (h.filter _).tidy, (h.filter _).pairwise⟩
  have hm' := List.mem_filter.1 hm
  exact ⟨(h.bounds m hm'.1).1, by simpa using hm'.2⟩

end Inside

namespace MarkersInside

theorem nil (a b : Nat) : MarkersInside a b [] := by simp [MarkersInside]

theorem mono {a' b' : Nat} {is : List (Nat × MarkerKind)} (h : MarkersInside a b is)
    (ha : a' ≤ a) (hb : b ≤ b') : MarkersInside a' b' is := by
  intro x hx
  have := h x hx
  omega

theorem append {is js : List (Nat × MarkerKind)} (hi : MarkersInside a b is)
    (hj : MarkersInside a b js) : MarkersInside a b (is ++ js) := by
  intro x hx
  exact (List.mem_append.1 hx).elim (hi x) (hj x)

/-- Markers that are all put in at one place. -/
theorem all_at {i : Nat} (ks : List MarkerKind) (ha : a ≤ i) (hb : i ≤ b) :
    MarkersInside a b (ks.map (i, ·)) := by
  intro x hx
  obtain ⟨k, -, rfl⟩ := List.mem_map.1 hx
  exact ⟨ha, hb⟩

end MarkersInside

/-! ## 2. Single matches -/

namespace Tidy

theorem of_inside {c : Option MatchClass} {is : List (Nat × MarkerKind)} {cs : List Match}
    (le : a ≤ b) (hi : MarkersInside a b is) (hc : Inside apart a b cs) :
    (Match.mk a b c is cs).Tidy apart :=
  .mk le hi hc.bounds hc.tidy hc.pairwise

theorem start_le_stop {m : Match} (h : m.Tidy apart) : m.start ≤ m.stop := by
  cases h with
  | mk le => exact le

theorem inserts_inside {m : Match} (h : m.Tidy apart) :
    MarkersInside m.start m.stop m.inserts := by
  cases h with
  | mk _ inserts => exact inserts

theorem children_inside {m : Match} (h : m.Tidy apart) :
    Inside apart m.start m.stop m.children := by
  cases h with
  | mk _ _ bounds children pairwise => exact ⟨bounds, children, pairwise⟩

/-- A match without anything inside. -/
theorem plain (c : Option MatchClass) (h : a ≤ b) : (Match.mk a b c [] []).Tidy apart :=
  of_inside h (.nil a b) (.nil a b)

theorem empty (i : Nat) : (Match.empty i).Tidy apart := plain none (Nat.le_refl i)

theorem marker (i : Nat) (k : MarkerKind) : (Match.marker i k).Tidy apart :=
  of_inside (Nat.le_refl i) (by simp [MarkersInside]) (.nil i i)

theorem outerInserts_inside {m : Match} (h : m.Tidy apart) :
    MarkersInside m.start m.stop m.outerInserts := by
  unfold outerInserts
  split
  · exact .nil _ _
  · exact h.inserts_inside

theorem outerChildren_inside {m : Match} (h : m.Tidy apart) :
    Inside apart m.start m.stop m.outerChildren := by
  unfold outerChildren
  split
  · exact .single h (Nat.le_refl _) (Nat.le_refl _)
  · exact h.children_inside

end Tidy

/-! ## 3. Putting matches together -/

theorem append_of_not_isMatch {x : Match} (y : Match) (h : x.isMatch = false) :
    x.append y = y := by
  simp [append, h]

theorem append_of_right_not_isMatch {x y : Match} (hx : x.isMatch = true)
    (hy : y.isMatch = false) : x.append y = x := by
  simp [append, hx, hy]

theorem append_of_isMatch {x y : Match} (hx : x.isMatch = true) (hy : y.isMatch = true) :
    x.append y = mk x.start y.stop none (x.outerInserts ++ y.outerInserts)
      (x.outerChildren ++ y.outerChildren) := by
  simp [append, hx, hy]

/-- A match with the one after it starts where it did, unless it was no match. -/
theorem start_append {x : Match} (y : Match) (hx : x.isMatch = true) :
    (x.append y).start = x.start := by
  by_cases hy : y.isMatch = true
  · rw [append_of_isMatch hx hy, start_mk]
  · rw [append_of_right_not_isMatch hx (by simpa using hy)]

theorem stop_append (x : Match) {y : Match} (hy : y.isMatch = true) :
    (x.append y).stop = y.stop := by
  by_cases hx : x.isMatch = true
  · rw [append_of_isMatch hx hy, stop_mk]
  · rw [append_of_not_isMatch y (by simpa using hx)]

/-- A match with the one after it takes no token only if the second ends where the first starts. -/
theorem stop_le_of_append_not_isMatch {x y : Match} (hy : y.isMatch = true)
    (h : (x.append y).isMatch = false) : y.stop ≤ x.start := by
  by_cases hx : x.isMatch = true
  · rw [append_of_isMatch hx hy] at h
    simp only [isMatch, isEmpty, start_mk, stop_mk, Bool.or_eq_false_iff, Bool.not_eq_false'] at h
    exact of_decide_eq_true h.1
  · rw [append_of_not_isMatch y (by simpa using hx), hy] at h
    cases h

theorem Tidy.append {x y : Match} (hx : x.Tidy apart) (hy : y.Tidy apart)
    (h : x.stop ≤ y.start) : (x.append y).Tidy apart := by
  unfold Match.append
  have := hx.start_le_stop
  have := hy.start_le_stop
  split
  · exact hy
  split
  · exact hx
  · exact .of_inside (by omega)
      ((hx.outerInserts_inside.mono (Nat.le_refl _) (by omega)).append
        (hy.outerInserts_inside.mono (by omega) (Nat.le_refl _)))
      (hx.outerChildren_inside.append hy.outerChildren_inside h (by omega) (by omega))

theorem start_wrap (m : Match) (c : MatchClass) : (m.wrap c).start = m.start := by
  unfold wrap
  split
  · rfl
  · split <;> rfl

theorem stop_wrap (m : Match) (c : MatchClass) : (m.wrap c).stop = m.stop := by
  unfold wrap
  split
  · rfl
  · split <;> rfl

/-- What is no match is not put into anything. -/
theorem wrap?_of_not_isMatch {m : Match} (h : m.isMatch = false) (c : Option MatchClass) :
    m.wrap? c = m := by
  cases c with
  | none => rfl
  | some c => simp [wrap?, wrap, h]

theorem IsOne.wrap? {m : Match} (h : m.IsOne) (k : Option MatchClass) : (m.wrap? k).IsOne := by
  by_cases hm : m.isMatch = true
  · intro _
    cases k with
    | none => exact h hm
    | some k =>
      show (m.wrap k).stop = (m.wrap k).start + 1
      rw [start_wrap, stop_wrap]
      exact h hm
  · rw [wrap?_of_not_isMatch (by simpa using hm)]
    exact h

theorem Tidy.wrap {m : Match} (h : m.Tidy apart) (c : MatchClass) : (m.wrap c).Tidy apart := by
  unfold Match.wrap
  split
  · exact h
  split
  · exact .of_inside h.start_le_stop h.inserts_inside h.children_inside
  · exact .of_inside h.start_le_stop (.nil _ _)
      (.single h (Nat.le_refl _) (Nat.le_refl _))

/-! ## 4. What matches are put into -/

variable {Q : MatchClass → Prop} {m x y : Match}

/-- The class of a match is of a kind, and so are those of all matches inside it. -/
inductive Classed (Q : MatchClass → Prop) : Match → Prop where
  | mk {a b : Nat} {k : Option MatchClass} {is : List (Nat × MarkerKind)} {cs : List Match}
      (own : ∀ c, k = some c → Q c) (children : ∀ m ∈ cs, Classed Q m) :
      Classed Q (.mk a b k is cs)

namespace Classed

theorem children (h : m.Classed Q) : ∀ x ∈ m.children, x.Classed Q := by
  cases h with
  | mk _ children => exact children

theorem own (h : m.Classed Q) : ∀ c, m.class? = some c → Q c := by
  cases h with
  | mk own _ => exact own

/-- Tokens and matches that are put into nothing. -/
theorem loose (a b : Nat) (is : List (Nat × MarkerKind)) {cs : List Match}
    (children : ∀ m ∈ cs, m.Classed Q) : (Match.mk a b none is cs).Classed Q :=
  .mk (by simp) children

/-- A match of a class with nothing inside. -/
theorem plain (a b : Nat) {k : MatchClass} (hk : Q k) : (Match.mk a b (some k) [] []).Classed Q :=
  .mk (by rintro c ⟨⟩; exact hk) (by simp)

theorem empty (i : Nat) : (Match.empty i).Classed Q := .loose i i [] (by simp)

theorem outerChildren (h : m.Classed Q) : ∀ x ∈ m.outerChildren, x.Classed Q := by
  unfold Match.outerChildren
  split
  · exact List.forall_mem_singleton.2 h
  · exact h.children

theorem append (hx : x.Classed Q) (hy : y.Classed Q) : (x.append y).Classed Q := by
  unfold Match.append
  split
  · exact hy
  split
  · exact hx
  · exact .loose _ _ _ (List.forall_mem_append.2 ⟨hx.outerChildren, hy.outerChildren⟩)

theorem wrap (h : m.Classed Q) {k : MatchClass} (hk : Q k) : (m.wrap k).Classed Q := by
  have own : ∀ c, some k = some c → Q c := by
    rintro c ⟨⟩
    exact hk
  unfold Match.wrap
  split
  · exact h
  split
  · exact .mk own h.children
  · exact .mk own (List.forall_mem_singleton.2 h)

theorem wrap? (h : m.Classed Q) {k : Option MatchClass} (hk : ∀ c, k = some c → Q c) :
    (m.wrap? k).Classed Q := by
  cases k with
  | none => exact h
  | some k => exact h.wrap (hk k rfl)

end Classed

theorem Tidy.classed (h : m.Tidy apart) : m.Classed fun _ => True := by
  induction h with
  | mk _ _ _ _ _ ih => exact .mk (fun _ _ => trivial) ih

end QueryLint.Match
