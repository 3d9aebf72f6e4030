import QueryLint.Proofs.Match.Apply

/-!
QueryLint.Proofs.Match.Counted — how often the segments of a match carry a token.

Two matches side by side may take the same token. The segments of both then carry it, and the
segments of the match around them carry it twice: laying out never cuts the segments of an inner
match. No token of a match is left out, though, since what no inner match takes is laid out between
them. How often a token is carried can so be told from the match alone.

* `Match.Takes`, `Match.Disjoint` — the tokens that a match takes.
* `Match.times` — how often a match takes a token, together with the matches inside it.
* `Match.CarriesTimes` — segments carry each token a number of times.
* `Match.meets_apply_times` — the segments of a match carry each token as often as it takes it.
-/

namespace QueryLint.Match

open Segment

/-! ## 1. Tokens that a match takes -/

/-- The token at a place is one of those that a match takes. -/
def Takes (m : Match) (p : Nat) : Prop := m.start ≤ p ∧ p < m.stop

instance (m : Match) (p : Nat) : Decidable (m.Takes p) := inferInstanceAs (Decidable (_ ∧ _))

/-- Two matches that take no token in common. -/
def Disjoint (a b : Match) : Prop := ∀ p, a.Takes p → ¬ b.Takes p

/-- Matches one after the other are disjoint. -/
theorem Disjoint.of_le {a b : Match} (h : a.stop ≤ b.start) : a.Disjoint b := by
  intro p ha hb
  have := ha.2
  have := hb.1
  omega

/-- A match that does not end after another is disjoint from it exactly if it takes nothing or ends
before the other starts. -/
theorem disjoint_iff_of_stop_le {a b : Match} (h : a.stop ≤ b.stop) :
    a.Disjoint b ↔ a.stop ≤ a.start ∨ a.stop ≤ b.start := by
  constructor
  · intro hab
    -- the last token of the first match is the one to look at
    have last := hab (a.stop - 1)
    unfold Takes at last
    omega
  · rintro (hempty | hle)
    · intro p hp
      have := hp.1
      have := hp.2
      omega
    · exact .of_le hle

mutual

/-- How often a match takes a token: as often as the matches inside it do together, and once if
none of them does. -/
def times (p : Nat) : Match → Nat
  | mk a b _ _ cs => if a ≤ p ∧ p < b then max 1 (timesAll p cs) else 0

/-- How often several matches take a token. -/
def timesAll (p : Nat) : List Match → Nat
  | [] => 0
  | m :: ms => m.times p + timesAll p ms

end

/-- A match that takes no token more than once. -/
def TakesOnce (m : Match) : Prop := ∀ p, m.Takes p → m.times p = 1

variable {p : Nat}

@[simp] theorem timesAll_nil : timesAll p [] = 0 := rfl

@[simp] theorem timesAll_cons (m : Match) (ms : List Match) :
    timesAll p (m :: ms) = m.times p + timesAll p ms := rfl

theorem times_of_takes {m : Match} (h : m.Takes p) : m.times p = max 1 (timesAll p m.children) := by
  cases m with
  | mk a b c is cs => exact if_pos h

theorem times_of_not_takes {m : Match} (h : ¬ m.Takes p) : m.times p = 0 := by
  cases m with
  | mk a b c is cs => exact if_neg h

theorem one_le_times {m : Match} (h : m.Takes p) : 1 ≤ m.times p := by
  rw [times_of_takes h]
  exact Nat.le_max_left _ _

theorem times_eq_zero_iff {m : Match} : m.times p = 0 ↔ ¬ m.Takes p := by
  refine ⟨fun h ht => ?_, times_of_not_takes⟩
  have := one_le_times ht
  omega

theorem timesAll_eq_zero_iff {ms : List Match} :
    timesAll p ms = 0 ↔ ∀ m ∈ ms, ¬ m.Takes p := by
  induction ms with
  | nil => simp
  | cons m ms ih => simp [times_eq_zero_iff, ih]

/-- A match takes a token as often as the matches inside it do, if they stay inside it, and once
more if none of them does. -/
theorem times_mk {a b : Nat} {c : Option MatchClass} {is : List (Nat × MarkerKind)}
    {cs : List Match} (hbounds : ∀ m ∈ cs, a ≤ m.start ∧ m.stop ≤ b) :
    (mk a b c is cs).times p =
      timesAll p cs + if a ≤ p ∧ p < b ∧ timesAll p cs = 0 then 1 else 0 := by
  by_cases hp : a ≤ p ∧ p < b
  · have htimes : (mk a b c is cs).times p = max 1 (timesAll p cs) := times_of_takes hp
    rw [htimes]
    split <;> omega
  · have hnone : timesAll p cs = 0 := timesAll_eq_zero_iff.2 fun m hm hmp => by
      have := hbounds m hm
      have := hmp.1
      have := hmp.2
      omega
    have htimes : (mk a b c is cs).times p = 0 := times_of_not_takes hp
    rw [htimes, hnone, if_neg (by omega)]

/-- What a match becomes part of takes a token as often as it does itself. -/
theorem max_timesAll_outerChildren {m : Match} (h : m.Takes p) :
    max 1 (timesAll p m.outerChildren) = m.times p := by
  have hself := times_of_takes h
  unfold outerChildren
  split
  · rw [timesAll_cons, timesAll_nil]
    omega
  · exact hself.symm

/-- A match takes no token twice exactly if nothing that it adds to a match around it does. -/
theorem takesOnce_iff_outerChildren {m : Match} :
    m.TakesOnce ↔ ∀ p, m.Takes p → timesAll p m.outerChildren ≤ 1 := by
  refine forall_congr' fun p => imp_congr_right fun hp => ?_
  rw [← max_timesAll_outerChildren hp]
  omega

/-! ## 2. Segments that carry tokens more than once -/

variable {n : Nat} {tokens : Array Segment} {ss us : List Segment} {f g : Nat → Nat}

/-- Segments carry the token at each place a number of times, and nothing else. -/
def CarriesTimes (n : Nat) (tokens : Array Segment) (ss : List Segment) (f : Nat → Nat) : Prop :=
  ∃ places : List Nat, Carries n ss (places.filterMap (tokens[·]?)) ∧ ∀ p, places.count p = f p

namespace CarriesTimes

theorem congr (h : CarriesTimes n tokens ss f) (hfg : ∀ p, f p = g p) :
    CarriesTimes n tokens ss g := by
  obtain ⟨places, carries, hcount⟩ := h
  exact ⟨places, carries, fun p => (hcount p).trans (hfg p)⟩

theorem of_nothing (h : Carries n ss []) : CarriesTimes n tokens ss fun _ => 0 :=
  ⟨[], h, fun _ => rfl⟩

theorem append (h : CarriesTimes n tokens ss f) (h' : CarriesTimes n tokens us g) :
    CarriesTimes n tokens (ss ++ us) fun p => f p + g p := by
  obtain ⟨xs, hxs, hf⟩ := h
  obtain ⟨ys, hys, hg⟩ := h'
  refine ⟨xs ++ ys, ?_, fun p => ?_⟩
  · rw [List.filterMap_append]
    exact hxs.append hys
  · rw [List.count_append, hf, hg]

end CarriesTimes

/-- Inlays that carry each token a number of times together. -/
inductive Tallied (n : Nat) (tokens : Array Segment) : List Inlay → (Nat → Nat) → Prop
  | nil {f : Nat → Nat} (h : ∀ p, f p = 0) : Tallied n tokens [] f
  | cons {x : Inlay} {xs : List Inlay} {f g h : Nat → Nat}
    (first : CarriesTimes n tokens x.segments f) (rest : Tallied n tokens xs g)
    (sum : ∀ p, h p = f p + g p) : Tallied n tokens (x :: xs) h

namespace Tallied

variable {xs ys : List Inlay}

theorem perm (h : Tallied n tokens xs f) (hp : xs.Perm ys) : Tallied n tokens ys f := by
  induction hp generalizing f with
  | nil => exact h
  | cons x _ ih =>
    cases h with
    | cons first rest sum => exact .cons first (ih rest) sum
  | swap x y xs =>
    obtain _ | ⟨second, rest, sum⟩ := h
    obtain _ | ⟨first, rest, sum'⟩ := rest
    refine .cons first (.cons second rest fun _ => rfl) fun p => ?_
    rw [sum, sum', Nat.add_left_comm]
  | trans _ _ ih ih' => exact ih' (ih h)

/-- Inlays that carry nothing change no tally. -/
theorem append_of_nothing (hxs : ∀ x ∈ xs, Carries n x.segments []) (h : Tallied n tokens ys f) :
    Tallied n tokens (xs ++ ys) f := by
  induction xs with
  | nil => exact h
  | cons x xs ih =>
    exact .cons (.of_nothing (hxs x (by simp))) (ih fun y hy => hxs y (by simp [hy]))
      fun p => (Nat.zero_add _).symm

end Tallied

/-! ## 3. Laying out -/

theorem tokensIn_succ (tokens : Array Segment) (a : Nat) :
    tokensIn tokens a (a + 1) = (tokens[a]?).toList := by
  rw [tokensIn, Array.toList_extract, List.extract_eq_take_drop, Nat.add_sub_cancel_left,
    List.take_one, List.head?_drop, Array.getElem?_toList]

theorem tokensIn_add (tokens : Array Segment) (a k : Nat) :
    tokensIn tokens a (a + k) = (List.range' a k).filterMap (tokens[·]?) := by
  induction k generalizing a with
  | zero => exact tokensIn_of_le (Nat.le_refl a)
  | succ k ih =>
    rw [← tokensIn_append (Nat.le_succ a) (by omega : a + 1 ≤ a + (k + 1)), tokensIn_succ,
      show a + (k + 1) = a + 1 + k by omega, ih, List.range'_succ]
    cases htoken : tokens[a]? <;> simp [htoken]

/-- The tokens between two places carry each of them once. -/
theorem carriesTimes_tokensIn (hlex : IsLexed n tokens.toList) (a b : Nat) :
    CarriesTimes n tokens (tokensIn tokens a b) fun p => if a ≤ p ∧ p < b then 1 else 0 := by
  have carries := (hlex.sublist (tokensIn_sublist a b)).carries
  by_cases hab : a ≤ b
  · obtain ⟨k, rfl⟩ := Nat.exists_eq_add_of_le hab
    refine ⟨List.range' a k, ?_, fun p => ?_⟩
    · rw [← tokensIn_add]
      exact carries
    · rw [(List.nodup_range' 1).count]
      simp
  · rw [tokensIn_of_le (by omega)] at carries ⊢
    refine (CarriesTimes.of_nothing carries).congr fun p => ?_
    rw [if_neg (by omega)]

/-- The tokens from `i` up to `stop` with inlays among them: each is carried as often as by the
inlays, and once more if it is in none of them. -/
theorem Tallied.layOut (hlex : IsLexed n tokens.toList) {xs : List Inlay}
    (h : Tallied n tokens xs f) {i stop : Nat} (hsorted : Sorted xs)
    (hbounds : ∀ x ∈ xs, x.start ≤ x.stop ∧ x.stop ≤ stop) :
    CarriesTimes n tokens (layOut tokens stop i xs) fun p => f p +
      if i ≤ p ∧ p < stop ∧ ∀ x ∈ xs, ¬ (x.start ≤ p ∧ p < x.stop) then 1 else 0 := by
  induction h generalizing i with
  | nil hzero => exact (carriesTimes_tokensIn hlex i stop).congr fun p => by simp [hzero]
  | @cons x xs f g h first _ sum ih =>
    obtain ⟨hfirst, hsorted⟩ := List.pairwise_cons.1 hsorted
    obtain ⟨hx, hxs⟩ := List.forall_mem_cons.1 hbounds
    rw [Match.layOut]
    refine (((carriesTimes_tokensIn hlex i x.start).append first).append
      (ih hsorted hxs)).congr fun p => ?_
    simp only [sum, List.forall_mem_cons]
    by_cases hp : p < x.start
    · have later : ∀ y ∈ xs, ¬ (y.start ≤ p ∧ p < y.stop) := fun y hy hyp => by
        have := hfirst y hy
        omega
      by_cases hi : i ≤ p
      · rw [if_pos ⟨hi, hp⟩, if_neg (by omega), if_pos ⟨hi, by omega, by omega, later⟩]
        omega
      · rw [if_neg (by omega), if_neg (by omega), if_neg (by omega)]
        omega
    · have same : (max (max i x.start) x.stop ≤ p ∧ p < stop ∧
            ∀ y ∈ xs, ¬ (y.start ≤ p ∧ p < y.stop)) ↔
          (i ≤ p ∧ p < stop ∧ ¬ (x.start ≤ p ∧ p < x.stop) ∧
            ∀ y ∈ xs, ¬ (y.start ≤ p ∧ p < y.stop)) := by
        refine ⟨fun h => ⟨by omega, h.2.1, by omega, h.2.2⟩, fun h => ⟨by omega, h.2.1, h.2.2.2⟩⟩
      rw [if_neg (by omega)]
      simp only [same]
      omega

/-! ## 4. Segments of a match -/

/-- The inlays of inner matches carry each token as often as these take it together. -/
theorem meets_applyAll_tallied {cs : List Match}
    (h : ∀ m ∈ cs, Meets (n ≤ ·) (m.apply tokens) fun ss =>
      CarriesTimes n tokens ss fun p => m.times p) :
    Meets (n ≤ ·) (applyAll tokens cs) fun xs => Tallied n tokens xs fun p => timesAll p cs := by
  induction cs with
  | nil =>
    rw [applyAll]
    exact .pure (.nil fun _ => rfl)
  | cons m cs ih =>
    rw [applyAll]
    exact (h m (by simp)).bind fun ss hss =>
      (ih fun m hm => h m (by simp [hm])).bind fun xs hxs => .pure (.cons hss hxs fun _ => rfl)

/-- None of the inlays of a match has the token among its own exactly if no inner match takes it. -/
theorem inlays_pass_iff {markers xs : List Inlay} {cs : List Match}
    (hempty : ∀ x ∈ markers, x.stop = x.start)
    (hspans : xs.map (fun x => (x.start, x.stop)) = cs.map (fun m => (m.start, m.stop))) :
    (∀ x ∈ sortInlays (markers ++ xs), ¬ (x.start ≤ p ∧ p < x.stop)) ↔ timesAll p cs = 0 := by
  have inner : (∀ x ∈ xs, ¬ (x.start ≤ p ∧ p < x.stop)) ↔ ∀ m ∈ cs, ¬ m.Takes p := by
    have := congrArg (fun spans => ∀ q ∈ spans, ¬ (q.1 ≤ p ∧ p < q.2)) hspans
    simpa only [List.forall_mem_map, Takes, eq_iff_iff] using this
  rw [timesAll_eq_zero_iff, ← inner]
  constructor
  · intro h x hx
    exact h x ((perm_sortInlays _).mem_iff.2 (by simp [hx]))
  · intro h x hx
    rcases List.mem_append.1 ((perm_sortInlays _).mem_iff.1 hx) with hx | hx
    · have := hempty x hx
      omega
    · exact h x hx

/-- The segments of a match carry each token as often as it takes it. -/
theorem meets_apply_times (hlex : IsLexed n tokens.toList) {apart : Prop} {m : Match}
    (h : m.Tidy apart) :
    Meets (n ≤ ·) (m.apply tokens) fun ss => CarriesTimes n tokens ss fun p => m.times p := by
  have additive : Additive n fun a b ss => Carries n ss (tokensIn tokens a b) := additive_carries
  induction h with
  | @mk a b c is cs le inserts bounds children pairwise ih =>
    by_cases hab : a < b
    · rw [apply, if_neg (by omega)]
      refine (meets_markerInlays additive inserts).bind fun markers hmarkers =>
        ((meets_applyAll fun m hm => (ih m hm).trivial).and
          (meets_applyAll_tallied ih)).bind fun xs hxs => ?_
      obtain ⟨⟨hspans, hinner⟩, htally⟩ := hxs
      have tally := (htally.append_of_nothing fun x hx => by
        obtain ⟨-, -, hempty, carries⟩ := hmarkers x hx
        rwa [hempty, tokensIn_of_le (Nat.le_refl _)] at carries).perm
          (perm_sortInlays (markers ++ xs)).symm
      have hbounds : ∀ x ∈ sortInlays (markers ++ xs), x.start ≤ x.stop ∧ x.stop ≤ b := by
        intro x hx
        rcases List.mem_append.1 ((perm_sortInlays _).mem_iff.1 hx) with hx | hx
        · obtain ⟨-, hle, hempty, -⟩ := hmarkers x hx
          omega
        · obtain ⟨m, hm, hstart, hstop, -⟩ := hinner x hx
          have := bounds m hm
          have := (children m hm).start_le_stop
          omega
      obtain ⟨places, carries, hcount⟩ := tally.layOut hlex (sorted_sortInlays _) hbounds
      refine (meets_build carries c).mono fun ss hss => ⟨places, hss, fun p => ?_⟩
      simp only [hcount, times_mk bounds,
        inlays_pass_iff (fun x hx => (hmarkers x hx).2.2.1) hspans]
    · rw [apply, if_pos (by omega)]
      refine (meets_newMarkers additive b is).mono fun ss hss => ?_
      rw [tokensIn_of_le (Nat.le_refl b)] at hss
      exact (CarriesTimes.of_nothing hss).congr fun p =>
        (times_of_not_takes (by simp only [Takes, start_mk, stop_mk]; omega)).symm

end QueryLint.Match
