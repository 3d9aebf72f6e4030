import QueryLint.Proofs.Match.Holds
import QueryLint.Proofs.Segment.Balance

/-!
QueryLint.Proofs.Match.Steady — markers that raise the indentation and lower it again.

The markers of a match are put in before tokens; those before the same token stay in order. That
they are balanced when they are laid out like this can be said without laying them out: it is enough
to look at the markers before one token, in their order, after all those before earlier tokens. Said
like this it is kept when markers are put behind others, wherever these go.

A match that holds something unparsable may end before its markers are complete. For all others,
being balanced is kept by all ways of putting matches together.

* `Match.Steady` — markers that never lower the indentation below where it was.
* `Match.Even` — a match that holds something unparsable, or whose markers are balanced.
-/

namespace QueryLint

/-! ## 1. Levels -/

/-- From a level of the indentation, markers come back to where it was, and never go below. -/
def Returns (level : Int) : List MarkerKind → Prop
  | [] => level = 0
  | k :: ks => 0 ≤ level + k.indentation ∧ Returns (level + k.indentation) ks

instance Returns.decidable (level : Int) : (ks : List MarkerKind) → Decidable (Returns level ks)
  | [] => inferInstanceAs (Decidable (level = 0))
  | k :: ks =>
    have := Returns.decidable (level + k.indentation) ks
    inferInstanceAs (Decidable (0 ≤ level + k.indentation ∧ Returns _ ks))

namespace Match

/-! ## 2. Markers of a match -/

/-- By how much markers change the indentation. -/
def change (is : List (Nat × MarkerKind)) : Int := (is.map (·.2.indentation)).sum

@[simp] theorem change_nil : change [] = 0 := rfl

@[simp] theorem change_cons (x : Nat × MarkerKind) (is : List (Nat × MarkerKind)) :
    change (x :: is) = x.2.indentation + change is := by
  simp [change]

@[simp] theorem change_append (is js : List (Nat × MarkerKind)) :
    change (is ++ js) = change is + change js := by
  simp [change]

/-- Markers up to a place are those before it and those at it. -/
theorem change_filter {is : List (Nat × MarkerKind)} {k : Nat} (hk : ∀ x ∈ is, x.1 ≤ k) :
    change (is.filter (·.1 < k)) + change (is.filter (·.1 = k)) = change is :=
  sum_map_filter_of_le _ hk

/-- Markers that never lower the indentation below where it was: not before any token, after all
markers before earlier tokens. -/
def Steady (is : List (Nat × MarkerKind)) : Prop :=
  ∀ k l, l <+: is → 0 ≤ change (is.filter (·.1 < k)) + change (l.filter (·.1 = k))

namespace Steady

variable {is js : List (Nat × MarkerKind)}

theorem nil : Steady [] := fun k l hl => by simp [List.prefix_nil.1 hl]

/-- Before any place the indentation has not been lowered. -/
theorem change_before (h : Steady is) (k : Nat) : 0 ≤ change (is.filter (·.1 < k)) := by
  simpa using h k [] List.nil_prefix

/-- Markers behind others need not go to later places. -/
theorem append (hi : Steady is) (hj : Steady js) : Steady (is ++ js) := by
  intro k l hl
  rw [List.filter_append, change_append]
  rcases prefix_append_cases hl with hl | ⟨l', hl', rfl⟩
  · have := hi k l hl
    have := hj.change_before k
    omega
  · have := hi k is List.prefix_rfl
    have := hj k l' hl'
    rw [List.filter_append, change_append]
    omega

/-- A marker at a place that is not before any other goes last. -/
theorem put (h : Steady is) {p : Nat} (hp : ∀ x ∈ is, x.1 ≤ p) {kind : MarkerKind}
    (hkind : 0 ≤ change is + kind.indentation) : Steady (is ++ [(p, kind)]) := by
  have before (k : Nat) (hk : k ≤ p) :
      (is ++ [(p, kind)]).filter (·.1 < k) = is.filter (·.1 < k) := by
    rw [List.filter_append, List.filter_cons_of_neg (by simpa using hk), List.filter_nil,
      List.append_nil]
  intro k l hl
  by_cases hk : k ≤ p
  · rw [before k hk]
    rcases prefix_append_cases hl with hl | ⟨l', hl', rfl⟩
    · exact h k l hl
    · have whole := h k is List.prefix_rfl
      rcases List.prefix_cons_iff.1 hl' with rfl | ⟨l'', rfl, hl''⟩
      · rwa [List.append_nil]
      obtain rfl := List.prefix_nil.1 hl''
      rw [List.filter_append, change_append]
      rcases Nat.lt_or_eq_of_le hk with hlt | rfl
      · rw [List.filter_cons_of_neg (by simp; omega)]
        simpa using whole
      · have upTo := change_filter hp
        simp only [List.filter_cons_of_pos, decide_true, List.filter_nil, change_cons, change_nil]
        omega
  · have later : (is ++ [(p, kind)]).filter (·.1 < k) = is ++ [(p, kind)] := by
      refine List.filter_eq_self.2 fun x hx => ?_
      rcases List.mem_append.1 hx with hx | hx
      · have := hp x hx
        simp only [decide_eq_true_eq]
        omega
      · obtain rfl := List.mem_singleton.1 hx
        simp only [decide_eq_true_eq]
        omega
    have none : l.filter (·.1 = k) = [] := by
      refine List.filter_eq_nil_iff.2 fun x hx => ?_
      have hmem := hl.subset hx
      rw [← later, List.mem_filter] at hmem
      simp only [decide_eq_true_eq] at hmem ⊢
      omega
    rw [later, none, change_append]
    simpa using hkind

/-- Markers that come back to where the indentation was can be put in at a place one after the
other. -/
theorem putAll (h : Steady is) {p : Nat} (hp : ∀ x ∈ is, x.1 ≤ p) {ks rest : List MarkerKind}
    (hks : Returns (change is) (ks ++ rest)) :
    Steady (is ++ ks.map (p, ·)) ∧ Returns (change (is ++ ks.map (p, ·))) rest := by
  induction ks generalizing is with
  | nil => simpa using ⟨h, hks⟩
  | cons kind ks ih =>
    obtain ⟨hkind, hrest⟩ := hks
    have next := h.put hp hkind
    have hp' : ∀ x ∈ is ++ [(p, kind)], x.1 ≤ p := by
      intro x hx
      rcases List.mem_append.1 hx with hx | hx
      · exact hp x hx
      · obtain rfl := List.mem_singleton.1 hx
        exact Nat.le_refl _
    have := ih next hp' (by simpa using hrest)
    simpa using this

/-- The markers of a pair of brackets: after the opening one and before the closing one. -/
theorem pair {a b : Nat} (hab : a ≤ b) : Steady [(a, .indent), (b, .dedent)] := by
  have first : Steady [(a, .indent)] := nil.put (by simp) (by decide)
  exact first.put (by simpa using hab) (by simp [MarkerKind.indentation])

end Steady

/-! ## 3. Matches -/

/-- Markers that are balanced, unless one of the matches beside them holds something unparsable. -/
def MarkersEven (cs : List Match) (is : List (Nat × MarkerKind)) : Prop :=
  (∃ k, anyHolds isUnparsable k cs = true) ∨ Steady is ∧ change is = 0

/-- The match holds something unparsable, or its markers are balanced; and so is every match inside
it. -/
inductive Even : Match → Prop where
  | mk {a b : Nat} {c : Option MatchClass} {is : List (Nat × MarkerKind)} {cs : List Match}
      (markers : (∃ k, (Match.mk a b c is cs).holds isUnparsable k = true) ∨
        Steady is ∧ change is = 0)
      (children : ∀ m ∈ cs, Even m) : Even (.mk a b c is cs)

theorem MarkersEven.nil (cs : List Match) : MarkersEven cs [] := .inr ⟨.nil, rfl⟩

theorem MarkersEven.append {cs ds : List Match} {is js : List (Nat × MarkerKind)}
    (h : MarkersEven cs is) (h' : MarkersEven ds js) : MarkersEven (cs ++ ds) (is ++ js) := by
  rcases h with ⟨k, hk⟩ | ⟨steady, zero⟩
  · exact .inl ⟨k, by simp [hk]⟩
  rcases h' with ⟨k, hk⟩ | ⟨steady', zero'⟩
  · exact .inl ⟨k, by simp [hk]⟩
  · exact .inr ⟨steady.append steady', by rw [change_append, zero, zero', Int.add_zero]⟩

/-- Tokens that could not be placed may end a match before its markers are complete. -/
theorem MarkersEven.of_unparsable (cs : List Match) (is : List (Nat × MarkerKind)) {a b : Nat}
    (hab : a < b) (expected : String) : MarkersEven (cs ++ [.unparsable a b expected]) is := by
  have held : (Match.unparsable a b expected).holds isUnparsable a = true :=
    holds_self (Nat.le_refl a) hab rfl
  exact .inl ⟨a, by simp [held]⟩

namespace Even

variable {a b : Nat} {c : Option MatchClass} {is : List (Nat × MarkerKind)} {cs : List Match}
  {m : Match}

theorem of_parts (h : MarkersEven cs is) (children : ∀ m ∈ cs, m.Even) :
    (Match.mk a b c is cs).Even := by
  refine .mk (h.imp_left ?_) children
  rintro ⟨k, hk⟩
  exact ⟨k, holds_of_children hk⟩

theorem plain (a b : Nat) (c : Option MatchClass) (children : ∀ m ∈ cs, m.Even) :
    (Match.mk a b c [] cs).Even := of_parts (.nil cs) children

theorem empty (i : Nat) : (Match.empty i).Even := plain i i none (by simp)

theorem unparsable (a b : Nat) (expected : String) : (Match.unparsable a b expected).Even :=
  plain a b _ (by simp)

theorem children (h : m.Even) : ∀ x ∈ m.children, x.Even := by
  cases h with
  | mk _ children => exact children

theorem outerChildren (h : m.Even) : ∀ x ∈ m.outerChildren, x.Even := by
  unfold Match.outerChildren
  split
  · exact List.forall_mem_singleton.2 h
  · exact h.children

/-- The markers that a match adds to one that it becomes part of are even. -/
theorem outer (h : m.Even) : MarkersEven m.outerChildren m.outerInserts := by
  cases h with
  | @mk a b c is cs markers _ =>
    cases c with
    | some c => exact .nil _
    | none =>
      refine markers.imp_left ?_
      rintro ⟨k, hk⟩
      rcases holds_iff.1 hk with ⟨-, hself⟩ | hcs
      · cases hself
      · exact ⟨k, hcs⟩

theorem append {x y : Match} (hx : x.Even) (hy : y.Even) : (x.append y).Even := by
  unfold Match.append
  split
  · exact hy
  split
  · exact hx
  · exact of_parts (hx.outer.append hy.outer)
      (List.forall_mem_append.2 ⟨hx.outerChildren, hy.outerChildren⟩)

theorem wrap (h : m.Even) (k : MatchClass) : (m.wrap k).Even := by
  unfold Match.wrap
  split
  · exact h
  split
  · next hnone =>
    cases h with
    | @mk a b c is cs markers children =>
      obtain rfl : c = none := Option.isNone_iff_eq_none.1 hnone
      refine of_parts (markers.imp_left ?_) children
      rintro ⟨k, hk⟩
      exact ⟨k, (holds_iff.1 hk).resolve_left fun hself => by cases hself.2⟩
  · exact plain _ _ _ (List.forall_mem_singleton.2 h)

theorem wrap? (h : m.Even) (k : Option MatchClass) : (m.wrap? k).Even := by
  cases k with
  | none => exact h
  | some k => exact h.wrap k

/-- Tokens that could not be placed may have any markers among them. -/
theorem wrap_unparsable (hab : a < b) (children : ∀ m ∈ cs, m.Even) (expected : String) :
    ((Match.mk a b none is cs).wrap (.unparsable expected)).Even := by
  have matched : (Match.mk a b none is cs).isMatch = true := isMatch_of_lt hab
  unfold Match.wrap
  rw [if_neg (by simp [matched]), if_pos (by rfl)]
  exact .mk (.inl ⟨a, holds_self (Nat.le_refl a) hab rfl⟩) children

end Even

end Match

end QueryLint
