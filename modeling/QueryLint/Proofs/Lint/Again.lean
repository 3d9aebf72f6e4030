import QueryLint.Lint.FixLoop
import QueryLint.Proofs.Parse
import QueryLint.Proofs.Parse.Drawn
import QueryLint.Proofs.Rule.Standard

/-!
QueryLint.Proofs.Lint.Again — fixing a file that has been fixed.

A run without warnings ends with a round that changes nothing and warns of nothing. In such a round
every rule sees the tree that the run returns, and what it proposes is nothing, or is turned down
because the tree would lose its form: all other fixes are made or warned of. A new run over that
tree starts with no history, so it has fewer reasons to turn fixes down. But what the rules propose
is the same, but for the identities of new segments, and it is turned down for the form again.

The two rounds are followed rule by rule. What the new run remembers of a rule is always what the
old one remembers of it, so fixes that are no repetition in the old run are none in the new one.

* `FixLoop.draws_step` — the loop only knows identities that have been drawn.
* `FixRun.IsQuiet` — nothing has been changed or warned of.
* `FixLoop.attempt_again`, `FixLoop.step_again`, `FixLoop.rules_again` — a quiet round run again.
* `FixLoop.run_again` — a run without warnings leaves nothing to do.
-/

namespace QueryLint

open Segment

variable {l : FixLoop} {n : Nat} {r r' : FixRun}

namespace FixRun

@[simp] theorem tree_report (vs : List Violation) : (r.report vs).tree = r.tree := by
  unfold report
  split <;> rfl

@[simp] theorem warnings_report (vs : List Violation) :
    (r.report vs).warnings = r.warnings := by
  unfold report
  split <;> rfl

@[simp] theorem changed_report (vs : List Violation) : (r.report vs).changed = r.changed := by
  unfold report
  split <;> rfl

@[simp] theorem proposed_report (vs : List Violation) :
    (r.report vs).proposed = r.proposed := by
  unfold report
  split <;> rfl

@[simp] theorem rounds_report (vs : List Violation) : (r.report vs).rounds = r.rounds := by
  unfold report
  split <;> rfl

end FixRun

namespace FixLoop

/-! ## 1. Identities of the tree -/

/-- An accepted tree has identities that have been drawn. -/
theorem draws_attempt (htree : r.tree.DrawnBefore n) (code : String) {fixes : List Fix}
    (hfixes : ∀ x ∈ fixes, x.DrawnBefore n) :
    Draws n (fun m a => ∀ tree, a = .accepted tree → tree.DrawnBefore m)
      (l.attempt r code fixes) := by
  have refused {k : Nat} {a : Attempt} (ha : ∀ tree, a ≠ .accepted tree) :
      Draws k (fun m a => ∀ tree, a = .accepted tree → tree.DrawnBefore m) (Pure.pure a) :=
    .pure fun _ _ tree h => absurd h (ha tree)
  unfold attempt
  refine .ite (fun _ => refused (by simp)) fun _ => .ite (fun _ => refused (by simp)) fun _ => ?_
  refine (FixPlan.draws_ofFixes hfixes).bind fun m plan hm hplan => ?_
  refine .ite (fun _ => refused (by simp)) fun _ => ?_
  refine (draws_applyFixes l.parser (htree.mono hm) hplan).bind fun k a _ ha => ?_
  refine .ite (fun _ => refused (by simp)) fun _ => .ite (fun _ => refused (by simp)) fun _ => ?_
  refine .pure fun m hm tree h => ?_
  cases h
  exact ha.mono hm

/-- The fixes in what a rule found, without those that are masked. -/
def fixesOf (l : FixLoop) (found : Crawl) : List Fix :=
  (l.mask.keep found.violations).flatMap (·.fixes)

/-- After a rule, the tree has identities that have been drawn. -/
theorem draws_step {rule : Rule} (hrule : rule.IsFunctional n) (htree : r.tree.DrawnBefore n) :
    Draws n (fun m r => r.tree.DrawnBefore m) (l.step r rule) := by
  unfold step
  refine (rule.draws_crawl hrule _ _ htree).bind fun m found hm hfound => ?_
  have hfixes : ∀ x ∈ l.fixesOf found, x.DrawnBefore m := by
    intro x hx
    obtain ⟨v, hv, hx⟩ := List.mem_flatMap.1 hx
    exact hfound v (IgnoreMask.mem_keep.1 hv).1 x hx
  refine (draws_attempt (htree.mono hm) rule.code hfixes).map fun k a hk ha => ?_
  have stays : r.tree.DrawnBefore k := htree.mono (Nat.le_trans hm hk)
  rw [FixRun.tree_report]
  cases a with
  | accepted tree => exact ha tree rfl
  | idle | repeated | conflicting | malformed | cycle => exact stays

theorem draws_rules {rules : List Rule} (hrules : ∀ rule ∈ rules, rule.IsFunctional n)
    (htree : r.tree.DrawnBefore n) :
    Draws n (fun m r => r.tree.DrawnBefore m) (rules.foldlM l.step r) := by
  induction rules generalizing n r with
  | nil => exact .pure fun m hm => htree.mono hm
  | cons rule rules ih =>
    obtain ⟨hrule, hrules⟩ := List.forall_mem_cons.1 hrules
    rw [List.foldlM_cons]
    exact (draws_step hrule htree).bind fun m r hm hr =>
      ih (fun rule h => (hrules rule h).mono hm) hr

/-- After a round, the tree has identities that have been drawn. -/
theorem draws_round (hrules : ∀ rule ∈ l.rules, rule.IsFunctional n)
    (htree : r.tree.DrawnBefore n) :
    Draws n (fun m r => r.tree.DrawnBefore m) (l.round r) :=
  draws_rules hrules htree

end FixLoop

/-! ## 2. Quiet rounds -/

/-- There is no warning, and the round has not changed the tree. -/
def FixRun.IsQuiet (r : FixRun) : Prop := r.warnings = [] ∧ r.changed = false

theorem FixRun.isQuiet_report (vs : List Violation) : (r.report vs).IsQuiet ↔ r.IsQuiet := by
  rw [IsQuiet, IsQuiet, warnings_report, changed_report]

/-- Nothing is proposed, or it is turned down for the form of the tree, which needs no warning. -/
def Attempt.isQuiet : Attempt → Bool
  | idle | malformed => true
  | _ => false

namespace FixLoop

theorem isQuiet_conclude (code : String) (fixes : List Fix) (a : Attempt) :
    (conclude r code fixes a).IsQuiet ↔ r.IsQuiet ∧ a.isQuiet = true := by
  cases a <;> simp [FixRun.IsQuiet, conclude, Attempt.isQuiet, FixRun.warn, FixRun.propose,
    FixRun.accept]

/-- One rule: what it found, and what became of its fixes. -/
theorem exists_run_step (r : FixRun) (rule : Rule) (m : Nat) :
    ∃ found m₁ a m₂ vs, (rule.crawl l.parser.dialect l.file r.tree).run m = (found, m₁) ∧
      (l.attempt r rule.code (l.fixesOf found)).run m₁ = (a, m₂) ∧
      (l.step r rule).run m = ((conclude r rule.code (l.fixesOf found) a).report vs, m₂) :=
  ⟨_, _, _, _, _, rfl, rfl, rfl⟩

/-- What a quiet attempt leaves of a run: its tree. -/
theorem tree_conclude {a : Attempt} (ha : a.isQuiet = true) (code : String) (fixes : List Fix) :
    (conclude r code fixes a).tree = r.tree := by
  cases a with
  | idle | malformed => rfl
  | repeated | conflicting | cycle | accepted tree => cases ha

/-- A rule that leaves a quiet run found a quiet run with the same tree, and its fixes came to
nothing without a warning. -/
theorem quiet_step {rule : Rule} {m : Nat} (h : ((l.step r rule).run m).1.IsQuiet) :
    r.IsQuiet ∧ ((l.step r rule).run m).1.tree = r.tree := by
  obtain ⟨found, m₁, a, m₂, vs, -, -, hstep⟩ := l.exists_run_step r rule m
  rw [hstep] at h ⊢
  obtain ⟨hr, ha⟩ := (isQuiet_conclude rule.code (l.fixesOf found) a).1
    ((FixRun.isQuiet_report vs).1 h)
  exact ⟨hr, by rw [FixRun.tree_report, tree_conclude ha]⟩

/-- Rules that leave a quiet run found a quiet run, and the tree stays. -/
theorem quiet_rules {rules : List Rule} {m : Nat}
    (h : ((rules.foldlM l.step r).run m).1.IsQuiet) :
    r.IsQuiet ∧ ((rules.foldlM l.step r).run m).1.tree = r.tree := by
  induction rules generalizing r m with
  | nil => exact ⟨h, rfl⟩
  | cons rule rules ih =>
    have after : ((rule :: rules).foldlM l.step r).run m =
        (rules.foldlM l.step ((l.step r rule).run m).1).run ((l.step r rule).run m).2 := rfl
    rw [after] at h ⊢
    obtain ⟨hfirst, htree⟩ := ih h
    obtain ⟨hr, hsame⟩ := quiet_step hfirst
    exact ⟨hr, htree.trans hsame⟩

end FixLoop

/-! ## 3. A quiet attempt again -/

/-- If one attempt comes to nothing without a warning, so does the other from a renamed counter, and
it ends with a renamed counter. -/
def Renaming.CarriesQuiet (ρ : Renaming) (x y : Fresh Attempt) : Prop :=
  ∀ m, ρ.start ≤ m → (x.run m).1.isQuiet = true →
    ρ.start ≤ (x.run m).2 ∧ y.run (ρ.image m) = ((x.run m).1, ρ.image (x.run m).2)

namespace Renaming.CarriesQuiet

variable {ρ : Renaming} {α β : Type}

theorem pure (a : Attempt) : ρ.CarriesQuiet (Pure.pure a) (Pure.pure a) :=
  fun _ hm _ => ⟨hm, rfl⟩

/-- Nothing is said of an attempt that changes the tree or is warned of. -/
theorem loud {a : Attempt} (h : a.isQuiet = false) {y : Fresh Attempt} :
    ρ.CarriesQuiet (Pure.pure a) y := by
  intro m _ hquiet
  have hquiet : a.isQuiet = true := hquiet
  rw [h] at hquiet
  cases hquiet

theorem bind {f : α → β} {x : Fresh α} {y : Fresh β} {k : α → Fresh Attempt}
    {k' : β → Fresh Attempt} (hx : ρ.Carries f x y) (hk : ∀ a, ρ.CarriesQuiet (k a) (k' (f a))) :
    ρ.CarriesQuiet (x >>= k) (y >>= k') := by
  intro m hm hquiet
  obtain ⟨hle, hrun⟩ := hx m hm
  have joined (i : Nat) : (y >>= k').run i = (k' (y.run i).1).run (y.run i).2 := rfl
  rw [joined, hrun]
  exact hk (x.run m).1 (x.run m).2 hle hquiet

theorem ite {p q : Prop} [Decidable p] [Decidable q] {x x' y y' : Fresh Attempt} (hpq : q ↔ p)
    (hx : p → ρ.CarriesQuiet x y) (hx' : ¬p → ρ.CarriesQuiet x' y') :
    ρ.CarriesQuiet (if p then x else x') (if q then y else y') := by
  by_cases hp : p
  · rw [if_pos hp, if_pos (hpq.2 hp)]
    exact hx hp
  · rw [if_neg hp, if_neg (mt hpq.1 hp)]
    exact hx' hp

end Renaming.CarriesQuiet

/-! ## 4. A quiet round again -/

/-- A new run over the tree of a quiet run, which has come as far in its round. It remembers fixes
of rules only as the other run does, but for the identities of new segments. -/
structure FixRun.Again (ρ : Renaming) (r r' : FixRun) : Prop where
  tree_eq : r'.tree = r.tree
  isQuiet : r'.IsQuiet
  rounds_eq : r'.rounds = 1
  proposed : ∀ code fixes, r'.proposed.lookup code = some fixes →
    ∃ old, r.proposed.lookup code = some old ∧ fixes = old.map (Fix.renamed ρ)

theorem sameFixes_renamed {ρ : Renaming} (xs ys : List Fix) :
    sameFixes (xs.map (Fix.renamed ρ)) (ys.map (Fix.renamed ρ)) = sameFixes xs ys := by
  induction xs generalizing ys with
  | nil => cases ys <;> rfl
  | cons x xs ih =>
    cases ys with
    | nil => rfl
    | cons y ys => rw [List.map_cons, List.map_cons, sameFixes, sameFixes, ih, Fix.same_renamed]

namespace FixRun

theorem lookup_propose (r : FixRun) (code other : String) (fixes : List Fix) :
    (r.propose code fixes).proposed.lookup other =
      if other = code then some fixes else r.proposed.lookup other := by
  have kept (hne : other ≠ code) (ps : List (String × List Fix)) :
      (ps.filter (·.1 != code)).lookup other = ps.lookup other := by
    induction ps with
    | nil => rfl
    | cons p ps ih =>
      obtain ⟨c, xs⟩ := p
      by_cases hc : c = code
      · rw [List.filter_cons_of_neg (by simp [hc]), ih, List.lookup_cons]
        have : (other == c) = false := by simpa [hc] using hne
        rw [this]
      · rw [List.filter_cons_of_pos (by simp [hc]), List.lookup_cons, List.lookup_cons, ih]
  show List.lookup other ((code, fixes) :: r.proposed.filter (·.1 != code)) = _
  rw [List.lookup_cons]
  by_cases hother : other = code
  · rw [if_pos hother]
    simp [hother]
  · have : (other == code) = false := by simpa using hother
    rw [if_neg hother, this]
    exact kept hother _

variable {ρ : Renaming}

theorem Again.propose (h : r.Again ρ r') (code : String) (fixes : List Fix) :
    (r.propose code fixes).Again ρ (r'.propose code (fixes.map (Fix.renamed ρ))) where
  tree_eq := h.tree_eq
  isQuiet := h.isQuiet
  rounds_eq := h.rounds_eq
  proposed other xs hxs := by
    rw [lookup_propose] at hxs ⊢
    split at hxs
    · next hother =>
      rw [if_pos hother]
      exact ⟨fixes, rfl, (Option.some.inj hxs).symm⟩
    · next hother =>
      rw [if_neg hother]
      exact h.proposed other xs hxs

theorem Again.report (h : r.Again ρ r') (vs vs' : List Violation) :
    (r.report vs).Again ρ (r'.report vs') where
  tree_eq := by simpa using h.tree_eq
  isQuiet := (isQuiet_report vs').2 h.isQuiet
  rounds_eq := by simpa using h.rounds_eq
  proposed := by simpa using h.proposed

/-- What is no repetition in the old run is none in the new one. -/
theorem Again.not_repeats (h : r.Again ρ r') {code : String} {fixes : List Fix}
    (hfixes : r.repeats code fixes = false) :
    r'.repeats code (fixes.map (Fix.renamed ρ)) = false := by
  unfold repeats at hfixes ⊢
  cases hlookup : r'.proposed.lookup code with
  | none => rfl
  | some new =>
    obtain ⟨old, hold, rfl⟩ := h.proposed code new hlookup
    rw [hold] at hfixes
    simpa [sameFixes_renamed] using hfixes

end FixRun

namespace FixLoop

variable {distance : Nat}

theorem keep_renamed {ρ : Renaming} (mask : IgnoreMask) (vs : List Violation) :
    mask.keep (vs.map (Violation.renamed ρ)) = (mask.keep vs).map (Violation.renamed ρ) := by
  rw [IgnoreMask.keep_eq, IgnoreMask.keep_eq, List.filter_map]
  rfl

theorem fixesOf_renamed {ρ : Renaming} (found : Crawl) :
    l.fixesOf (found.renamed ρ) = (l.fixesOf found).map (Fix.renamed ρ) := by
  rw [fixesOf, fixesOf, Crawl.renamed, keep_renamed, List.flatMap_map, List.map_flatMap]
  rfl

/-- Fixes that come to nothing without a warning come to nothing again. -/
theorem attempt_again (htree : r.tree.DrawnBefore n)
    (hagain : r.Again (.later n distance) r') (code : String) (fixes : List Fix) :
    (Renaming.later n distance).CarriesQuiet (l.attempt r code fixes)
      (l.attempt r' code (fixes.map (Fix.renamed (.later n distance)))) := by
  unfold attempt
  rw [List.isEmpty_map]
  refine .ite .rfl (fun _ => .pure .idle) fun _ => ?_
  by_cases hrepeats : r.repeats code fixes = true
  · rw [if_pos hrepeats]
    exact .loud rfl
  · have hrepeats' := hagain.not_repeats (Bool.eq_false_iff.2 hrepeats)
    rw [if_neg hrepeats, hrepeats', if_neg Bool.false_ne_true]
    -- The same groups of fixes.
    refine .bind (FixPlan.carries_ofFixes fixes) fun plan => ?_
    rw [FixPlan.isValid_renamed]
    refine .ite .rfl (fun _ => .loud rfl) fun _ => ?_
    -- The same tree.
    have happlied := carries_applyFixes (ρ := .later n distance) l.parser r.tree plan
    rw [renamed_later distance r.tree htree] at happlied
    rw [hagain.tree_eq]
    refine .bind happlied fun result => .ite .rfl (fun _ => .pure .malformed) fun _ => ?_
    split
    · exact .loud rfl
    · exact .loud rfl

/-- A rule that leaves a quiet run leaves one again. -/
theorem step_again {rule : Rule} (hrule : rule.IsFunctional n) (htree : r.tree.DrawnBefore n)
    (hagain : r.Again (.later n distance) r') {m : Nat} (hm : n ≤ m)
    (hquiet : ((l.step r rule).run m).1.IsQuiet) :
    n ≤ ((l.step r rule).run m).2 ∧ ∃ next,
      (l.step r' rule).run ((Renaming.later n distance).image m) =
        (next, (Renaming.later n distance).image ((l.step r rule).run m).2) ∧
      ((l.step r rule).run m).1.Again (.later n distance) next := by
  obtain ⟨found, m₁, a, m₂, vs, hfound, ha, hstep⟩ := l.exists_run_step r rule m
  obtain ⟨found', k₁, a', k₂, vs', hfound', ha', hstep'⟩ :=
    l.exists_run_step r' rule ((Renaming.later n distance).image m)
  rw [hstep] at hquiet ⊢
  rw [hstep']
  obtain ⟨-, hquiet⟩ := (isQuiet_conclude rule.code (l.fixesOf found) a).1
    ((FixRun.isQuiet_report vs).1 hquiet)
  -- The rule finds the same.
  obtain ⟨hm₁, hcrawl⟩ := rule.carries_crawl hrule l.parser.dialect l.file htree distance m hm
  rw [hfound] at hm₁ hcrawl
  rw [hagain.tree_eq, hcrawl, Prod.mk.injEq] at hfound'
  obtain ⟨rfl, rfl⟩ := hfound'
  -- The same becomes of it.
  have happened := attempt_again (l := l) htree hagain rule.code (l.fixesOf found) m₁ hm₁
  rw [ha] at happened
  obtain ⟨hm₂, hattempt⟩ := happened hquiet
  rw [fixesOf_renamed, hattempt, Prod.mk.injEq] at ha'
  obtain ⟨rfl, rfl⟩ := ha'
  refine ⟨hm₂, _, rfl, ?_⟩
  rw [fixesOf_renamed]
  cases a with
  | idle => exact hagain.report vs vs'
  | malformed => exact (hagain.propose _ _).report vs vs'
  | repeated | conflicting | cycle | accepted tree => cases hquiet

/-- Rules that leave a quiet run leave one again. -/
theorem rules_again {rules : List Rule} (hrules : ∀ rule ∈ rules, rule.IsFunctional n)
    (htree : r.tree.DrawnBefore n) (hagain : r.Again (.later n distance) r') {m : Nat} (hm : n ≤ m)
    (hquiet : ((rules.foldlM l.step r).run m).1.IsQuiet) :
    ((rules.foldlM l.step r).run m).1.Again (.later n distance)
      ((rules.foldlM l.step r').run ((Renaming.later n distance).image m)).1 := by
  induction rules generalizing r r' m with
  | nil => exact hagain
  | cons rule rules ih =>
    obtain ⟨hrule, hrules⟩ := List.forall_mem_cons.1 hrules
    have after (r : FixRun) (m : Nat) : ((rule :: rules).foldlM l.step r).run m =
        (rules.foldlM l.step ((l.step r rule).run m).1).run ((l.step r rule).run m).2 := rfl
    rw [after] at hquiet ⊢
    obtain ⟨hfirst, -⟩ := quiet_rules hquiet
    obtain ⟨-, hsame⟩ := quiet_step hfirst
    obtain ⟨hm', next, hnext, hagain'⟩ := step_again hrule htree hagain hm hfirst
    rw [after, hnext]
    exact ih hrules (by rwa [hsame]) hagain' hm' hquiet

/-! ## 5. Runs -/

/-- A run without warnings ends with a quiet round over the tree that it returns. -/
theorem exists_quiet_round {fuel m : Nat} (hrules : ∀ rule ∈ l.rules, rule.IsFunctional m)
    (htree : r.tree.DrawnBefore m) (h : ((l.rounds fuel r).run m).1.warnings = []) :
    ∃ (last : FixRun) (k : Nat), last.tree.DrawnBefore k ∧ m ≤ k ∧
      k ≤ ((l.rounds fuel r).run m).2 ∧
      ((l.rounds fuel r).run m).1 = ((l.round last).run k).1 ∧
      ((l.round last).run k).1.IsQuiet := by
  induction fuel generalizing r m with
  | zero =>
    have warned : ((l.rounds 0 r).run m).1.warnings = r.warnings ++ [_] := rfl
    rw [warned] at h
    simp at h
  | succ fuel ih =>
    obtain ⟨hle, hdrawn⟩ := draws_round hrules htree m (Nat.le_refl m)
    have after : (l.rounds (fuel + 1) r).run m =
        if ((l.round r).run m).1.changed then
          (l.rounds fuel ((l.round r).run m).1).run ((l.round r).run m).2
        else (l.round r).run m := by
      show (if ((l.round r).run m).1.changed then _ else _ : Fresh FixRun).run _ = _
      split <;> rfl
    rw [after] at h ⊢
    split at h
    · next hchanged =>
      rw [if_pos hchanged]
      obtain ⟨last, k, hlast, hk, rest⟩ :=
        ih (fun rule h => (hrules rule h).mono hle) hdrawn h
      exact ⟨last, k, hlast, Nat.le_trans hle hk, rest⟩
    · next hchanged =>
      rw [if_neg hchanged]
      exact ⟨r, m, htree, Nat.le_refl m, hle, rfl, h, by simpa using hchanged⟩

/-- A run with fixes that ends without warnings leaves nothing to do: run again over the tree that
it returns, at any later time, the loop takes one round, returns the same tree and warns of nothing.
The rules find what is a function of their context, as those of the library do, and the identities
in the tree have been drawn when the run begins, as those of a parsed tree have. -/
theorem run_again (hfixing : l.fixing = true) {tree : Segment} {n k : Nat}
    (hrules : ∀ rule ∈ l.rules, rule.IsFunctional n) (htree : tree.DrawnBefore n)
    (hquiet : ((l.run tree).run n).1.warnings = []) (hk : ((l.run tree).run n).2 ≤ k) :
    ((l.run ((l.run tree).run n).1.tree).run k).1.rounds = 1 ∧
      ((l.run ((l.run tree).run n).1.tree).run k).1.tree = ((l.run tree).run n).1.tree ∧
      ((l.run ((l.run tree).run n).1.tree).run k).1.warnings = [] := by
  have fixes (tree : Segment) : l.run tree = l.rounds l.roundLimit (start tree) := if_pos hfixing
  rw [fixes tree] at hquiet hk ⊢
  obtain ⟨last, m, hlast, hn, hm, hrun, hround⟩ := exists_quiet_round hrules htree hquiet
  rw [hrun] at hquiet ⊢
  obtain ⟨-, hsame⟩ := quiet_rules hround
  have same : ((l.round last).run m).1.tree = last.tree := hsame
  have begun : FixRun.Again (.later m (k - m))
      { last with rounds := last.rounds + 1, changed := false }
      { start last.tree with rounds := 1, changed := false } :=
    ⟨rfl, ⟨rfl, rfl⟩, rfl, fun code fixes h => by cases h⟩
  have again : ((l.round last).run m).1.Again (.later m (k - m))
      ((l.round (start last.tree)).run ((Renaming.later m (k - m)).image m)).1 :=
    rules_again (r := { last with rounds := last.rounds + 1, changed := false })
      (fun rule h => (hrules rule h).mono hn) hlast begun (Nat.le_refl m) hround
  rw [Renaming.later_of_le (Nat.le_refl m), Nat.add_sub_cancel' (Nat.le_trans hm hk)] at again
  have limit : l.roundLimit = (l.roundLimit - 1) + 1 := by
    have := Nat.le_max_right l.limit 1
    unfold roundLimit
    omega
  have once : (l.run last.tree).run k = (l.round (start last.tree)).run k := by
    rw [fixes, limit]
    show (if ((l.round (start last.tree)).run k).1.changed then _ else _ : Fresh FixRun).run _ = _
    have settled : ((l.round (start last.tree)).run k).1.changed = false := again.isQuiet.2
    rw [settled]
    rfl
  rw [same, once]
  exact ⟨again.rounds_eq, again.tree_eq.trans same, again.isQuiet.1⟩

/-- A rule that takes a word away wherever it stands. -/
def forbidding (word : String) : Rule where
  code := "L901"
  description := "Forbidden word."
  eval c := return .ok <|
    if c.segment.raw = word then [(Finding.about c.segment).withFixes [.delete c.segment]] else []

theorem isFunctional_forbidding (word : String) : (forbidding word).IsFunctional n := by
  intro c m _ hc
  have hs : c.segment.DrawnBefore m := hc c.segment (by simp [Site.segments])
  unfold forbidding
  dsimp only
  split
  · exact redraws_deletes hs (List.forall_mem_singleton.2 hs)
  · exact redraws_nothing

/-- Keywords are put in upper case, a line end is added, and a keyword in upper case is to be taken
away, which the grammar does not let happen. -/
def upperLoop : FixLoop where
  rules := [forbidding "A", .finalNewline, .keywordCase (.fixed .upper)]
  parser := Parser.ofBook Parser.roundBook
  file := .ofString "ab" ""
  mask := ⟨[]⟩
  fixing := true
  limit := 10

/-- The tree of two words, of which the first is a keyword. -/
def twoWords : Segment :=
  ((upperLoop.parser.parse (Parser.wordTokens 0 0 ["a", "b"])).run 3).1.tree

/-- The first run changes the text and takes two rounds; in the second the keyword is still to be
taken away. The run after it takes one. -/
theorem run_again_upperLoop :
    ((upperLoop.run twoWords).run 100).1.rounds = 2 ∧
      ((upperLoop.run twoWords).run 100).1.tree.raw = "Ab\n" ∧
      ((upperLoop.run twoWords).run 100).1.proposed.map (·.1) = ["L901", "L010", "L009"] ∧
      ((upperLoop.run ((upperLoop.run twoWords).run 100).1.tree).run 500).1.rounds = 1 ∧
      ((upperLoop.run ((upperLoop.run twoWords).run 100).1.tree).run 500).1.tree =
        ((upperLoop.run twoWords).run 100).1.tree ∧
      ((upperLoop.run ((upperLoop.run twoWords).run 100).1.tree).run 500).1.warnings = [] := by
  have functional : ∀ rule ∈ upperLoop.rules, rule.IsFunctional 100 := by
    refine List.forall_mem_cons.2 ⟨isFunctional_forbidding "A", ?_⟩
    exact List.forall_mem_cons.2 ⟨Rule.isFunctional_finalNewline,
      List.forall_mem_singleton.2 (Rule.isFunctional_keywordCase _)⟩
  have words : ∀ t ∈ Parser.wordTokens 0 0 ["a", "b"], t.DrawnBefore 3 :=
    forall_drawnBefore_of_ids _ (by decide +kernel)
  have drawn : twoWords.DrawnBefore 100 :=
    (upperLoop.parser.draws_parse words 3 (Nat.le_refl 3)).2.mono (by decide +kernel)
  have quiet : ((upperLoop.run twoWords).run 100).1.warnings.isEmpty = true := by decide +kernel
  refine ⟨by decide +kernel, by decide +kernel, by decide +kernel, ?_⟩
  exact run_again rfl functional drawn (List.isEmpty_iff.1 quiet) (by decide +kernel)

end FixLoop

end QueryLint
