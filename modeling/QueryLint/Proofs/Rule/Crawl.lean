import QueryLint.Proofs.Fix.Renamed
import QueryLint.Rule.Crawl

/-!
QueryLint.Proofs.Rule.Crawl — what a rule finds when it is asked again.

A rule is given a segment with all that is around it, and what it remembers. If what it finds is a
function of that, it finds the same in the same tree at any time, except that the segments of its
fixes take their identities from the counter as it stands. So what it finds later is what it found,
with other identities in place of those that it drew.

* `Rule.IsFunctional` — what a rule finds is a function of its context.
* `Rule.carries_crawl` — such a rule finds the same again.
* `Rule.draws_crawl` — its fixes bring in identities that have been drawn.
-/

namespace QueryLint

open Segment

/-! ## 1. Findings with other identities -/

section Renamed

variable {ρ : Renaming}

/-- A finding about segments with other identities. -/
def Finding.renamed (ρ : Renaming) (x : Finding) : Finding :=
  { x with anchor := x.anchor.map (Segment.renamed ρ), fixes := x.fixes.map (Fix.renamed ρ) }

/-- What a rule says of segments with other identities. -/
def renamedFindings (ρ : Renaming) (r : Except RuleFault (List Finding)) :
    Except RuleFault (List Finding) :=
  r.map (List.map (Finding.renamed ρ))

/-- A violation whose fixes are of segments with other identities. -/
def Violation.renamed (ρ : Renaming) (v : Violation) : Violation :=
  { v with fixes := v.fixes.map (Fix.renamed ρ) }

/-- What a rule found in a tree with other identities. -/
def Crawl.renamed (ρ : Renaming) (c : Crawl) : Crawl :=
  { c with violations := c.violations.map (Violation.renamed ρ) }

theorem Rule.violation?_renamed (r : Rule) (f : TemplatedFile) (x : Finding) :
    r.violation? f (x.renamed ρ) = (r.violation? f x).map (Violation.renamed ρ) := by
  cases hx : x.anchor with
  | none => simp [violation?, Finding.renamed, hx]
  | some anchor =>
    simp [violation?, Finding.renamed, Violation.renamed, hx, safeFixes_renamed]

theorem Rule.memoryAfter_renamed (m : Memory) (found : List Finding) :
    memoryAfter m (found.map (Finding.renamed ρ)) = memoryAfter m found := by
  rw [memoryAfter, memoryAfter, List.filterMap_map]
  rfl

end Renamed

/-! ## 2. Contexts -/

variable {n : Nat}

/-- All segments of a site. -/
def Site.segments (s : Site) : List Segment :=
  s.segment :: (s.parents ++ s.siblingsBefore ++ s.siblingsAfter ++ s.leavesBefore)

/-- The identities in a site were drawn before the counter stood at `n`. -/
def Site.DrawnBefore (n : Nat) (s : Site) : Prop := ∀ t ∈ s.segments, t.DrawnBefore n

namespace Segment

mutual

/-- The sites of a tree have identities that are in it or around it. -/
theorem drawnBefore_sitesIn (whole : Bool) {parents before after leaves : List Segment}
    (hparents : ∀ t ∈ parents, t.DrawnBefore n) (hbefore : ∀ t ∈ before, t.DrawnBefore n)
    (hafter : ∀ t ∈ after, t.DrawnBefore n) (hleaves : ∀ t ∈ leaves, t.DrawnBefore n)
    (s : Segment) (hs : s.DrawnBefore n) :
    ∀ x ∈ sitesIn whole parents before after leaves s, x.DrawnBefore n := by
  match s with
  | mk i cs =>
    have own : Site.DrawnBefore n ⟨mk i cs, parents, before, after, leaves⟩ := by
      simp only [Site.DrawnBefore, Site.segments, List.forall_mem_cons, List.forall_mem_append]
      exact ⟨hs, ⟨⟨hparents, hbefore⟩, hafter⟩, hleaves⟩
    have around : ∀ t ∈ parents ++ [mk i cs], t.DrawnBefore n := by
      simpa only [List.forall_mem_append, List.forall_mem_singleton] using ⟨hparents, hs⟩
    rw [sitesIn]
    split
    · simp
    · exact List.forall_mem_cons.2
        ⟨own, drawnBefore_sitesInAll whole around (by simp) hleaves cs hs.inside⟩
termination_by structural s

theorem drawnBefore_sitesInAll (whole : Bool) {parents before leaves : List Segment}
    (hparents : ∀ t ∈ parents, t.DrawnBefore n) (hbefore : ∀ t ∈ before, t.DrawnBefore n)
    (hleaves : ∀ t ∈ leaves, t.DrawnBefore n) (ss : List Segment)
    (hss : ∀ s ∈ ss, s.DrawnBefore n) :
    ∀ x ∈ sitesInAll whole parents before leaves ss, x.DrawnBefore n := by
  match ss with
  | [] => simp [sitesInAll]
  | s :: rest =>
    obtain ⟨hs, hrest⟩ := List.forall_mem_cons.1 hss
    have passed : ∀ t ∈ s.leaves.reverse ++ leaves, t.DrawnBefore n := by
      simp only [List.forall_mem_append, List.mem_reverse]
      exact ⟨Every.leaves hs, hleaves⟩
    rw [sitesInAll, List.forall_mem_append]
    exact ⟨drawnBefore_sitesIn whole hparents hbefore hrest hleaves s hs,
      drawnBefore_sitesInAll whole hparents (List.forall_mem_cons.2 ⟨hs, hbefore⟩) passed rest
        hrest⟩
termination_by structural ss

end

end Segment

/-! ## 3. Rules -/

/-- What the fixes of a finding bring in was drawn before the counter stood at `n`. -/
def Finding.DrawnBefore (n : Nat) (x : Finding) : Prop := ∀ y ∈ x.fixes, y.DrawnBefore n

/-- The same of all that a rule says. -/
def DrawnFindings (n : Nat) (r : Except RuleFault (List Finding)) : Prop :=
  ∀ xs, r = .ok xs → ∀ x ∈ xs, x.DrawnBefore n

/-- What a rule finds is a function of its context, except for the identities that it draws: with
the counter further on it draws others in place of those it drew, and finds the same otherwise. It
brings in no identities but those of its context, those that it draws, and those that it holds
itself, which were drawn before the counter stood at `n`. -/
def Rule.IsFunctional (n : Nat) (r : Rule) : Prop :=
  ∀ (c : RuleContext) (m : Nat), n ≤ m → c.DrawnBefore m →
    Redraws m renamedFindings DrawnFindings (r.eval c)

theorem Rule.IsFunctional.mono {r : Rule} (h : r.IsFunctional n) {m : Nat} (hnm : n ≤ m) :
    r.IsFunctional m :=
  fun c k hk => h c k (Nat.le_trans hnm hk)

namespace Rule

variable {r : Rule} {tree : Segment}

theorem drawnBefore_sites (htree : tree.DrawnBefore n) :
    ∀ x ∈ r.sites tree, x.DrawnBefore n := by
  intro x hx
  have nothing : ∀ t ∈ ([] : List Segment), t.DrawnBefore n := by simp
  exact drawnBefore_sitesIn r.worksOnUnparsable nothing nothing nothing nothing tree htree x
    (List.mem_filter.1 hx).1

/-- A rule finds the same again in the same tree, with the identities that are drawn then. -/
theorem carries_crawl (hr : r.IsFunctional n) (d : Dialect) (f : TemplatedFile)
    (htree : tree.DrawnBefore n) (distance : Nat) :
    (Renaming.later n distance).Carries (Crawl.renamed (.later n distance)) (r.crawl d f tree)
      (r.crawl d f tree) := by
  have onSites (sites : List Site) (h : ∀ x ∈ sites, x.DrawnBefore n) (m : Memory) :
      (Renaming.later n distance).Carries (Crawl.renamed (.later n distance))
        (r.crawlSites d f m sites) (r.crawlSites d f m sites) := by
    induction sites generalizing m with
    | nil => exact .pure rfl
    | cons s rest ih =>
      obtain ⟨hs, hrest⟩ := List.forall_mem_cons.1 h
      rw [crawlSites]
      refine ((hr ⟨s, m, d, f⟩ n (Nat.le_refl n) hs).carries distance).bind fun found => ?_
      cases found with
      | error fault => exact .pure rfl
      | ok found =>
        dsimp only [renamedFindings, Except.map]
        rw [memoryAfter_renamed]
        refine (ih hrest _).map fun later => ?_
        have violations : (r.violation? f) ∘ Finding.renamed (.later n distance) =
            fun x => (r.violation? f x).map (Violation.renamed (.later n distance)) :=
          funext fun x => r.violation?_renamed f x
        rw [List.filterMap_map, violations]
        simp [Crawl.renamed, List.map_filterMap]
  exact onSites _ (drawnBefore_sites htree) .empty

/-- The fixes that a rule finds bring in identities that have been drawn by then. -/
theorem draws_crawl (hr : r.IsFunctional n) (d : Dialect) (f : TemplatedFile)
    (htree : tree.DrawnBefore n) :
    Draws n (fun m c => ∀ v ∈ c.violations, ∀ x ∈ v.fixes, x.DrawnBefore m)
      (r.crawl d f tree) := by
  have onSites (sites : List Site) (k : Nat) (hk : n ≤ k) (h : ∀ x ∈ sites, x.DrawnBefore k)
      (m : Memory) :
      Draws k (fun m c => ∀ v ∈ c.violations, ∀ x ∈ v.fixes, x.DrawnBefore m)
        (r.crawlSites d f m sites) := by
    induction sites generalizing k m with
    | nil => exact .pure (by simp)
    | cons s rest ih =>
      obtain ⟨hs, hrest⟩ := List.forall_mem_cons.1 h
      rw [crawlSites]
      refine (hr ⟨s, m, d, f⟩ k hk hs).draws.bind fun k' found hk' hfound => ?_
      cases found with
      | error fault => exact .pure (by simp)
      | ok found =>
        have after : ∀ x ∈ rest, x.DrawnBefore k' := fun x hx t ht => (hrest x hx t ht).mono hk'
        refine (ih k' (Nat.le_trans hk hk') after _).map fun k'' later hk'' hlater => ?_
        dsimp only
        rw [List.forall_mem_append]
        refine ⟨fun v hv x hx s hs => ?_, hlater⟩
        obtain ⟨y, hy, hv⟩ := List.mem_filterMap.1 hv
        obtain ⟨anchor, -, rfl⟩ := Option.map_eq_some_iff.1 hv
        have mem : x ∈ y.fixes := by
          have hx : x ∈ safeFixes f y.fixes := hx
          unfold safeFixes at hx
          split at hx
          · cases hx
          · exact hx
        exact (hfound found rfl y hy x mem s hs).mono hk''
  exact onSites _ n (Nat.le_refl n) (drawnBefore_sites htree) .empty

end Rule

end QueryLint
