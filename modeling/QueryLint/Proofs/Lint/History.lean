import Mathlib.Data.List.Nodup
import Mathlib.Tactic.SplitIfs
import QueryLint.Proofs.Lint.Again

/-!
QueryLint.Proofs.Lint.History — what happens in a run of the loop, turn by turn.

A run keeps its last tree only. Here it is told in full: the rounds in their order, and in each the
turns of the rules, with the run before and after, the fixes that were proposed and what became of
them. Telling does not change what is run.

Of one turn it is enough to know how an attempt ends and what is concluded from it. What holds of
whole runs follows by induction on the turns: the states that were there are those of the trees
that were held, and as an accepted tree has none of them, no state comes twice.

* `FixLoop.tell` — a run, told; `FixLoop.run_tell` says that it is the run.
* `FixLoop.Turn.IsRefused` — the four reasons to turn fixes down.
* `FixLoop.Turn.accepted_iff` — fixes are made if there is no reason against it.
* `FixLoop.Holds` — what a run remembers of the trees it held.
* `FixLoop.tell_holds` — the trees of a run, its rounds, and when it warns that it did not settle.
-/

namespace QueryLint

@[simp] theorem FixRun.seen_report (r : FixRun) (vs : List Violation) :
    (r.report vs).seen = r.seen := by
  unfold report
  split <;> rfl

namespace FixLoop

variable {l : FixLoop} {r : FixRun}

/-! ## 1. Runs, told -/

/-- The turn of a rule. -/
structure Turn where
  /-- The run that the rule finds. -/
  before : FixRun
  /-- The code of the rule. -/
  code : String
  /-- What it proposes, without what is masked. -/
  fixes : List Fix
  /-- The next identity when the fixes are looked at. -/
  next : Nat
  outcome : Attempt
  after : FixRun

/-- A run with its rounds so far, each with its turns. -/
structure Told where
  run : FixRun
  history : List (List Turn)

/-- Run one rule. -/
def turn (l : FixLoop) (r : FixRun) (rule : Rule) : Fresh Turn := do
  let found ← rule.crawl l.parser.dialect l.file r.tree
  let fixes := l.fixesOf found
  let next ← get
  let a ← l.attempt r rule.code fixes
  let failed := (found.failure.map .ofFailure).toList
  return {
    before := r
    code := rule.code
    fixes := fixes
    next := next
    outcome := a
    after := (conclude r rule.code fixes a).report
      (failed ++ afterAttempt (l.mask.keep found.violations) a) }

/-- The run that turns lead to. -/
def lead (r : FixRun) : List Turn → FixRun
  | [] => r
  | t :: ts => lead t.after ts

/-- Run rules, each on the run that the one before it leaves. -/
def turns (l : FixLoop) : List Rule → FixRun → Fresh (List Turn)
  | [], _ => return []
  | rule :: rules, r => do
    let t ← l.turn r rule
    let ts ← l.turns rules t.after
    return t :: ts

/-- A run that begins a round. -/
def begin (r : FixRun) : FixRun := { r with rounds := r.rounds + 1, changed := false }

/-- Run rounds until one changes nothing, or the number of rounds left is used up. -/
def tellRounds (l : FixLoop) : Nat → FixRun → Fresh Told
  | 0, r => return ⟨r.warn (.runawayLimit l.roundLimit), []⟩
  | n + 1, r => do
    let ts ← l.turns l.rules (begin r)
    let r := lead (begin r) ts
    if r.changed then
      let told ← l.tellRounds n r
      return { told with history := ts :: told.history }
    else return ⟨r, [ts]⟩

/-- Run the rules over a tree: once if nothing is to be fixed. -/
def tell (l : FixLoop) (tree : Segment) : Fresh Told :=
  if l.fixing then l.tellRounds l.roundLimit (start tree)
  else do
    let ts ← l.turns l.rules (begin (start tree))
    return ⟨lead (begin (start tree)) ts, [ts]⟩

theorem turns_cons (rule : Rule) (rules : List Rule) (n : Nat) :
    ((l.turns (rule :: rules) r).run n).1 = ((l.turn r rule).run n).1 ::
      ((l.turns rules ((l.turn r rule).run n).1.after).run ((l.turn r rule).run n).2).1 := rfl

theorem run_turns (rules : List Rule) (n : Nat) :
    (rules.foldlM l.step r).run n =
      (lead r ((l.turns rules r).run n).1, ((l.turns rules r).run n).2) := by
  induction rules generalizing r n with
  | nil => rfl
  | cons rule rules ih => exact ih (r := ((l.turn r rule).run n).1.after) ((l.turn r rule).run n).2

/-- After a round that has changed the tree come more. -/
theorem tellRounds_succ (k n : Nat) :
    (l.tellRounds (k + 1) r).run n =
      let ts := (l.turns l.rules (begin r)).run n
      (if (lead (begin r) ts.1).changed then
        (fun t => ({ t with history := ts.1 :: t.history } : Told)) <$>
          l.tellRounds k (lead (begin r) ts.1)
      else Pure.pure ⟨lead (begin r) ts.1, [ts.1]⟩ : Fresh Told).run ts.2 := rfl

theorem run_tellRounds (k n : Nat) :
    (l.rounds k r).run n = (((l.tellRounds k r).run n).1.run, ((l.tellRounds k r).run n).2) := by
  induction k generalizing r n with
  | zero => rfl
  | succ k ih =>
    have hround := run_turns (l := l) (r := begin r) l.rules n
    have rounds_succ : (l.rounds (k + 1) r).run n =
        (if ((l.round r).run n).1.changed then l.rounds k ((l.round r).run n).1
        else Pure.pure ((l.round r).run n).1 : Fresh FixRun).run ((l.round r).run n).2 := rfl
    have same : (l.round r).run n = _ := hround
    rw [rounds_succ, tellRounds_succ, same]
    generalize (l.turns l.rules (begin r)).run n = ts
    dsimp only
    split
    · exact ih ts.2
    · rfl

/-- Telling a run does not change it. -/
theorem run_tell (tree : Segment) (n : Nat) :
    (l.run tree).run n = (((l.tell tree).run n).1.run, ((l.tell tree).run n).2) := by
  unfold run tell
  split
  · exact run_tellRounds l.roundLimit n
  · exact run_turns l.rules n

/-! ## 2. One turn -/

namespace Turn

variable {t : Turn}

/-- The fixes, by their anchors. -/
def plan (t : Turn) : FixPlan := ((FixPlan.ofFixes t.fixes).run t.next).1

/-- What the fixes make of the tree. -/
def applied (l : FixLoop) (t : Turn) : Applied :=
  ((t.before.tree.applyFixes l.parser t.plan).run ((FixPlan.ofFixes t.fixes).run t.next).2).1.1

/-- There is a reason to turn the fixes down: they are those that the rule proposed last, they do
not go together, the tree would lose its form, or it would be in a state that was there. -/
def IsRefused (l : FixLoop) (t : Turn) : Prop :=
  t.before.repeats t.code t.fixes = true ∨ t.plan.isValid = false ∨
    (t.applied l).validated = false ∨ (t.applied l).segment.version ∈ t.before.seen

/-- The tree that a turn leads to, if it is another. -/
def accepted? (t : Turn) : Option Segment :=
  match t.outcome with
  | .accepted tree => some tree
  | _ => none

/-- The outcome is that of the fixes, and the run goes on from it. -/
structure IsOf (l : FixLoop) (t : Turn) : Prop where
  outcome_eq : t.outcome = ((l.attempt t.before t.code t.fixes).run t.next).1
  after_eq : ∃ vs, t.after = (conclude t.before t.code t.fixes t.outcome).report vs

/-- The outcome of fixes, reason by reason. -/
theorem IsOf.outcome (ht : t.IsOf l) :
    t.outcome =
      if l.fixing = false ∨ t.fixes = [] then .idle
      else if t.before.repeats t.code t.fixes = true then .repeated
      else if t.plan.isValid = false then .conflicting
      else if (t.applied l).validated = false then .malformed
      else if (t.applied l).segment.version ∈ t.before.seen then .cycle
      else .accepted (t.applied l).segment := by
  have idle : (!l.fixing || t.fixes.isEmpty) = true ↔ l.fixing = false ∨ t.fixes = [] := by simp
  rw [ht.outcome_eq]
  unfold attempt
  by_cases hidle : l.fixing = false ∨ t.fixes = []
  · rw [if_pos (idle.2 hidle), if_pos hidle]
    rfl
  rw [if_neg (mt idle.1 hidle), if_neg hidle]
  by_cases hrepeats : t.before.repeats t.code t.fixes = true
  · rw [if_pos hrepeats, if_pos hrepeats]
    rfl
  rw [if_neg hrepeats, if_neg hrepeats]
  rw [StateT.run_bind]
  change ((ite (!t.plan.isValid) _ _ : Fresh Attempt).run
    ((FixPlan.ofFixes t.fixes).run t.next).2).1 = _
  by_cases hvalid : t.plan.isValid = false
  · rw [if_pos (by simp [hvalid]), if_pos hvalid]
    rfl
  rw [if_neg (by simpa using hvalid), if_neg hvalid]
  show ((if !(t.applied l).validated then Pure.pure .malformed
    else if t.before.seen.contains (t.applied l).segment.version then Pure.pure .cycle
    else Pure.pure (.accepted (t.applied l).segment) : Fresh Attempt).run _).1 = _
  simp only [Bool.not_eq_true', List.contains_iff_mem]
  split
  · rfl
  · split <;> rfl

/-- Fixes are made if fixes are made at all and there is no reason against these. -/
theorem IsOf.accepted_iff (ht : t.IsOf l) :
    t.accepted?.isSome = true ↔ l.fixing = true ∧ t.fixes ≠ [] ∧ ¬ t.IsRefused l := by
  unfold accepted? IsRefused
  rw [ht.outcome]
  split_ifs with hidle hrepeats hvalid hform hseen
  · refine iff_of_false Bool.false_ne_true fun h => ?_
    obtain hfixing | hnone := hidle
    · exact Bool.false_ne_true (hfixing.symm.trans h.1)
    · exact h.2.1 hnone
  · simp [hrepeats]
  · simp [hvalid]
  · simp [hform]
  · simp [hseen]
  · obtain ⟨hfixing, hsome⟩ := not_or.1 hidle
    simp_all

/-- What is accepted is new. -/
theorem IsOf.version_not_mem (ht : t.IsOf l) {tree : Segment} (h : t.accepted? = some tree) :
    tree.version ∉ t.before.seen := by
  unfold accepted? at h
  rw [ht.outcome] at h
  split_ifs at h with _ _ _ _ hnew
  cases h
  exact hnew

/-- The run after a turn has the accepted tree, or the tree it had. -/
theorem IsOf.tree_after (ht : t.IsOf l) :
    t.after.tree = t.accepted?.getD t.before.tree := by
  obtain ⟨vs, hafter⟩ := ht.after_eq
  rw [hafter, FixRun.tree_report, accepted?]
  cases t.outcome <;> rfl

/-- Fixes that are turned down leave the tree as it is. -/
theorem IsOf.tree_of_isRefused (ht : t.IsOf l) (h : t.IsRefused l) :
    t.after.tree = t.before.tree := by
  have none : t.accepted? = none := by
    have : ¬ t.accepted?.isSome = true := fun hsome => (ht.accepted_iff.1 hsome).2.2 h
    simpa using this
  rw [ht.tree_after, none]
  rfl

/-- A turn remembers the accepted tree. -/
theorem IsOf.seen_after (ht : t.IsOf l) :
    t.after.seen = (t.accepted?.map Segment.version).toList ++ t.before.seen := by
  obtain ⟨vs, hafter⟩ := ht.after_eq
  rw [hafter, FixRun.seen_report, accepted?]
  cases t.outcome <;> rfl

theorem IsOf.changed_after (ht : t.IsOf l) :
    t.after.changed = (t.before.changed || t.accepted?.isSome) := by
  obtain ⟨vs, hafter⟩ := ht.after_eq
  rw [hafter, FixRun.changed_report, accepted?]
  cases t.outcome <;> simp [conclude, FixRun.warn, FixRun.propose, FixRun.accept]

theorem IsOf.rounds_after (ht : t.IsOf l) : t.after.rounds = t.before.rounds := by
  obtain ⟨vs, hafter⟩ := ht.after_eq
  rw [hafter, FixRun.rounds_report]
  cases t.outcome <;> rfl

/-- No turn warns that the run did not settle. -/
theorem IsOf.runaway_after (ht : t.IsOf l) (k : Nat) :
    .runawayLimit k ∈ t.after.warnings ↔ .runawayLimit k ∈ t.before.warnings := by
  obtain ⟨vs, hafter⟩ := ht.after_eq
  rw [hafter, FixRun.warnings_report]
  cases t.outcome <;> simp [conclude, FixRun.warn, FixRun.propose, FixRun.accept]

end Turn

theorem isOf_turn (r : FixRun) (rule : Rule) (n : Nat) : ((l.turn r rule).run n).1.IsOf l :=
  ⟨rfl, _, rfl⟩

/-! ## 3. Turn after turn -/

/-- Turns that lead from one run to another. Between them rounds begin and warnings are given. -/
inductive Course (l : FixLoop) : FixRun → List Turn → FixRun → Prop
  | stay (r : FixRun) : Course l r [] r
  | begin {r r' : FixRun} {ts : List Turn} (h : Course l (begin r) ts r') : Course l r ts r'
  | warn {r r' : FixRun} {ts : List Turn} (w : FixWarning) (h : Course l (r.warn w) ts r') :
      Course l r ts r'
  | turn {t : Turn} {ts : List Turn} {r' : FixRun} (ht : t.IsOf l) (h : Course l t.after ts r') :
      Course l t.before (t :: ts) r'

theorem Course.trans {r₁ r₂ r₃ : FixRun} {ts ts' : List Turn} (h : Course l r₁ ts r₂)
    (h' : Course l r₂ ts' r₃) : Course l r₁ (ts ++ ts') r₃ := by
  induction h with
  | stay r => exact h'
  | begin _ ih => exact .begin (ih h')
  | warn w _ ih => exact .warn w (ih h')
  | turn ht _ ih => exact .turn ht (ih h')

theorem course_turns (rules : List Rule) (n : Nat) :
    Course l r ((l.turns rules r).run n).1 (lead r ((l.turns rules r).run n).1) := by
  induction rules generalizing r n with
  | nil => exact .stay r
  | cons rule rules ih => exact .turn (isOf_turn r rule n) (ih _)

/-- The trees that turns lead to. -/
def accepted (ts : List Turn) : List Segment := ts.filterMap Turn.accepted?

/-- What a run remembers of the trees that it held, the first one first: the states they are in,
which differ, and the last tree. -/
structure Holds (r : FixRun) (trees : List Segment) : Prop where
  seen_eq : r.seen = (trees.map Segment.version).reverse
  nodup : (trees.map Segment.version).Nodup
  tree_last : trees.getLast? = some r.tree

theorem holds_start (tree : Segment) : Holds (start tree) [tree] where
  seen_eq := rfl
  nodup := List.nodup_singleton _
  tree_last := rfl

theorem Holds.turn {t : Turn} {trees : List Segment} (h : Holds t.before trees) (ht : t.IsOf l) :
    Holds t.after (trees ++ accepted [t]) := by
  have one : accepted [t] = t.accepted?.toList := by
    rw [accepted, List.filterMap_cons]
    cases t.accepted? <;> rfl
  rw [one]
  cases hnew : t.accepted? with
  | none =>
    have hseen := ht.seen_after
    have htree := ht.tree_after
    rw [hnew] at hseen htree
    rw [Option.toList_none, List.append_nil]
    exact ⟨hseen.trans h.seen_eq, h.nodup, h.tree_last.trans (congrArg some htree.symm)⟩
  | some tree =>
    have hseen := ht.seen_after
    have htree := ht.tree_after
    have hfresh := ht.version_not_mem hnew
    rw [hnew] at hseen htree
    rw [h.seen_eq, List.mem_reverse] at hfresh
    refine ⟨?_, ?_, ?_⟩
    · rw [hseen, h.seen_eq]
      simp
    · rw [List.map_append, Option.toList_some, List.map_singleton]
      exact List.nodup_append.2 ⟨h.nodup, List.nodup_singleton _, by
        simp only [List.mem_singleton]
        rintro v hv _ rfl rfl
        exact hfresh hv⟩
    · rw [Option.toList_some, List.getLast?_concat, htree]
      rfl

/-- At the end of a course a run holds the trees of the beginning and those that were accepted. -/
theorem Holds.course {trees : List Segment} {r r' : FixRun} {ts : List Turn} (h : Holds r trees)
    (hc : Course l r ts r') : Holds r' (trees ++ accepted ts) := by
  induction hc generalizing trees with
  | stay r => simpa [accepted] using h
  | begin _ ih | warn w _ ih => exact ih ⟨h.seen_eq, h.nodup, h.tree_last⟩
  | @turn t ts r' ht _ ih =>
    have := ih (h.turn ht)
    rwa [List.append_assoc, accepted, accepted, ← List.filterMap_append] at this

/-- A course goes by each of its turns. -/
theorem Course.split {r r' : FixRun} {ts : List Turn} (hc : Course l r ts r') {pre post : List Turn}
    {t : Turn} (hts : ts = pre ++ t :: post) :
    t.IsOf l ∧ Course l r pre t.before := by
  induction hc generalizing pre with
  | stay r => simp at hts
  | begin _ ih => exact ⟨(ih hts).1, .begin (ih hts).2⟩
  | warn w _ ih => exact ⟨(ih hts).1, .warn w (ih hts).2⟩
  | @turn u ts r' hu _ ih =>
    cases pre with
    | nil =>
      obtain ⟨rfl, rfl⟩ := List.cons.inj hts
      exact ⟨hu, .stay _⟩
    | cons v pre =>
      obtain ⟨rfl, rfl⟩ := List.cons.inj hts
      exact ⟨(ih rfl).1, .turn hu (ih rfl).2⟩

/-! ## 4. Round after round -/

/-- Some turn of a round leads to another tree. -/
def Accepts (ts : List Turn) : Prop := ∃ t ∈ ts, t.accepted?.isSome = true

/-- The turns of a round are those of the rules in their order. -/
theorem code_turns (rules : List Rule) (n : Nat) :
    ((l.turns rules r).run n).1.map (·.code) = rules.map (·.code) := by
  induction rules generalizing r n with
  | nil => rfl
  | cons rule rules ih =>
    rw [turns_cons, List.map_cons, List.map_cons, ih]
    rfl

theorem changed_lead (rules : List Rule) (n : Nat) :
    (lead r ((l.turns rules r).run n).1).changed = true ↔
      r.changed = true ∨ Accepts ((l.turns rules r).run n).1 := by
  induction rules generalizing r n with
  | nil =>
    show r.changed = true ↔ r.changed = true ∨ Accepts []
    simp [Accepts]
  | cons rule rules ih =>
    have hturn : ((l.turn r rule).run n).1.before = r := rfl
    rw [turns_cons, lead, ih, (isOf_turn r rule n).changed_after, hturn, Bool.or_eq_true, or_assoc,
      Accepts, Accepts, List.exists_mem_cons_iff]

theorem rounds_lead (rules : List Rule) (n : Nat) :
    (lead r ((l.turns rules r).run n).1).rounds = r.rounds := by
  induction rules generalizing r n with
  | nil => rfl
  | cons rule rules ih =>
    rw [turns_cons, lead, ih, (isOf_turn r rule n).rounds_after]
    rfl

theorem runaway_lead (rules : List Rule) (n k : Nat) :
    .runawayLimit k ∈ (lead r ((l.turns rules r).run n).1).warnings ↔
      .runawayLimit k ∈ r.warnings := by
  induction rules generalizing r n with
  | nil => rfl
  | cons rule rules ih =>
    rw [turns_cons, lead, ih, (isOf_turn r rule n).runaway_after]
    rfl

/-- Rounds, told: each has a turn of every rule, and there are no more than are left. A warning that
the run did not settle is given if every round accepted something. -/
structure Rounds (l : FixLoop) (k : Nat) (r : FixRun) (told : Told) : Prop where
  course : Course l r told.history.flatten told.run
  codes : ∀ ts ∈ told.history, ts.map (·.code) = l.rules.map (·.code)
  length_le : told.history.length ≤ k
  rounds_eq : told.run.rounds = r.rounds + told.history.length
  runaway_iff : ∀ k, .runawayLimit k ∈ told.run.warnings ↔
    .runawayLimit k ∈ r.warnings ∨ k = l.roundLimit ∧ ∀ ts ∈ told.history, Accepts ts

section
variable {n : Nat} {ts : List Turn} (hts : ((l.turns l.rules (begin r)).run n).1 = ts)
include hts

theorem course_round : Course l r ts (lead (begin r) ts) := by
  rw [← hts]
  exact .begin (course_turns l.rules n)

/-- A round that changes nothing is the last one. -/
theorem rounds_last (hstays : ¬ Accepts ts) (k : Nat) :
    Rounds l (k + 1) r ⟨lead (begin r) ts, [ts]⟩ where
  course := by
    rw [List.flatten_cons, List.flatten_nil, List.append_nil]
    exact course_round hts
  codes := by
    rw [← hts]
    exact List.forall_mem_singleton.2 (code_turns l.rules n)
  length_le := Nat.le_add_left 1 k
  rounds_eq := by
    rw [← hts]
    exact rounds_lead l.rules n
  runaway_iff j := by
    have same := runaway_lead (l := l) (r := begin r) l.rules n j
    rw [hts] at same
    refine same.trans (or_iff_left fun h => hstays ?_).symm
    exact List.forall_mem_singleton.1 h.2

/-- After a round that has changed the tree come the others. -/
theorem Rounds.cons (haccepts : Accepts ts) {k : Nat} {told : Told}
    (rest : Rounds l k (lead (begin r) ts) told) :
    Rounds l (k + 1) r { told with history := ts :: told.history } where
  course := (course_round hts).trans rest.course
  codes := by
    refine List.forall_mem_cons.2 ⟨?_, rest.codes⟩
    rw [← hts]
    exact code_turns l.rules n
  length_le := Nat.succ_le_succ rest.length_le
  rounds_eq := by
    have begun := rounds_lead (l := l) (r := begin r) l.rules n
    rw [hts] at begun
    have counted : (begin r).rounds = r.rounds + 1 := rfl
    rw [rest.rounds_eq, begun, counted, List.length_cons]
    omega
  runaway_iff j := by
    have same := runaway_lead (l := l) (r := begin r) l.rules n j
    rw [hts] at same
    refine (rest.runaway_iff j).trans (or_congr same (and_congr_right fun _ => ?_))
    rw [List.forall_mem_cons]
    exact (and_iff_right haccepts).symm

theorem changed_round : (lead (begin r) ts).changed = true ↔ Accepts ts := by
  rw [← hts, changed_lead]
  exact or_iff_right Bool.false_ne_true

end

theorem rounds_tellRounds (k n : Nat) : Rounds l k r ((l.tellRounds k r).run n).1 := by
  induction k generalizing r n with
  | zero =>
    refine ⟨.warn _ (.stay _), List.forall_mem_nil _, Nat.le_refl 0, rfl, fun j => ?_⟩
    show _ ∈ r.warnings ++ [.runawayLimit l.roundLimit] ↔
      _ ∨ j = l.roundLimit ∧ ∀ ts ∈ ([] : List (List Turn)), Accepts ts
    simp
  | succ k ih =>
    rw [tellRounds_succ]
    generalize hrun : (l.turns l.rules (begin r)).run n = ts
    have hts : ((l.turns l.rules (begin r)).run n).1 = ts.1 := congrArg Prod.fst hrun
    dsimp only
    split
    · next hchanged => exact (ih ts.2).cons hts ((changed_round hts).1 hchanged)
    · next hchanged => exact rounds_last hts (mt (changed_round hts).2 hchanged) k

/-- Nothing is accepted if nothing is to be fixed. -/
theorem not_accepts (hfixing : l.fixing = false) {r' : FixRun} {ts : List Turn}
    (hc : Course l r ts r') : ¬ Accepts ts := by
  rintro ⟨t, ht, haccepted⟩
  obtain ⟨pre, post, hts⟩ := List.append_of_mem ht
  have := ((hc.split hts).1.accepted_iff.1 haccepted).1
  exact Bool.false_ne_true (hfixing.symm.trans this)

theorem tell_of_fixing (hfixing : l.fixing = true) (tree : Segment) :
    l.tell tree = l.tellRounds l.roundLimit (start tree) := by
  rw [tell, if_pos hfixing]

/-- A run over a tree: its rounds, of which there is one if nothing is to be fixed. -/
theorem rounds_tell (tree : Segment) (n : Nat) :
    Course l (start tree) ((l.tell tree).run n).1.history.flatten ((l.tell tree).run n).1.run ∧
      (∀ ts ∈ ((l.tell tree).run n).1.history, ts.map (·.code) = l.rules.map (·.code)) ∧
      ((l.tell tree).run n).1.history.length ≤ l.roundLimit ∧
      (l.fixing = false → ((l.tell tree).run n).1.history.length = 1) ∧
      ((l.tell tree).run n).1.run.rounds = ((l.tell tree).run n).1.history.length ∧
      ∀ k, .runawayLimit k ∈ ((l.tell tree).run n).1.run.warnings ↔
        k = l.roundLimit ∧ l.fixing = true ∧
          ∀ ts ∈ ((l.tell tree).run n).1.history, Accepts ts := by
  cases hfixing : l.fixing with
  | true =>
    rw [tell_of_fixing hfixing]
    have h := rounds_tellRounds (l := l) (r := start tree) l.roundLimit n
    refine ⟨h.course, h.codes, h.length_le, nofun, ?_, fun k => ?_⟩
    · exact h.rounds_eq.trans (Nat.zero_add _)
    · refine (h.runaway_iff k).trans ?_
      simp [start]
  | false =>
    have one : (l.tell tree).run n =
        let ts := (l.turns l.rules (begin (start tree))).run n
        (⟨lead (begin (start tree)) ts.1, [ts.1]⟩, ts.2) := by
      rw [tell, if_neg (by simp [hfixing])]
      rfl
    rw [one]
    generalize hrun : (l.turns l.rules (begin (start tree))).run n = ts
    have hts : ((l.turns l.rules (begin (start tree))).run n).1 = ts.1 := congrArg Prod.fst hrun
    have hnone := not_accepts hfixing (course_round hts)
    have h := rounds_last hts hnone 0
    refine ⟨h.course, h.codes, Nat.le_max_right l.limit 1, fun _ => rfl, ?_, fun k => ?_⟩
    · exact h.rounds_eq.trans (Nat.zero_add _)
    · refine (h.runaway_iff k).trans ?_
      simp [start, hnone]

/-! ## 5. Whole runs -/

-- Two trees are accepted in the first round; in the second the rule that was turned down for the
-- form of the tree is turned down for it again, and the loop has settled.
example : ((upperLoop.tell twoWords).run 100).1.history.map
    (·.map fun t => t.accepted?.map Segment.raw) =
      [[none, some "ab\n", some "Ab\n"], [none, none, none]] := by decide +kernel

end FixLoop

end QueryLint
