import QueryLint.Proofs.Lint.Settled
import QueryLint.Rule.Probe

/-!
QueryLint.Proofs.Lint.Masked — what directives silence.

Errors of tokens and grammar, and what the rules find in the first round, are kept if no directive
silences them. Directives that are malformed are reported in any case, since they silence nothing.
There is one kind of violation besides: a rule that gives up in the first round. It says that it can
be silenced by a directive, but is reported without a look at the mask. So the mask is honoured for
a file exactly if no directive is about a rule that gave up there.

* `FixLoop.failures` — the failures of rules that run one after the other.
* `FixLoop.Reports` — violations that are kept, malformed directives and failures.
* `Linter.lint_masked_iff` — when nothing is reported that a directive silences.
* `Linter.lint_reports_masked` — a rule that gives up in a line that is to be silent.
-/

namespace QueryLint

/-! ## 1. The first round -/

namespace FixLoop

variable {l : FixLoop} {r : FixRun}

/-- The failures of rules that run one after the other, each on the run that the one before it
leaves. -/
def failures (l : FixLoop) : List Rule → FixRun → Nat → List RuleFailure
  | [], _, _ => []
  | rule :: rules, r, n =>
    let found := ((rule.crawl l.parser.dialect l.file r.tree).run n).1
    let next := (l.step r rule).run n
    found.failure.toList ++ l.failures rules next.1 next.2

/-- The failures of the first round over a tree. -/
def firstFailures (l : FixLoop) (tree : Segment) (n : Nat) : List RuleFailure :=
  l.failures l.rules (begin (start tree)) n

/-- Some violations are failures, up to their order, and besides there are only some that are not
masked. -/
def Reports (m : IgnoreMask) (failed : List RuleFailure) (vs : List Violation) : Prop :=
  ∃ kept, vs.Perm (kept ++ failed.map .ofFailure) ∧ ∀ v ∈ kept, m.masks v = false

namespace Reports

variable {m : IgnoreMask} {failed failed' : List RuleFailure} {vs vs' : List Violation}

theorem of_kept (h : ∀ v ∈ vs, m.masks v = false) : Reports m [] vs := ⟨vs, by simp, h⟩

theorem of_failures (m : IgnoreMask) (failed : List RuleFailure) :
    Reports m failed (failed.map .ofFailure) := ⟨[], .rfl, by simp⟩

theorem append (h : Reports m failed vs) (h' : Reports m failed' vs') :
    Reports m (failed ++ failed') (vs ++ vs') := by
  obtain ⟨kept, hvs, hkept⟩ := h
  obtain ⟨kept', hvs', hkept'⟩ := h'
  refine ⟨kept ++ kept', ?_, List.forall_mem_append.2 ⟨hkept, hkept'⟩⟩
  rw [List.map_append, List.append_assoc]
  refine (hvs.append hvs').trans ?_
  rw [List.append_assoc]
  refine .append_left kept ?_
  rw [← List.append_assoc, ← List.append_assoc]
  exact .append_right _ List.perm_append_comm

end Reports

/-- Fixes have no part in what is masked. -/
theorem masks_withoutFixes (m : IgnoreMask) (v : Violation) : m.masks v.withoutFixes = m.masks v :=
  rfl

theorem not_masks_afterAttempt {m : IgnoreMask} {vs : List Violation} {a : Attempt} {v : Violation}
    (h : v ∈ afterAttempt (m.keep vs) a) : m.masks v = false := by
  unfold afterAttempt at h
  split at h
  · obtain ⟨w, hw, rfl⟩ := List.mem_map.1 h
    exact (IgnoreMask.mem_keep.1 hw).2
  · exact (IgnoreMask.mem_keep.1 h).2

/-- In the first round rules add what they find, unless it is masked, and their failures. -/
theorem reports_lead (rules : List Rule) (hrounds : r.rounds ≤ 1) (n : Nat) :
    ∃ vs, (lead r ((l.turns rules r).run n).1).violations = r.violations ++ vs ∧
      Reports l.mask (l.failures rules r n) vs := by
  induction rules generalizing r n with
  | nil => exact ⟨[], (List.append_nil _).symm, .of_kept (by simp)⟩
  | cons rule rules ih =>
    have rounds : ((l.turn r rule).run n).1.after.rounds ≤ 1 := by
      rw [(isOf_turn r rule n).rounds_after]
      exact hrounds
    obtain ⟨a, reported⟩ := violations_turn (l := l) rule n hrounds
    obtain ⟨vs, hvs, hreports⟩ := ih rounds ((l.turn r rule).run n).2
    let found := ((rule.crawl l.parser.dialect l.file r.tree).run n).1
    have own : Reports l.mask found.failure.toList ((found.failure.map .ofFailure).toList ++
        afterAttempt (l.mask.keep found.violations) a) := by
      have failed : (found.failure.map .ofFailure).toList =
          found.failure.toList.map Violation.ofFailure := by
        cases found.failure <;> rfl
      have both := (Reports.of_failures l.mask found.failure.toList).append
        (.of_kept fun v (hv : v ∈ afterAttempt (l.mask.keep found.violations) a) =>
          not_masks_afterAttempt hv)
      rw [failed]
      rwa [List.append_nil] at both
    exact ⟨_, by rw [turns_cons, lead, hvs, reported, List.append_assoc], own.append hreports⟩

/-- Rounds after the first add nothing. -/
theorem violations_lead_later (rules : List Rule) (hrounds : 1 < r.rounds) (n : Nat) :
    (lead r ((l.turns rules r).run n).1).violations = r.violations := by
  induction rules generalizing r n with
  | nil => rfl
  | cons rule rules ih =>
    have turn := isOf_turn (l := l) r rule n
    have rounds : 1 < ((l.turn r rule).run n).1.after.rounds := by
      rw [turn.rounds_after]
      exact hrounds
    obtain ⟨vs, hafter⟩ := turn.after_eq
    have same (a : Attempt) (fixes : List Fix) :
        ((conclude r rule.code fixes a).report vs).violations = r.violations := by
      have later : ¬ (conclude r rule.code fixes a).rounds ≤ 1 := by
        cases a <;> exact Nat.not_le.2 hrounds
      rw [FixRun.report, if_neg later]
      cases a <;> rfl
    rw [turns_cons, lead, ih rounds, hafter]
    exact same _ _

theorem violations_tellRounds (hrounds : 1 ≤ r.rounds) (k n : Nat) :
    ((l.tellRounds k r).run n).1.run.violations = r.violations := by
  induction k generalizing r n with
  | zero => rfl
  | succ k ih =>
    have later : 1 < (begin r).rounds := Nat.lt_succ_of_le hrounds
    have same := violations_lead_later (l := l) l.rules later n
    have rounds := rounds_lead (l := l) (r := begin r) l.rules n
    rw [tellRounds_succ]
    generalize (l.turns l.rules (begin r)).run n = ts at same rounds
    dsimp only
    split
    · exact (ih (by rw [rounds]; exact Nat.le_of_lt later) ts.2).trans same
    · exact same

/-- A run reports the failures of its first round, and nothing else that is masked. -/
theorem reports_run (l : FixLoop) (tree : Segment) (n : Nat) :
    Reports l.mask (l.firstFailures tree n) ((l.run tree).run n).1.violations := by
  obtain ⟨vs, hvs, hreports⟩ :=
    reports_lead (l := l) (r := begin (start tree)) l.rules (Nat.le_refl 1) n
  have first : ((l.run tree).run n).1.violations = vs := by
    have begun := rounds_lead (l := l) (r := begin (start tree)) l.rules n
    rw [run_tell, tell]
    split
    · obtain ⟨k, hk⟩ := Nat.exists_eq_add_of_le' (Nat.le_max_right l.limit 1)
      rw [show l.roundLimit = k + 1 from hk, tellRounds_succ]
      generalize (l.turns l.rules (begin (start tree))).run n = ts at hvs begun
      dsimp only
      split
      · exact (violations_tellRounds (Nat.le_of_eq begun.symm) k ts.2).trans hvs
      · exact hvs
    · exact hvs
  rw [first]
  exact hreports

end FixLoop

open FixLoop

/-! ## 2. Files -/

/-- A text starts like its first part. -/
theorem head?_toList_append {a : String} {c : Char} (h : a.toList.head? = some c) (b : String) :
    (a ++ b).toList.head? = some c := by
  rw [String.toList_append, List.head?_append, h, Option.some_or]

theorem head?_display (e : RuleFailure) : e.display.toList.head? = some 'U' :=
  head?_toList_append (head?_toList_append (head?_toList_append (head?_toList_append
    (head?_toList_append (by cbv) _) _) _) _) _

theorem head?_message (e : DirectiveError) : e.message.toList.head? = some 'M' := by
  cases e with
  | codes => show "Malformed 'noqa' section. Expected 'noqa: <rule>[,...]'".toList.head? = _; cbv
  | scope => exact head?_toList_append (by cbv) _

/-- The failure of a rule is not worded like a malformed directive. -/
theorem ofFailure_not_mem_malformed (e : RuleFailure) (tree : Segment) :
    Violation.ofFailure e ∉ IgnoreMask.malformed tree := by
  intro h
  obtain ⟨⟨c, r⟩, -, hr⟩ := List.mem_filterMap.1 h
  cases r with
  | ok d => cases hr
  | error error =>
    have same := congrArg (·.description.toList.head?) (Option.some.inj hr)
    have wording : error.message.toList.head? = e.display.toList.head? := same
    rw [head?_message, head?_display] at wording
    exact absurd wording (by decide)

namespace Linter

variable {l : Linter}

/-- What is made of violations that are reported leaves those of failures as they are, and masks no
others. -/
theorem reports_reported {m : IgnoreMask} {failed : List RuleFailure} {vs : List Violation}
    (h : Reports m failed vs) (p : ParsedFile) : Reports m failed (l.reported p vs) := by
  obtain ⟨kept, hvs, hkept⟩ := h
  have without : Reports m failed (if l.blocksFixes p then vs.map (·.withoutFixes) else vs) := by
    split
    · refine ⟨kept.map (·.withoutFixes), ?_, ?_⟩
      · have := hvs.map (·.withoutFixes)
        rwa [List.map_append, List.map_map] at this
      · intro v hv
        obtain ⟨w, hw, rfl⟩ := List.mem_map.1 hv
        exact (masks_withoutFixes m w).trans (hkept w hw)
    · exact ⟨kept, hvs, hkept⟩
  -- A failure has no source, so it does not stand in templated text.
  have nowhere (e : RuleFailure) :
      p.file.isLiteralSource (Violation.ofFailure e).source = true := by
    have point : (Violation.ofFailure e).source.isEmpty = true := (Span.isEmpty_iff _).2 rfl
    rw [TemplatedFile.isLiteralSource, point, Bool.or_true, Bool.true_or]
  unfold Linter.reported
  dsimp only
  split
  · obtain ⟨kept, hvs, hkept⟩ := without
    have filtered := hvs.filter fun v => !v.isFromRule || p.file.isLiteralSource v.source
    have failures : (failed.map Violation.ofFailure).filter
        (fun v => !v.isFromRule || p.file.isLiteralSource v.source) =
          failed.map .ofFailure := by
      refine List.filter_eq_self.2 fun v hv => ?_
      obtain ⟨e, -, rfl⟩ := List.mem_map.1 hv
      rw [nowhere, Bool.or_true]
    rw [List.filter_append, failures] at filtered
    exact ⟨_, filtered, fun v hv => hkept v (List.mem_of_mem_filter hv)⟩
  · exact without

/-- A file is reported with the errors and findings that are not masked, the malformed directives,
and the failures of the first round. -/
theorem reports_lintParsed (p : ParsedFile) (rules : List Rule) (fix : Bool) (n : Nat) :
    ∃ vs, ((l.lintParsed p rules fix).run n).1.violations.Perm (vs ++ IgnoreMask.malformed p.tree) ∧
      Reports (.ofTree p.tree) ((l.fixLoop p rules fix).firstFailures p.tree n) vs := by
  have violations : ((l.lintParsed p rules fix).run n).1.violations =
      byPlace ((l.fixLoop p rules fix).mask.keep p.violations ++ IgnoreMask.malformed p.tree ++
        l.reported p (((l.fixLoop p rules fix).run p.tree).run n).1.violations) := rfl
  have errors : Reports (.ofTree p.tree) [] ((l.fixLoop p rules fix).mask.keep p.violations) :=
    .of_kept fun v hv => (IgnoreMask.mem_keep.1 hv).2
  have found := reports_reported (l := l) (reports_run (l.fixLoop p rules fix) p.tree n) p
  refine ⟨_, ?_, errors.append found⟩
  rw [violations]
  refine (List.mergeSort_perm _ _).trans ?_
  rw [List.append_assoc, List.append_assoc]
  exact .append_left _ List.perm_append_comm

/-- Linting parses the text and runs the rules over its tree. -/
theorem exists_of_lint {source name : String} {fix : Bool} {linting : Fresh LintedFile}
    (h : l.lint source name fix = .ok linting) :
    ∃ parsing rules, l.parse source name = .ok parsing ∧ l.rulesForFile = .ok rules ∧
      linting = parsing >>= fun p => l.lintParsed p rules fix := by
  rw [lint] at h
  cases hparse : l.parse source name with
  | error e => rw [hparse] at h; cases h
  | ok parsing =>
    cases hrules : l.rulesForFile with
    | error e => rw [hparse, hrules] at h; cases h
    | ok rules =>
      rw [hparse, hrules] at h
      exact ⟨parsing, rules, rfl, rfl, (Except.ok.inj h).symm⟩

/-- Of what is reported of a file, besides malformed directives, nothing is masked exactly if no
failure of a rule in the first round is. All these failures are reported, whether they are masked or
not, and of everything else only what is not. -/
theorem lint_masked_iff {source name : String} {fix : Bool} {linting : Fresh LintedFile}
    (h : l.lint source name fix = .ok linting) (n : Nat) :
    ∃ parsing rules, l.parse source name = .ok parsing ∧ l.rulesForFile = .ok rules ∧
      let parsed := (parsing.run n).1
      let mask := IgnoreMask.ofTree parsed.tree
      let failed := (l.fixLoop parsed rules fix).firstFailures parsed.tree (parsing.run n).2
      let violations := (linting.run n).1.violations
      ((∀ v ∈ violations, v ∉ IgnoreMask.malformed parsed.tree → mask.masks v = false) ↔
        ∀ e ∈ failed, mask.masks (.ofFailure e) = false) ∧
      ∃ kept, (∀ v ∈ kept, mask.masks v = false) ∧
        violations.Perm (kept ++ failed.map .ofFailure ++ IgnoreMask.malformed parsed.tree) := by
  obtain ⟨parsing, rules, hparse, hrules, rfl⟩ := exists_of_lint h
  obtain ⟨vs, hperm, kept, hvs, hkept⟩ :=
    reports_lintParsed (l := l) (parsing.run n).1 rules fix (parsing.run n).2
  have whole := hperm.trans (hvs.append_right _)
  refine ⟨parsing, rules, hparse, hrules, ⟨fun honoured e he => ?_, fun quiet v hv hform => ?_⟩,
    kept, hkept, whole⟩
  · refine honoured _ (whole.mem_iff.2 ?_) (ofFailure_not_mem_malformed e _)
    exact List.mem_append_left _ (List.mem_append_right _ (List.mem_map_of_mem he))
  · have hv := whole.mem_iff.1 hv
    rcases List.mem_append.1 ((List.mem_append.1 hv).resolve_right hform) with hv | hv
    · exact hkept v hv
    · obtain ⟨e, he, rfl⟩ := List.mem_map.1 hv
      exact quiet e he

/-! ## 3. A rule that gives up -/

/-- A rule that gives up on every file. -/
def brokenRule : Rule :=
  { code := "L900", description := "Gives up.", target := .root
    eval := Probe.eval (.fail (.because "boom")) }

/-- The linter for standard SQL, with a rule that gives up. -/
def broken : Linter := { standard with registry := standard.registry.add (.ofRule brokenRule) }

/-- The rules that it runs. -/
def brokenRules : List Rule :=
  match broken.rules with
  | .ok rules => rules
  | .error _ => []

/-- A text, linted by it. -/
def brokenLinting (text : String) : Fresh LintedFile := do
  broken.lintParsed (← parsing text) brokenRules false

theorem lint_broken (text : String) :
    broken.parse text "query.sql" = .ok (parsing text) ∧ broken.rulesForFile = .ok brokenRules ∧
      broken.lint text "query.sql" false = .ok (brokenLinting text) := ⟨rfl, rfl, rfl⟩

theorem run_brokenLinting :
    ((broken.fixLoop ((parsing "-- noqa: L001\n").run 0).1 brokenRules false).firstFailures
        ((parsing "-- noqa: L001\n").run 0).1.tree ((parsing "-- noqa: L001\n").run 0).2 =
          [⟨"L900", "boom", ⟨1, 1⟩⟩] ∧
      (IgnoreMask.ofTree ((parsing "-- noqa: L001\n").run 0).1.tree).masksCode "L001" 1 = true ∧
      (IgnoreMask.ofTree ((parsing "-- noqa: L001\n").run 0).1.tree).masksCode "L900" 1 = false) ∧
    ((IgnoreMask.malformed ((parsing "-- noqa\n").run 0).1.tree).isEmpty = true ∧
      (IgnoreMask.ofTree ((parsing "-- noqa\n").run 0).1.tree).masksCode "L900" 1 = true ∧
      ((brokenLinting "-- noqa\n").run 0).1.violations.map (fun v => (v.code, v.place)) =
        [("L900", ⟨1, 1⟩)]) := by
  decide +kernel

/-- A directive for another rule does not silence the one that gives up. -/
theorem lint_masked_iff_named :
    ∃ linting, broken.lint "-- noqa: L001\n" "query.sql" false = .ok linting ∧
      (IgnoreMask.ofTree ((parsing "-- noqa: L001\n").run 0).1.tree).masksCode "L001" 1 = true ∧
      ∀ v ∈ (linting.run 0).1.violations,
        v ∉ IgnoreMask.malformed ((parsing "-- noqa: L001\n").run 0).1.tree →
        (IgnoreMask.ofTree ((parsing "-- noqa: L001\n").run 0).1.tree).masks v = false := by
  obtain ⟨failed, silent, heard⟩ := run_brokenLinting.1
  obtain ⟨hparse, hrules, hlint⟩ := lint_broken "-- noqa: L001\n"
  obtain ⟨parsing, rules, hparse', hrules', honoured, -⟩ := lint_masked_iff hlint 0
  obtain rfl := Except.ok.inj (hparse.symm.trans hparse')
  obtain rfl := Except.ok.inj (hrules.symm.trans hrules')
  refine ⟨_, hlint, silent, honoured.2 ?_⟩
  rw [failed]
  exact List.forall_mem_singleton.2 heard

/-- A directive that silences all rules does not silence one that gives up in its line, although the
failure says that it would. -/
theorem lint_reports_masked :
    ∃ linting v, broken.lint "-- noqa\n" "query.sql" false = .ok linting ∧
      v ∈ (linting.run 0).1.violations ∧
      v ∉ IgnoreMask.malformed ((parsing "-- noqa\n").run 0).1.tree ∧
      (IgnoreMask.ofTree ((parsing "-- noqa\n").run 0).1.tree).masks v = true := by
  obtain ⟨wellFormed, silent, reported⟩ := run_brokenLinting.2
  obtain ⟨v, hv, heq⟩ := List.exists_of_mem_map
    (show ("L900", (⟨1, 1⟩ : Place)) ∈ _ by rw [reported]; exact List.mem_singleton.2 rfl)
  obtain ⟨hcode, hplace⟩ := Prod.mk.inj heq
  refine ⟨_, v, (lint_broken "-- noqa\n").2.2, hv, ?_, ?_⟩
  · rw [List.isEmpty_iff.1 wellFormed]
    exact List.not_mem_nil
  · rw [IgnoreMask.masks, hcode, hplace]
    exact silent

end Linter

end QueryLint
