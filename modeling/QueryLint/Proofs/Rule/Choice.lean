import Mathlib.Data.List.Forall2
import QueryLint.Rule.Registry

/-!
QueryLint.Proofs.Rule.Choice — which choices of rules are turned down.

A choice names codes, and gives settings to some of them. The codes must all be known. Settings are
looked at where a rule is made, and only the rules that are selected are made; so what is wrong with
the settings of a rule that does not run comes out only when it is selected.

* `RuleEntry.Accepts` — settings that a rule declares, with values that it allows.
* `RuleRegistry.choose_eq_ok_iff` — when rules are chosen, and which.
* `RuleRegistry.choose_overlooks` — wrong settings of a rule that is not selected.
-/

namespace QueryLint

/-! ## 1. Settings of one rule -/

namespace RuleEntry

variable {e : RuleEntry} {s : RuleSettings}

/-- Every setting is one that the rule declares, with a value that it allows. -/
def Accepts (e : RuleEntry) (s : RuleSettings) : Prop :=
  ∀ x ∈ s, ∃ k, e.keywords.find? (·.name == x.1) = some k ∧ (k.allowed = [] ∨ x.2 ∈ k.allowed)

/-- Settings are found in order exactly if they are accepted. -/
theorem check_eq_ok_iff : e.check s = .ok () ↔ e.Accepts s := by
  unfold Accepts
  induction s with
  | nil => simp [check]
  | cons x s ih =>
    obtain ⟨name, value⟩ := x
    rw [check, List.forall_mem_cons]
    cases hk : e.keywords.find? (·.name == name) with
    | none => simp
    | some k =>
      dsimp only
      split
      · next hvalue =>
        have allowed : k.allowed = [] ∨ value ∈ k.allowed := by simpa using hvalue
        rw [ih]
        exact ⟨fun h => ⟨⟨k, rfl, allowed⟩, h⟩, fun h => h.2⟩
      · next hvalue =>
        have refused : ¬ (k.allowed = [] ∨ value ∈ k.allowed) := by simpa using hvalue
        refine ⟨fun h => (nomatch h), ?_⟩
        rintro ⟨⟨k', hk', allowed⟩, -⟩
        cases hk'
        exact absurd allowed refused

end RuleEntry

/-! ## 2. Choices -/

/-- A code is among those to run or not to run, or there are settings for it. -/
def RuleChoice.Names (c : RuleChoice) (code : String) : Prop :=
  (∃ codes ∈ c.only, code ∈ codes) ∨ code ∈ c.except ∨ ∃ s, (code, s) ∈ c.settings

theorem RuleChoice.mem_named {c : RuleChoice} {code : String} : code ∈ c.named ↔ c.Names code := by
  obtain ⟨only, except, settings⟩ := c
  cases only <;> simp [named, Names]

/-- A code is among those to run, if such are given, and not among those not to run. -/
def RuleChoice.Selects (c : RuleChoice) (code : String) : Prop :=
  (∀ codes ∈ c.only, code ∈ codes) ∧ code ∉ c.except

instance (c : RuleChoice) (code : String) : Decidable (c.Selects code) :=
  inferInstanceAs (Decidable (_ ∧ _))

theorem RuleChoice.selects_eq (c : RuleChoice) (code : String) :
    c.selects code = decide (c.Selects code) := by
  obtain ⟨only, except, settings⟩ := c
  rw [Bool.eq_iff_iff, decide_eq_true_iff]
  cases only <;> simp [selects, Selects]

namespace RuleRegistry

variable {r : RuleRegistry} {c : RuleChoice} {rules : List Rule}

theorem build_eq_ok_iff {e : RuleEntry} {rule : Rule} :
    build c e = .ok rule ↔
      e.Accepts (c.settingsOf e.code) ∧ e.make (c.settingsOf e.code) = .ok rule := by
  rw [← RuleEntry.check_eq_ok_iff]
  unfold build
  cases e.check (c.settingsOf e.code) with
  | error fault => exact ⟨fun h => (nomatch h), fun h => (nomatch h.1)⟩
  | ok => exact ⟨fun h => ⟨rfl, h⟩, fun h => h.2⟩

/-- Several rules are built if each of them is. -/
theorem mapM_build_eq_ok_iff {es : List RuleEntry} :
    es.mapM (build c) = .ok rules ↔ List.Forall₂ (fun e rule => build c e = .ok rule) es rules := by
  induction es generalizing rules with
  | nil =>
    rw [List.mapM_nil, List.forall₂_nil_left_iff]
    exact ⟨fun h => (Except.ok.inj h).symm, fun h => h ▸ rfl⟩
  | cons e es ih =>
    rw [List.mapM_cons, List.forall₂_cons_left_iff]
    cases hfirst : build c e with
    | error fault => exact ⟨fun h => (nomatch h), fun ⟨_, _, h, _⟩ => (nomatch h)⟩
    | ok first =>
      cases hrest : es.mapM (build c) with
      | error fault =>
        refine ⟨fun h => (nomatch h), fun ⟨_, rest, _, h, _⟩ => ?_⟩
        rw [ih.2 h] at hrest
        cases hrest
      | ok rest =>
        constructor
        · intro h
          cases h
          exact ⟨first, rest, rfl, ih.1 hrest, rfl⟩
        · rintro ⟨_, _, h, hall, rfl⟩
          cases h
          rw [ih.2 hall] at hrest
          cases hrest
          rfl

/-- What is built comes from the rules that are selected, in their order. -/
theorem choose_eq : r.choose c = .ok rules ↔
    (∀ code ∈ c.named, code ∈ r.codes) ∧ List.Forall₂ (fun e rule => build c e = .ok rule)
      (r.entries.filter (c.Selects ·.code)) rules := by
  unfold choose
  simp only [c.selects_eq]
  cases hunknown : c.named.find? (!r.codes.contains ·) with
  | some code =>
    have unknown : code ∉ r.codes := by simpa using List.find?_some hunknown
    have named := List.mem_of_find?_eq_some hunknown
    exact ⟨fun h => (nomatch h), fun h => absurd (h.1 code named) unknown⟩
  | none =>
    have known : ∀ code ∈ c.named, code ∈ r.codes := by simpa using hunknown
    rw [← mapM_build_eq_ok_iff]
    exact ⟨fun h => ⟨known, h⟩, fun h => h.2⟩

theorem accepts_settingsOf {e : RuleEntry} {code : String} :
    e.Accepts (c.settingsOf code) ↔ ∀ s, c.settings.lookup code = some s → e.Accepts s := by
  unfold RuleChoice.settingsOf
  cases c.settings.lookup code with
  | none => simp [RuleEntry.Accepts]
  | some s => simp

section
variable {α β : Type} {R : α → β → Prop} {xs : List α} {ys : List β}

theorem exists_of_forall₂ (h : List.Forall₂ R xs ys) {x : α} (hx : x ∈ xs) :
    ∃ y ∈ ys, R x y := by
  induction h with
  | nil => simp at hx
  | @cons x' y xs ys hxy _ ih =>
    rcases List.mem_cons.1 hx with rfl | hx
    · exact ⟨y, by simp, hxy⟩
    · obtain ⟨y', hy', h⟩ := ih hx
      exact ⟨y', by simp [hy'], h⟩

theorem exists_forall₂ (h : ∀ x ∈ xs, ∃ y, R x y) : ∃ ys, List.Forall₂ R xs ys := by
  induction xs with
  | nil => exact ⟨[], .nil⟩
  | cons x xs ih =>
    obtain ⟨⟨y, hy⟩, hxs⟩ := List.forall_mem_cons.1 h
    obtain ⟨ys, hys⟩ := ih hxs
    exact ⟨y :: ys, .cons hy hys⟩

end

/-- Rules are chosen if and only if every code that is listed or configured is known, and every rule
that is selected accepts its settings. What is chosen are the rules that are selected, each made
with its settings, in the order of the registry. -/
theorem choose_eq_ok_iff
    (hmake : ∀ e ∈ r.entries, ∀ s, e.check s = .ok () → ∃ rule, e.make s = .ok rule) :
    ((∃ rules, r.choose c = .ok rules) ↔
      (∀ code, c.Names code → code ∈ r.codes) ∧
      ∀ e ∈ r.entries, c.Selects e.code →
        ∀ s, c.settings.lookup e.code = some s → e.Accepts s) ∧
    ∀ rules, r.choose c = .ok rules →
      List.Forall₂ (fun e rule => e.make (c.settingsOf e.code) = .ok rule)
        (r.entries.filter (c.Selects ·.code)) rules := by
  refine ⟨⟨fun ⟨rules, h⟩ => ?_, fun ⟨known, accepted⟩ => ?_⟩, fun rules h => ?_⟩
  · obtain ⟨known, built⟩ := choose_eq.1 h
    refine ⟨fun code named => known code (RuleChoice.mem_named.2 named), fun e he selected =>
      accepts_settingsOf.1 ?_⟩
    obtain ⟨rule, -, hrule⟩ := exists_of_forall₂ built (by simpa using ⟨he, selected⟩)
    exact (build_eq_ok_iff.1 hrule).1
  · have built : ∀ e ∈ r.entries.filter (c.Selects ·.code), ∃ rule, build c e = .ok rule := by
      intro e he
      obtain ⟨he, selected⟩ := List.mem_filter.1 he
      have accepts := accepts_settingsOf.2 (accepted e he (of_decide_eq_true selected))
      obtain ⟨rule, hrule⟩ := hmake e he _ (RuleEntry.check_eq_ok_iff.2 accepts)
      exact ⟨rule, build_eq_ok_iff.2 ⟨accepts, hrule⟩⟩
    obtain ⟨rules, hrules⟩ := exists_forall₂ built
    exact ⟨rules, choose_eq.2 ⟨fun code named => known code (RuleChoice.mem_named.1 named), hrules⟩⟩
  · exact (choose_eq.1 h).2.imp fun e rule hrule => (build_eq_ok_iff.1 hrule).2

/-! ## 3. The library -/

theorem mem_of_settings {s : RuleSettings} {name value : String}
    (h : s.lookup name = some value) : (name, value) ∈ s := by
  obtain ⟨front, back, rfl, -⟩ := List.lookup_eq_some_iff.1 h
  simp

/-- Settings that pass the check are enough to make any rule of the library. -/
theorem standard_makes : ∀ e ∈ standard.entries, ∀ s, e.check s = .ok () →
    ∃ rule, e.make s = .ok rule := by
  have made (rule : Rule) : ∀ s, (RuleEntry.ofRule rule).check s = .ok () →
      ∃ rule', (RuleEntry.ofRule rule).make s = .ok rule' := fun _ _ => ⟨rule, rfl⟩
  simp only [standard, List.forall_mem_cons]
  refine ⟨made _, made _, made _, made _, fun s hs => ?_, by simp⟩
  -- The policy is the default or one that is allowed, and all these are policies.
  have policies : ∀ value ∈ CasePolicy.keyword.allowed,
      (CasePolicy.names.lookup value).isSome = true := by decide
  have allowed : (s.lookup CasePolicy.keyword.name).getD CasePolicy.keyword.default ∈
      CasePolicy.keyword.allowed := by
    cases hvalue : s.lookup CasePolicy.keyword.name with
    | none => decide
    | some value =>
      obtain ⟨k, hk, allowed⟩ := RuleEntry.check_eq_ok_iff.1 hs _ (mem_of_settings hvalue)
      have hk : some CasePolicy.keyword = some k := hk
      cases hk
      exact allowed.resolve_left (by decide)
  obtain ⟨policy, hpolicy⟩ := Option.isSome_iff_exists.1 (policies _ allowed)
  refine ⟨Rule.keywordCase policy, ?_⟩
  dsimp only [Rule.keywordCaseOf]
  rw [hpolicy]

/-- Two rules of the library, one of them not to run, and a setting for the other. -/
def upperChoice : RuleChoice where
  only := some ["L010", "L001"]
  except := ["L001"]
  settings := [("L010", [("capitalisation_policy", "upper")])]

theorem choose_eq_ok_iff_upper :
    (∀ e ∈ standard.entries, ∀ s, e.check s = .ok () → ∃ rule, e.make s = .ok rule) ∧
      ∃ rules, standard.choose upperChoice = .ok rules ∧
        List.Forall₂ (fun e rule => e.make (upperChoice.settingsOf e.code) = .ok rule)
          (standard.entries.filter (upperChoice.Selects ·.code)) rules := by
  obtain ⟨succeeds, made⟩ := choose_eq_ok_iff (c := upperChoice) standard_makes
  have accepted : ∀ e ∈ standard.entries, upperChoice.Selects e.code →
      ∀ s, upperChoice.settings.lookup e.code = some s → e.Accepts s := by
    simp only [standard, List.forall_mem_cons]
    refine ⟨fun h => absurd h (by decide), fun h => absurd h (by decide),
      fun h => absurd h (by decide), fun h => absurd h (by decide), fun _ s hs => ?_, by simp⟩
    obtain rfl : [("capitalisation_policy", "upper")] = s := Option.some.inj hs
    exact RuleEntry.check_eq_ok_iff.1 rfl
  have known : ∀ code, upperChoice.Names code → code ∈ standard.codes := by
    intro code named
    have all : ∀ code ∈ upperChoice.named, code ∈ standard.codes := by decide
    exact all code (RuleChoice.mem_named.2 named)
  obtain ⟨rules, hrules⟩ := succeeds.2 ⟨known, accepted⟩
  exact ⟨standard_makes, rules, hrules, made rules hrules⟩

/-- A setting of a rule that does not run, with a value that it does not allow. -/
def loudChoice : RuleChoice where
  only := some ["L001"]
  settings := [("L010", [("capitalisation_policy", "shouty")])]

/-- The wrong value is overlooked. -/
theorem choose_overlooks :
    standard.choose loudChoice = .ok [Rule.trailingWhitespace] ∧
      ∃ e ∈ standard.entries, ∃ s, loudChoice.settings.lookup e.code = some s ∧ ¬ e.Accepts s := by
  refine ⟨rfl, { RuleEntry.ofRule (Rule.keywordCase .consistent) with make := Rule.keywordCaseOf },
    by simp [standard], _, rfl, fun h => ?_⟩
  obtain ⟨k, hk, allowed⟩ := h _ List.mem_cons_self
  have hk : some CasePolicy.keyword = some k := hk
  cases hk
  exact absurd allowed (by decide)

end RuleRegistry

end QueryLint
