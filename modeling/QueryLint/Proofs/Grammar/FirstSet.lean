import Mathlib.Data.List.Forall2
import QueryLint.Grammar.Compile

/-!
QueryLint.Proofs.Grammar.FirstSet — what the walk for first sets finds out.

First sets are worked out by a walk that keeps every result and gives up on a grammar that begins
with itself. A result that says something is explained by results about the grammars it begins
with: they are within it. That is no definition of first sets by recursion, since grammars may begin
with one another in a circle; it is a law between results, and it holds at every moment of the walk,
because what has been found out is never changed.

* `Draft.Explains` — one first set is explained by others.
* `Draft.learns_hint` — the walk keeps what it knows explained.
* `Draft.explains_allHints` — the first sets of all instructions explain one another.
-/

namespace QueryLint

/-! ## 1. First sets -/

theorem mem_insertSorted {s x : String} {xs : List String} :
    s ∈ insertSorted x xs ↔ s = x ∨ s ∈ xs := by
  induction xs with
  | nil => simp [insertSorted]
  | cons y ys ih =>
    unfold insertSorted
    split
    · next h => simp [h]
    split
    · simp
    · simp [ih, or_left_comm]

theorem mem_foldr_insertSorted {s : String} {xs ys : List String} :
    s ∈ xs.foldr insertSorted ys ↔ s ∈ xs ∨ s ∈ ys := by
  induction xs with
  | nil => simp
  | cons x xs ih => simp [mem_insertSorted, ih, or_assoc]

namespace FirstSet

/-- What begins one begins the other. -/
structure Within (f g : FirstSet) : Prop where
  raws : ∀ s ∈ f.raws, s ∈ g.raws
  types : ∀ s ∈ f.types, s ∈ g.types

variable {f g h : FirstSet}

theorem Within.refl (f : FirstSet) : f.Within f := ⟨fun _ hs => hs, fun _ hs => hs⟩

theorem Within.trans (hf : f.Within g) (hg : g.Within h) : f.Within h :=
  ⟨fun s hs => hg.raws s (hf.raws s hs), fun s hs => hg.types s (hf.types s hs)⟩

theorem within_union_left (f g : FirstSet) : f.Within (f.union g) :=
  ⟨fun _ hs => mem_foldr_insertSorted.2 (.inr hs), fun _ hs => mem_foldr_insertSorted.2 (.inr hs)⟩

theorem within_union_right (f g : FirstSet) : g.Within (f.union g) :=
  ⟨fun _ hs => mem_foldr_insertSorted.2 (.inl hs), fun _ hs => mem_foldr_insertSorted.2 (.inl hs)⟩

theorem within_unionAll {hs : List (Option FirstSet)} (h : unionAll hs = some f) :
    ∀ x ∈ hs, ∃ g, x = some g ∧ g.Within f := by
  induction hs generalizing f with
  | nil => simp
  | cons x xs ih =>
    simp only [unionAll, bind, pure, Option.bind_eq_some_iff] at h
    obtain ⟨a, rfl, b, hb, hab⟩ := h
    cases hab
    intro y hy
    rcases List.mem_cons.1 hy with rfl | hy
    · exact ⟨a, rfl, within_union_left a b⟩
    · obtain ⟨g, rfl, hg⟩ := ih hb y hy
      exact ⟨g, rfl, hg.trans (within_union_right a b)⟩

end FirstSet

namespace Draft

variable {d : Draft}

/-! ## 2. What explains a first set -/

/-- First sets that are known, of the instructions with these numbers. -/
abbrev Knowledge := Nat → FirstSet → Prop

/-- The first set of an instruction is known, and within another. -/
def Covers (known : Knowledge) (f : FirstSet) (n : Nat) : Prop := ∃ g, known n g ∧ g.Within f

theorem Covers.mono {known known' : Knowledge} {f f' : FirstSet} {n : Nat} (h : Covers known f n)
    (hk : ∀ n g, known n g → known' n g) (hf : f.Within f') : Covers known' f' n := by
  obtain ⟨g, hg, hwithin⟩ := h
  exact ⟨g, hk n g hg, hwithin.trans hf⟩

/-- The parts that a sequence can begin with are covered: those up to the first that must not be
left out, markers aside. -/
def CoversBeginning (d : Draft) (known : Knowledge) (f : FirstSet) : List Nat → Prop
  | [] => True
  | part :: rest =>
    if (d.slot part).instruction.kind = .marker then d.CoversBeginning known f rest
    else Covers known f part ∧
      ((d.slot part).instruction.isOptional = true → d.CoversBeginning known f rest)

theorem CoversBeginning.mono {known known' : Knowledge} {f f' : FirstSet} {parts : List Nat}
    (h : d.CoversBeginning known f parts) (hk : ∀ n g, known n g → known' n g)
    (hf : f.Within f') : d.CoversBeginning known' f' parts := by
  induction parts with
  | nil => trivial
  | cons part rest ih =>
    unfold CoversBeginning at h ⊢
    split
    · next hkind =>
      rw [if_pos hkind] at h
      exact ih h
    · next hkind =>
      rw [if_neg hkind] at h
      exact ⟨h.1.mono hk hf, fun ho => ih (h.2 ho)⟩

/-- The first set of an instruction is explained by what is known of those it begins with, and by
the texts and types it asks for itself. -/
def Explains (d : Draft) (known : Knowledge) (n : Nat) (f : FirstSet) : Prop :=
  match (d.slot n).instruction.kind with
  | .ref => ∃ target, (d.slot n).parameters[1]? = some target ∧ Covers known f target
  | .sequence => d.CoversBeginning known f (d.partsOf n)
  | .oneOf | .anyNumberOf | .delimited => ∀ part ∈ d.partsOf n, Covers known f part
  | .bracketed => ∃ opening, (d.slot n).parameters[0]? = some opening ∧ Covers known f opening
  | .string => ∃ s, d.stringIn n 0 = some s ∧ s ∈ f.raws
  | .multiString =>
    ∀ k < ((d.slot n).parameters[1]?).getD 0, ∀ s, d.stringIn n (k + 2) = some s → s ∈ f.raws
  | .typed => ∃ s, d.stringIn n 0 = some s ∧ s ∈ f.types
  | .nothing | .missing => True
  | .pattern | .anything | .token | .marker => False

theorem Explains.mono {known known' : Knowledge} {n : Nat} {f : FirstSet}
    (h : d.Explains known n f) (hk : ∀ n g, known n g → known' n g) :
    d.Explains known' n f := by
  have covers {n : Nat} (h : Covers known f n) : Covers known' f n := h.mono hk (.refl f)
  unfold Explains at h ⊢
  cases hkind : (d.slot n).instruction.kind <;> simp only [hkind] at h ⊢ <;> try exact h
  case ref =>
    obtain ⟨target, htarget, hcovers⟩ := h
    exact ⟨target, htarget, covers hcovers⟩
  case sequence => exact h.mono hk (.refl f)
  case oneOf => exact fun part hpart => covers (h part hpart)
  case anyNumberOf => exact fun part hpart => covers (h part hpart)
  case delimited => exact fun part hpart => covers (h part hpart)
  case bracketed =>
    obtain ⟨opening, hopening, hcovers⟩ := h
    exact ⟨opening, hopening, covers hcovers⟩

/-! ## 3. The walk -/

/-- The first set of an instruction has been worked out. Of what is no instruction the first set is
known to be empty. -/
def Known (st : Array HintState) : Knowledge :=
  fun n f => st.getD n (.done (some {})) = .done (some f)

/-- All that is known is explained. -/
structure Sensible (d : Draft) (st : Array HintState) : Prop where
  size_eq : st.size = d.slots.size
  explains : ∀ n f, Known st n f → d.Explains (Known st) n f

/-- What has been found out stays, and no other instruction is being worked out. -/
structure Further (st st' : Array HintState) : Prop where
  size_eq : st'.size = st.size
  done : ∀ (n : Nat) h, st[n]? = some (.done h) → st'[n]? = some (.done h)
  inProgress : ∀ n : Nat, st'[n]? = some .inProgress ↔ st[n]? = some .inProgress

namespace Further

variable {st st' st'' : Array HintState}

theorem refl (st : Array HintState) : Further st st := ⟨rfl, fun _ _ h => h, fun _ => Iff.rfl⟩

theorem trans (h : Further st st') (h' : Further st' st'') : Further st st'' :=
  ⟨h'.size_eq.trans h.size_eq, fun n r hr => h'.done n r (h.done n r hr),
    fun n => (h'.inProgress n).trans (h.inProgress n)⟩

theorem known (h : Further st st') (n : Nat) (f : FirstSet) (hn : Known st n f) :
    Known st' n f := by
  unfold Known at hn ⊢
  rw [Array.getD_eq_getD_getElem?] at hn ⊢
  cases hst : st[n]? with
  | none =>
    rw [hst] at hn
    have hle : st'.size ≤ n := by
      rw [h.size_eq]
      exact Array.getElem?_eq_none_iff.1 hst
    rw [Array.getElem?_eq_none hle]
    exact hn
  | some r =>
    rw [hst] at hn
    obtain rfl : r = .done (some f) := hn
    rw [h.done n _ hst]
    rfl

end Further

/-- A step of the walk: what is known stays explained and known, and what the step gives is so where
it ends. -/
def Learns {α : Type} (d : Draft) (x : Hinting α) (Q : α → Array HintState → Prop) : Prop :=
  ∀ st, Sensible d st →
    Sensible d (x.run st).2 ∧ Further st (x.run st).2 ∧ Q (x.run st).1 (x.run st).2

/-- What stays as it is while more is found out. -/
def Lasts (P : Array HintState → Prop) : Prop := ∀ st st', Further st st' → P st → P st'

namespace Learns

variable {α β : Type}

theorem pure {a : α} {Q : α → Array HintState → Prop} (h : ∀ st, Q a st) :
    Learns d (Pure.pure a) Q :=
  fun st hs => ⟨hs, .refl st, h st⟩

/-- What the first step gives still holds where the second ends. -/
theorem bind {x : Hinting α} {f : α → Hinting β} {Q : α → Array HintState → Prop}
    {R : β → Array HintState → Prop} (hx : Learns d x Q) (hQ : ∀ a, Lasts (Q a))
    (hf : ∀ a, Learns d (f a) fun b st => Q a st → R b st) : Learns d (x >>= f) R := by
  intro st hs
  obtain ⟨sensible, further, hq⟩ := hx st hs
  obtain ⟨sensible', further', hr⟩ := hf _ _ sensible
  exact ⟨sensible', further.trans further', hr (hQ _ _ _ further' hq)⟩

theorem mono {x : Hinting α} {Q R : α → Array HintState → Prop} (hx : Learns d x Q)
    (hQR : ∀ a st, Q a st → R a st) : Learns d x R := by
  intro st hs
  obtain ⟨sensible, further, hq⟩ := hx st hs
  exact ⟨sensible, further, hQR _ _ hq⟩

theorem mapM {f : α → Hinting β} {Q : α → β → Array HintState → Prop} (hQ : ∀ a b, Lasts (Q a b))
    (xs : List α) (h : ∀ x ∈ xs, Learns d (f x) (Q x)) :
    Learns d (xs.mapM f) fun ys st => List.Forall₂ (fun x y => Q x y st) xs ys := by
  induction xs with
  | nil => exact .pure fun _ => .nil
  | cons x xs ih =>
    rw [List.mapM_cons]
    refine (h x (by simp)).bind (hQ x) fun y =>
      (ih fun x hx => h x (by simp [hx])).bind (fun ys st st' hfurther hys => ?_) fun ys =>
        .pure fun st hys hy => .cons hy hys
    exact hys.imp fun x y hxy => hQ x y st st' hfurther hxy

end Learns

/-- A result that says something is known. -/
def IsKnown (n : Nat) (r : Option FirstSet) (st : Array HintState) : Prop :=
  ∀ f, r = some f → Known st n f

theorem lasts_isKnown (n : Nat) (r : Option FirstSet) : Lasts (IsKnown n r) :=
  fun _ _ hfurther h f hf => hfurther.known n f (h f hf)

theorem learns_sequenceHint {hint : Nat → Hinting (Option FirstSet)}
    (hhint : ∀ n, Learns d (hint n) (IsKnown n)) (parts : List Nat) :
    Learns d (d.sequenceHint hint parts) fun r st =>
      ∀ f, r = some f → d.CoversBeginning (Known st) f parts := by
  induction parts with
  | nil => exact .pure fun _ _ _ => trivial
  | cons part rest ih =>
    unfold sequenceHint
    dsimp only
    split
    · next hkind =>
      refine ih.mono fun r st h f hf => ?_
      rw [CoversBeginning, if_pos hkind]
      exact h f hf
    · next hkind =>
      refine (hhint part).bind (lasts_isKnown part) fun r => ?_
      cases r with
      | none => exact .pure fun _ _ f hf => by cases hf
      | some a =>
        dsimp only
        split
        · refine ih.bind (fun r st st' hfurther h f hf => ?_) fun r => .pure fun st h hpart f hf => ?_
          · exact (h f hf).mono hfurther.known (.refl f)
          · obtain ⟨b, rfl, rfl⟩ := Option.map_eq_some_iff.1 hf
            rw [CoversBeginning, if_neg hkind]
            exact ⟨⟨a, hpart a rfl, FirstSet.within_union_left a b⟩, fun _ =>
              (h b rfl).mono (fun _ _ h => h) (FirstSet.within_union_right a b)⟩
        · next hoptional =>
          refine .pure fun st hpart f hf => ?_
          cases hf
          rw [CoversBeginning, if_neg hkind]
          exact ⟨⟨a, hpart a rfl, .refl a⟩, fun h => absurd h hoptional⟩

/-- What a grammar of parts can begin with covers its parts. -/
theorem covers_of_unionAll {parts : List Nat} {rs : List (Option FirstSet)}
    {st : Array HintState} {f : FirstSet}
    (h : List.Forall₂ (fun n r => IsKnown n r st) parts rs) (hf : FirstSet.unionAll rs = some f) :
    ∀ part ∈ parts, Covers (Known st) f part := by
  have within := FirstSet.within_unionAll hf
  clear hf
  induction h with
  | nil => simp
  | @cons n r parts rs hr _ ih =>
    intro part hpart
    rcases List.mem_cons.1 hpart with rfl | hpart
    · obtain ⟨g, rfl, hg⟩ := within r (by simp)
      exact ⟨g, hr g rfl, hg⟩
    · exact ih (fun x hx => within x (by simp [hx])) part hpart

/-- What is worked out of an instruction is explained by what was found out of others. -/
theorem learns_hintFrom {hint : Nat → Hinting (Option FirstSet)}
    (hhint : ∀ n, Learns d (hint n) (IsKnown n)) (n : Nat) :
    Learns d (d.hintFrom hint n) fun r st => ∀ f, r = some f → d.Explains (Known st) n f := by
  have parts : Learns d (do return FirstSet.unionAll (← (d.partsOf n).mapM hint)) fun r st =>
      ∀ f, r = some f → ∀ part ∈ d.partsOf n, Covers (Known st) f part := by
    refine (Learns.mapM (Q := IsKnown) lasts_isKnown (d.partsOf n) fun n _ => hhint n).bind
      (fun rs st st' hfurther h => ?_) fun rs => .pure fun st h f hf => covers_of_unionAll h hf
    exact h.imp fun n r hr => lasts_isKnown n r st st' hfurther hr
  have one (m : Nat) : Learns d (hint m) fun r st => ∀ f, r = some f → Covers (Known st) f m :=
    (hhint m).mono fun r st h f hf => ⟨f, h f hf, .refl f⟩
  unfold hintFrom Explains
  cases hkind : (d.slot n).instruction.kind with
  | ref =>
    dsimp only
    cases htarget : (d.slot n).parameters[1]? with
    | none => exact .pure fun _ f hf => by cases hf
    | some target => exact (one target).mono fun r st h f hf => ⟨target, rfl, h f hf⟩
  | sequence => exact learns_sequenceHint hhint _
  | oneOf => exact parts
  | anyNumberOf => exact parts
  | delimited => exact parts
  | bracketed =>
    dsimp only
    cases hopening : (d.slot n).parameters[0]? with
    | none => exact .pure fun _ f hf => by cases hf
    | some opening => exact (one opening).mono fun r st h f hf => ⟨opening, rfl, h f hf⟩
  | string =>
    refine .pure fun _ f hf => ?_
    obtain ⟨s, hs, rfl⟩ := Option.map_eq_some_iff.1 hf
    exact ⟨s, hs, by simp⟩
  | multiString =>
    refine .pure fun _ f hf k hk s hs => ?_
    cases hf
    refine mem_foldr_insertSorted.2 (.inl (List.mem_filterMap.2 ⟨k, ?_, hs⟩))
    simpa using hk
  | typed =>
    refine .pure fun _ f hf => ?_
    obtain ⟨s, hs, rfl⟩ := Option.map_eq_some_iff.1 hf
    exact ⟨s, hs, by simp⟩
  | nothing => exact .pure fun _ _ _ => trivial
  | missing => exact .pure fun _ _ _ => trivial
  | pattern => exact .pure fun _ f hf => by cases hf
  | anything => exact .pure fun _ f hf => by cases hf
  | token => exact .pure fun _ f hf => by cases hf
  | marker => exact .pure fun _ f hf => by cases hf

/-! ## 4. Results are kept -/

section Steps

variable {st st' : Array HintState} {n : Nat}

/-- Nothing is known of an instruction that has not been worked out. -/
theorem known_setIfInBounds_iff {r : HintState} (h : n < st.size → ∀ f, ¬ Known st n f)
    (hr : ∀ f, r ≠ .done (some f)) (m : Nat) (f : FirstSet) :
    Known (st.setIfInBounds n r) m f ↔ Known st m f := by
  unfold Known at h ⊢
  simp only [Array.getD_eq_getD_getElem?] at h ⊢
  by_cases hm : n = m
  · subst hm
    by_cases hlt : n < st.size
    · simp only [Array.getElem?_setIfInBounds_self_of_lt hlt, Option.getD_some]
      exact ⟨fun heq => absurd heq (hr f), fun heq => absurd heq (h hlt f)⟩
    · rw [Array.setIfInBounds_eq_of_size_le (by omega)]
  · rw [Array.getElem?_setIfInBounds_ne hm]

/-- To set about an instruction forgets nothing. -/
theorem sensible_setInProgress (hs : Sensible d st) (h : st.getD n .unvisited = .unvisited) :
    Sensible d (st.setIfInBounds n .inProgress) := by
  have nothing : n < st.size → ∀ f, ¬ Known st n f := by
    intro hlt f hf
    rw [Known, Array.getD_eq_getD_getElem?, Array.getElem?_eq_getElem hlt] at hf
    rw [Array.getD_eq_getD_getElem?, Array.getElem?_eq_getElem hlt] at h
    simp_all
  have known := known_setIfInBounds_iff nothing (r := .inProgress) (by simp)
  exact ⟨by simpa using hs.size_eq, fun m f hm =>
    (hs.explains m f ((known m f).1 hm)).mono fun n g hg => (known n g).2 hg⟩

/-- The result of an instruction that was being worked out is kept. -/
theorem sensible_setDone (hs : Sensible d st) (hn : n < st.size → st[n]? = some .inProgress)
    {r : Option FirstSet} (hr : ∀ f, r = some f → d.Explains (Known st) n f) :
    Sensible d (st.setIfInBounds n (.done r)) := by
  have known : ∀ m f, Known st m f → Known (st.setIfInBounds n (.done r)) m f := by
    intro m f hm
    unfold Known at hm ⊢
    rw [Array.getD_eq_getD_getElem?] at hm ⊢
    by_cases heq : n = m
    · subst heq
      by_cases hlt : n < st.size
      · rw [hn hlt] at hm
        cases hm
      · rw [Array.setIfInBounds_eq_of_size_le (by omega)]
        exact hm
    · rw [Array.getElem?_setIfInBounds_ne heq]
      exact hm
  refine ⟨by simpa using hs.size_eq, fun m f hm => ?_⟩
  by_cases heq : n = m ∧ n < st.size
  · obtain ⟨rfl, hlt⟩ := heq
    rw [Known, Array.getD_eq_getD_getElem?, Array.getElem?_setIfInBounds_self_of_lt hlt] at hm
    cases hm
    exact (hr f rfl).mono known
  · refine (hs.explains m f ?_).mono known
    unfold Known at hm ⊢
    rw [Array.getD_eq_getD_getElem?] at hm ⊢
    by_cases hm' : n = m
    · rw [Array.setIfInBounds_eq_of_size_le (by omega)] at hm
      exact hm
    · rwa [Array.getElem?_setIfInBounds_ne hm'] at hm

/-- Working out an instruction, from setting about it to keeping the result. -/
theorem further_setDone (h : st.getD n .unvisited = .unvisited)
    (hf : Further (st.setIfInBounds n .inProgress) st') (r : Option FirstSet) :
    Further st (st'.setIfInBounds n (.done r)) := by
  have hsize : st'.size = st.size := by simpa using hf.size_eq
  have unvisited : n < st.size → st[n]? = some .unvisited := by
    intro hlt
    rw [Array.getD_eq_getD_getElem?, Array.getElem?_eq_getElem hlt] at h
    rw [Array.getElem?_eq_getElem hlt]
    exact congrArg some h
  refine ⟨by simpa using hsize, fun m r' hm => ?_, fun m => ?_⟩
  · by_cases heq : n = m
    · subst heq
      rw [unvisited (Array.getElem?_eq_some_iff.1 hm).1] at hm
      cases hm
    · rw [Array.getElem?_setIfInBounds_ne heq]
      exact hf.done m r' (by rwa [Array.getElem?_setIfInBounds_ne heq])
  · by_cases heq : n = m
    · subst heq
      by_cases hlt : n < st.size
      · rw [Array.getElem?_setIfInBounds_self_of_lt (by omega), unvisited hlt]
        simp
      · rw [Array.getElem?_eq_none (by simp; omega), Array.getElem?_eq_none (by omega)]
    · rw [Array.getElem?_setIfInBounds_ne heq, hf.inProgress m, Array.getElem?_setIfInBounds_ne heq]

theorem run_hint_done {fuel : Nat} {h : Option FirstSet} (hn : st.getD n .unvisited = .done h) :
    (d.hint (fuel + 1) n).run st = (h, st) := by
  simp only [hint, StateT.run_bind, StateT.run_get, pure_bind, hn]
  rfl

theorem run_hint_inProgress {fuel : Nat} (hn : st.getD n .unvisited = .inProgress) :
    (d.hint (fuel + 1) n).run st = (none, st) := by
  simp only [hint, StateT.run_bind, StateT.run_get, pure_bind, hn]
  rfl

theorem run_hint_unvisited {fuel : Nat} (hn : st.getD n .unvisited = .unvisited) :
    (d.hint (fuel + 1) n).run st =
      let r := (d.hintFrom (d.hint fuel) n).run (st.setIfInBounds n .inProgress)
      (r.1, r.2.setIfInBounds n (.done r.1)) := by
  simp only [hint, StateT.run_bind, StateT.run_get, pure_bind, hn]
  rfl

end Steps

/-- Of what is no instruction there is nothing to find out. -/
theorem run_hintFrom_of_size_le (hint : Nat → Hinting (Option FirstSet)) {n : Nat}
    (hn : d.slots.size ≤ n) (st : Array HintState) :
    ((d.hintFrom hint n).run st).1 = some {} := by
  have missing : d.slot n = {} := by
    rw [slot, Array.getD_eq_getD_getElem?, Array.getElem?_eq_none hn]
    rfl
  unfold hintFrom
  rw [missing]
  rfl

/-- The walk keeps what it knows explained, and what it says of an instruction it knows. -/
theorem learns_hint (fuel n : Nat) : Learns d (d.hint fuel n) (IsKnown n) := by
  induction fuel generalizing n with
  | zero => exact .pure fun _ f hf => by cases hf
  | succ fuel ih =>
    intro st hs
    cases hn : st.getD n .unvisited with
    | done h =>
      rw [run_hint_done hn]
      refine ⟨hs, .refl st, fun f hf => ?_⟩
      rw [Array.getD_eq_getD_getElem?] at hn
      rw [Known, Array.getD_eq_getD_getElem?]
      cases hst : st[n]? with
      | none => rw [hst] at hn; cases hn
      | some r =>
        rw [hst] at hn
        obtain rfl : r = .done h := hn
        exact congrArg HintState.done hf
    | inProgress =>
      rw [run_hint_inProgress hn]
      exact ⟨hs, .refl st, fun f hf => by cases hf⟩
    | unvisited =>
      obtain ⟨sensible, further, explained⟩ :=
        learns_hintFrom ih n _ (sensible_setInProgress hs hn)
      have missing (hle : d.slots.size ≤ n) :=
        run_hintFrom_of_size_le (d.hint fuel) hle (st.setIfInBounds n .inProgress)
      rw [run_hint_unvisited hn]
      generalize (d.hintFrom (d.hint fuel) n).run (st.setIfInBounds n .inProgress) = r
        at sensible further explained missing
      have size_eq : r.2.size = st.size := by simpa using further.size_eq
      refine ⟨sensible_setDone sensible (fun hlt => ?_) explained, further_setDone hn further r.1,
        fun f hf => ?_⟩
      · rw [further.inProgress n, Array.getElem?_setIfInBounds_self_of_lt (by omega)]
      · unfold Known
        rw [Array.getD_eq_getD_getElem?]
        by_cases hlt : n < r.2.size
        · rw [Array.getElem?_setIfInBounds_self_of_lt hlt]
          exact congrArg HintState.done hf
        · have hnone := missing (by rw [← hs.size_eq]; omega)
          rw [Array.getElem?_eq_none (by simp; omega), ← hnone.symm.trans hf]
          rfl

/-- An instruction that is not being worked out has its result kept. -/
theorem done_hint (fuel : Nat) {n : Nat} {st : Array HintState} (hs : Sensible d st) (hn : n < st.size)
    (hidle : st[n]? ≠ some .inProgress) :
    ((d.hint (fuel + 1) n).run st).2[n]? = some (.done ((d.hint (fuel + 1) n).run st).1) := by
  have hget : st.getD n .unvisited = st[n] := by
    rw [Array.getD_eq_getD_getElem?, Array.getElem?_eq_getElem hn]
    rfl
  rw [Array.getElem?_eq_getElem hn] at hidle
  cases hst : st[n] with
  | done h =>
    rw [run_hint_done (hget.trans hst), Array.getElem?_eq_getElem hn, hst]
  | inProgress => exact absurd (congrArg some hst) hidle
  | unvisited =>
    have further := (learns_hintFrom (learns_hint (d := d) fuel) n _
      (sensible_setInProgress hs (hget.trans hst))).2.1
    rw [run_hint_unvisited (hget.trans hst)]
    refine Array.getElem?_setIfInBounds_self_of_lt ?_
    rw [further.size_eq, Array.size_setIfInBounds]
    exact hn

/-- Going through instructions one after the other keeps the result of each. -/
theorem run_mapM_hint (fuel : Nat) (ns : List Nat) {st : Array HintState} (hs : Sensible d st)
    (hns : ∀ n ∈ ns, n < st.size) (hidle : ∀ n : Nat, st[n]? ≠ some .inProgress) :
    Sensible d ((ns.mapM (d.hint (fuel + 1))).run st).2 ∧
      List.Forall₂ (fun n r => ((ns.mapM (d.hint (fuel + 1))).run st).2[n]? = some (.done r)) ns
        ((ns.mapM (d.hint (fuel + 1))).run st).1 := by
  induction ns generalizing st with
  | nil => exact ⟨hs, .nil⟩
  | cons n ns ih =>
    obtain ⟨sensible, further, -⟩ := learns_hint (fuel + 1) n st hs
    have kept := done_hint fuel hs (hns n (by simp)) (hidle n)
    obtain ⟨sensible', kept'⟩ := ih sensible
      (fun m hm => by rw [further.size_eq]; exact hns m (by simp [hm]))
      (fun m hm => hidle m ((further.inProgress m).1 hm))
    have further' := (Learns.mapM (Q := IsKnown) lasts_isKnown ns
      (fun m _ => learns_hint (d := d) (fuel + 1) m) _ sensible).2.1
    rw [List.mapM_cons]
    exact ⟨sensible', .cons (further'.done n _ kept) kept'⟩

/-! ## 5. All first sets -/

/-- The first set of an instruction, as it was worked out. -/
def HasFirstSet (d : Draft) : Knowledge := fun n f => d.allHints.getD n (some {}) = some f

/-- There is a result for every instruction, and the walk ends knowing it. -/
theorem exists_sensible_allHints (d : Draft) : d.allHints.length = d.slots.size ∧
    ∃ st, Sensible d st ∧ ∀ n f, Known st n f ↔ d.HasFirstSet n f := by
  have initial : Sensible d (Array.replicate d.slots.size .unvisited) := by
    refine ⟨by simp, fun n f hn => ?_⟩
    unfold Known at hn
    rw [Array.getD_eq_getD_getElem?, Array.getElem?_replicate] at hn
    split at hn
    · cases hn
    · next hle =>
      have missing : d.slot n = {} := by
        rw [slot, Array.getD_eq_getD_getElem?, Array.getElem?_eq_none (by omega)]
        rfl
      unfold Explains
      rw [missing]
      trivial
  have idle : ∀ n : Nat, (Array.replicate d.slots.size HintState.unvisited)[n]? ≠
      some .inProgress := by
    intro n
    rw [Array.getElem?_replicate]
    split <;> simp
  obtain ⟨sensible, kept⟩ := run_mapM_hint d.slots.size (List.range d.slots.size) initial
    (by simp) idle
  have all : d.allHints = (((List.range d.slots.size).mapM (d.hint (d.slots.size + 1))).run
    (Array.replicate d.slots.size .unvisited)).1 := rfl
  generalize ((List.range d.slots.size).mapM (d.hint (d.slots.size + 1))).run
    (Array.replicate d.slots.size .unvisited) = r at sensible kept all
  have length_eq : d.allHints.length = d.slots.size := by
    rw [all, ← kept.length_eq, List.length_range]
  refine ⟨length_eq, r.2, sensible, fun n f => ?_⟩
  unfold Known HasFirstSet
  rw [Array.getD_eq_getD_getElem?, List.getD_eq_getElem?_getD]
  by_cases hlt : n < d.slots.size
  · have hn : n < r.1.length := by rw [← all]; omega
    have hr := kept.get (i := n) (by simpa using hlt) hn
    rw [List.get_eq_getElem, List.getElem_range, List.get_eq_getElem] at hr
    rw [hr, all, List.getElem?_eq_getElem hn]
    simp
  · rw [Array.getElem?_eq_none (by rw [sensible.size_eq]; omega),
      List.getElem?_eq_none (by omega)]
    simp

/-- The first sets of all instructions explain one another. -/
theorem explains_allHints {n : Nat} {f : FirstSet} (h : d.HasFirstSet n f) :
    d.Explains d.HasFirstSet n f := by
  obtain ⟨-, st, sensible, known⟩ := d.exists_sensible_allHints
  exact (sensible.explains n f ((known n f).2 h)).mono fun n g hg => (known n g).1 hg

end Draft

end QueryLint
