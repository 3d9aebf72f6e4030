import QueryLint.Grammar.Compile

/-!
QueryLint.Proofs.Grammar.Draft — the brackets of a grammar while it is compiled.

Compiling a grammar fills its own slot and makes new ones; no slot that has been filled is touched
again. A bracketed grammar gets two new slots for its brackets, which refer to the names that its
type is declared with, and these references stay as they are to the end.

* `Draft.Settled` — every bracketed grammar so far refers to declared brackets.
* `Grammar.settled_compileInto` — compiling a grammar into an empty slot keeps this.
* `GrammarBook.settled_compileDefinitions` — so does compiling a whole book.
-/

namespace QueryLint

/-! ## 1. Steps that end well -/

/-- Two steps one after the other end well if both do. -/
theorem run_bind_ok {α β : Type} {x : Compiling α} {f : α → Compiling β} {d d' : Draft} {b : β}
    (h : (x >>= f).run d = .ok (b, d')) :
    ∃ a e, x.run d = .ok (a, e) ∧ (f a).run e = .ok (b, d') := by
  rw [StateT.run_bind] at h
  cases hx : x.run d with
  | error e => rw [hx] at h; cases h
  | ok r =>
    rw [hx] at h
    exact ⟨r.1, r.2, rfl, h⟩

theorem run_pure_ok {α : Type} {a b : α} {d d' : Draft}
    (h : (pure a : Compiling α).run d = .ok (b, d')) : b = a ∧ d' = d := by
  cases h
  exact ⟨rfl, rfl⟩

theorem run_get_ok {a d d' : Draft} (h : (get : Compiling Draft).run d = .ok (a, d')) :
    a = d ∧ d' = d := by
  cases h
  exact ⟨rfl, rfl⟩

theorem run_lift_ok {α : Type} {x : Except GrammarError α} {a : α} {d d' : Draft}
    (h : (liftM x : Compiling α).run d = .ok (a, d')) : d' = d := by
  cases x with
  | error e => cases h
  | ok a =>
    cases h
    rfl

/-- A step that changes no slot. -/
def KeepsSlots {α : Type} (x : Compiling α) : Prop :=
  ∀ d a d', x.run d = .ok (a, d') → d'.slots = d.slots

namespace KeepsSlots

variable {α β : Type}

theorem pure (a : α) : KeepsSlots (Pure.pure a : Compiling α) := by
  intro d b d' h
  rw [(run_pure_ok h).2]

theorem bind {x : Compiling α} {f : α → Compiling β} (hx : KeepsSlots x)
    (hf : ∀ a, KeepsSlots (f a)) : KeepsSlots (x >>= f) := by
  intro d b d' h
  obtain ⟨a, e, h₁, h₂⟩ := run_bind_ok h
  rw [hf a e b d' h₂, hx d a e h₁]

theorem mapM {f : α → Compiling β} (xs : List α) (h : ∀ x ∈ xs, KeepsSlots (f x)) :
    KeepsSlots (xs.mapM f) := by
  induction xs with
  | nil => exact pure []
  | cons x xs ih =>
    rw [List.mapM_cons]
    exact bind (h x (by simp)) fun _ => bind (ih fun y hy => h y (by simp [hy])) fun _ => pure _

theorem get : KeepsSlots (MonadState.get : Compiling Draft) := by
  intro d a d' h
  rw [(run_get_ok h).2]

theorem of_modifyGet {f : Draft → α × Draft} (h : ∀ d, (f d).2.slots = d.slots) :
    KeepsSlots (MonadStateOf.modifyGet f : Compiling α) := by
  intro d a d' hrun
  have hf : f d = (a, d') := Except.ok.inj hrun
  rw [← h d, hf]

theorem of_modify {f : Draft → Draft} (h : ∀ d, (f d).slots = d.slots) :
    KeepsSlots (modify f : Compiling PUnit) := of_modifyGet h

theorem intern (s : String) : KeepsSlots (Compiling.intern s) :=
  of_modifyGet fun d => by split <;> rfl

theorem internPattern (s : String) : KeepsSlots (Compiling.internPattern s) :=
  of_modifyGet fun d => by split <;> rfl

theorem count (what : String) (n : Nat) : KeepsSlots (Compiling.count what n) := by
  unfold Compiling.count
  split
  · exact pure n
  · intro d a d' h
    cases h

theorem listParts (ids : List Nat) : KeepsSlots (Compiling.listParts ids) :=
  bind get fun _ => bind (count _ _) fun _ => bind (of_modify fun _ => rfl) fun _ => pure _

theorem listTerminators (ids : List Nat) : KeepsSlots (Compiling.listTerminators ids) :=
  bind get fun _ => bind (count _ _) fun _ => bind (of_modify fun _ => rfl) fun _ => pure _

theorem reference (b : GrammarBook) (n : Nat) (name : String) (exclude : Nat) :
    KeepsSlots (Compiling.reference b n name exclude) :=
  bind (of_modify fun _ => rfl) fun _ => bind (intern name) fun _ => pure _

end KeepsSlots

/-! ## 2. References to names -/

namespace Draft

/-- A slot holds a reference to a name and nothing else. -/
def IsReference (b : GrammarBook) (d : Draft) (n : Nat) (name : String) : Prop :=
  ∃ s k, d.slots[n]? = some s ∧ s.instruction.kind = .ref ∧
    s.parameters = [k, (b.slot? name).getD GrammarId.absent, GrammarId.absent]

/-- A slot that no grammar has been compiled into. -/
def IsUnset (d : Draft) (n : Nat) : Prop :=
  ∃ s, d.slots[n]? = some s ∧ s.instruction.kind = .missing

/-- A slot of a bracketed grammar refers to the brackets of a declared pair. -/
def SlotSettled (b : GrammarBook) (d : Draft) (s : Slot) : Prop :=
  s.instruction.kind = .bracketed → ∃ pair ∈ b.brackets, ∃ opening closing persists,
    s.parameters = [opening, closing, persists] ∧ IsReference b d opening pair.opening ∧
      IsReference b d closing pair.closing

/-- Every bracketed grammar so far refers to the brackets of a declared pair. -/
def Settled (b : GrammarBook) (d : Draft) : Prop :=
  ∀ (n : Nat) (s : Slot), d.slots[n]? = some s → SlotSettled b d s

/-- Every slot of one draft, but for one of them, is in another as it was. -/
def Keeps (except? : Option Nat) (d d' : Draft) : Prop :=
  ∀ (n : Nat) (s : Slot), except? ≠ some n → d.slots[n]? = some s → d'.slots[n]? = some s

variable {b : GrammarBook} {d d' d'' : Draft} {n : Nat} {name : String}

theorem Keeps.of_slots_eq (h : d'.slots = d.slots) (e : Option Nat) : Keeps e d d' := by
  intro n s _ hs
  rw [h]
  exact hs

theorem Keeps.trans {e : Option Nat} (h : Keeps e d d') (h' : Keeps e d' d'') : Keeps e d d'' :=
  fun n s hn hs => h' n s hn (h n s hn hs)

theorem Keeps.weaken (h : Keeps none d d') (e : Option Nat) : Keeps e d d' :=
  fun n s _ hs => h n s (by simp) hs

theorem Settled.of_slots_eq (hs : Settled b d) (h : d'.slots = d.slots) : Settled b d' := by
  intro n s hn hk
  rw [h] at hn
  simp only [IsReference, h]
  exact hs n s hn hk

theorem IsReference.keep {e : Option Nat} (h : IsReference b d n name) (hk : Keeps e d d')
    (hn : e ≠ some n) : IsReference b d' n name := by
  obtain ⟨s, k, hs, hrest⟩ := h
  exact ⟨s, k, hk n s hn hs, hrest⟩

/-- An empty slot holds no reference. -/
theorem IsUnset.ne_of_isReference {m : Nat} (h : IsUnset d n) (hr : IsReference b d m name) :
    n ≠ m := by
  rintro rfl
  obtain ⟨s, hs, hkind⟩ := h
  obtain ⟨s', k, hs', hkind', -⟩ := hr
  rw [hs] at hs'
  cases hs'
  rw [hkind] at hkind'
  cases hkind'

theorem SlotSettled.keep {e : Option Nat} {s : Slot} (h : SlotSettled b d s) (hk : Keeps e d d')
    (he : ∀ n, e = some n → IsUnset d n) : SlotSettled b d' s := by
  intro hkind
  obtain ⟨pair, hpair, opening, closing, persists, hp, ho, hc⟩ := h hkind
  have apart {m : Nat} {name : String} (hm : IsReference b d m name) : e ≠ some m :=
    fun heq => (he m heq).ne_of_isReference hm rfl
  exact ⟨pair, hpair, opening, closing, persists, hp, ho.keep hk (apart ho),
    hc.keep hk (apart hc)⟩

/-! ## 3. New slots and filled slots -/

/-- One draft becomes another by new slots. -/
structure Extends (b : GrammarBook) (d d' : Draft) : Prop where
  keeps : Keeps none d d'
  settled : Settled b d → Settled b d'

/-- One draft becomes another by new slots and by what is noted in a slot that is still empty. -/
structure Prepares (b : GrammarBook) (n : Nat) (d d' : Draft) : Prop where
  keeps : Keeps (some n) d d'
  unset : IsUnset d n → IsUnset d' n
  settled : Settled b d → Settled b d'

theorem Extends.of_slots_eq (h : d'.slots = d.slots) : Extends b d d' :=
  ⟨.of_slots_eq h none, fun hs => hs.of_slots_eq h⟩

theorem Extends.trans (h : Extends b d d') (h' : Extends b d' d'') : Extends b d d'' :=
  ⟨h.keeps.trans h'.keeps, fun hs => h'.settled (h.settled hs)⟩

theorem IsUnset.keep (h : IsUnset d n) (hk : Keeps none d d') : IsUnset d' n := by
  obtain ⟨s, hs, hkind⟩ := h
  exact ⟨s, hk n s (by simp) hs, hkind⟩

theorem Extends.prepares (h : Extends b d d') (n : Nat) : Prepares b n d d' :=
  ⟨h.keeps.weaken _, fun hu => hu.keep h.keeps, h.settled⟩

theorem Prepares.trans (h : Prepares b n d d') (h' : Prepares b n d' d'') : Prepares b n d d'' :=
  ⟨h.keeps.trans h'.keeps, fun hu => h'.unset (h.unset hu), fun hs => h'.settled (h.settled hs)⟩

/-- A new slot is empty. -/
theorem run_alloc_ok (b : GrammarBook) (h : Compiling.alloc.run d = .ok (n, d')) :
    d.slots[n]? = none ∧ IsUnset d' n ∧ Extends b d d' := by
  have hd : (d.slots.size, { d with slots := d.slots.push {} }) = (n, d') := Except.ok.inj h
  obtain ⟨rfl, rfl⟩ := Prod.mk.inj hd
  have keeps : Keeps none d { d with slots := d.slots.push {} } := by
    intro m s _ hs
    obtain ⟨hlt, rfl⟩ := Array.getElem?_eq_some_iff.1 hs
    simp [Array.getElem?_push, Nat.ne_of_lt hlt]
  refine ⟨by simp, ⟨{}, by simp, rfl⟩, keeps, fun hs m s hm => ?_⟩
  rw [Array.getElem?_push] at hm
  split at hm
  · cases hm
    intro hkind
    cases hkind
  · exact (hs m s hm).keep keeps (by simp)

theorem run_setSlot_ok {f : Slot → Slot} {u : Unit}
    (h : (Compiling.setSlot n f).run d = .ok (u, d')) : d'.slots = d.slots.modify n f := by
  have hd : ((), { d with slots := d.slots.modify n f }) = (u, d') := Except.ok.inj h
  obtain ⟨-, rfl⟩ := Prod.mk.inj hd
  rfl

theorem getElem?_of_modify {f : Slot → Slot} (h : d'.slots = d.slots.modify n f) {m : Nat}
    {s : Slot} (hs : d.slots[m]? = some s) : d'.slots[m]? = some (if n = m then f s else s) := by
  rw [h, Array.getElem?_modify, hs]
  split <;> rfl

theorem keeps_of_modify {f : Slot → Slot} (h : d'.slots = d.slots.modify n f) :
    Keeps (some n) d d' := by
  intro m s hm hs
  rw [getElem?_of_modify h hs, if_neg (by simpa using hm)]

/-- A slot of a draft whose slot `n` was changed. -/
theorem of_getElem?_modify {f : Slot → Slot} (h : d'.slots = d.slots.modify n f) {m : Nat}
    {s : Slot} (hs : d'.slots[m]? = some s) :
    ∃ t, d.slots[m]? = some t ∧ s = if n = m then f t else t := by
  rw [h, Array.getElem?_modify] at hs
  split at hs
  · next hnm =>
    obtain ⟨t, ht, rfl⟩ := Option.map_eq_some_iff.1 hs
    exact ⟨t, ht, by rw [if_pos hnm]⟩
  · next hnm => exact ⟨s, hs, by rw [if_neg hnm]⟩

/-- What is put into an empty slot settles the draft if it is settled. -/
theorem settled_of_modify {f : Slot → Slot} (h : d'.slots = d.slots.modify n f)
    (hs : Settled b d) (hu : IsUnset d n)
    (hf : ∀ s, d.slots[n]? = some s → SlotSettled b d (f s)) : Settled b d' := by
  have keeps := keeps_of_modify h
  intro m s hm
  obtain ⟨t, ht, rfl⟩ := of_getElem?_modify h hm
  have unset : ∀ k, some n = some k → IsUnset d k := by
    rintro k ⟨⟩
    exact hu
  split
  · next hnm =>
    subst hnm
    exact (hf t ht).keep keeps unset
  · exact (hs m t ht).keep keeps unset

/-- A note in a slot that changes neither its instruction nor its parameters. -/
theorem prepares_of_modify {f : Slot → Slot} (h : d'.slots = d.slots.modify n f)
    (hf : ∀ s, (f s).instruction = s.instruction ∧ (f s).parameters = s.parameters) :
    Prepares b n d d' := by
  have reference {m : Nat} {name : String} (hr : IsReference b d m name) :
      IsReference b d' m name := by
    obtain ⟨s, k, hs, hkind, hp⟩ := hr
    refine ⟨_, k, getElem?_of_modify h hs, ?_⟩
    split
    · rw [(hf s).1, (hf s).2]
      exact ⟨hkind, hp⟩
    · exact ⟨hkind, hp⟩
  refine ⟨keeps_of_modify h, fun ⟨s, hs, hkind⟩ => ?_, fun hs m s hm hkind => ?_⟩
  · refine ⟨_, getElem?_of_modify h hs, ?_⟩
    rw [if_pos rfl, (hf s).1]
    exact hkind
  · obtain ⟨t, ht, rfl⟩ := of_getElem?_modify h hm
    have same : (if n = m then f t else t).instruction = t.instruction ∧
        (if n = m then f t else t).parameters = t.parameters := by
      split
      · exact hf t
      · exact ⟨rfl, rfl⟩
    rw [same.1] at hkind
    obtain ⟨pair, hpair, opening, closing, persists, hp, ho, hc⟩ := hs m t ht hkind
    exact ⟨pair, hpair, opening, closing, persists, same.2.trans hp, reference ho, reference hc⟩

theorem run_reference_ok {exclude : Nat} {ps : List Nat}
    (h : (Compiling.reference b n name exclude).run d = .ok (ps, d')) :
    ∃ k, ps = [k, (b.slot? name).getD GrammarId.absent, exclude] := by
  obtain ⟨_, _, -, h⟩ := run_bind_ok h
  obtain ⟨k, _, -, h⟩ := run_bind_ok h
  exact ⟨k, (run_pure_ok h).1⟩

/-- A new reference to a name. -/
theorem run_bareReference_ok (h : (Compiling.bareReference b name).run d = .ok (n, d')) :
    Extends b d d' ∧ IsReference b d' n name := by
  obtain ⟨m, d₁, h₁, h⟩ := run_bind_ok h
  obtain ⟨ps, d₂, h₂, h⟩ := run_bind_ok h
  obtain ⟨r, d₃, h₃, h⟩ := run_bind_ok h
  obtain ⟨r', d₄, h₄, h⟩ := run_bind_ok h
  obtain ⟨_, d₅, h₅, h⟩ := run_bind_ok h
  obtain ⟨rfl, rfl⟩ := run_pure_ok h
  obtain ⟨hnew, unset, extends₁⟩ := run_alloc_ok b h₁
  obtain ⟨k, rfl⟩ := run_reference_ok h₂
  have same : d₄.slots = d₁.slots :=
    (KeepsSlots.listTerminators [] _ _ _ h₄).trans
      ((KeepsSlots.listParts [] _ _ _ h₃).trans (KeepsSlots.reference b n name _ _ _ _ h₂))
  have extends₄ : Extends b d d₄ := extends₁.trans (.of_slots_eq same)
  have unset₄ : IsUnset d₄ n := by
    obtain ⟨s, hs, hkind⟩ := unset
    exact ⟨s, by rw [same]; exact hs, hkind⟩
  have modified := run_setSlot_ok h₅
  refine ⟨⟨fun m s hm hs => ?_, fun hs => ?_⟩, ?_⟩
  · have hne : n ≠ m := by
      rintro rfl
      rw [hnew] at hs
      cases hs
    exact keeps_of_modify modified m s (by simpa using hne) (extends₄.keeps m s hm hs)
  · refine settled_of_modify modified (extends₄.settled hs) unset₄ fun s _ hkind => ?_
    cases hkind
  · obtain ⟨s, hs, -⟩ := unset₄
    refine ⟨_, k, getElem?_of_modify modified hs, ?_⟩
    rw [if_pos rfl]
    exact ⟨rfl, rfl⟩

end Draft

/-! ## 4. Grammars -/

namespace Grammar

open Draft

variable {b : GrammarBook} {d d' : Draft} {n : Nat}

/-- The pair of a bracketed grammar is declared. -/
theorem run_pairOf_ok {form : GrammarForm} {pair : Option BracketDefinition}
    (h : (pairOf b form).run d = .ok (pair, d')) :
    d' = d ∧ (form.instructionKind = .bracketed → ∃ p ∈ b.brackets, pair = some p) := by
  unfold pairOf at h
  split at h
  · split at h
    · next p hp =>
      obtain ⟨rfl, rfl⟩ := run_pure_ok h
      exact ⟨rfl, fun _ => ⟨p, List.mem_of_find?_eq_some hp, rfl⟩⟩
    · cases h
  · next hform =>
    obtain ⟨rfl, rfl⟩ := run_pure_ok h
    refine ⟨rfl, fun hkind => ?_⟩
    cases form <;> first | exact absurd rfl (hform _ _) | cases hkind

/-- The parameters of a grammar that is not bracketed change no slot but its own, of which they
leave the instruction. -/
theorem prepares_parametersOf {exclude delimiter : Nat} {form : GrammarForm}
    {pair : Option BracketDefinition} {ps : List Nat} (hform : form.instructionKind ≠ .bracketed)
    (h : (parametersOf b n exclude delimiter pair form).run d = .ok (ps, d')) :
    Prepares b n d d' := by
  have same {x : Compiling (List Nat)} (hx : KeepsSlots x) (h : x.run d = .ok (ps, d')) :
      Prepares b n d d' := (Extends.of_slots_eq (hx d ps d' h)).prepares n
  cases form with
  | ref name => exact same (.reference b n name exclude) h
  | sequence | nothing | anything | token | missing => exact same (.pure _) h
  | oneOf => exact same (.pure _) h
  | anyNumberOf most perPart => exact same (.pure _) h
  | delimited least => exact same (.pure _) h
  | bracketed type persists => exact absurd rfl hform
  | string template type =>
    exact same (.bind (.intern _) fun _ => .bind (.intern _) fun _ => .pure _) h
  | multiString templates type =>
    exact same (.bind (.intern _) fun _ => .bind (.mapM _ fun _ _ => .intern _) fun _ =>
      .pure _) h
  | typed template type fold trim =>
    obtain ⟨_, d₁, h₁, h⟩ := run_bind_ok h
    obtain ⟨_, d₂, h₂, h⟩ := run_bind_ok h
    obtain ⟨_, d₃, h₃, h⟩ := run_bind_ok h
    obtain ⟨_, d₄, h₄, h⟩ := run_bind_ok h
    obtain ⟨_, d₅, h₅, h⟩ := run_bind_ok h
    obtain ⟨_, d₆, h₆, h⟩ := run_bind_ok h
    obtain ⟨_, d₇, h₇, h⟩ := run_bind_ok h
    obtain ⟨-, rfl⟩ := run_pure_ok h
    have unchanged : d₆.slots = d.slots := by
      rw [KeepsSlots.of_modify (fun _ => rfl) _ _ _ h₆,
        KeepsSlots.mapM _ (fun _ _ => .intern _) _ _ _ h₅, KeepsSlots.count _ _ _ _ _ h₄,
        KeepsSlots.get _ _ _ h₃, KeepsSlots.intern _ _ _ _ h₂, KeepsSlots.intern _ _ _ _ h₁]
    exact ((Extends.of_slots_eq unchanged).prepares n).trans
      (prepares_of_modify (run_setSlot_ok h₇) fun _ => ⟨rfl, rfl⟩)
  | pattern text anti type =>
    cases anti with
    | none =>
      exact same (.bind (.internPattern _) fun _ => .bind (.pure _) fun _ =>
        .bind (.intern _) fun _ => .pure _) h
    | some p =>
      exact same (.bind (.internPattern _) fun _ => .bind (.internPattern _) fun _ =>
        .bind (.intern _) fun _ => .pure _) h
  | marker kind condition =>
    cases condition with
    | none => exact same (.pure _) h
    | some kv => exact same (.bind (.intern _) fun _ => .bind (.intern _) fun _ => .pure _) h

/-- The parameters of a bracketed grammar are references to its brackets. -/
theorem run_parametersOf_bracketed_ok {exclude delimiter : Nat} {type : String}
    {persists : Option Bool} {p : BracketDefinition} {ps : List Nat}
    (h : (parametersOf b n exclude delimiter (some p) (.bracketed type persists)).run d =
      .ok (ps, d')) :
    Extends b d d' ∧ ∃ opening closing x, ps = [opening, closing, x] ∧
      IsReference b d' opening p.opening ∧ IsReference b d' closing p.closing := by
  obtain ⟨opening, d₁, h₁, h⟩ := run_bind_ok h
  obtain ⟨closing, d₂, h₂, h⟩ := run_bind_ok h
  obtain ⟨rfl, rfl⟩ := run_pure_ok h
  obtain ⟨extends₁, ho⟩ := run_bareReference_ok h₁
  obtain ⟨extends₂, hc⟩ := run_bareReference_ok h₂
  exact ⟨extends₁.trans extends₂, opening, closing, _, rfl, ho.keep extends₂.keeps (by simp), hc⟩

/-- A new slot and what is compiled into it. -/
theorem extends_of_alloc {d'' : Draft} (halloc : Compiling.alloc.run d = .ok (n, d'))
    (h : IsUnset d' n → Settled b d' → Keeps (some n) d' d'' ∧ Settled b d'')
    (hs : Settled b d) : Keeps none d d'' ∧ Settled b d'' := by
  obtain ⟨hnew, unset, extended⟩ := run_alloc_ok b halloc
  obtain ⟨keeps, settled⟩ := h unset (extended.settled hs)
  refine ⟨fun m s hm hsm => ?_, settled⟩
  have hne : n ≠ m := by
    rintro rfl
    rw [hnew] at hsm
    cases hsm
  exact keeps m s (by simpa using hne) (extended.keeps m s hm hsm)

mutual

/-- Compiling a grammar into an empty slot changes no other slot and keeps the draft settled. -/
theorem settled_compileInto (g : Grammar) {d d' : Draft} {n : Nat} {u : Unit}
    (h : (g.compileInto b n).run d = .ok (u, d')) (hu : IsUnset d n) (hs : Settled b d) :
    Keeps (some n) d d' ∧ Settled b d' := by
  match g with
  | mk form parts terminators exclude delimiter settings =>
    unfold compileInto at h
    obtain ⟨_, d₁, h₁, h⟩ := run_bind_ok h
    obtain ⟨_, d₂, h₂, h⟩ := run_bind_ok h
    obtain ⟨pair, d₃, h₃, h⟩ := run_bind_ok h
    obtain ⟨_, d₄, h₄, h⟩ := run_bind_ok h
    obtain ⟨_, d₅, h₅, h⟩ := run_bind_ok h
    obtain ⟨ps, d₆, h₆, h⟩ := run_bind_ok h
    obtain ⟨listed, d₇, h₇, h⟩ := run_bind_ok h
    obtain ⟨listed', d₈, h₈, h⟩ := run_bind_ok h
    have modified := run_setSlot_ok h
    obtain ⟨rfl, declared⟩ := run_pairOf_ok h₃
    obtain ⟨keeps₁, settled₁⟩ := settled_compileAll terminators h₁ hs
    obtain ⟨keeps₂, settled₂⟩ := settled_compileOption exclude h₂ settled₁
    obtain ⟨keeps₄, settled₄⟩ := settled_compileAll parts h₄ settled₂
    obtain ⟨keeps₅, settled₅⟩ := settled_compileOption delimiter h₅ settled₄
    have keeps := ((keeps₁.trans keeps₂).trans keeps₄).trans keeps₅
    have same : d₈.slots = d₆.slots :=
      (KeepsSlots.listTerminators _ _ _ _ h₈).trans (KeepsSlots.listParts _ _ _ _ h₇)
    -- The parameters: of brackets, references that have just been made; else nothing of concern.
    have prepared : Prepares b n d₅ d₆ ∧ (form.instructionKind = .bracketed →
        ∃ p ∈ b.brackets, ∃ opening closing x, ps = [opening, closing, x] ∧
          IsReference b d₆ opening p.opening ∧ IsReference b d₆ closing p.closing) := by
      by_cases hform : form.instructionKind = .bracketed
      · obtain ⟨p, hp, rfl⟩ := declared hform
        cases form with
        | bracketed type persists =>
          obtain ⟨extended, refs⟩ := run_parametersOf_bracketed_ok h₆
          exact ⟨extended.prepares n, fun _ => ⟨p, hp, refs⟩⟩
        | _ => cases hform
      · exact ⟨prepares_parametersOf hform h₆, fun h => absurd h hform⟩
    have ready := prepared.1.trans ((Extends.of_slots_eq (b := b) same).prepares n)
    refine ⟨((keeps.weaken _).trans ready.keeps).trans (keeps_of_modify modified), ?_⟩
    refine settled_of_modify modified (ready.settled settled₅) (ready.unset (hu.keep keeps))
      fun s _ hkind => ?_
    obtain ⟨p, hp, opening, closing, x, hps, ho, hc⟩ := prepared.2 hkind
    have still := Keeps.of_slots_eq same none
    exact ⟨p, hp, opening, closing, x, hps, ho.keep still (by simp), hc.keep still (by simp)⟩

theorem settled_compileAll (gs : List Grammar) {d d' : Draft} {ids : List Nat}
    (h : (compileAll b gs).run d = .ok (ids, d')) (hs : Settled b d) :
    Keeps none d d' ∧ Settled b d' := by
  match gs with
  | [] =>
    unfold compileAll at h
    obtain ⟨-, rfl⟩ := run_pure_ok h
    exact ⟨.of_slots_eq rfl none, hs⟩
  | g :: rest =>
    unfold compileAll at h
    obtain ⟨n, d₁, h₁, h⟩ := run_bind_ok h
    obtain ⟨_, d₂, h₂, h⟩ := run_bind_ok h
    obtain ⟨_, d₃, h₃, h⟩ := run_bind_ok h
    obtain ⟨-, rfl⟩ := run_pure_ok h
    obtain ⟨keeps, settled⟩ := extends_of_alloc h₁ (settled_compileInto g h₂) hs
    obtain ⟨keeps', settled'⟩ := settled_compileAll rest h₃ settled
    exact ⟨keeps.trans keeps', settled'⟩

theorem settled_compileOption (g : Option Grammar) {d d' : Draft} {id : Nat}
    (h : (compileOption b g).run d = .ok (id, d')) (hs : Settled b d) :
    Keeps none d d' ∧ Settled b d' := by
  match g with
  | none =>
    unfold compileOption at h
    obtain ⟨-, rfl⟩ := run_pure_ok h
    exact ⟨.of_slots_eq rfl none, hs⟩
  | some g =>
    unfold compileOption at h
    obtain ⟨n, d₁, h₁, h⟩ := run_bind_ok h
    obtain ⟨_, d₂, h₂, h⟩ := run_bind_ok h
    obtain ⟨-, rfl⟩ := run_pure_ok h
    exact extends_of_alloc h₁ (settled_compileInto g h₂) hs

end

end Grammar

/-! ## 5. Books -/

namespace GrammarBook

open Draft

variable {b : GrammarBook} {d d' : Draft}

/-- A loop keeps what each of its turns keeps; what is kept may speak of the turns to come. -/
theorem run_forIn_ok {α : Type} {f : α → PUnit → Compiling (ForInStep PUnit)}
    {P : List α → Draft → Prop}
    (turn : ∀ x rest d r d', P (x :: rest) d → (f x ⟨⟩).run d = .ok (r, d') →
      r = .yield ⟨⟩ ∧ P rest d') (xs : List α) {u : PUnit} (hP : P xs d)
    (h : (forIn xs PUnit.unit f).run d = .ok (u, d')) : P [] d' := by
  induction xs generalizing d with
  | nil =>
    rw [List.forIn_nil] at h
    rw [(run_pure_ok h).2]
    exact hP
  | cons x xs ih =>
    rw [List.forIn_cons] at h
    obtain ⟨r, d₁, h₁, h⟩ := run_bind_ok h
    obtain ⟨rfl, hP⟩ := turn x xs d r d₁ hP h₁
    exact ih hP h

theorem settled_empty (b : GrammarBook) : Settled b {} := by
  intro n s h
  simp at h

/-- How the slots of all names are made: so many are there, all of them empty. -/
structure Making (b : GrammarBook) (rest : List Definition) (d : Draft) : Prop where
  settled : Settled b d
  unset : ∀ n, n < d.slots.size → IsUnset d n
  size : d.slots.size + rest.length = b.definitions.length

theorem making_alloc {x : Definition} {rest : List Definition} {n : Nat}
    (hm : Making b (x :: rest) d) (h : Compiling.alloc.run d = .ok (n, d')) :
    Making b rest d' := by
  obtain ⟨-, unset, extended⟩ := run_alloc_ok b h
  have hd : (d.slots.size, { d with slots := d.slots.push {} }) = (n, d') := Except.ok.inj h
  obtain ⟨rfl, rfl⟩ := Prod.mk.inj hd
  refine ⟨extended.settled hm.settled, fun m hlt => ?_, ?_⟩
  · by_cases hn : m = d.slots.size
    · rw [hn]
      exact unset
    · rw [Array.size_push] at hlt
      exact (hm.unset m (by omega)).keep extended.keeps
  · have := hm.size
    rw [List.length_cons] at this
    rw [Array.size_push]
    omega

/-- How the slots of all names are filled: those of the definitions to come are empty. -/
structure Filling (b : GrammarBook) (rest : List (Definition × Nat)) (d : Draft) : Prop where
  settled : Settled b d
  unset : ∀ x ∈ rest, IsUnset d x.2
  distinct : (rest.map (·.2)).Nodup

theorem filling_of_keeps {x : Definition × Nat} {rest : List (Definition × Nat)}
    (hf : Filling b (x :: rest) d) (hk : Keeps (some x.2) d d') (hs : Settled b d') :
    Filling b rest d' := by
  have distinct := List.nodup_cons.1 hf.distinct
  refine ⟨hs, fun y hy => ?_, distinct.2⟩
  obtain ⟨s, hsy, hkind⟩ := hf.unset y (by simp [hy])
  have hne : x.2 ≠ y.2 := fun h => distinct.1 (List.mem_map.2 ⟨y, hy, h.symm⟩)
  exact ⟨s, hk y.2 s (by simpa using hne) hsy, hkind⟩

/-- The slots of all names are made before any is filled. -/
theorem settled_compileDefinitions {u : Unit}
    (h : b.compileDefinitions.run {} = .ok (u, d')) : Settled b d' := by
  obtain ⟨_, d₁, h₁, h⟩ := run_bind_ok h
  obtain ⟨_, d₂, h₂, h⟩ := run_bind_ok h
  obtain ⟨-, rfl⟩ := run_pure_ok h
  have made : Making b [] d₁ := by
    refine run_forIn_ok (P := Making b) (fun x rest d r d' hm hrun => ?_) b.definitions
      ⟨settled_empty b, by simp, by simp⟩ h₁
    obtain ⟨_, e, he, hrun⟩ := run_bind_ok hrun
    obtain ⟨rfl, rfl⟩ := run_pure_ok hrun
    have halloc : Compiling.alloc.run d = .ok (d.slots.size, d') := by
      obtain ⟨-, rfl⟩ := Prod.mk.inj (Except.ok.inj he)
      rfl
    exact ⟨rfl, making_alloc hm halloc⟩
  have size : d₁.slots.size = b.definitions.length := by simpa using made.size
  have ready : Filling b b.definitions.zipIdx d₁ := by
    refine ⟨made.settled, fun x hx => made.unset x.2 ?_, ?_⟩
    · have := List.snd_lt_of_mem_zipIdx hx
      omega
    · rw [List.zipIdx_map_snd]
      exact List.nodup_range'
  refine (run_forIn_ok (P := Filling b) (fun x rest d r d' hf hrun => ?_) _ ready h₂).settled
  obtain ⟨_, e, he, hrun⟩ := run_bind_ok hrun
  obtain ⟨keeps, settled⟩ :=
    Grammar.settled_compileInto x.1.body he (hf.unset x (by simp)) hf.settled
  split at hrun
  · obtain ⟨_, e₁, h₁, hrun⟩ := run_bind_ok hrun
    obtain ⟨_, e₂, h₂, hrun⟩ := run_bind_ok hrun
    obtain ⟨_, e₃, h₃, hrun⟩ := run_bind_ok hrun
    obtain ⟨rfl, rfl⟩ := run_pure_ok hrun
    have same : e₂.slots = e.slots :=
      (KeepsSlots.intern _ _ _ _ h₂).trans (KeepsSlots.intern _ _ _ _ h₁)
    have noted := ((Extends.of_slots_eq (b := b) same).prepares x.2).trans
      (prepares_of_modify (run_setSlot_ok h₃) fun _ => ⟨rfl, rfl⟩)
    exact ⟨rfl, filling_of_keeps hf (keeps.trans noted.keeps) (noted.settled settled)⟩
  · obtain ⟨rfl, rfl⟩ := run_pure_ok hrun
    exact ⟨rfl, filling_of_keeps hf keeps settled⟩

/-- The declared pairs of brackets are references to their names. -/
theorem run_compileBrackets_ok {pairs : List BracketPair}
    (h : b.compileBrackets.run d = .ok (pairs, d')) :
    Extends b d d' ∧
      (∀ p ∈ pairs, ∃ q ∈ b.brackets, IsReference b d' p.opening.index q.opening ∧
        IsReference b d' p.closing.index q.closing) ∧
      ∀ q ∈ b.brackets, ∃ p ∈ pairs, IsReference b d' p.opening.index q.opening := by
  unfold compileBrackets at h
  generalize b.brackets = qs at h
  induction qs generalizing d d' pairs with
  | nil =>
    obtain ⟨rfl, rfl⟩ := run_pure_ok h
    exact ⟨.of_slots_eq rfl, by simp, by simp⟩
  | cons q qs ih =>
    rw [List.mapM_cons] at h
    obtain ⟨p, d₁, h₁, h⟩ := run_bind_ok h
    obtain ⟨ps, d₂, h₂, h⟩ := run_bind_ok h
    obtain ⟨rfl, rfl⟩ := run_pure_ok h
    obtain ⟨opening, e₁, he₁, h₁⟩ := run_bind_ok h₁
    obtain ⟨closing, e₂, he₂, h₁⟩ := run_bind_ok h₁
    obtain ⟨rfl, rfl⟩ := run_pure_ok h₁
    obtain ⟨extends₁, ho⟩ := run_bareReference_ok he₁
    obtain ⟨extends₂, hc⟩ := run_bareReference_ok he₂
    obtain ⟨extends₃, declared, openings⟩ := ih h₂
    have ho := (ho.keep extends₂.keeps (by simp)).keep extends₃.keeps (by simp)
    have hc := hc.keep extends₃.keeps (by simp)
    refine ⟨(extends₁.trans extends₂).trans extends₃, fun p hp => ?_, fun r hr => ?_⟩
    · rcases List.mem_cons.1 hp with rfl | hp
      · exact ⟨q, by simp, ho, hc⟩
      · obtain ⟨r, hr, href⟩ := declared p hp
        exact ⟨r, by simp [hr], href⟩
    · rcases List.mem_cons.1 hr with rfl | hr
      · exact ⟨_, List.mem_cons_self, ho⟩
      · obtain ⟨p, hp, href⟩ := openings r hr
        exact ⟨p, by simp [hp], href⟩

/-- Compiling compiles the definitions and the brackets, makes tables of them and checks these. -/
theorem run_of_compile {t : Tables} (h : b.compile = .ok t) :
    t.validate = .ok () ∧ ∃ u d₁ pairs d₂ root d₃, b.compileDefinitions.run {} = .ok (u, d₁) ∧
      b.compileBrackets.run d₁ = .ok (pairs, d₂) ∧
      (b.finish root pairs).run d₂ = .ok (t, d₃) := by
  unfold compile at h
  split at h
  · cases h
  cases hrun : b.compileSteps.run {} with
  | error e => rw [hrun] at h; cases h
  | ok r =>
    obtain ⟨t', d₃⟩ := r
    rw [hrun] at h
    cases hvalid : t'.validate with
    | error e =>
      simp only [bind, Except.bind, hvalid] at h
      cases h
    | ok v =>
      simp only [bind, Except.bind, hvalid, pure, Except.pure] at h
      cases h
      refine ⟨hvalid, ?_⟩
      obtain ⟨u, d₁, h₁, hrun⟩ := run_bind_ok hrun
      obtain ⟨pairs, d₂, h₂, hrun⟩ := run_bind_ok hrun
      obtain ⟨_, _, hget, hrun⟩ := run_bind_ok hrun
      obtain ⟨_, _, hchecked, hfinish⟩ := run_bind_ok hrun
      obtain rfl := run_lift_ok hchecked
      obtain ⟨-, rfl⟩ := run_get_ok hget
      split at hfinish
      · cases hfinish
      · next root _ => exact ⟨u, d₁, pairs, _, root, d₃, h₁, h₂, hfinish⟩

end GrammarBook

end QueryLint
