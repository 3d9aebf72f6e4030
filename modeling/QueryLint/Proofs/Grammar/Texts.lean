import QueryLint.Proofs.Grammar.Draft

/-!
QueryLint.Proofs.Grammar.Texts — the strings of a grammar while it is compiled.

Strings are kept once and named by their numbers; a string that has a number keeps it. So whatever
has been filled into a slot names strings that are there, however much is compiled afterwards.

* `Draft.Interned` — one draft becomes another by new strings alone.
* `Draft.Textual` — every slot so far that asks for texts names strings that are there.
* `GrammarBook.textual_of_compileSteps` — so it is when the tables are finished.
-/

namespace QueryLint

namespace Draft

variable {d d' d'' : Draft}

/-! ## 1. New strings -/

/-- One draft becomes another by new strings alone. -/
structure Interned (d d' : Draft) : Prop where
  strings : ∀ (n : Nat) s, d.strings[n]? = some s → d'.strings[n]? = some s
  rest : d' = { d with strings := d'.strings }

namespace Interned

theorem refl (d : Draft) : Interned d d := ⟨fun _ _ h => h, rfl⟩

theorem trans (h : Interned d d') (h' : Interned d' d'') : Interned d d'' := by
  refine ⟨fun n s hs => h'.strings n s (h.strings n s hs), ?_⟩
  rw [h'.rest, h.rest]

theorem slots_eq (h : Interned d d') : d'.slots = d.slots := by rw [h.rest]

theorem partIds_eq (h : Interned d d') : d'.partIds = d.partIds := by rw [h.rest]

/-- Several numbers that were given still name the same strings. -/
theorem map_strings (h : Interned d d') {ns : List Nat} {texts : List String}
    (hns : ns.map (d.strings[·]?) = texts.map some) :
    ns.map (d'.strings[·]?) = texts.map some := by
  induction ns generalizing texts with
  | nil => simpa using hns
  | cons n ns ih =>
    cases texts with
    | nil => simp at hns
    | cons s texts =>
      obtain ⟨hn, hns⟩ := List.cons.inj hns
      rw [List.map_cons, List.map_cons, h.strings n s hn, ih hns]

end Interned

theorem run_intern_ok {s : String} {n : Nat} (h : (Compiling.intern s).run d = .ok (n, d')) :
    Interned d d' ∧ d'.strings[n]? = some s := by
  have hf := Except.ok.inj h
  dsimp only at hf
  split at hf
  · next k hk =>
    obtain ⟨rfl, rfl⟩ := Prod.mk.inj hf
    refine ⟨.refl d, ?_⟩
    obtain ⟨i, hi, rfl⟩ := Option.map_eq_some_iff.1 hk
    rw [Array.getElem?_eq_getElem i.isLt]
    exact congrArg some (Array.finIdxOf?_eq_some_iff.1 hi).1
  · obtain ⟨rfl, rfl⟩ := Prod.mk.inj hf
    refine ⟨⟨fun n s hs => ?_, rfl⟩, by simp⟩
    rw [Array.getElem?_push, if_neg (by have := (Array.getElem?_eq_some_iff.1 hs).1; omega)]
    exact hs

theorem run_mapM_intern_ok {texts : List String} {ns : List Nat}
    (h : (texts.mapM Compiling.intern).run d = .ok (ns, d')) :
    Interned d d' ∧ ns.map (d'.strings[·]?) = texts.map some := by
  induction texts generalizing d ns with
  | nil =>
    obtain ⟨rfl, rfl⟩ := run_pure_ok h
    exact ⟨.refl d', rfl⟩
  | cons s texts ih =>
    rw [List.mapM_cons] at h
    obtain ⟨n, d₁, h₁, h⟩ := run_bind_ok h
    obtain ⟨ns', d₂, h₂, h⟩ := run_bind_ok h
    obtain ⟨rfl, rfl⟩ := run_pure_ok h
    obtain ⟨interned, hn⟩ := run_intern_ok h₁
    obtain ⟨interned', hns⟩ := ih h₂
    refine ⟨interned.trans interned', ?_⟩
    rw [List.map_cons, List.map_cons, interned'.strings n s hn, hns]

/-- Numbers that name strings lie in the table of strings. -/
theorem lt_size_of_map_strings {ns : List Nat} {texts : List String}
    (h : ns.map (d.strings[·]?) = texts.map some) : ∀ n ∈ ns, n < d.strings.size := by
  intro n hn
  have : d.strings[n]? ∈ texts.map some := h ▸ List.mem_map.2 ⟨n, hn, rfl⟩
  obtain ⟨s, -, hs⟩ := List.mem_map.1 this
  exact (Array.getElem?_eq_some_iff.1 hs.symm).1

/-! ## 2. The texts of slots -/

/-- The texts that an instruction asks for are among so many strings. The first two parameters of
a choice of strings are its type and their number. -/
def TextsBelow (size : Nat) (kind : InstructionKind) (parameters : List Nat) : Prop :=
  match kind with
  | .string | .typed => ∀ n ∈ parameters, n < size
  | .multiString => ∀ n ∈ parameters.drop 2, n < size
  | _ => True

theorem TextsBelow.mono {size size' : Nat} {kind : InstructionKind} {parameters : List Nat}
    (h : TextsBelow size kind parameters) (hle : size ≤ size') :
    TextsBelow size' kind parameters := by
  unfold TextsBelow at h ⊢
  split <;> first
    | exact fun n hn => Nat.lt_of_lt_of_le (h n hn) hle
    | trivial

/-- Every slot that asks for texts names strings that are there. -/
def Textual (d : Draft) : Prop :=
  ∀ (n : Nat) (s : Slot), d.slots[n]? = some s →
    TextsBelow d.strings.size s.instruction.kind s.parameters

/-- One draft becomes another without loss of a string. -/
structure Widens (d d' : Draft) : Prop where
  size_le : d.strings.size ≤ d'.strings.size
  textual : Textual d → Textual d'

namespace Widens

theorem trans (h : Widens d d') (h' : Widens d' d'') : Widens d d'' :=
  ⟨Nat.le_trans h.size_le h'.size_le, fun ht => h'.textual (h.textual ht)⟩

theorem of_slots_eq (hslots : d'.slots = d.slots) (hle : d.strings.size ≤ d'.strings.size) :
    Widens d d' := by
  refine ⟨hle, fun h n s hs => ?_⟩
  rw [hslots] at hs
  exact (h n s hs).mono hle

theorem refl (d : Draft) : Widens d d := .of_slots_eq rfl (Nat.le_refl _)

/-- What is filled into a slot asks for strings that are there. -/
theorem of_modify {n : Nat} {f : Slot → Slot} (h : d'.slots = d.slots.modify n f)
    (hle : d.strings.size ≤ d'.strings.size)
    (hf : ∀ s, TextsBelow d.strings.size s.instruction.kind s.parameters →
      TextsBelow d'.strings.size (f s).instruction.kind (f s).parameters) : Widens d d' := by
  refine ⟨hle, fun ht m s hs => ?_⟩
  obtain ⟨t, ht', rfl⟩ := of_getElem?_modify h hs
  split
  · exact hf t (ht m t ht')
  · exact (ht m t ht').mono hle

end Widens

theorem Interned.size_le (h : Interned d d') : d.strings.size ≤ d'.strings.size := by
  refine Nat.le_of_not_lt fun hlt => ?_
  have := h.strings d'.strings.size d.strings[d'.strings.size] (Array.getElem?_eq_getElem hlt)
  simp at this

theorem Interned.widens (h : Interned d d') : Widens d d' := .of_slots_eq h.slots_eq h.size_le

theorem run_setSlot_strings {n : Nat} {f : Slot → Slot} {u : Unit}
    (h : (Compiling.setSlot n f).run d = .ok (u, d')) : d'.strings = d.strings := by
  have hd : ((), { d with slots := d.slots.modify n f }) = (u, d') := Except.ok.inj h
  obtain ⟨-, rfl⟩ := Prod.mk.inj hd
  rfl

/-- A step that loses no string, whatever it is run on. -/
def NeverNarrows {α : Type} (x : Compiling α) : Prop :=
  ∀ d a d', x.run d = .ok (a, d') → Widens d d'

namespace NeverNarrows

variable {α β : Type}

theorem pure (a : α) : NeverNarrows (Pure.pure a : Compiling α) := by
  intro d b d' h
  rw [(run_pure_ok h).2]
  exact .refl d

theorem bind {x : Compiling α} {f : α → Compiling β} (hx : NeverNarrows x)
    (hf : ∀ a, NeverNarrows (f a)) : NeverNarrows (x >>= f) := by
  intro d b d' h
  obtain ⟨a, e, h₁, h₂⟩ := run_bind_ok h
  exact (hx d a e h₁).trans (hf a e b d' h₂)

theorem mapM {f : α → Compiling β} (xs : List α) (h : ∀ x ∈ xs, NeverNarrows (f x)) :
    NeverNarrows (xs.mapM f) := by
  induction xs with
  | nil => exact pure []
  | cons x xs ih =>
    rw [List.mapM_cons]
    exact bind (h x (by simp)) fun _ => bind (ih fun y hy => h y (by simp [hy])) fun _ => pure _

theorem get : NeverNarrows (MonadState.get : Compiling Draft) := by
  intro d a d' h
  rw [(run_get_ok h).2]
  exact .refl d

theorem of_modifyGet {f : Draft → α × Draft} (h : ∀ d, Widens d (f d).2) :
    NeverNarrows (MonadStateOf.modifyGet f : Compiling α) := by
  intro d a d' hrun
  have hf : f d = (a, d') := Except.ok.inj hrun
  have := h d
  rwa [hf] at this

theorem of_modify {f : Draft → Draft} (hslots : ∀ d, (f d).slots = d.slots)
    (hstrings : ∀ d, (f d).strings = d.strings) : NeverNarrows (modify f : Compiling PUnit) :=
  of_modifyGet fun d => .of_slots_eq (hslots d) (Nat.le_of_eq (by rw [← hstrings d]))

theorem intern (s : String) : NeverNarrows (Compiling.intern s) :=
  fun _ _ _ h => (run_intern_ok h).1.widens

theorem internPattern (s : String) : NeverNarrows (Compiling.internPattern s) :=
  of_modifyGet fun d => by split <;> exact .of_slots_eq rfl (Nat.le_refl _)

theorem count (what : String) (n : Nat) : NeverNarrows (Compiling.count what n) := by
  unfold Compiling.count
  split
  · exact pure n
  · intro d a d' h
    cases h

theorem listParts (ids : List Nat) : NeverNarrows (Compiling.listParts ids) :=
  bind get fun _ => bind (count _ _) fun _ =>
    bind (of_modify (fun _ => rfl) fun _ => rfl) fun _ => pure _

theorem listTerminators (ids : List Nat) : NeverNarrows (Compiling.listTerminators ids) :=
  bind get fun _ => bind (count _ _) fun _ =>
    bind (of_modify (fun _ => rfl) fun _ => rfl) fun _ => pure _

theorem reference (b : GrammarBook) (n : Nat) (name : String) (exclude : Nat) :
    NeverNarrows (Compiling.reference b n name exclude) :=
  bind (of_modify (fun _ => rfl) fun _ => rfl) fun _ => bind (intern name) fun _ => pure _

theorem alloc : NeverNarrows Compiling.alloc := by
  refine of_modifyGet fun d => ⟨Nat.le_refl _, fun ht n s hs => ?_⟩
  rw [Array.getElem?_push] at hs
  split at hs
  · cases hs
    trivial
  · exact ht n s hs

/-- What is filled into a slot asks for strings that are there. -/
theorem setSlot {n : Nat} {f : Slot → Slot}
    (hf : ∀ size s, TextsBelow size s.instruction.kind s.parameters →
      TextsBelow size (f s).instruction.kind (f s).parameters) :
    NeverNarrows (Compiling.setSlot n f) :=
  of_modifyGet fun _ => .of_modify rfl (Nat.le_refl _) (hf _)

theorem bareReference (b : GrammarBook) (name : String) :
    NeverNarrows (Compiling.bareReference b name) :=
  bind alloc fun n => bind (reference b n name _) fun _ => bind (listParts []) fun _ =>
    bind (listTerminators []) fun _ => bind (setSlot fun _ _ _ => trivial) fun _ => pure _

end NeverNarrows

end Draft

/-! ## 3. Grammars -/

namespace Grammar

open Draft

variable {b : GrammarBook} {d d' : Draft} {n : Nat}

theorem neverNarrows_pairOf (b : GrammarBook) (form : GrammarForm) :
    NeverNarrows (pairOf b form) := by
  intro d pair d' h
  rw [(run_pairOf_ok h).1]
  exact .refl d

/-- The parameters of a grammar name strings that are there. -/
theorem run_parametersOf_texts {exclude delimiter : Nat} {form : GrammarForm}
    {pair : Option BracketDefinition} {ps : List Nat}
    (h : (parametersOf b n exclude delimiter pair form).run d = .ok (ps, d')) :
    Widens d d' ∧ TextsBelow d'.strings.size form.instructionKind ps := by
  have plain {x : Compiling (List Nat)} (hx : NeverNarrows x) (h : x.run d = .ok (ps, d'))
      (hform : TextsBelow d'.strings.size form.instructionKind ps) :
      Widens d d' ∧ TextsBelow d'.strings.size form.instructionKind ps := ⟨hx d ps d' h, hform⟩
  cases form with
  | ref name => exact plain (.reference b n name exclude) h trivial
  | sequence | nothing | anything | token | missing => exact plain (.pure _) h trivial
  | oneOf => exact plain (.pure _) h trivial
  | anyNumberOf most perPart => exact plain (.pure _) h trivial
  | delimited least => exact plain (.pure _) h trivial
  | bracketed type persists =>
    cases pair with
    | none => exact plain (.pure _) h trivial
    | some p =>
      exact plain (.bind (.bareReference b _) fun _ => .bind (.bareReference b _) fun _ =>
        .pure _) h trivial
  | string template type =>
    obtain ⟨k, d₁, h₁, h⟩ := run_bind_ok h
    obtain ⟨l, d₂, h₂, h⟩ := run_bind_ok h
    obtain ⟨rfl, rfl⟩ := run_pure_ok h
    obtain ⟨interned₁, hk⟩ := run_intern_ok h₁
    obtain ⟨interned₂, hl⟩ := run_intern_ok h₂
    refine ⟨interned₁.widens.trans interned₂.widens, ?_⟩
    have named : [k, l].map (d'.strings[·]?) = [template, type].map some := by
      simp [interned₂.strings k _ hk, hl]
    exact lt_size_of_map_strings named
  | multiString templates type =>
    obtain ⟨k, d₁, h₁, h⟩ := run_bind_ok h
    obtain ⟨ks, d₂, h₂, h⟩ := run_bind_ok h
    obtain ⟨rfl, rfl⟩ := run_pure_ok h
    obtain ⟨interned₁, -⟩ := run_intern_ok h₁
    obtain ⟨interned₂, hks⟩ := run_mapM_intern_ok h₂
    exact ⟨interned₁.widens.trans interned₂.widens, lt_size_of_map_strings hks⟩
  | typed template type fold trim =>
    obtain ⟨k, d₁, h₁, h⟩ := run_bind_ok h
    obtain ⟨l, d₂, h₂, h⟩ := run_bind_ok h
    have later : NeverNarrows (do
        let trimStart := (← (MonadState.get : Compiling Draft)).trimStrings.size
        let trimCount ← Compiling.count "trim chars" trim.length
        let texts ← trim.mapM Compiling.intern
        modify fun d => { d with trimStrings := d.trimStrings ++ texts }
        Compiling.setSlot n ({ · with
          casefold := fold.number, trimStart := trimStart, trimCount := trimCount })
        return [k, l]) :=
      .bind .get fun _ => .bind (.count _ _) fun _ => .bind (.mapM _ fun _ _ => .intern _) fun _ =>
        .bind (.of_modify (fun _ => rfl) fun _ => rfl) fun _ =>
          .bind (.setSlot fun _ _ h => h) fun _ => .pure _
    have widens := later _ _ _ h
    have hps : ps = [k, l] := by
      obtain ⟨_, _, -, h⟩ := run_bind_ok h
      obtain ⟨_, _, -, h⟩ := run_bind_ok h
      obtain ⟨_, _, -, h⟩ := run_bind_ok h
      obtain ⟨_, _, -, h⟩ := run_bind_ok h
      obtain ⟨_, _, -, h⟩ := run_bind_ok h
      exact (run_pure_ok h).1
    obtain ⟨interned₁, hk⟩ := run_intern_ok h₁
    obtain ⟨interned₂, hl⟩ := run_intern_ok h₂
    refine ⟨(interned₁.widens.trans interned₂.widens).trans widens, ?_⟩
    have named : [k, l].map (d₂.strings[·]?) = [template, type].map some := by
      simp [interned₂.strings k _ hk, hl]
    rw [hps]
    exact fun m hm => Nat.lt_of_lt_of_le (lt_size_of_map_strings named m hm) widens.size_le
  | pattern text anti type =>
    cases anti with
    | none =>
      exact plain (.bind (.internPattern _) fun _ => .bind (.pure _) fun _ =>
        .bind (.intern _) fun _ => .pure _) h trivial
    | some p =>
      exact plain (.bind (.internPattern _) fun _ => .bind (.internPattern _) fun _ =>
        .bind (.intern _) fun _ => .pure _) h trivial
  | marker kind condition =>
    cases condition with
    | none => exact plain (.pure _) h trivial
    | some kv =>
      exact plain (.bind (.intern _) fun _ => .bind (.intern _) fun _ => .pure _) h trivial

mutual

/-- Compiling a grammar loses no string, and asks for none that is not there. -/
theorem neverNarrows_compileInto (b : GrammarBook) (g : Grammar) (n : Nat) :
    NeverNarrows (g.compileInto b n) := by
  match g with
  | mk form parts terminators exclude delimiter settings =>
    intro d u d' h
    unfold compileInto at h
    obtain ⟨_, d₁, h₁, h⟩ := run_bind_ok h
    obtain ⟨_, d₂, h₂, h⟩ := run_bind_ok h
    obtain ⟨pair, d₃, h₃, h⟩ := run_bind_ok h
    obtain ⟨_, d₄, h₄, h⟩ := run_bind_ok h
    obtain ⟨_, d₅, h₅, h⟩ := run_bind_ok h
    obtain ⟨ps, d₆, h₆, h⟩ := run_bind_ok h
    obtain ⟨listed, d₇, h₇, h⟩ := run_bind_ok h
    obtain ⟨listed', d₈, h₈, h⟩ := run_bind_ok h
    have before : Widens d d₅ :=
      ((((neverNarrows_compileAll b terminators _ _ _ h₁).trans
        (neverNarrows_compileOption b exclude _ _ _ h₂)).trans
        (neverNarrows_pairOf b form _ _ _ h₃)).trans
        (neverNarrows_compileAll b parts _ _ _ h₄)).trans
        (neverNarrows_compileOption b delimiter _ _ _ h₅)
    obtain ⟨widens, texts⟩ := run_parametersOf_texts h₆
    have listing : Widens d₆ d₈ :=
      (NeverNarrows.listParts _ _ _ _ h₇).trans (NeverNarrows.listTerminators _ _ _ _ h₈)
    have filled : Widens d₈ d' := by
      have same := run_setSlot_strings h
      refine .of_modify (run_setSlot_ok h) (Nat.le_of_eq (by rw [same])) fun s _ => ?_
      rw [same]
      exact texts.mono listing.size_le
    exact ((before.trans widens).trans listing).trans filled

theorem neverNarrows_compileAll (b : GrammarBook) (gs : List Grammar) :
    NeverNarrows (compileAll b gs) := by
  match gs with
  | [] =>
    unfold compileAll
    exact .pure _
  | g :: rest =>
    unfold compileAll
    exact .bind .alloc fun n => .bind (neverNarrows_compileInto b g n) fun _ =>
      .bind (neverNarrows_compileAll b rest) fun _ => .pure _

theorem neverNarrows_compileOption (b : GrammarBook) (g : Option Grammar) :
    NeverNarrows (compileOption b g) := by
  match g with
  | none =>
    unfold compileOption
    exact .pure _
  | some g =>
    unfold compileOption
    exact .bind .alloc fun n => .bind (neverNarrows_compileInto b g n) fun _ => .pure _

end

end Grammar

/-! ## 4. Books -/

namespace GrammarBook

open Draft

variable {b : GrammarBook} {d d' : Draft}

theorem textual_compileDefinitions {u : Unit}
    (h : b.compileDefinitions.run {} = .ok (u, d')) : Textual d' := by
  obtain ⟨_, d₁, h₁, h⟩ := run_bind_ok h
  obtain ⟨_, d₂, h₂, h⟩ := run_bind_ok h
  obtain ⟨-, rfl⟩ := run_pure_ok h
  have made : Textual d₁ := by
    refine run_forIn_ok (P := fun _ => Textual) (fun x rest d r d' ht hrun => ?_) b.definitions
      (by intro n s h; simp at h) h₁
    obtain ⟨_, e, he, hrun⟩ := run_bind_ok hrun
    obtain ⟨rfl, rfl⟩ := run_pure_ok hrun
    exact ⟨rfl, (NeverNarrows.bind .alloc fun _ => .pure _ : NeverNarrows (discard Compiling.alloc))
      _ _ _ he |>.textual ht⟩
  refine run_forIn_ok (P := fun _ => Textual) (fun x rest d r d' ht hrun => ?_) _ made h₂
  obtain ⟨_, e, he, hrun⟩ := run_bind_ok hrun
  have ht := (Grammar.neverNarrows_compileInto b _ _ _ _ _ he).textual ht
  split at hrun
  · obtain ⟨_, e₁, h₁, hrun⟩ := run_bind_ok hrun
    obtain ⟨_, e₂, h₂, hrun⟩ := run_bind_ok hrun
    obtain ⟨_, e₃, h₃, hrun⟩ := run_bind_ok hrun
    obtain ⟨rfl, rfl⟩ := run_pure_ok hrun
    have noted : Widens e₂ d' := .of_modify (run_setSlot_ok h₃)
      (Nat.le_of_eq (by rw [run_setSlot_strings h₃])) fun s hs => by
        rw [run_setSlot_strings h₃]
        exact hs
    exact ⟨rfl, (((NeverNarrows.intern _ _ _ _ h₁).trans (NeverNarrows.intern _ _ _ _ h₂)).trans
      noted).textual ht⟩
  · obtain ⟨rfl, rfl⟩ := run_pure_ok hrun
    exact ⟨rfl, ht⟩

theorem neverNarrows_compileBrackets (b : GrammarBook) : NeverNarrows b.compileBrackets :=
  .mapM _ fun _ _ => .bind (.bareReference b _) fun _ => .bind (.bareReference b _) fun _ => .pure _

/-- Compiled tables have been checked, and they are finished from a draft whose slots name strings
that are there. -/
theorem textual_of_compile {t : Tables} (h : b.compile = .ok t) :
    t.validate = .ok () ∧ ∃ d root pairs d', Textual d ∧
      (b.finish root pairs).run d = .ok (t, d') := by
  obtain ⟨hvalid, _, d₁, pairs, d₂, root, d₃, h₁, h₂, hfinish⟩ := run_of_compile h
  have textual := (neverNarrows_compileBrackets b _ _ _ h₂).textual (textual_compileDefinitions h₁)
  exact ⟨hvalid, d₂, root, pairs, d₃, textual, hfinish⟩

end GrammarBook

end QueryLint
