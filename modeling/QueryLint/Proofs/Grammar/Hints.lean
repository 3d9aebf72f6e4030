import QueryLint.Proofs.Grammar.Brackets
import QueryLint.Proofs.Grammar.FirstSet
import QueryLint.Proofs.Grammar.Texts

/-!
QueryLint.Proofs.Grammar.Hints — the hints in the tables of a book.

The first sets of a draft become hints, which are read back from the tables by number. What holds
between first sets then holds between hints: a token that can begin a grammar, as far as hints say,
can begin every grammar that begins with it.

* `HintTables.Lists` — tables of hints hold first sets.
* `GrammarBook.Carries` — tables hold the instructions of a draft with their hints.
* `Tables.HintExplained` — one hint is explained by others.
* `GrammarBook.hintExplained_of_compile` — so are all hints of compiled tables.
-/

namespace QueryLint

open Draft

/-! ## 1. Tables of hints -/

theorem size_appendList {α : Type} (xs : Array α) (ys : List α) :
    (xs ++ ys).size = xs.size + ys.length := by
  rw [← Array.length_toList, Array.toList_appendList, List.length_append, Array.length_toList]

/-- Numbers in a range of a table name these texts. -/
structure Spells (strings : Array String) (table : Array Nat) (start count : Nat)
    (texts : List String) : Prop where
  le_size : start + count ≤ table.size
  texts_eq : (Tables.idsIn table start count).map (strings[·]?) = texts.map some

namespace Spells

variable {d d' : Draft} {table : Array Nat} {start count : Nat} {texts : List String}

theorem intern (h : Spells d.strings table start count texts) (hd : Interned d d') :
    Spells d'.strings table start count texts := ⟨h.le_size, hd.map_strings h.texts_eq⟩

/-- More numbers at the end of a table change no range in it. -/
theorem append {strings : Array String} (h : Spells strings table start count texts)
    (more : List Nat) : Spells strings (table ++ more) start count texts := by
  have hle := h.le_size
  refine ⟨by rw [size_appendList]; omega, ?_⟩
  rw [← h.texts_eq]
  congr 1
  unfold Tables.idsIn
  rw [Array.toList_extract, Array.toList_extract, Array.toList_appendList,
    List.extract_eq_take_drop, List.extract_eq_take_drop,
    List.drop_append_of_le_length (by simp; omega), List.take_append_of_le_length (by simp; omega)]

/-- Numbers put at the end of a table. -/
theorem of_append {strings : Array String} {ns : List Nat} (table : Array Nat)
    (h : ns.map (strings[·]?) = texts.map some) :
    Spells strings (table ++ ns) table.size ns.length texts := by
  refine ⟨Nat.le_of_eq (size_appendList table ns).symm, ?_⟩
  rw [← h]
  congr 1
  unfold Tables.idsIn
  rw [Array.toList_extract, Array.toList_appendList, List.extract_eq_take_drop,
    List.drop_append_of_le_length (by simp), List.drop_of_length_le (by simp)]
  simp

theorem map_getD {strings : Array String} (h : Spells strings table start count texts) :
    (Tables.idsIn table start count).map (strings.getD · "") = texts := by
  have := congrArg (List.map (·.getD "")) h.texts_eq
  simpa [List.map_map, Function.comp_def, Array.getD_eq_getD_getElem?] using this

end Spells

namespace HintTables

/-- Tables of hints hold first sets, one for each instruction. -/
structure Lists (h : HintTables) (fs : List (Option FirstSet)) (strings : Array String) :
    Prop where
  size_eq : h.hintOf.size = fs.length
  listed : ∀ (n : Nat) f, fs[n]? = some (some f) → ∃ k span, h.hintOf[n]? = some k ∧
    h.hints[k]? = some span ∧
    Spells strings h.hintStrings span.rawStart span.rawCount f.raws ∧
    Spells strings h.hintStrings span.typeStart span.typeCount f.types

variable {d d' : Draft} {h h' : HintTables} {fs : List (Option FirstSet)}

theorem lists_empty (strings : Array String) : Lists {} [] strings := ⟨rfl, by simp⟩

/-- The next first set is added to the tables, and those before it stay. -/
theorem run_push_ok {f : Option FirstSet} (hl : Lists h fs d.strings)
    (hrun : (h.push f).run d = .ok (h', d')) :
    Interned d d' ∧ Lists h' (fs ++ [f]) d'.strings := by
  have before {n : Nat} {g : Option FirstSet} (hn : (fs ++ [f])[n]? = some g) :
      fs[n]? = some g ∨ n = h.hintOf.size ∧ f = g := by
    rw [hl.size_eq]
    rw [List.getElem?_append] at hn
    split at hn
    · exact .inl hn
    · rw [List.getElem?_singleton] at hn
      split at hn
      · cases hn
        exact .inr ⟨by omega, rfl⟩
      · cases hn
  cases f with
  | none =>
    obtain ⟨rfl, rfl⟩ := run_pure_ok hrun
    refine ⟨.refl d', by simp [hl.size_eq], fun n g hn => ?_⟩
    rcases before hn with hn | ⟨-, hg⟩
    · obtain ⟨k, span, hk, hspan, hraws, htypes⟩ := hl.listed n g hn
      have hlt := (Array.getElem?_eq_some_iff.1 hk).1
      refine ⟨k, span, ?_, hspan, hraws, htypes⟩
      rw [Array.getElem?_push, if_neg (by omega)]
      exact hk
    · cases hg
  | some f =>
    obtain ⟨raws, d₁, h₁, hrun⟩ := run_bind_ok hrun
    obtain ⟨types, d₂, h₂, hrun⟩ := run_bind_ok hrun
    obtain ⟨rfl, rfl⟩ := run_pure_ok hrun
    obtain ⟨interned₁, hraws⟩ := run_mapM_intern_ok h₁
    obtain ⟨interned₂, htypes⟩ := run_mapM_intern_ok h₂
    have interned := interned₁.trans interned₂
    refine ⟨interned, by simp [hl.size_eq], fun n g hn => ?_⟩
    rcases before hn with hn | ⟨rfl, hg⟩
    · obtain ⟨k, span, hk, hspan, hraws, htypes⟩ := hl.listed n g hn
      have hlt := (Array.getElem?_eq_some_iff.1 hk).1
      have hlt' := (Array.getElem?_eq_some_iff.1 hspan).1
      refine ⟨k, span, ?_, ?_, ((hraws.intern interned).append _).append _,
        ((htypes.intern interned).append _).append _⟩
      · rw [Array.getElem?_push, if_neg (by omega)]
        exact hk
      · rw [Array.getElem?_push, if_neg (by omega)]
        exact hspan
    · cases hg
      refine ⟨_, _, Array.getElem?_push_size, Array.getElem?_push_size,
        (Spells.of_append _ (interned₂.map_strings hraws)).append _, ?_⟩
      have := Spells.of_append (h.hintStrings ++ raws) htypes
      rwa [size_appendList] at this

theorem run_pushAll_ok (more : List (Option FirstSet)) (hl : Lists h fs d.strings)
    (hrun : (more.foldlM HintTables.push h).run d = .ok (h', d')) :
    Interned d d' ∧ Lists h' (fs ++ more) d'.strings := by
  induction more generalizing h fs d with
  | nil =>
    obtain ⟨rfl, rfl⟩ := run_pure_ok hrun
    exact ⟨.refl d', by simpa using hl⟩
  | cons f more ih =>
    rw [List.foldlM_cons] at hrun
    obtain ⟨h₁, d₁, hf, hrun⟩ := run_bind_ok hrun
    obtain ⟨interned, hl₁⟩ := run_push_ok hl hf
    obtain ⟨interned', hl'⟩ := ih hl₁ hrun
    exact ⟨interned.trans interned', by simpa using hl'⟩

end HintTables

/-! ## 2. Tables of a draft -/

namespace GrammarBook

variable {b : GrammarBook} {d d' : Draft} {t : Tables}

/-- Tables hold the instructions of a draft, with its strings and its first sets. -/
structure Carries (d : Draft) (t : Tables) : Prop where
  size_eq : t.size = d.slots.size
  instruction : ∀ n, ∃ hinted, t.instruction ⟨n⟩ = { (d.slot n).instruction with
    flags := { (d.slot n).instruction.flags with hasHint := hinted } }
  partIds : t.partIds = d.partIds
  parameters : ∀ n, n < d.slots.size → t.parameters ⟨n⟩ = (d.slot n).parameters
  string : ∀ k, k < d.strings.size → t.string k = d.strings.getD k ""
  hint : ∀ n f, t.hint? ⟨n⟩ = some f ↔
    n < d.slots.size ∧ ∃ g, d.HasFirstSet n g ∧ f = (g.raws, g.types)

/-- The numbers in a range of a table that are known one by one. -/
theorem idsIn_eq {table : Array Nat} {start : Nat} {ns : List Nat}
    (h : ∀ k, k < ns.length → table[start + k]? = ns[k]?) :
    Tables.idsIn table start ns.length = ns := by
  unfold Tables.idsIn
  rw [Array.toList_extract, List.extract_eq_take_drop]
  refine List.ext_getElem? fun k => ?_
  rw [List.getElem?_take]
  split
  · rw [List.getElem?_drop, Array.getElem?_toList]
    exact h k (by omega)
  · rw [List.getElem?_eq_none (by omega)]

/-- The finished tables list the first sets as hints, and hold the strings and the parts. -/
theorem lists_of_run {root : Nat} {pairs : List BracketPair}
    (hrun : (b.finish root pairs).run d = .ok (t, d')) :
    HintTables.Lists ⟨t.hints, t.hintStrings, t.hintOf⟩ d.allHints t.strings ∧
      (∀ (k : Nat) s, d.strings[k]? = some s → t.strings[k]? = some s) ∧
      t.partIds = d.partIds := by
  obtain ⟨_, d₁, h₁, hrun₁⟩ := run_bind_ok hrun
  obtain ⟨rfl, rfl⟩ := run_get_ok h₁
  obtain ⟨hints, d₂, h₂, hrun₂⟩ := run_bind_ok hrun₁
  obtain ⟨_, d₃, h₃, hrun₃⟩ := run_bind_ok hrun₂
  obtain ⟨rfl, rfl⟩ := run_get_ok h₃
  obtain ⟨patterns, d₄, -, hrun₄⟩ := run_bind_ok hrun₃
  obtain ⟨interned, lists⟩ := HintTables.run_pushAll_ok _ (HintTables.lists_empty _) h₂
  obtain ⟨ht, -⟩ := run_pure_ok hrun₄
  rw [ht]
  exact ⟨lists, interned.strings, interned.partIds_eq⟩

/-- The hint of an instruction is the first set that is listed for it. -/
theorem hint?_of_lists {fs : List (Option FirstSet)} {n : Nat} {f : Option FirstSet}
    (h : HintTables.Lists ⟨t.hints, t.hintStrings, t.hintOf⟩ fs t.strings) (hf : fs[n]? = some f)
    (hhint : (t.instruction ⟨n⟩).flags.hasHint = f.isSome) :
    t.hint? ⟨n⟩ = f.map fun g => (g.raws, g.types) := by
  rw [Tables.hint?, hhint]
  cases f with
  | none => rfl
  | some g =>
    obtain ⟨k, span, hk, hspan, hraws, htypes⟩ := h.listed n g hf
    have raws : (Tables.idsIn t.hintStrings span.rawStart span.rawCount).map t.string = g.raws :=
      hraws.map_getD
    have types : (Tables.idsIn t.hintStrings span.typeStart span.typeCount).map t.string =
        g.types := htypes.map_getD
    have found : (t.hintOf[n]?).bind (t.hints[·]?) = some span := by
      rw [show t.hintOf[n]? = some k from hk]
      exact hspan
    simp [found, raws, types]

/-- The finished tables hold the instructions of the draft with their hints. -/
theorem carries_of_run {root : Nat} {pairs : List BracketPair}
    (hrun : (b.finish root pairs).run d = .ok (t, d')) : Carries d t := by
  obtain ⟨holds, -⟩ := holdsSlots_of_run hrun
  obtain ⟨lists, strings, partIds_eq⟩ := lists_of_run hrun
  have length_eq := (exists_sensible_allHints d).1
  have size_eq : t.size = d.slots.size := by
    rw [holds.size_eq (by simpa using length_eq), Array.length_toList]
  have beyond {n : Nat} (hn : ¬ n < d.slots.size) : t.size ≤ n := by omega
  have slotted {n : Nat} (hn : n < d.slots.size) : d.slots.toList[n]? = some (d.slot n) := by
    rw [Array.getElem?_toList, slot, Array.getD_eq_getD_getElem?, Array.getElem?_eq_getElem hn]
    rfl
  have hinted {n : Nat} (hn : n < d.slots.size) : ∃ f, d.allHints[n]? = some f :=
    ⟨d.allHints[n], List.getElem?_eq_getElem (by omega)⟩
  refine ⟨size_eq, fun n => ?_, partIds_eq, fun n hn => ?_, fun k hk => ?_, fun n f => ?_⟩
  · by_cases hn : n < d.slots.size
    · obtain ⟨f, hf⟩ := hinted hn
      exact ⟨f.isSome, holds.instruction_eq (slotted hn) hf⟩
    · have none : d.slot n = {} := by
        rw [slot, Array.getD_eq_getD_getElem?, Array.getElem?_eq_none (by omega)]
        rfl
      rw [none, Tables.instruction_of_size_le (beyond hn)]
      exact ⟨false, rfl⟩
  · obtain ⟨next, -, values⟩ := holds.parameters_at (slotted hn)
    unfold Tables.parameters
    dsimp only
    rw [next, Nat.add_sub_cancel_left]
    exact idsIn_eq values
  · rw [Tables.string, Array.getD_eq_getD_getElem?, Array.getD_eq_getD_getElem?,
      Array.getElem?_eq_getElem hk, strings k _ (Array.getElem?_eq_getElem hk)]
  · unfold HasFirstSet
    by_cases hn : n < d.slots.size
    · obtain ⟨g, hg⟩ := hinted hn
      rw [hint?_of_lists lists hg (by rw [holds.instruction_eq (slotted hn) hg]),
        List.getD_eq_getElem?_getD, hg]
      cases g <;> simp [hn, eq_comm]
    · have none : t.hint? ⟨n⟩ = none := by
        rw [Tables.hint?, Tables.instruction_of_size_le (beyond hn)]
        rfl
      simp [none, hn]

end GrammarBook

/-! ## 3. Hints explained by hints -/

namespace Tables

variable (t : Tables)

/-- A grammar that another can begin with has a hint, and what its hint admits the hint of the other
admits too. -/
structure Begins (id g : GrammarId) : Prop where
  hinted : (t.hint? g).isSome = true
  admits : ∀ raw types, t.admits g raw types = true → t.admits id raw types = true

/-- A sequence can begin with its parts up to the first that must not be left out, markers aside. -/
def BeginsSequence (id : GrammarId) : List GrammarId → Prop
  | [] => True
  | g :: rest =>
    if (t.instruction g).kind = .marker then BeginsSequence id rest
    else t.Begins id g ∧ ((t.instruction g).isOptional = true → BeginsSequence id rest)

/-- The hint of a grammar admits the tokens that it asks for itself, and those that the hints admit
of the grammars it can begin with. -/
def HintExplained (id : GrammarId) : Prop :=
  match t.shape id with
  | .ref _ target _ => ∀ g, target = some g → t.Begins id g
  | .sequence => t.BeginsSequence id (t.parts id)
  | .oneOf _ | .anyNumberOf _ _ _ | .delimited _ _ => ∀ g ∈ t.parts id, t.Begins id g
  | .bracketed pair => ∀ opening closing persists, pair = some (opening, closing, persists) →
      t.Begins id opening
  | .string template _ => ∀ types, t.admits id template types = true
  | .multiString templates _ => ∀ s ∈ templates, ∀ types, t.admits id s types = true
  | .typed template _ => ∀ raw types, types.contains template = true → t.admits id raw types = true
  | .nothing | .missing => True
  | .pattern _ _ _ | .anything | .token | .marker _ _ => False

/-- All hints that there are admit what their grammars can begin with. -/
def HintsExplained : Prop :=
  ∀ id, (t.hint? id).isSome = true → t.HintExplained id

end Tables

namespace GrammarBook

variable {b : GrammarBook} {d d' : Draft} {t : Tables}

namespace Carries

variable (hc : Carries d t)

include hc

theorem kind (n : Nat) : (t.instruction ⟨n⟩).kind = (d.slot n).instruction.kind := by
  obtain ⟨hinted, h⟩ := hc.instruction n
  rw [h]

theorem isOptional (n : Nat) :
    (t.instruction ⟨n⟩).isOptional = (d.slot n).instruction.isOptional := by
  obtain ⟨hinted, h⟩ := hc.instruction n
  rw [h]
  rfl

theorem parts (n : Nat) : t.parts ⟨n⟩ = (d.partsOf n).map (⟨·⟩) := by
  obtain ⟨hinted, h⟩ := hc.instruction n
  unfold Tables.parts Draft.partsOf
  rw [h, hc.partIds]

/-- What the hint of an instruction admits, by its first set. -/
theorem admits_iff {n : Nat} {f : FirstSet} (hn : n < t.size) (hf : d.HasFirstSet n f)
    (raw : String) (types : List String) :
    t.admits ⟨n⟩ raw types = true ↔ raw ∈ f.raws ∨ ∃ s ∈ f.types, s ∈ types := by
  unfold Tables.admits
  rw [(hc.hint n (f.raws, f.types)).2 ⟨hc.size_eq ▸ hn, f, hf, rfl⟩]
  simp

theorem begins {n m : Nat} {f : FirstSet} (hn : n < t.size) (hf : d.HasFirstSet n f)
    (hm : m < t.size) (h : Covers d.HasFirstSet f m) : t.Begins ⟨n⟩ ⟨m⟩ := by
  obtain ⟨g, hg, within⟩ := h
  have hhint := (hc.hint m (g.raws, g.types)).2 ⟨hc.size_eq ▸ hm, g, hg, rfl⟩
  refine ⟨by rw [hhint]; rfl, fun raw types hadmits => ?_⟩
  rw [hc.admits_iff hm hg] at hadmits
  rw [hc.admits_iff hn hf]
  rcases hadmits with hraw | ⟨s, hs, hmem⟩
  · exact .inl (within.raws raw hraw)
  · exact .inr ⟨s, within.types s hs, hmem⟩

theorem beginsSequence {n : Nat} {f : FirstSet} (hn : n < t.size) (hf : d.HasFirstSet n f)
    {parts : List Nat} (hparts : ∀ m ∈ parts, m < t.size)
    (h : d.CoversBeginning d.HasFirstSet f parts) :
    t.BeginsSequence ⟨n⟩ (parts.map (⟨·⟩)) := by
  induction parts with
  | nil => trivial
  | cons m parts ih =>
    have later := ih fun k hk => hparts k (by simp [hk])
    unfold CoversBeginning at h
    rw [List.map_cons, Tables.BeginsSequence, hc.kind, hc.isOptional]
    split
    · next hkind =>
      rw [if_pos hkind] at h
      exact later h
    · next hkind =>
      rw [if_neg hkind] at h
      exact ⟨hc.begins hn hf (hparts m (by simp)) h.1, fun ho => later (h.2 ho)⟩

/-- The texts that an instruction asks for are those that its first set was worked out with. -/
theorem string_eq {n k p : Nat} {s : String} (hp : (d.slot n).parameters[k]? = some p)
    (hlt : p < d.strings.size) (hs : d.stringIn n k = some s) : t.string p = s := by
  rw [hc.string p hlt]
  simpa [stringIn, hp] using hs

end Carries

/-- The parts of an instruction of checked tables are instructions. -/
theorem lt_size_of_mem_parts (hvalid : t.validate = .ok ()) {n m : Nat} (hn : n < t.size)
    (hm : (⟨m⟩ : GrammarId) ∈ t.parts ⟨n⟩) : m < t.size := by
  obtain ⟨k, hk, hkm⟩ := List.mem_map.1 hm
  cases hkm
  have listed : (⟨t.hasInstruction m, .childOutOfRange n m⟩ : TableCheck) ∈
      t.instructionChecks n (t.instruction ⟨n⟩) := by
    refine List.mem_append_left _ (List.mem_append_left _ (List.mem_append_left _
      (List.mem_append_left _ (List.mem_cons_of_mem _ ?_))))
    exact List.mem_map.2 ⟨m, hk, rfl⟩
  simpa [Tables.hasInstruction] using holds_of_validate hvalid hn listed

/-- In compiled tables every hint is explained by others. -/
theorem hintExplained_of_compile (h : b.compile = .ok t) {id : GrammarId}
    (hhint : (t.hint? id).isSome = true) : t.HintExplained id := by
  obtain ⟨hvalid, d, root, pairs, d', textual, hrun⟩ := textual_of_compile h
  have hc := carries_of_run hrun
  have finished := finished_of_run hrun
  obtain ⟨n⟩ := id
  obtain ⟨x, hx⟩ := Option.isSome_iff_exists.1 hhint
  obtain ⟨hlt, f, hf, -⟩ := (hc.hint n x).1 hx
  have hn : n < t.size := by rw [hc.size_eq]; exact hlt
  have explained := explains_allHints hf
  have hslot : d.slots[n]? = some (d.slot n) := by
    rw [slot, Array.getD_eq_getD_getElem?, Array.getElem?_eq_getElem hlt]
    rfl
  have texts := textual n _ hslot
  have parameter {k p : Nat} (hp : (d.slot n).parameters[k]? = some p) : t.parameter ⟨n⟩ k = p :=
    (finished.parameter n _ hslot k p hp).1
  have checked (k : Nat) (hcheck : (⟨t.hasInstruction
      (t.aux.getD (t.auxOffsets.getD n 0 + k) GrammarId.absent), .childOutOfRange n
      (t.aux.getD (t.auxOffsets.getD n 0 + k) GrammarId.absent)⟩ : TableCheck) ∈
      t.parameterChecks n (t.instruction ⟨n⟩) (t.auxOffsets.getD n 0)
        (t.auxOffsets.getD (n + 1) 0)) :
      t.aux.getD (t.auxOffsets.getD n 0 + k) GrammarId.absent < t.size := by
    simpa [Tables.hasInstruction] using holds_of_parameterChecks hvalid hn hcheck
  have parts : (∀ m ∈ d.partsOf n, Covers d.HasFirstSet f m) →
      ∀ g ∈ t.parts ⟨n⟩, t.Begins ⟨n⟩ g := by
    intro covers g hg
    have hg' := hg
    rw [hc.parts] at hg'
    obtain ⟨m, hm, rfl⟩ := List.mem_map.1 hg'
    exact hc.begins hn hf (lt_size_of_mem_parts hvalid hn hg) (covers m hm)
  have hkind := hc.kind n
  unfold Tables.HintExplained Tables.shape
  unfold Explains at explained
  unfold TextsBelow at texts
  cases hk : (d.slot n).instruction.kind <;> simp only [hk] at explained texts hkind <;>
    simp only [hkind]
  case ref =>
    obtain ⟨target, htarget, covers⟩ := explained
    intro g hg
    rw [parameter htarget, GrammarId.ofSlot?] at hg
    split at hg
    · cases hg
    · next hpresent =>
      cases hg
      refine hc.begins hn hf ?_ covers
      have holds := checked 1 (by simp [Tables.parameterChecks, hkind, Tables.partChecks])
      rw [(finished.parameter n _ hslot 1 target htarget).2] at holds
      exact holds
  case sequence =>
    rw [hc.parts]
    refine hc.beginsSequence hn hf (fun m hm => lt_size_of_mem_parts hvalid hn ?_) explained
    rw [hc.parts]
    exact List.mem_map.2 ⟨m, hm, rfl⟩
  case oneOf => exact parts explained
  case anyNumberOf => exact parts explained
  case delimited => exact parts explained
  case bracketed =>
    obtain ⟨o, ho, covers⟩ := explained
    intro opening closing persists hpair
    have holds := checked 0 (by simp [Tables.parameterChecks, hkind, Tables.partChecks])
    rw [(finished.parameter n _ hslot 0 o ho).2] at holds
    obtain rfl : opening = ⟨o⟩ := by
      have hshape : t.shape ⟨n⟩ = .bracketed (some (opening, closing, persists)) := by
        rw [← hpair, Tables.shape, hkind]
      have := (parameters_of_shape hshape).1
      rw [parameter ho] at this
      cases opening
      cases this
      rfl
    exact hc.begins hn hf holds covers
  case string =>
    obtain ⟨s, hs, hmem⟩ := explained
    obtain ⟨p, hp, -⟩ := Option.map_eq_some_iff.1 hs
    intro types
    rw [parameter hp, hc.string_eq hp (texts p (List.mem_of_getElem? hp)) hs, hc.admits_iff hn hf]
    exact .inl hmem
  case typed =>
    obtain ⟨s, hs, hmem⟩ := explained
    obtain ⟨p, hp, -⟩ := Option.map_eq_some_iff.1 hs
    intro raw types htypes
    rw [parameter hp, hc.string_eq hp (texts p (List.mem_of_getElem? hp)) hs] at htypes
    rw [hc.admits_iff hn hf]
    exact .inr ⟨s, hmem, by simpa using htypes⟩
  case multiString =>
    intro s hs types
    rw [hc.parameters n hlt] at hs
    obtain ⟨p, hp, rfl⟩ := List.mem_map.1 hs
    obtain ⟨k, hk⟩ := List.mem_iff_getElem?.1 hp
    rw [List.getElem?_take] at hk
    split at hk
    · next hcount =>
      rw [List.getElem?_drop, Nat.add_comm] at hk
      have hlater : p ∈ (d.slot n).parameters.drop 2 := List.mem_of_mem_take hp
      -- Where there are texts there is their number before them.
      obtain ⟨number, hnumber⟩ : ∃ x, (d.slot n).parameters[1]? = some x :=
        ⟨_, List.getElem?_eq_getElem (by have := (List.getElem?_eq_some_iff.1 hk).1; omega)⟩
      rw [parameter hnumber] at hcount
      have hs : d.stringIn n (k + 2) = some (d.strings.getD p "") := by
        rw [stringIn, hk]
        rfl
      rw [hc.string_eq hk (texts p hlater) hs, hc.admits_iff hn hf]
      exact .inl (explained k (by rw [hnumber]; exact hcount) _ hs)
    · cases hk

theorem hintsExplained_of_compile (h : b.compile = .ok t) : t.HintsExplained :=
  fun _ => hintExplained_of_compile h

end GrammarBook

end QueryLint
