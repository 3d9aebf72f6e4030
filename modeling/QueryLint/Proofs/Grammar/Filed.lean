import QueryLint.Proofs.Grammar.LaidOut

/-!
QueryLint.Proofs.Grammar.Filed — tables made of a book that is laid out.

Finishing puts the slots of a draft into tables: instructions into one, parameters one after the
other into another, and so on. What a slot names stays where it is, so every check of the tables
comes down to what the grammar in the slot asks for. No check can fail: the checks guard tables that
come from elsewhere.

* `GrammarBook.Filed` — tables hold a draft, table by table.
* `GrammarBook.Filed.holds_instructionChecks` — all that is checked of one instruction holds.
* `GrammarBook.validate_of_run` — the tables of a book pass all checks.
* `GrammarBook.isOfBook_of_error` — what a book can be refused for.
-/

namespace QueryLint

open Draft

namespace GrammarBook

variable {b : GrammarBook} {σ : Layout} {d d' : Draft} {t : Tables} {pairs : List BracketPair}
  {root : Nat}

/-! ## 1. Tables of a draft -/

theorem getElem?_mapM_read {ps : List String} {qs : List TablePattern}
    (h : (ps.mapM fun p => (TablePattern.read? p : Compiling TablePattern)).run d = .ok (qs, d')) :
    qs.length = ps.length ∧ ∀ (k : Nat) p, ps[k]? = some p →
      ∃ q, TablePattern.read? p = .ok q ∧ qs[k]? = some q := by
  induction ps generalizing d qs with
  | nil =>
    obtain ⟨rfl, rfl⟩ := run_pure_ok h
    exact ⟨rfl, nofun⟩
  | cons p ps ih =>
    rw [List.mapM_cons] at h
    obtain ⟨q, d₁, h₁, h⟩ := run_bind_ok h
    obtain ⟨qs', d₂, h₂, h⟩ := run_bind_ok h
    obtain ⟨rfl, rfl⟩ := run_pure_ok h
    obtain ⟨hlength, hread⟩ := ih h₂
    refine ⟨by simp [hlength], ?_⟩
    intro k p' hk
    cases k with
    | zero =>
      obtain rfl : p = p' := by simpa using hk
      exact ⟨q, eq_of_run_lift h₁, rfl⟩
    | succ k => exact hread k p' (by simpa using hk)

/-- A pattern is kept with the text it was read from. -/
theorem text_of_read {text : String} {p : TablePattern} (h : TablePattern.read? text = .ok p) :
    p.text = text := by
  unfold TablePattern.read? at h
  split at h
  · cases h
    rfl
  · cases h

theorem length_offsets (start : Nat) (xss : List (List Nat)) :
    (offsets start xss).length = xss.length + 1 := by
  induction xss generalizing start with
  | nil => rfl
  | cons xs xss ih => simp [offsets, ih]

/-- Tables hold a draft: what is noted in its slots, and the tables beside them. -/
structure Filed (b : GrammarBook) (root : Nat) (pairs : List BracketPair) (d : Draft)
    (t : Tables) : Prop where
  carries : Carries d t
  finished : Finished d pairs t
  terminatorIds : t.terminatorIds = d.terminatorIds
  trimStrings : t.trimStrings = d.trimStrings
  strings : Prolongs d.strings t.strings
  patterns : ∀ (k : Nat) p, d.patterns[k]? = some p →
    ∃ q, TablePattern.read? p = .ok q ∧ t.patterns[k]? = some q
  read : ∀ q ∈ t.patterns, TablePattern.read? q.text = .ok q
  segmentTypes : t.segmentTypes = d.slots.map (·.segmentType)
  segmentClasses : t.segmentClasses = d.slots.map (·.segmentClass)
  casefolds : t.casefolds = d.slots.map (·.casefold)
  trimStarts : t.trimStarts = d.slots.map (·.trimStart)
  trimCounts : t.trimCounts = d.slots.map (·.trimCount)
  names_eq : t.names = b.names.zipIdx.map fun (name, n) => (name, ⟨n⟩)
  root_eq : t.root = ⟨root⟩
  size_auxOffsets : t.auxOffsets.size = t.size + 1
  size_hintOf : t.hintOf.size = t.size
  aux : ∀ (n : Nat) s, d.slots[n]? = some s →
    t.auxOffsets.getD (n + 1) 0 = t.auxOffsets.getD n 0 + s.parameters.length ∧
      t.auxOffsets.getD (n + 1) 0 ≤ t.aux.size
  hints : ∀ n : Nat, (t.instruction ⟨n⟩).flags.hasHint = true → ∃ k span raws types,
    t.hintOf[n]? = some k ∧ t.hints[k]? = some span ∧
      Spells t.strings t.hintStrings span.rawStart span.rawCount raws ∧
      Spells t.strings t.hintStrings span.typeStart span.typeCount types

theorem toArray_map_toList {α β : Type} (xs : Array α) (f : α → β) :
    (xs.toList.map f).toArray = xs.map f := by
  rw [← Array.toList_map, Array.toArray_toList]

/-- The finished tables hold the draft. -/
theorem filed_of_run (hrun : (b.finish root pairs).run d = .ok (t, d')) :
    Filed b root pairs d t := by
  have carries := carries_of_run hrun
  obtain ⟨holds, -⟩ := holdsSlots_of_run hrun
  obtain ⟨lists, strings, -⟩ := lists_of_run hrun
  have size_eq : t.size = d.allHints.length := by
    rw [carries.size_eq, (exists_sensible_allHints d).1]
  obtain ⟨_, d₁, h₁, hrun₁⟩ := run_bind_ok hrun
  obtain ⟨rfl, rfl⟩ := run_get_ok h₁
  obtain ⟨hints, d₂, h₂, hrun₂⟩ := run_bind_ok hrun₁
  obtain ⟨_, d₃, h₃, hrun₃⟩ := run_bind_ok hrun₂
  obtain ⟨rfl, rfl⟩ := run_get_ok h₃
  obtain ⟨patterns, d₄, h₄, hrun₄⟩ := run_bind_ok hrun₃
  obtain ⟨interned, -⟩ := HintTables.run_pushAll_ok _ (HintTables.lists_empty _) h₂
  obtain ⟨ht, -⟩ := run_pure_ok hrun₄
  have rest := interned.rest
  have slots_eq := interned.slots_eq
  rw [Array.mapM_eq_mapM_toList, ← bind_pure_comp] at h₄
  obtain ⟨qs, e, hread, hpure⟩ := run_bind_ok h₄
  obtain ⟨rfl, rfl⟩ := run_pure_ok hpure
  obtain ⟨hcount, hread⟩ := getElem?_mapM_read hread
  exact {
    carries := carries
    finished := finished_of_run hrun
    terminatorIds := by rw [ht, rest]
    trimStrings := by rw [ht, rest]
    strings := strings
    patterns := by
      intro k p hp
      have hp : d₃.patterns.toList[k]? = some p := by rw [rest, Array.getElem?_toList]; exact hp
      obtain ⟨q, hq, hk⟩ := hread k p hp
      refine ⟨q, hq, ?_⟩
      rw [ht, List.getElem?_toArray]
      exact hk
    read := by
      intro q hq
      rw [ht] at hq
      obtain ⟨k, hk⟩ := List.mem_iff_getElem?.1 (List.mem_toArray.1 hq)
      have hlt := (List.getElem?_eq_some_iff.1 hk).1
      obtain ⟨q', hq', hk'⟩ := hread k _ (List.getElem?_eq_getElem (hcount ▸ hlt))
      obtain rfl : q = q' := Option.some.inj (hk.symm.trans hk')
      rwa [text_of_read hq']
    segmentTypes := by rw [ht, ← slots_eq]; exact toArray_map_toList _ _
    segmentClasses := by rw [ht, ← slots_eq]; exact toArray_map_toList _ _
    casefolds := by rw [ht, ← slots_eq]; exact toArray_map_toList _ _
    trimStarts := by rw [ht, ← slots_eq]; exact toArray_map_toList _ _
    trimCounts := by rw [ht, ← slots_eq]; exact toArray_map_toList _ _
    names_eq := by rw [ht]
    root_eq := by rw [ht]
    size_auxOffsets := by
      rw [holds.auxOffsets, carries.size_eq]
      simp [length_offsets]
    size_hintOf := by
      rw [size_eq]
      exact lists.size_eq
    aux := by
      intro n s hs
      obtain ⟨next, within, -⟩ := holds.parameters_at (by rw [Array.getElem?_toList, hs])
      exact ⟨next, within⟩
    hints := by
      intro n hn
      have hlt : n < t.size := Nat.lt_of_not_le fun hle => by
        rw [Tables.instruction_of_size_le hle] at hn
        cases hn
      obtain ⟨s, f, hs, hf⟩ := holds.exists_slot hlt
      rw [holds.instruction_eq hs hf] at hn
      obtain ⟨g, rfl⟩ := Option.isSome_iff_exists.1 hn
      obtain ⟨k, span, hk, hspan, hraws, htypes⟩ := lists.listed n g hf
      exact ⟨k, span, g.raws, g.types, hk, hspan, hraws, htypes⟩ }

end GrammarBook

/-! ## 2. Checks that hold -/

/-- All of these hold. -/
def AllHold (cs : List TableCheck) : Prop := ∀ c ∈ cs, c.holds = true

section
variable {t : Tables} {inst : Nat}

@[simp] theorem allHold_nil : AllHold [] := by simp [AllHold]

@[simp] theorem allHold_cons {c : TableCheck} {cs : List TableCheck} :
    AllHold (c :: cs) ↔ c.holds = true ∧ AllHold cs := by simp [AllHold]

@[simp] theorem allHold_append {cs cs' : List TableCheck} :
    AllHold (cs ++ cs') ↔ AllHold cs ∧ AllHold cs' := List.forall_mem_append

@[simp] theorem allHold_stringChecks {ns : List Nat} :
    AllHold (t.stringChecks inst ns) ↔ ∀ n ∈ ns, n < t.strings.size := by
  simp [AllHold, Tables.stringChecks]

@[simp] theorem allHold_partChecks {ns : List Nat} :
    AllHold (t.partChecks inst ns) ↔ ∀ n ∈ ns, n < t.size := by
  simp [AllHold, Tables.partChecks, Tables.hasInstruction]

theorem mem_present {ns : List Nat} {n : Nat} :
    n ∈ Tables.present ns ↔ n ∈ ns ∧ n ≠ GrammarId.absent := by
  simp [Tables.present]

end

theorem Spells.lt_size {strings : Array String} {table : Array Nat} {start count : Nat}
    {texts : List String} (h : Spells strings table start count texts) :
    ∀ n ∈ Tables.idsIn table start count, n < strings.size := by
  intro n hn
  have : strings[n]? ∈ texts.map some := h.texts_eq ▸ List.mem_map.2 ⟨n, hn, rfl⟩
  obtain ⟨s, -, hs⟩ := List.mem_map.1 this
  exact (Array.getElem?_eq_some_iff.1 hs.symm).1

namespace GrammarBook

variable {b : GrammarBook} {σ : Layout} {d d' : Draft} {t : Tables} {pairs : List BracketPair}
  {root n : Nat}

/-- The slot of a name is among those of the definitions. -/
theorem slot?_eq_some {name : String} (h : b.slot? name = some n) :
    ∃ x, b.definitions[n]? = some x ∧ x.name = name := by
  obtain ⟨hlt, hname, -⟩ := List.idxOf?_eq_some_iff.1 h
  have hlt : n < b.definitions.length := by simpa [names] using hlt
  exact ⟨b.definitions[n], List.getElem?_eq_getElem hlt, by simpa [names] using hname⟩

theorem slot?_lt {name : String} (h : b.slot? name = some n) : n < b.definitions.length := by
  obtain ⟨x, hx, -⟩ := slot?_eq_some h
  exact (List.getElem?_eq_some_iff.1 hx).1

namespace Filed

section
variable (hf : Filed b root pairs d t) (ho : LaidOut b σ d pairs)
include hf

theorem size_eq : t.size = d.slots.size := hf.carries.size_eq

/-- A parameter of a slot stands in the table of parameters. -/
theorem getElem?_aux {s : Slot} (hs : d.slots[n]? = some s) {k x : Nat}
    (hx : s.parameters[k]? = some x) : t.aux[t.auxOffsets.getD n 0 + k]? = some x := by
  have found := (hf.finished.parameter n s hs k x hx).2
  obtain ⟨hnext, hle⟩ := hf.aux n s hs
  have hk := (List.getElem?_eq_some_iff.1 hx).1
  have hlt : t.auxOffsets.getD n 0 + k < t.aux.size := by omega
  rw [Array.getD_eq_getD_getElem?, Array.getElem?_eq_getElem hlt] at found
  rw [Array.getElem?_eq_getElem hlt]
  exact congrArg some found

theorem string_lt {k : Nat} {s : String} (hk : d.strings[k]? = some s) : k < t.strings.size :=
  (Array.getElem?_eq_some_iff.1 (hf.strings k s hk)).1

theorem pattern_lt {k : Nat} {p : String} (hk : d.patterns[k]? = some p) : k < t.patterns.size := by
  obtain ⟨q, -, hq⟩ := hf.patterns k p hk
  exact (Array.getElem?_eq_some_iff.1 hq).1

/-- What is noted of a slot in a table of its own. -/
theorem getD_map {α : Type} (f : Slot → α) (x : α) {table : Array α}
    (htable : table = d.slots.map f) (hn : n < t.size) : table.getD n x = f (d.slot n) := by
  rw [hf.size_eq] at hn
  rw [htable, Array.getD_eq_getD_getElem?, Array.getElem?_map, slot, Array.getD_eq_getD_getElem?,
    Array.getElem?_eq_getElem hn]
  rfl

include ho

theorem inner_lt {g : Grammar} (h : σ.Inner b n g) : n < t.size := by
  rw [hf.size_eq]
  exact ho.laid.lt_size h.1

theorem innerOption_lt {g : Option Grammar} (h : σ.InnerOption b n g)
    (hn : n ≠ GrammarId.absent) : n < t.size := by
  cases g with
  | none => exact absurd h hn
  | some g => exact hf.inner_lt ho h

theorem inner_all_lt {ids : List Nat} {gs : List Grammar}
    (h : List.Forall₂ (σ.Inner b) ids gs) : ∀ n ∈ ids, n < t.size := by
  induction h with
  | nil => simp
  | cons hg _ ih => exact List.forall_mem_cons.2 ⟨hf.inner_lt ho hg, ih⟩

/-- The grammar of an instruction, with all that belongs to it. -/
theorem exists_holdsIn (hn : n < t.size) :
    ∃ form parts terminators exclude delimiter settings s ids ends i j x y,
      HoldsIn b σ d n form parts terminators exclude delimiter settings s ids ends i j x y := by
  rw [hf.size_eq] at hn
  obtain ⟨g, hg⟩ := Option.isSome_iff_exists.1 (ho.all n hn)
  have holds := ho.laid.holds n g hg
  obtain ⟨form, parts, terminators, exclude, delimiter, settings⟩ := g
  exact ⟨form, parts, terminators, exclude, delimiter, settings, holds⟩

end

/-! ## 3. One instruction -/

section
variable {form : GrammarForm} {parts terminators : List Grammar}
  {exclude delimiter : Option Grammar} {settings : GrammarSettings} {s : Slot}
  {ids ends : List Nat} {i j x y : Nat}
  (hf : Filed b root pairs d t) (ho : LaidOut b σ d pairs)
  (h : HoldsIn b σ d n form parts terminators exclude delimiter settings s ids ends i j x y)
include hf h

/-- The instruction is that of the grammar, but for its hint. -/
theorem instruction_eq : ∃ hinted, t.instruction ⟨n⟩ =
    let made := instructionOf form settings exclude.isSome (i, ids.length) (j, ends.length)
    { made with flags := { made.flags with hasHint := hinted } } := by
  obtain ⟨hinted, hi⟩ := hf.carries.instruction n
  rw [getElem?_slot h.slot, h.instruction] at hi
  exact ⟨hinted, hi⟩

theorem kind_eq : (t.instruction ⟨n⟩).kind = form.instructionKind := by
  obtain ⟨hinted, hi⟩ := hf.instruction_eq h
  rw [hi]
  rfl

theorem isConditional_eq : (t.instruction ⟨n⟩).flags.isConditional = form.isConditional := by
  obtain ⟨hinted, hi⟩ := hf.instruction_eq h
  rw [hi]
  rfl

include ho in
theorem holds_partsChecks : AllHold (t.partsChecks n (t.instruction ⟨n⟩)) := by
  obtain ⟨hinted, hi⟩ := hf.instruction_eq h
  have parts_le := h.partsLie.le_size
  have ends_le := h.terminatorsLie.le_size
  unfold Tables.partsChecks
  rw [hi, hf.carries.partIds, hf.terminatorIds]
  simp only [instructionOf, allHold_append, allHold_cons, allHold_partChecks, h.partsLie.idsIn_eq,
    h.terminatorsLie.idsIn_eq]
  refine ⟨⟨decide_eq_true parts_le, hf.inner_all_lt ho h.parts⟩, decide_eq_true ends_le, ?_⟩
  intro c hc
  obtain ⟨k, hk, rfl⟩ := List.mem_map.1 hc
  simpa [Tables.hasInstruction] using hf.inner_all_lt ho h.terminators k hk

/-- There are as many parameters as a form needs. -/
theorem footprint_le : t.footprint (t.instruction ⟨n⟩) (t.auxOffsets.getD n 0) ≤
    s.parameters.length := by
  have parameters := h.parameters
  unfold Tables.footprint
  rw [hf.kind_eq h, hf.isConditional_eq h]
  cases form with
  | multiString templates type =>
    obtain ⟨k, ks, -, -, hlength, hps⟩ := parameters
    have hcount : s.parameters[1]? = some templates.length := by rw [hps]; rfl
    have := hf.getElem?_aux h.slot hcount
    rw [Array.getD_eq_getD_getElem?, this, hps]
    simp [GrammarForm.instructionKind, GrammarForm.isConditional, InstructionKind.footprint,
      hlength]
    omega
  | marker kind condition =>
    cases condition with
    | none =>
      have hps : s.parameters = [kind.number] := parameters
      simp [hps, GrammarForm.instructionKind, GrammarForm.isConditional, InstructionKind.footprint]
    | some kv =>
      obtain ⟨k, l, -, -, hps⟩ := parameters
      simp [hps, GrammarForm.instructionKind, GrammarForm.isConditional, InstructionKind.footprint]
  | ref name =>
    obtain ⟨-, k, -, hps⟩ := parameters
    simp [hps, GrammarForm.instructionKind, GrammarForm.isConditional, InstructionKind.footprint]
  | bracketed type persists =>
    obtain ⟨pair, o, c, -, -, -, hps⟩ := parameters
    simp [hps, GrammarForm.instructionKind, GrammarForm.isConditional, InstructionKind.footprint]
  | string template type | typed template type fold trim =>
    obtain ⟨k, l, -, -, hps⟩ := parameters
    simp [hps, GrammarForm.instructionKind, GrammarForm.isConditional, InstructionKind.footprint]
  | pattern text anti type =>
    obtain ⟨p, a, k, -, -, -, hps⟩ := parameters
    simp [hps, GrammarForm.instructionKind, GrammarForm.isConditional, InstructionKind.footprint]
  | sequence | nothing | anything | token | missing | oneOf | anyNumberOf most perPart
  | delimited least =>
    unfold Parameters at parameters
    simp [parameters, GrammarForm.instructionKind, GrammarForm.isConditional,
      InstructionKind.footprint]

/-- A parameter, as the checks read it. -/
theorem getD_aux {k z : Nat} (hz : s.parameters[k]? = some z) :
    t.aux.getD (t.auxOffsets.getD n 0 + k) GrammarId.absent = z :=
  (hf.finished.parameter n s h.slot k z hz).2

include ho in
/-- The parameters of a form name what they should. -/
theorem holds_parameterChecks (hb : b.weight < GrammarId.absent) :
    AllHold (t.parameterChecks n (t.instruction ⟨n⟩) (t.auxOffsets.getD n 0)
      (t.auxOffsets.getD (n + 1) 0)) := by
  have parameters := h.parameters
  have excluded : ∀ z ∈ Tables.present [x], z < t.size := by
    intro z hz
    obtain ⟨hz, hne⟩ := mem_present.1 hz
    obtain rfl := List.mem_singleton.1 hz
    exact hf.innerOption_lt ho h.excludeLies hne
  obtain ⟨few, -, fewPatterns⟩ := ho.few hb
  have slot (k z : Nat) (hz : s.parameters[k]? = some z) := hf.getD_aux h hz
  unfold Tables.parameterChecks
  rw [hf.kind_eq h]
  cases form with
  | ref name =>
    obtain ⟨href, k, hk, hps⟩ := parameters
    obtain ⟨target, htarget, -⟩ := ho.references _ href
    have hlt : target < d.slots.size :=
      Nat.lt_of_lt_of_le (slot?_lt htarget) ho.laid.named
    rw [htarget, Option.getD_some] at hps
    have hne : target ≠ GrammarId.absent := by omega
    simp only [GrammarForm.instructionKind, slot 0 k (by rw [hps]; rfl),
      slot 1 target (by rw [hps]; rfl), slot 2 x (by rw [hps]; rfl)]
    rw [← hf.size_eq] at hlt
    simpa [hf.string_lt hk, hne, hlt] using excluded
  | oneOf =>
    have hps : s.parameters = [x] := parameters
    simp only [GrammarForm.instructionKind, slot 0 x (by rw [hps]; rfl), allHold_partChecks]
    exact excluded
  | anyNumberOf most perPart =>
    have hps : s.parameters = [most.getD _, perPart.getD _, x] := parameters
    simp only [GrammarForm.instructionKind, slot 2 x (by rw [hps]; rfl), allHold_partChecks]
    exact excluded
  | delimited least =>
    have hps : s.parameters = [y, least] := parameters
    obtain ⟨g, hg⟩ := Option.isSome_iff_exists.1 h.whole
    have lies := h.delimiterLies
    rw [hg] at lies
    simp only [GrammarForm.instructionKind, slot 0 y (by rw [hps]; rfl), allHold_partChecks]
    exact List.forall_mem_singleton.2 (hf.inner_lt ho lies)
  | bracketed type persists =>
    obtain ⟨pair, o, c, -, hopening, hclosing, hps⟩ := parameters
    simp only [GrammarForm.instructionKind, slot 0 o (by rw [hps]; rfl),
      slot 1 c (by rw [hps]; rfl), allHold_partChecks]
    simp [hf.inner_lt ho hopening, hf.inner_lt ho hclosing]
  | string template type | typed template type fold trim =>
    obtain ⟨k, l, hk, hl, hps⟩ := parameters
    simp only [GrammarForm.instructionKind, slot 0 k (by rw [hps]; rfl),
      slot 1 l (by rw [hps]; rfl), allHold_stringChecks]
    simp [hf.string_lt hk, hf.string_lt hl]
  | multiString templates type =>
    obtain ⟨k, ks, hk, hks, hlength, hps⟩ := parameters
    have texts : Tables.idsIn t.aux (t.auxOffsets.getD n 0 + 2) ks.length = ks := by
      refine idsIn_eq fun l hl => ?_
      rw [Nat.add_assoc, Nat.add_comm 2 l]
      rw [List.getElem?_eq_getElem hl]
      exact hf.getElem?_aux h.slot (by rw [hps]; simp [hl])
    have hcount : s.parameters[1]? = some ks.length := by rw [hps, hlength]; rfl
    have number : t.footprint (t.instruction ⟨n⟩) (t.auxOffsets.getD n 0) - 2 = ks.length := by
      unfold Tables.footprint
      rw [hf.kind_eq h, hf.isConditional_eq h, Array.getD_eq_getD_getElem?,
        hf.getElem?_aux h.slot hcount]
      simp [GrammarForm.instructionKind, GrammarForm.isConditional, InstructionKind.footprint]
    simp only [GrammarForm.instructionKind, slot 0 k (by rw [hps]; rfl), number, texts,
      allHold_stringChecks, List.forall_mem_cons]
    exact ⟨hf.string_lt hk, fun l hl =>
      Nat.lt_of_lt_of_le (lt_size_of_map_strings hks l hl) hf.strings.size_le⟩
  | pattern text anti type =>
    obtain ⟨p, a, k, hp, ha, hk, hps⟩ := parameters
    have hlt := hf.pattern_lt hp
    have hne : p ≠ GrammarId.absent := by
      have := (Array.getElem?_eq_some_iff.1 hp).1
      omega
    have anti_lt : a ≠ GrammarId.absent → a < t.patterns.size := by
      intro hne
      cases anti with
      | none => exact absurd ha hne
      | some text => exact hf.pattern_lt ha
    simp only [GrammarForm.instructionKind, slot 0 p (by rw [hps]; rfl),
      slot 1 a (by rw [hps]; rfl), slot 2 k (by rw [hps]; rfl), allHold_append, allHold_cons,
      allHold_stringChecks]
    refine ⟨?_, decide_eq_true hne, List.forall_mem_singleton.2 (hf.string_lt hk)⟩
    intro c hc
    obtain ⟨z, hz, rfl⟩ := List.mem_map.1 hc
    obtain ⟨hz, hne⟩ := mem_present.1 hz
    refine decide_eq_true ?_
    rcases List.mem_cons.1 hz with rfl | hz
    · exact hlt
    · obtain rfl := List.mem_singleton.1 hz
      exact anti_lt hne
  | marker kind condition =>
    have known : (Tables.markerKind? kind.number).isSome = true := by cases kind <;> rfl
    rw [hf.isConditional_eq h]
    cases condition with
    | none =>
      have hps : s.parameters = [kind.number] := parameters
      simp only [GrammarForm.instructionKind, GrammarForm.isConditional,
        slot 0 kind.number (by rw [hps]; rfl)]
      simp [known]
    | some kv =>
      obtain ⟨k, l, hk, hl, hps⟩ := parameters
      simp only [GrammarForm.instructionKind, GrammarForm.isConditional,
        slot 0 kind.number (by rw [hps]; rfl), slot 1 k (by rw [hps]; rfl),
        slot 2 l (by rw [hps]; rfl)]
      simp [known, hf.string_lt hk, hf.string_lt hl]
  | sequence | nothing | anything | token | missing => exact allHold_nil

include ho in
theorem holds_auxChecks (hb : b.weight < GrammarId.absent) :
    AllHold (t.auxChecks n (t.instruction ⟨n⟩)) := by
  obtain ⟨hnext, hle⟩ := hf.aux n s h.slot
  have hfootprint := hf.footprint_le h
  unfold Tables.auxChecks
  refine allHold_cons.2 ⟨?_, hf.holds_parameterChecks ho h hb⟩
  simp only [Bool.and_eq_true, decide_eq_true_eq]
  omega

end

section
variable (hf : Filed b root pairs d t) (ho : LaidOut b σ d pairs)
include hf

/-- A hint lies in the tables of hints. -/
theorem holds_hintChecks : AllHold (t.hintChecks n (t.instruction ⟨n⟩)) := by
  unfold Tables.hintChecks
  split
  · next hhint =>
    obtain ⟨k, span, raws, types, hk, hspan, hraws, htypes⟩ := hf.hints n hhint
    have number : t.hintOf.getD n 0 = k := by rw [Array.getD_eq_getD_getElem?, hk]; rfl
    have found : t.hints.getD k default = span := by
      rw [Array.getD_eq_getD_getElem?, hspan]
      rfl
    have hlt := (Array.getElem?_eq_some_iff.1 hspan).1
    have raws_le := hraws.le_size
    have types_le := htypes.le_size
    simp only [number, found, allHold_cons, List.flatMap_cons, List.flatMap_nil, allHold_append,
      allHold_stringChecks, allHold_nil]
    exact ⟨decide_eq_true hlt, ⟨decide_eq_true raws_le, hraws.lt_size⟩,
      ⟨decide_eq_true types_le, htypes.lt_size⟩, trivial⟩
  · exact allHold_nil

include ho

/-- What is noted of segments are texts, if anything is. -/
theorem segments_lt (n : Nat) :
    ∀ k ∈ Tables.present [(d.slot n).segmentType, (d.slot n).segmentClass],
      k < t.strings.size := by
  intro k hk
  obtain ⟨hk, hne⟩ := mem_present.1 hk
  have named : (d.slot n).segmentType = GrammarId.absent ∧
      (d.slot n).segmentClass = GrammarId.absent ∨ ∃ type name,
        d.strings[(d.slot n).segmentType]? = some type ∧
          d.strings[(d.slot n).segmentClass]? = some name := by
    by_cases hdefined : n < b.definitions.length
    · have names := (ho.definitions n _ (List.getElem?_eq_getElem hdefined)).2
      unfold NamesSegments at names
      split at names
      · exact .inl names
      · exact .inr ⟨_, _, names⟩
    · exact .inl (ho.anonymous n (Nat.le_of_not_lt hdefined))
  obtain ⟨htype, hclass⟩ | ⟨type, name, htype, hclass⟩ := named
  · rw [htype, hclass] at hk
    simp [hne] at hk
  · rcases List.mem_cons.1 hk with rfl | hk
    · exact hf.string_lt htype
    · rw [List.mem_singleton.1 hk]
      exact hf.string_lt hclass

theorem holds_stringTableChecks (hn : n < t.size) : AllHold (t.stringTableChecks n) := by
  obtain ⟨form, parts, terminators, exclude, delimiter, settings, s, ids, ends, i, j, x, y, h⟩ :=
    hf.exists_holdsIn ho hn
  have trims := h.trims.spells
  have le := trims.le_size
  unfold Tables.stringTableChecks
  rw [hf.getD_map _ 0 hf.segmentTypes hn, hf.getD_map _ 0 hf.segmentClasses hn,
    hf.getD_map _ 0 hf.trimStarts hn, hf.getD_map _ 0 hf.trimCounts hn, getElem?_slot h.slot,
    hf.trimStrings]
  simp only [allHold_append, allHold_cons, allHold_stringChecks]
  refine ⟨?_, decide_eq_true le, fun k hk => ?_⟩
  · have := hf.segments_lt ho n
    rwa [getElem?_slot h.slot] at this
  · exact Nat.lt_of_lt_of_le (trims.lt_size k hk) hf.strings.size_le

/-- All that is checked of an instruction holds. -/
theorem holds_instructionChecks (hb : b.weight < GrammarId.absent) (hn : n < t.size) :
    AllHold (t.instructionChecks n (t.instruction ⟨n⟩)) := by
  obtain ⟨form, parts, terminators, exclude, delimiter, settings, s, ids, ends, i, j, x, y, h⟩ :=
    hf.exists_holdsIn ho hn
  unfold Tables.instructionChecks
  simp only [allHold_append]
  exact ⟨⟨⟨hf.holds_partsChecks ho h, hf.holds_auxChecks ho h hb⟩, hf.holds_hintChecks⟩,
    hf.holds_stringTableChecks ho hn⟩

/-! ## 4. All checks -/

theorem holds_sizeChecks (hroot : b.slot? b.root = some root) : AllHold t.sizeChecks := by
  have root_lt : root < t.size := by
    rw [hf.size_eq]
    exact Nat.lt_of_lt_of_le (slot?_lt hroot) ho.laid.named
  unfold Tables.sizeChecks
  simp [hf.size_auxOffsets, hf.size_hintOf, hf.segmentTypes, hf.segmentClasses, hf.casefolds,
    hf.trimStarts, hf.trimCounts, hf.size_eq, hf.root_eq, Tables.hasInstruction] at root_lt ⊢
  exact root_lt

/-- The tables made of a book pass all checks. -/
theorem validate_eq_ok (hb : b.weight < GrammarId.absent) (hroot : b.slot? b.root = some root) :
    t.validate = .ok () := by
  refine t.validate_eq_ok_iff.2 ?_
  show AllHold _
  unfold Tables.checks
  rw [allHold_append, allHold_append]
  refine ⟨⟨hf.holds_sizeChecks ho hroot, ?_⟩, ?_⟩
  · intro c hc
    obtain ⟨⟨i, inst⟩, hi, hc⟩ := List.mem_flatMap.1 hc
    rw [List.mem_zipIdx_iff_getElem?, Array.getElem?_toList] at hi
    have hlt := (Array.getElem?_eq_some_iff.1 hi).1
    have same : t.instruction ⟨inst⟩ = i := by
      rw [Tables.instruction, Array.getD_eq_getD_getElem?, hi]
      rfl
    rw [← same] at hc
    exact hf.holds_instructionChecks ho hb hlt c hc
  · intro c hc
    obtain ⟨p, hp, hc⟩ := List.mem_flatMap.1 hc
    rw [hf.finished.pairs_eq] at hp
    obtain ⟨q, -, hopening, hclosing⟩ := ho.pairs.inner p hp
    simp only [List.map_cons, List.map_nil, List.mem_cons, List.not_mem_nil, or_false] at hc
    obtain rfl | rfl := hc
    · exact decide_eq_true (hf.inner_lt ho hopening)
    · exact decide_eq_true (hf.inner_lt ho hclosing)

end

end Filed

end GrammarBook

/-! ## 5. What a book can be refused for -/

/-- What a book can be refused for: all but numbers out of range. -/
def GrammarError.isOfBook : GrammarError → Bool
  | .duplicateDefinition _ | .unknownReference _ | .selfReference _ | .missingRoot _
  | .overflow _ | .invalidPattern _ _ => true
  | _ => false

/-- A step that can only fail for what a book can be refused for. -/
def Refuses {α : Type} (x : Compiling α) : Prop :=
  ∀ d e, x.run d = .error e → e.isOfBook = true

namespace Refuses

variable {α β : Type}

theorem pure (a : α) : Refuses (Pure.pure a : Compiling α) := by
  intro d e h
  cases h

theorem throw {e : GrammarError} (he : e.isOfBook = true) :
    Refuses (throw e : Compiling α) := by
  intro d e' h
  cases h
  exact he

theorem bind {x : Compiling α} {f : α → Compiling β} (hx : Refuses x)
    (hf : ∀ a, Refuses (f a)) : Refuses (x >>= f) := by
  intro d e h
  rw [StateT.run_bind] at h
  cases hrun : x.run d with
  | error e' =>
    rw [hrun] at h
    cases h
    exact hx d e hrun
  | ok r =>
    rw [hrun] at h
    exact hf r.1 r.2 e h

theorem of_modifyGet (f : Draft → α × Draft) :
    Refuses (MonadStateOf.modifyGet f : Compiling α) := by
  intro d e h
  cases h

theorem of_modify (f : Draft → Draft) : Refuses (modify f : Compiling PUnit) := of_modifyGet _

theorem get : Refuses (MonadState.get : Compiling Draft) := by
  intro d e h
  cases h

theorem lift {x : Except GrammarError α} (hx : ∀ e, x = .error e → e.isOfBook = true) :
    Refuses (liftM x : Compiling α) := by
  intro d e h
  cases x with
  | error e' =>
    cases h
    exact hx e rfl
  | ok a => cases h

theorem mapM {f : α → Compiling β} (xs : List α) (h : ∀ x ∈ xs, Refuses (f x)) :
    Refuses (xs.mapM f) := by
  induction xs with
  | nil => exact pure []
  | cons x xs ih =>
    rw [List.mapM_cons]
    exact bind (h x (by simp)) fun _ => bind (ih fun y hy => h y (by simp [hy])) fun _ => pure _

theorem forIn {f : α → PUnit → Compiling (ForInStep PUnit)} (xs : List α)
    (h : ∀ x ∈ xs, Refuses (f x ⟨⟩)) : Refuses (ForIn.forIn xs PUnit.unit f) := by
  induction xs with
  | nil =>
    rw [List.forIn_nil]
    exact pure _
  | cons x xs ih =>
    rw [List.forIn_cons]
    refine bind (h x (by simp)) fun r => ?_
    cases r with
    | done u => exact pure u
    | yield u => exact ih fun y hy => h y (by simp [hy])

theorem foldlM {f : β → α → Compiling β} (h : ∀ b x, Refuses (f b x)) (xs : List α) (b : β) :
    Refuses (xs.foldlM f b) := by
  induction xs generalizing b with
  | nil => exact pure b
  | cons x xs ih =>
    rw [List.foldlM_cons]
    exact bind (h b x) fun b' => ih b'

theorem count (what : String) (n : Nat) : Refuses (Compiling.count what n) := by
  unfold Compiling.count
  split
  · exact pure n
  · exact throw rfl

theorem listParts (ids : List Nat) : Refuses (Compiling.listParts ids) :=
  bind get fun _ => bind (count _ _) fun _ => bind (of_modify _) fun _ => pure _

theorem listTerminators (ids : List Nat) : Refuses (Compiling.listTerminators ids) :=
  bind get fun _ => bind (count _ _) fun _ => bind (of_modify _) fun _ => pure _

theorem intern (s : String) : Refuses (Compiling.intern s) := of_modifyGet _

theorem internPattern (s : String) : Refuses (Compiling.internPattern s) := of_modifyGet _

theorem reference (b : GrammarBook) (n : Nat) (name : String) (exclude : Nat) :
    Refuses (Compiling.reference b n name exclude) :=
  bind (of_modify _) fun _ => bind (intern name) fun _ => pure _

theorem bareReference (b : GrammarBook) (name : String) :
    Refuses (Compiling.bareReference b name) :=
  bind (of_modifyGet _) fun n => bind (reference b n name _) fun _ => bind (listParts []) fun _ =>
    bind (listTerminators []) fun _ => bind (of_modify _) fun _ => pure _

end Refuses

namespace Grammar

variable {b : GrammarBook}

theorem refuses_pairOf (form : GrammarForm) : Refuses (pairOf b form) := by
  unfold pairOf
  split
  · split
    · exact .pure _
    · exact .throw rfl
  · exact .pure _

theorem refuses_parametersOf (n x y : Nat) (pair : Option BracketDefinition)
    (form : GrammarForm) : Refuses (parametersOf b n x y pair form) := by
  cases form with
  | ref name => exact .reference b n name x
  | sequence | nothing | anything | token | missing | oneOf | anyNumberOf most perPart
  | delimited least => exact .pure _
  | bracketed type persists =>
    cases pair with
    | none => exact .pure _
    | some p =>
      exact .bind (.bareReference b _) fun _ => .bind (.bareReference b _) fun _ => .pure _
  | string template type => exact .bind (.intern _) fun _ => .bind (.intern _) fun _ => .pure _
  | multiString templates type =>
    exact .bind (.intern _) fun _ => .bind (.mapM _ fun _ _ => .intern _) fun _ => .pure _
  | typed template type fold trim =>
    exact .bind (.intern _) fun _ => .bind (.intern _) fun _ => .bind .get fun _ =>
      .bind (.count _ _) fun _ => .bind (.mapM _ fun _ _ => .intern _) fun _ =>
        .bind (.of_modify _) fun _ => .bind (.of_modify _) fun _ => .pure _
  | pattern text anti type =>
    refine .bind (.internPattern _) fun _ => ?_
    cases anti with
    | none => exact .bind (.pure _) fun _ => .bind (.intern _) fun _ => .pure _
    | some p => exact .bind (.internPattern _) fun _ => .bind (.intern _) fun _ => .pure _
  | marker kind condition =>
    cases condition with
    | none => exact .pure _
    | some kv => exact .bind (.intern _) fun _ => .bind (.intern _) fun _ => .pure _

mutual

theorem refuses_compileInto (g : Grammar) (n : Nat) : Refuses (g.compileInto b n) := by
  match g with
  | mk form parts terminators exclude delimiter settings =>
    unfold compileInto
    exact .bind (refuses_compileAll terminators) fun _ =>
      .bind (refuses_compileOption exclude) fun _ => .bind (refuses_pairOf form) fun _ =>
        .bind (refuses_compileAll parts) fun _ => .bind (refuses_compileOption delimiter) fun _ =>
          .bind (refuses_parametersOf n _ _ _ form) fun _ => .bind (.listParts _) fun _ =>
            .bind (.listTerminators _) fun _ => .of_modify _

theorem refuses_compileAll (gs : List Grammar) : Refuses (compileAll b gs) := by
  match gs with
  | [] =>
    unfold compileAll
    exact .pure _
  | g :: rest =>
    unfold compileAll
    exact .bind (.of_modifyGet _) fun n => .bind (refuses_compileInto g n) fun _ =>
      .bind (refuses_compileAll rest) fun _ => .pure _

theorem refuses_compileOption (g : Option Grammar) : Refuses (compileOption b g) := by
  match g with
  | none =>
    unfold compileOption
    exact .pure _
  | some g =>
    unfold compileOption
    exact .bind (.of_modifyGet _) fun n => .bind (refuses_compileInto g n) fun _ => .pure _

end

end Grammar

namespace GrammarBook

variable {b : GrammarBook}

theorem refuses_compileDefinitions : Refuses b.compileDefinitions := by
  refine .bind (.forIn _ fun _ _ => .bind (.bind (.of_modifyGet _) fun _ => .pure _) fun _ =>
    .pure _) fun _ => .bind (.forIn _ fun x _ => ?_) fun _ => .pure _
  refine .bind (Grammar.refuses_compileInto _ _) fun _ => ?_
  split
  · exact .bind (.intern _) fun _ => .bind (.intern _) fun _ => .bind (.of_modify _) fun _ =>
      .pure _
  · exact .pure _

theorem refuses_compileBrackets : Refuses b.compileBrackets :=
  .mapM _ fun _ _ => .bind (.bareReference b _) fun _ => .bind (.bareReference b _) fun _ => .pure _

theorem isOfBook_of_checkReferences {refs : List (Nat × String)} {e : GrammarError}
    (h : b.checkReferences refs = .error e) : e.isOfBook = true := by
  induction refs with
  | nil => cases h
  | cons x refs ih =>
    obtain ⟨n, name⟩ := x
    rw [checkReferences] at h
    split at h
    · cases h
      rfl
    · split at h
      · cases h
        rfl
      · exact ih h

theorem isOfBook_of_read {text : String} {e : GrammarError}
    (h : TablePattern.read? text = .error e) : e.isOfBook = true := by
  unfold TablePattern.read? at h
  split at h
  · cases h
  · cases h
    rfl

theorem refuses_finish (root : Nat) (pairs : List BracketPair) :
    Refuses (b.finish root pairs) := by
  refine .bind .get fun d => ?_
  refine .bind (.foldlM (fun h f => ?_) _ _) fun hints => .bind .get fun d' => .bind ?_ fun _ => ?_
  · cases f with
    | none => exact .pure _
    | some f =>
      exact .bind (.mapM _ fun _ _ => .intern _) fun _ => .bind (.mapM _ fun _ _ => .intern _)
        fun _ => .pure _
  · rw [Array.mapM_eq_mapM_toList, ← bind_pure_comp]
    exact .bind (.mapM _ fun _ _ => .lift fun e he => isOfBook_of_read he) fun _ => .pure _
  · exact .pure _

theorem refuses_compileSteps : Refuses b.compileSteps := by
  refine .bind refuses_compileDefinitions fun _ => .bind refuses_compileBrackets fun pairs =>
    .bind .get fun d => .bind (.lift fun e he => isOfBook_of_checkReferences he) fun _ => ?_
  split
  · exact .throw rfl
  · exact refuses_finish _ pairs

/-- The tables that the steps of compiling give pass all checks. -/
theorem validate_of_run {t : Tables} {d : Draft} (hwhole : b.isWhole = true)
    (hb : b.weight < GrammarId.absent) (h : b.compileSteps.run {} = .ok (t, d)) :
    t.validate = .ok () := by
  obtain ⟨σ, d, pairs, root, laid, hroot, hfinish⟩ := laidOut_of_run hwhole h
  exact (filed_of_run hfinish).validate_eq_ok laid hb hroot

/-- A book is never refused for a number out of range. -/
theorem isOfBook_of_error (hwhole : b.isWhole = true) (hb : b.weight < GrammarId.absent)
    {e : GrammarError} (h : b.compile = .error e) : e.isOfBook = true := by
  unfold compile at h
  split at h
  · cases h
    rfl
  · cases hrun : b.compileSteps.run {} with
    | error e' =>
      rw [hrun] at h
      cases h
      exact refuses_compileSteps {} e hrun
    | ok r =>
      obtain ⟨t, d⟩ := r
      have valid := validate_of_run hwhole hb hrun
      rw [hrun] at h
      simp only [bind, Except.bind, valid, pure, Except.pure] at h
      cases h

end GrammarBook

end QueryLint
