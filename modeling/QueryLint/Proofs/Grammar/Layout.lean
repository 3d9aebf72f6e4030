import Mathlib.Data.List.Forall2
import QueryLint.Proofs.Grammar.Hints

/-!
QueryLint.Proofs.Grammar.Layout — which grammar each slot of a draft holds.

While a book is compiled, every slot is made for one grammar, and what is filled into it says all
of that grammar but its parts, which lie in slots of their own. A `Layout` remembers the grammar of
each slot. All tables beside the slots only grow, so what a slot names in them stays where it is.

* `Draft.Grows` — one draft becomes another by growing.
* `Draft.Holds` — a slot holds a grammar, its parts being where the layout says.
* `Draft.Lays` — one draft becomes another by grammars that are laid out.
* `Draft.lays_fill` — a grammar all of whose parts are laid out is filled into its slot.
-/

namespace QueryLint

/-! ## 1. What grammars are made of -/

namespace GrammarForm

/-- Number of texts, of patterns and of slots for brackets that a form asks for. -/
def weight : GrammarForm → Nat
  | ref _ => 1
  | bracketed _ _ => 4
  | string _ _ => 2
  | multiString templates _ => templates.length + 1
  | typed _ _ _ trim => trim.length + 2
  | pattern _ _ _ => 3
  | marker _ (some _) => 2
  | _ => 0

/-- How a typed token is normalised. -/
def fold : GrammarForm → Casefold
  | typed _ _ fold _ => fold
  | _ => .none

/-- Texts that are taken away from a typed token. -/
def trims : GrammarForm → List String
  | typed _ _ _ trim => trim
  | _ => []

/-- There is a delimiter if the form asks for one. -/
def acceptsDelimiter (delimited : Bool) : GrammarForm → Bool
  | .delimited _ => delimited
  | _ => true

end GrammarForm

namespace Grammar

mutual

/-- Number of texts, patterns and further slots that a grammar asks for. -/
def weight : Grammar → Nat
  | mk form parts terminators exclude delimiter _ =>
    weightAll terminators + weightOption exclude + weightAll parts + weightOption delimiter +
      form.weight

/-- The same for grammars with slots of their own. -/
def weightAll : List Grammar → Nat
  | [] => 0
  | g :: rest => g.weight + 1 + weightAll rest

/-- The same for a grammar that may be missing. -/
def weightOption : Option Grammar → Nat
  | none => 0
  | some g => g.weight + 1

end

mutual

/-- Every grammar with delimiters says which. -/
def isWhole : Grammar → Bool
  | mk form parts terminators exclude delimiter _ =>
    form.acceptsDelimiter delimiter.isSome && areWhole terminators && isWholeOption exclude &&
      areWhole parts && isWholeOption delimiter

/-- The same for several grammars. -/
def areWhole : List Grammar → Bool
  | [] => true
  | g :: rest => g.isWhole && areWhole rest

/-- The same for a grammar that may be missing. -/
def isWholeOption : Option Grammar → Bool
  | none => true
  | some g => g.isWhole

end

end Grammar

/-! ## 2. Tables that grow -/

/-- One table begins with another. -/
def Prolongs {α : Type} (a a' : Array α) : Prop := ∀ (k : Nat) x, a[k]? = some x → a'[k]? = some x

namespace Prolongs

variable {α : Type} {a a' a'' : Array α}

theorem refl (a : Array α) : Prolongs a a := fun _ _ h => h

theorem trans (h : Prolongs a a') (h' : Prolongs a' a'') : Prolongs a a'' :=
  fun k x hx => h' k x (h k x hx)

theorem append (a : Array α) (xs : List α) : Prolongs a (a ++ xs) := by
  intro k x hx
  have hlt := (Array.getElem?_eq_some_iff.1 hx).1
  rw [← Array.getElem?_toList, Array.toList_appendList,
    List.getElem?_append_left (by simpa using hlt), Array.getElem?_toList, hx]

theorem push (a : Array α) (x : α) : Prolongs a (a.push x) := by
  intro k y hy
  rw [Array.getElem?_push, if_neg (by have := (Array.getElem?_eq_some_iff.1 hy).1; omega), hy]

theorem size_le (h : Prolongs a a') : a.size ≤ a'.size := by
  refine Nat.le_of_not_lt fun hlt => ?_
  have := h a'.size a[a'.size] (Array.getElem?_eq_getElem hlt)
  simp at this

/-- Several numbers still name the same. -/
theorem map_getElem? (h : Prolongs a a') {ns : List Nat} {xs : List α}
    (hns : ns.map (a[·]?) = xs.map some) : ns.map (a'[·]?) = xs.map some := by
  induction ns generalizing xs with
  | nil => simpa using hns
  | cons n ns ih =>
    cases xs with
    | nil => simp at hns
    | cons x xs =>
      obtain ⟨hn, hns⟩ := List.cons.inj hns
      rw [List.map_cons, List.map_cons, h n x hn, ih hns]

/-- What lies in a range stays there. -/
theorem idsIn_eq {a a' : Array Nat} (h : Prolongs a a') {start count : Nat}
    (hle : start + count ≤ a.size) : Tables.idsIn a' start count = Tables.idsIn a start count := by
  have size := h.size_le
  unfold Tables.idsIn
  congr 1
  refine Array.ext (by simp; omega) fun k hk _ => ?_
  have hlt : start + k < a.size := by simp at hk; omega
  have := h (start + k) a[start + k] (Array.getElem?_eq_getElem hlt)
  rw [Array.getElem_extract, Array.getElem_extract]
  rw [Array.getElem?_eq_getElem (by omega)] at this
  exact Option.some.inj this

end Prolongs

/-- Numbers lie in a table one after the other. -/
structure Lies (table : Array Nat) (start : Nat) (ids : List Nat) : Prop where
  le_size : start + ids.length ≤ table.size
  idsIn_eq : Tables.idsIn table start ids.length = ids

theorem Lies.mono {a a' : Array Nat} {start : Nat} {ids : List Nat} (h : Lies a start ids)
    (ha : Prolongs a a') : Lies a' start ids :=
  ⟨Nat.le_trans h.le_size ha.size_le, (ha.idsIn_eq h.le_size).trans h.idsIn_eq⟩

theorem lies_append (table : Array Nat) (ids : List Nat) : Lies (table ++ ids) table.size ids := by
  refine ⟨Nat.le_of_eq (size_appendList table ids).symm, GrammarBook.idsIn_eq fun k hk => ?_⟩
  rw [← Array.getElem?_toList, Array.toList_appendList, List.getElem?_append_right (by simp)]
  simp

theorem Spells.mono {strings strings' : Array String} {table table' : Array Nat}
    {start count : Nat} {texts : List String} (h : Spells strings table start count texts)
    (hs : Prolongs strings strings') (ht : Prolongs table table') :
    Spells strings' table' start count texts := by
  refine ⟨Nat.le_trans h.le_size ht.size_le, ?_⟩
  rw [ht.idsIn_eq h.le_size]
  exact hs.map_getElem? h.texts_eq

namespace Draft

/-- How many slots, texts and patterns there are. -/
def numbers (d : Draft) : Nat := d.slots.size + d.strings.size + d.patterns.size

/-- One draft becomes another by growing, at a cost. -/
structure Grows (cost : Nat) (d d' : Draft) : Prop where
  slots_le : d.slots.size ≤ d'.slots.size
  strings : Prolongs d.strings d'.strings
  patterns : Prolongs d.patterns d'.patterns
  partIds : Prolongs d.partIds d'.partIds
  terminatorIds : Prolongs d.terminatorIds d'.terminatorIds
  trimStrings : Prolongs d.trimStrings d'.trimStrings
  references : ∀ x ∈ d.references, x ∈ d'.references
  numbers_le : d'.numbers ≤ d.numbers + cost

variable {b : GrammarBook} {d d' d'' : Draft} {k l n : Nat}

namespace Grows

theorem refl (d : Draft) : Grows 0 d d where
  slots_le := Nat.le_refl _
  strings := .refl _
  patterns := .refl _
  partIds := .refl _
  terminatorIds := .refl _
  trimStrings := .refl _
  references _ h := h
  numbers_le := Nat.le_refl _

theorem trans (h : Grows k d d') (h' : Grows l d' d'') : Grows (k + l) d d'' where
  slots_le := Nat.le_trans h.slots_le h'.slots_le
  strings := h.strings.trans h'.strings
  patterns := h.patterns.trans h'.patterns
  partIds := h.partIds.trans h'.partIds
  terminatorIds := h.terminatorIds.trans h'.terminatorIds
  trimStrings := h.trimStrings.trans h'.trimStrings
  references x hx := h'.references x (h.references x hx)
  numbers_le := by
    have := h.numbers_le
    have := h'.numbers_le
    omega

theorem weaken (h : Grows k d d') (hle : k ≤ l) : Grows l d d' :=
  { h with numbers_le := Nat.le_trans h.numbers_le (Nat.add_le_add_left hle _) }

/-- A slot that is changed. -/
theorem of_modify {f : Slot → Slot} (h : d' = { d with slots := d.slots.modify n f }) :
    Grows 0 d d' := by
  subst h
  exact {
    Grows.refl d with
    slots_le := Nat.le_of_eq Array.size_modify.symm
    numbers_le := by simp [numbers] }

/-- New texts. -/
theorem of_interned (h : Interned d d') (hle : d'.strings.size ≤ d.strings.size + k) :
    Grows k d d' := by
  have rest := h.rest
  generalize d'.strings = strings at rest hle
  have hs : Prolongs d.strings strings := by
    have := h.strings
    rw [rest] at this
    exact this
  subst rest
  exact {
    slots_le := Nat.le_refl _
    strings := hs
    patterns := .refl _
    partIds := .refl _
    terminatorIds := .refl _
    trimStrings := .refl _
    references := fun _ h => h
    numbers_le := by
      simp only [numbers]
      omega }

end Grows

/-! ## 3. Steps beside the slots -/

/-- A step that changes no slot, at a cost. -/
structure Notes (cost : Nat) (d d' : Draft) : Prop where
  grows : Grows cost d d'
  slots_eq : d'.slots = d.slots

theorem Notes.trans (h : Notes k d d') (h' : Notes l d' d'') : Notes (k + l) d d'' :=
  ⟨h.grows.trans h'.grows, h'.slots_eq.trans h.slots_eq⟩

theorem Notes.weaken (h : Notes k d d') (hle : k ≤ l) : Notes l d d' :=
  ⟨h.grows.weaken hle, h.slots_eq⟩

theorem notes_intern {s : String} (h : (Compiling.intern s).run d = .ok (n, d')) :
    Notes 1 d d' ∧ d'.strings[n]? = some s := by
  obtain ⟨interned, hn⟩ := run_intern_ok h
  have hsize : d'.strings.size ≤ d.strings.size + 1 := by
    have hf := Except.ok.inj h
    dsimp only at hf
    split at hf
    · obtain ⟨-, rfl⟩ := Prod.mk.inj hf
      exact Nat.le_succ _
    · obtain ⟨-, rfl⟩ := Prod.mk.inj hf
      exact Nat.le_of_eq (Array.size_push _)
  exact ⟨⟨.of_interned interned hsize, interned.slots_eq⟩, hn⟩

theorem notes_mapM_intern {texts : List String} {ns : List Nat}
    (h : (texts.mapM Compiling.intern).run d = .ok (ns, d')) :
    Notes texts.length d d' ∧ ns.map (d'.strings[·]?) = texts.map some ∧
      ns.length = texts.length := by
  obtain ⟨-, hns⟩ := run_mapM_intern_ok h
  refine ⟨?_, hns, by simpa using congrArg List.length hns⟩
  clear hns
  induction texts generalizing d ns with
  | nil =>
    obtain ⟨-, rfl⟩ := run_pure_ok h
    exact ⟨.refl _, rfl⟩
  | cons s texts ih =>
    rw [List.mapM_cons] at h
    obtain ⟨n, d₁, h₁, h⟩ := run_bind_ok h
    obtain ⟨ns', d₂, h₂, h⟩ := run_bind_ok h
    obtain ⟨-, rfl⟩ := run_pure_ok h
    have := (notes_intern h₁).1.trans (ih h₂)
    rwa [Nat.add_comm] at this

theorem notes_internPattern {p : String} (h : (Compiling.internPattern p).run d = .ok (n, d')) :
    Notes 1 d d' ∧ d'.patterns[n]? = some p := by
  have hf := Except.ok.inj h
  dsimp only at hf
  split at hf
  · next k hk =>
    obtain ⟨rfl, rfl⟩ := Prod.mk.inj hf
    refine ⟨⟨(Grows.refl _).weaken (Nat.zero_le 1), rfl⟩, ?_⟩
    obtain ⟨i, hi, rfl⟩ := Option.map_eq_some_iff.1 hk
    rw [Array.getElem?_eq_getElem i.isLt]
    exact congrArg some (Array.finIdxOf?_eq_some_iff.1 hi).1
  · obtain ⟨rfl, rfl⟩ := Prod.mk.inj hf
    refine ⟨⟨?_, rfl⟩, by simp⟩
    exact {
      Grows.refl d with
      patterns := .push _ _
      numbers_le := by
        simp only [numbers, Array.size_push]
        omega }

theorem run_count_ok {what : String} {m : Nat} (h : (Compiling.count what m).run d = .ok (n, d')) :
    n = m ∧ d' = d := by
  unfold Compiling.count at h
  split at h
  · exact run_pure_ok h
  · cases h

/-- Where parts are listed. -/
theorem notes_listParts {ids : List Nat} {r : Nat × Nat}
    (h : (Compiling.listParts ids).run d = .ok (r, d')) :
    Notes 0 d d' ∧ r.2 = ids.length ∧ Lies d'.partIds r.1 ids := by
  obtain ⟨_, d₁, h₁, h⟩ := run_bind_ok h
  obtain ⟨c, d₂, h₂, h⟩ := run_bind_ok h
  obtain ⟨_, d₃, h₃, h⟩ := run_bind_ok h
  obtain ⟨rfl, rfl⟩ := run_pure_ok h
  obtain ⟨rfl, rfl⟩ := run_get_ok h₁
  obtain ⟨rfl, rfl⟩ := run_count_ok h₂
  obtain ⟨-, rfl⟩ := Prod.mk.inj (Except.ok.inj h₃)
  exact ⟨⟨{ Grows.refl d₂ with partIds := .append _ _ }, rfl⟩, rfl, lies_append _ _⟩

/-- Where terminators are listed. -/
theorem notes_listTerminators {ids : List Nat} {r : Nat × Nat}
    (h : (Compiling.listTerminators ids).run d = .ok (r, d')) :
    Notes 0 d d' ∧ r.2 = ids.length ∧ Lies d'.terminatorIds r.1 ids := by
  obtain ⟨_, d₁, h₁, h⟩ := run_bind_ok h
  obtain ⟨c, d₂, h₂, h⟩ := run_bind_ok h
  obtain ⟨_, d₃, h₃, h⟩ := run_bind_ok h
  obtain ⟨rfl, rfl⟩ := run_pure_ok h
  obtain ⟨rfl, rfl⟩ := run_get_ok h₁
  obtain ⟨rfl, rfl⟩ := run_count_ok h₂
  obtain ⟨-, rfl⟩ := Prod.mk.inj (Except.ok.inj h₃)
  exact ⟨⟨{ Grows.refl d₂ with terminatorIds := .append _ _ }, rfl⟩, rfl, lies_append _ _⟩

/-- A reference to a name is noted. -/
theorem notes_reference {name : String} {exclude : Nat} {ps : List Nat}
    (h : (Compiling.reference b n name exclude).run d = .ok (ps, d')) :
    Notes 1 d d' ∧ (n, name) ∈ d'.references ∧
      ∃ k, d'.strings[k]? = some name ∧
        ps = [k, (b.slot? name).getD GrammarId.absent, exclude] := by
  obtain ⟨_, d₁, h₁, h⟩ := run_bind_ok h
  obtain ⟨k, d₂, h₂, h⟩ := run_bind_ok h
  obtain ⟨rfl, rfl⟩ := run_pure_ok h
  obtain ⟨-, rfl⟩ := Prod.mk.inj (Except.ok.inj h₁)
  obtain ⟨notes, hk⟩ := notes_intern h₂
  have noted : Notes 0 d { d with references := d.references ++ [(n, name)] } :=
    ⟨{ Grows.refl d with references := fun x hx => List.mem_append_left _ hx }, rfl⟩
  exact ⟨(noted.trans notes).weaken (Nat.le_refl _), notes.grows.references _ (by simp), k, hk, rfl⟩

/-! ## 4. Layouts -/

/-- The grammar that each slot is made for, as far as it has one. -/
abbrev Layout := Nat → Option Grammar

namespace Layout

/-- The slot is made for a grammar inside another, not for one with a name. -/
def Inner (σ : Layout) (b : GrammarBook) (n : Nat) (g : Grammar) : Prop :=
  σ n = some g ∧ b.definitions.length ≤ n

/-- The slot is made for a grammar that may be missing. -/
def InnerOption (σ : Layout) (b : GrammarBook) (n : Nat) : Option Grammar → Prop
  | none => n = GrammarId.absent
  | some g => σ.Inner b n g

/-- What one layout says another says too. -/
def Agrees (σ σ' : Layout) : Prop := ∀ n g, σ n = some g → σ' n = some g

variable {σ σ' : Layout} {b : GrammarBook}

theorem Agrees.trans {σ'' : Layout} (h : σ.Agrees σ') (h' : σ'.Agrees σ'') : σ.Agrees σ'' :=
  fun n g hn => h' n g (h n g hn)

theorem Inner.mono {n : Nat} {g : Grammar} (h : σ.Inner b n g) (hσ : σ.Agrees σ') :
    σ'.Inner b n g := ⟨hσ n g h.1, h.2⟩

theorem InnerOption.mono {n : Nat} {g : Option Grammar} (h : σ.InnerOption b n g)
    (hσ : σ.Agrees σ') : σ'.InnerOption b n g := by
  cases g with
  | none => exact h
  | some g => exact Inner.mono h hσ

theorem inner_mono_all {ids : List Nat} {gs : List Grammar}
    (h : List.Forall₂ (σ.Inner b) ids gs) (hσ : σ.Agrees σ') :
    List.Forall₂ (σ'.Inner b) ids gs := h.imp fun _ _ h => h.mono hσ

end Layout

variable {σ σ' σ'' : Layout}

/-- A number names a pattern that may be missing. -/
def NamesPattern (d : Draft) (n : Nat) : Option String → Prop
  | none => n = GrammarId.absent
  | some p => d.patterns[n]? = some p

/-- The parameters of a form in slot `n`, where its exclude grammar and its delimiter have these
slots. -/
def Parameters (b : GrammarBook) (σ : Layout) (d : Draft) (n exclude delimiter : Nat)
    (ps : List Nat) : GrammarForm → Prop
  | .ref name => (n, name) ∈ d.references ∧ ∃ k, d.strings[k]? = some name ∧
      ps = [k, (b.slot? name).getD GrammarId.absent, exclude]
  | .sequence | .nothing | .anything | .token | .missing => ps = []
  | .oneOf => ps = [exclude]
  | .anyNumberOf most perPart =>
    ps = [most.getD GrammarId.absent, perPart.getD GrammarId.absent, exclude]
  | .delimited least => ps = [delimiter, least]
  | .bracketed type persists => ∃ pair opening closing,
      b.brackets.find? (·.type == type) = some pair ∧
      σ.Inner b opening (.ref pair.opening) ∧ σ.Inner b closing (.ref pair.closing) ∧
      ps = [opening, closing, (persists.getD pair.persists).toNat]
  | .string template type | .typed template type _ _ => ∃ k l,
      d.strings[k]? = some template ∧ d.strings[l]? = some type ∧ ps = [k, l]
  | .multiString templates type => ∃ k ks, d.strings[k]? = some type ∧
      ks.map (d.strings[·]?) = templates.map some ∧ ks.length = templates.length ∧
      ps = k :: templates.length :: ks
  | .pattern text anti type => ∃ p a k, d.patterns[p]? = some text ∧ d.NamesPattern a anti ∧
      d.strings[k]? = some type ∧ ps = [p, a, k]
  | .marker kind none => ps = [kind.number]
  | .marker kind (some (key, value)) => ∃ k l, d.strings[k]? = some key ∧
      d.strings[l]? = some value ∧ ps = [kind.number, k, l]

theorem Parameters.mono {exclude delimiter : Nat} {ps : List Nat} {form : GrammarForm}
    (h : Parameters b σ d n exclude delimiter ps form) (hσ : σ.Agrees σ') (hd : Grows k d d') :
    Parameters b σ' d' n exclude delimiter ps form := by
  cases form with
  | ref name =>
    obtain ⟨href, k, hk, hps⟩ := h
    exact ⟨hd.references _ href, k, hd.strings k _ hk, hps⟩
  | sequence | nothing | anything | token | missing | oneOf | anyNumberOf most perPart
  | delimited least => exact h
  | bracketed type persists =>
    obtain ⟨pair, o, c, hpair, ho, hc, hps⟩ := h
    exact ⟨pair, o, c, hpair, ho.mono hσ, hc.mono hσ, hps⟩
  | string template type | typed template type fold trim =>
    obtain ⟨k, l, hk, hl, hps⟩ := h
    exact ⟨k, l, hd.strings k _ hk, hd.strings l _ hl, hps⟩
  | multiString templates type =>
    obtain ⟨k, ks, hk, hks, hlength, hps⟩ := h
    exact ⟨k, ks, hd.strings k _ hk, hd.strings.map_getElem? hks, hlength, hps⟩
  | pattern text anti type =>
    obtain ⟨p, a, k, hp, ha, hk, hps⟩ := h
    refine ⟨p, a, k, hd.patterns p _ hp, ?_, hd.strings k _ hk, hps⟩
    cases anti with
    | none => exact ha
    | some t => exact hd.patterns a _ ha
  | marker kind condition =>
    cases condition with
    | none => exact h
    | some kv =>
      obtain ⟨k, l, hk, hl, hps⟩ := h
      exact ⟨k, l, hd.strings k _ hk, hd.strings l _ hl, hps⟩

/-- How the tokens of a form are normalised is noted in its slot. -/
structure Trims (d : Draft) (s : Slot) (form : GrammarForm) : Prop where
  casefold : s.casefold = form.fold.number
  spells : Spells d.strings d.trimStrings s.trimStart s.trimCount form.trims

theorem Trims.mono {s : Slot} {form : GrammarForm} (h : Trims d s form) (hd : Grows k d d') :
    Trims d' s form := ⟨h.casefold, h.spells.mono hd.strings hd.trimStrings⟩

/-- The instruction of a grammar. -/
def instructionOf (form : GrammarForm) (s : GrammarSettings) (hasExclude : Bool)
    (parts terminators : Nat × Nat) : Instruction where
  kind := form.instructionKind
  mode := s.mode
  least := s.least
  flags := {
    optional := s.optional, resetTerminators := s.resetTerminators
    allowGaps := s.allowGaps, allowTrailing := s.allowTrailing
    optionalDelimiter := s.optionalDelimiter, hasExclude := hasExclude
    isConditional := form.isConditional }
  firstPart := parts.1
  partCount := parts.2
  firstTerminator := terminators.1
  terminatorCount := terminators.2

/-- Slot `n` holds a grammar. Its parts and terminators have slots `ids` and `ends`, which are
listed from `i` and from `j` on, and its exclude grammar and its delimiter have slots `x` and `y`. -/
structure HoldsIn (b : GrammarBook) (σ : Layout) (d : Draft) (n : Nat) (form : GrammarForm)
    (parts terminators : List Grammar) (exclude delimiter : Option Grammar)
    (settings : GrammarSettings) (s : Slot) (ids ends : List Nat) (i j x y : Nat) : Prop where
  slot : d.slots[n]? = some s
  instruction : s.instruction = instructionOf form settings exclude.isSome (i, ids.length)
    (j, ends.length)
  parts : List.Forall₂ (σ.Inner b) ids parts
  partsLie : Lies d.partIds i ids
  terminators : List.Forall₂ (σ.Inner b) ends terminators
  terminatorsLie : Lies d.terminatorIds j ends
  excludeLies : σ.InnerOption b x exclude
  delimiterLies : σ.InnerOption b y delimiter
  whole : form.acceptsDelimiter delimiter.isSome = true
  parameters : Parameters b σ d n x y s.parameters form
  trims : Trims d s form

/-- Slot `n` holds a grammar. -/
def Holds (b : GrammarBook) (σ : Layout) (d : Draft) (n : Nat) : Grammar → Prop
  | .mk form parts terminators exclude delimiter settings => ∃ s ids ends i j x y,
      HoldsIn b σ d n form parts terminators exclude delimiter settings s ids ends i j x y

/-- What a slot holds of a grammar: all but what it says of segments. -/
structure SameGrammar (s s' : Slot) : Prop where
  instruction : s'.instruction = s.instruction
  parameters : s'.parameters = s.parameters
  casefold : s'.casefold = s.casefold
  trimStart : s'.trimStart = s.trimStart
  trimCount : s'.trimCount = s.trimCount

/-- A grammar stays in its slot as long as nothing else is filled into it. -/
theorem Holds.mono_of {g : Grammar} (h : Holds b σ d n g) (hσ : σ.Agrees σ') (hd : Grows k d d')
    (hn : ∀ s, d.slots[n]? = some s → ∃ s', d'.slots[n]? = some s' ∧ SameGrammar s s') :
    Holds b σ' d' n g := by
  obtain ⟨form, parts, terminators, exclude, delimiter, settings⟩ := g
  obtain ⟨s, ids, ends, i, j, x, y, h⟩ := h
  obtain ⟨s', hs', same⟩ := hn s h.slot
  have trims := h.trims.mono hd
  exact ⟨s', ids, ends, i, j, x, y, {
    slot := hs'
    instruction := same.instruction.trans h.instruction
    parts := Layout.inner_mono_all h.parts hσ
    partsLie := h.partsLie.mono hd.partIds
    terminators := Layout.inner_mono_all h.terminators hσ
    terminatorsLie := h.terminatorsLie.mono hd.terminatorIds
    excludeLies := h.excludeLies.mono hσ
    delimiterLies := h.delimiterLies.mono hσ
    whole := h.whole
    parameters := by
      rw [same.parameters]
      exact h.parameters.mono hσ hd
    trims := ⟨same.casefold.trans trims.casefold, by
      rw [same.trimStart, same.trimCount]
      exact trims.spells⟩ }⟩

/-- A grammar stays in its slot while other slots are filled. -/
theorem Holds.mono {g : Grammar} (h : Holds b σ d n g) (hσ : σ.Agrees σ') (hd : Grows k d d')
    (hn : d'.slots[n]? = d.slots[n]?) : Holds b σ' d' n g :=
  h.mono_of hσ hd fun s hs => ⟨s, hn.trans hs, rfl, rfl, rfl, rfl, rfl⟩

/-- Every slot that the layout knows holds its grammar, and all names have slots. -/
structure Laid (b : GrammarBook) (σ : Layout) (d : Draft) : Prop where
  named : b.definitions.length ≤ d.slots.size
  holds : ∀ n g, σ n = some g → Holds b σ d n g

theorem Holds.lt_size {g : Grammar} (h : Holds b σ d n g) : n < d.slots.size := by
  obtain ⟨form, parts, terminators, exclude, delimiter, settings⟩ := g
  obtain ⟨s, ids, ends, i, j, x, y, h⟩ := h
  exact (Array.getElem?_eq_some_iff.1 h.slot).1

theorem Laid.lt_size {g : Grammar} (h : Laid b σ d) (hn : σ n = some g) : n < d.slots.size :=
  (h.holds n g hn).lt_size

/-- What is noted of segments stays. -/
def SameSegments (d d' : Draft) : Prop :=
  ∀ n, (d'.slot n).segmentType = (d.slot n).segmentType ∧
    (d'.slot n).segmentClass = (d.slot n).segmentClass

theorem SameSegments.of_slots_eq (h : d'.slots = d.slots) : SameSegments d d' := by
  intro n
  rw [slot, slot, h]
  exact ⟨rfl, rfl⟩

theorem SameSegments.trans (h : SameSegments d d') (h' : SameSegments d' d'') :
    SameSegments d d'' :=
  fun n => ⟨(h' n).1.trans (h n).1, (h' n).2.trans (h n).2⟩

/-- One draft becomes another by grammars that are laid out in new slots, and perhaps by what is
done to one slot. -/
structure Lays (b : GrammarBook) (except? : Option Nat) (σ σ' : Layout) (cost : Nat)
    (d d' : Draft) : Prop where
  laid : Laid b σ' d'
  agrees : σ.Agrees σ'
  old : ∀ n, n < d.slots.size → except? ≠ some n → σ' n = σ n ∧ d'.slots[n]? = d.slots[n]?
  new : ∀ n, d.slots.size ≤ n → n < d'.slots.size → (σ' n).isSome = true
  grows : Grows cost d d'
  segments : SameSegments d d'

namespace Lays

theorem refl (h : Laid b σ d) : Lays b none σ σ 0 d d :=
  ⟨h, fun _ _ hn => hn, fun _ _ _ => ⟨rfl, rfl⟩, fun _ _ _ => by omega, .refl d, .of_slots_eq rfl⟩

variable {e : Option Nat}

theorem trans (h : Lays b e σ σ' k d d') (h' : Lays b e σ' σ'' l d' d'') :
    Lays b e σ σ'' (k + l) d d'' where
  laid := h'.laid
  agrees n g hn := h'.agrees n g (h.agrees n g hn)
  old n hn he := by
    obtain ⟨hσ, hs⟩ := h.old n hn he
    obtain ⟨hσ', hs'⟩ := h'.old n (Nat.lt_of_lt_of_le hn h.grows.slots_le) he
    exact ⟨hσ'.trans hσ, hs'.trans hs⟩
  new n hn hlt := by
    by_cases hd : n < d'.slots.size
    · obtain ⟨g, hg⟩ := Option.isSome_iff_exists.1 (h.new n hn hd)
      exact Option.isSome_iff_exists.2 ⟨g, h'.agrees n g hg⟩
    · exact h'.new n (by omega) hlt
  grows := h.grows.trans h'.grows
  segments := h.segments.trans h'.segments

theorem weaken (h : Lays b e σ σ' k d d') (hle : k ≤ l) : Lays b e σ σ' l d d' :=
  { h with grows := h.grows.weaken hle }

/-- A slot that is left out of account in one step may be so in all. -/
theorem excepting (h : Lays b none σ σ' k d d') (e : Option Nat) : Lays b e σ σ' k d d' :=
  { h with old := fun n hn _ => h.old n hn (by simp) }

end Lays

/-- A step beside the slots lays nothing out. -/
theorem Notes.lays (hn : Notes k d d') (h : Laid b σ d) : Lays b none σ σ k d d' where
  laid := {
    named := by rw [hn.slots_eq]; exact h.named
    holds := fun n g hg =>
      (h.holds n g hg).mono (fun _ _ h => h) hn.grows (by rw [hn.slots_eq]) }
  agrees _ _ h := h
  old _ _ _ := ⟨rfl, by rw [hn.slots_eq]⟩
  new n hle hlt := by
    rw [hn.slots_eq] at hlt
    omega
  grows := hn.grows
  segments := .of_slots_eq hn.slots_eq

/-- A slot that has no grammar may change, but for what is noted in it of segments. -/
theorem lays_of_modify {f : Slot → Slot} (hd : d' = { d with slots := d.slots.modify n f })
    (hf : ∀ s, (f s).segmentType = s.segmentType ∧ (f s).segmentClass = s.segmentClass)
    (h : Laid b σ d) (hfree : σ n = none) : Lays b (some n) σ σ 0 d d' := by
  have kept {m : Nat} (hm : n ≠ m) : d'.slots[m]? = d.slots[m]? := by
    rw [hd, Array.getElem?_modify, if_neg hm]
  have segments : SameSegments d d' := by
    intro m
    rw [slot, slot, Array.getD_eq_getD_getElem?, Array.getD_eq_getD_getElem?]
    by_cases hm : n = m
    · rw [hd, Array.getElem?_modify, if_pos hm]
      cases d.slots[m]? with
      | none => exact ⟨rfl, rfl⟩
      | some s => exact hf s
    · rw [kept hm]
      exact ⟨rfl, rfl⟩
  have grows : Grows 0 d d' := .of_modify hd
  refine ⟨⟨?_, fun m g hg => ?_⟩, fun _ _ h => h, fun m _ hm => ⟨rfl, kept (by simpa using hm)⟩,
    fun m hle hlt => ?_, grows, segments⟩
  · rw [hd, Array.size_modify]
    exact h.named
  · refine (h.holds m g hg).mono (fun _ _ h => h) grows (kept ?_)
    rintro rfl
    rw [hfree] at hg
    cases hg
  · rw [hd, Array.size_modify] at hlt
    omega

/-- A new slot is blank and has no grammar yet. -/
theorem run_alloc_lays (h : Compiling.alloc.run d = .ok (n, d')) (hl : Laid b σ d) :
    n = d.slots.size ∧ d'.slots.size = n + 1 ∧ d'.slots[n]? = some {} ∧ σ n = none ∧
      Laid b σ d' ∧ Grows 1 d d' ∧ SameSegments d d' ∧
      ∀ m, m < n → d'.slots[m]? = d.slots[m]? := by
  obtain ⟨rfl, rfl⟩ := Prod.mk.inj (Except.ok.inj h)
  have kept : ∀ m, m < d.slots.size → (d.slots.push {})[m]? = d.slots[m]? := by
    intro m hm
    rw [Array.getElem?_push, if_neg (by omega)]
  have segments : SameSegments d { d with slots := d.slots.push {} } := by
    intro m
    have same : ((d.slots.push {}).getD m {} : Slot) = d.slots.getD m {} := by
      rw [Array.getD_eq_getD_getElem?, Array.getD_eq_getD_getElem?, Array.getElem?_push]
      split
      · next hm =>
        rw [hm, Array.getElem?_eq_none (Nat.le_refl _)]
        rfl
      · rfl
    rw [slot, slot, same]
    exact ⟨rfl, rfl⟩
  have grows : Grows 1 d { d with slots := d.slots.push {} } := {
    Grows.refl d with
    slots_le := by simp
    numbers_le := by
      simp only [numbers, Array.size_push]
      omega }
  have free : σ d.slots.size = none := by
    cases hg : σ d.slots.size with
    | none => rfl
    | some g => exact absurd (hl.lt_size hg) (Nat.lt_irrefl _)
  refine ⟨rfl, by simp, by simp, free, ⟨by simpa using Nat.le_succ_of_le hl.named, ?_⟩, grows,
    segments, kept⟩
  exact fun m g hg => (hl.holds m g hg).mono (fun _ _ h => h) grows (kept m (hl.lt_size hg))

/-! ## 5. A slot is filled -/

/-- The layout in which slot `n` has a grammar. -/
def Layout.set (σ : Layout) (n : Nat) (g : Grammar) : Layout :=
  fun m => if m = n then some g else σ m

theorem Layout.set_self (σ : Layout) (n : Nat) (g : Grammar) : σ.set n g n = some g := if_pos rfl

theorem Layout.agrees_set {g : Grammar} (hfree : σ n = none) : σ.Agrees (σ.set n g) := by
  intro m g' hg'
  rw [set, if_neg]
  · exact hg'
  · rintro rfl
    rw [hfree] at hg'
    cases hg'

/-- When all that belongs to a grammar has been laid out, it is filled into its slot. -/
theorem lays_fill (form : GrammarForm) (settings : GrammarSettings)
    {parts terminators : List Grammar} {exclude delimiter : Option Grammar} {s : Slot}
    {ids ends ps : List Nat} {x y : Nat} {r r' : Nat × Nat} {d₁ d₂ : Draft} {u : Unit}
    (hl : Laid b σ d) (hfree : σ n = none) (hs : d.slots[n]? = some s) (htrims : Trims d s form)
    (hparts : List.Forall₂ (σ.Inner b) ids parts)
    (hterminators : List.Forall₂ (σ.Inner b) ends terminators)
    (hexclude : σ.InnerOption b x exclude) (hdelimiter : σ.InnerOption b y delimiter)
    (hwhole : form.acceptsDelimiter delimiter.isSome = true)
    (hps : Parameters b σ d n x y ps form)
    (h₁ : (Compiling.listParts ids).run d = .ok (r, d₁))
    (h₂ : (Compiling.listTerminators ends).run d₁ = .ok (r', d₂))
    (h : (Compiling.setSlot n fun s => { s with
      parameters := ps
      instruction := instructionOf form settings exclude.isSome r r' }).run d₂ = .ok (u, d')) :
    Lays b (some n) σ (σ.set n (.mk form parts terminators exclude delimiter settings)) 0 d d' := by
  obtain ⟨notes₁, hcount₁, lie₁⟩ := notes_listParts h₁
  obtain ⟨notes₂, hcount₂, lie₂⟩ := notes_listTerminators h₂
  have notes := notes₁.trans notes₂
  have listed := notes.lays hl
  have hd' := (Prod.mk.inj (Except.ok.inj h)).2.symm
  have filled := (listed.excepting (some n)).trans
    (lays_of_modify hd' (fun _ => ⟨rfl, rfl⟩) listed.laid hfree)
  have agrees : σ.Agrees (σ.set n (.mk form parts terminators exclude delimiter settings)) :=
    Layout.agrees_set hfree
  have slot : d'.slots[n]? = some { s with
      parameters := ps
      instruction := instructionOf form settings exclude.isSome r r' } := by
    rw [hd', Array.getElem?_modify, if_pos rfl, notes.slots_eq, hs]
    rfl
  have holds : Holds b (σ.set n (.mk form parts terminators exclude delimiter settings)) d' n
      (.mk form parts terminators exclude delimiter settings) := by
    refine ⟨_, ids, ends, r.1, r'.1, x, y, {
      slot := slot
      instruction := by rw [← hcount₁, ← hcount₂]
      parts := Layout.inner_mono_all hparts agrees
      partsLie := (lie₁.mono notes₂.grows.partIds).mono ?_
      terminators := Layout.inner_mono_all hterminators agrees
      terminatorsLie := lie₂.mono ?_
      excludeLies := hexclude.mono agrees
      delimiterLies := hdelimiter.mono agrees
      whole := hwhole
      parameters := hps.mono agrees filled.grows
      trims := ⟨htrims.casefold, (htrims.mono filled.grows).spells⟩ }⟩
    · rw [hd']
      exact .refl _
    · rw [hd']
      exact .refl _
  have apart {m : Nat} (hm : some n ≠ some m) :
      σ.set n (.mk form parts terminators exclude delimiter settings) m = σ m :=
    if_neg fun h => hm (congrArg some h.symm)
  refine ⟨⟨filled.laid.named, fun m g hg => ?_⟩, agrees, fun m hlt hm => ?_, fun m hle hlt => ?_,
    filled.grows, filled.segments⟩
  · by_cases hm : m = n
    · subst hm
      rw [Layout.set_self] at hg
      cases hg
      exact holds
    · rw [apart (by simpa using Ne.symm hm)] at hg
      exact (filled.laid.holds m g hg).mono agrees (.refl d') rfl
  · exact ⟨apart hm, (filled.old m hlt hm).2⟩
  · have := filled.new m hle hlt
    obtain ⟨g, hg⟩ := Option.isSome_iff_exists.1 this
    exact Option.isSome_iff_exists.2 ⟨g, agrees m g hg⟩

/-- A new slot that is filled. -/
theorem lays_of_alloc {d₁ : Draft} (halloc : Compiling.alloc.run d = .ok (n, d₁))
    (hl : Laid b σ d) (h : Lays b (some n) σ σ' k d₁ d') (hn : (σ' n).isSome = true) :
    Lays b none σ σ' (k + 1) d d' := by
  obtain ⟨hsize, hsize₁, -, -, -, grows, segments, kept⟩ := run_alloc_lays halloc hl
  refine ⟨h.laid, h.agrees, fun m hm _ => ?_, fun m hle hlt => ?_, ?_, segments.trans h.segments⟩
  · obtain ⟨hσ, hslot⟩ := h.old m (by omega) (by simp; omega)
    exact ⟨hσ, hslot.trans (kept m (by omega))⟩
  · by_cases hm : m = n
    · rwa [hm]
    · exact h.new m (by omega) hlt
  · exact (grows.trans h.grows).weaken (by omega)

theorem trims_blank {form : GrammarForm} (hfold : form.fold = .none) (htrims : form.trims = []) :
    Trims d {} form := by
  refine ⟨by rw [hfold]; rfl, ?_⟩
  rw [htrims]
  exact ⟨Nat.zero_le _, by simp [Tables.idsIn]⟩

/-- A new reference to a name. -/
theorem lays_bareReference {name : String}
    (h : (Compiling.bareReference b name).run d = .ok (n, d')) (hl : Laid b σ d) :
    ∃ σ', Lays b none σ σ' 2 d d' ∧ σ'.Inner b n (.ref name) := by
  obtain ⟨m, d₁, h₁, h⟩ := run_bind_ok h
  obtain ⟨ps, d₂, h₂, h⟩ := run_bind_ok h
  obtain ⟨⟨i, c⟩, d₃, h₃, h⟩ := run_bind_ok h
  obtain ⟨⟨j, c'⟩, d₄, h₄, h⟩ := run_bind_ok h
  obtain ⟨_, d₅, h₅, h⟩ := run_bind_ok h
  obtain ⟨rfl, rfl⟩ := run_pure_ok h
  obtain ⟨hsize, -, blank, free, laid₁, -⟩ := run_alloc_lays h₁ hl
  obtain ⟨notes₂, href, k, hk, hps⟩ := notes_reference h₂
  obtain rfl : c = 0 := (notes_listParts h₃).2.1
  obtain rfl : c' = 0 := (notes_listTerminators h₄).2.1
  have noted := notes₂.lays laid₁
  have blank₂ : d₂.slots[n]? = some {} := by rw [notes₂.slots_eq]; exact blank
  have none : σ.InnerOption b GrammarId.absent none := rfl
  have filled := lays_fill (.ref name) {} noted.laid free blank₂ (trims_blank rfl rfl) .nil .nil
    none none rfl ⟨href, k, hk, hps⟩ h₃ h₄ h₅
  refine ⟨_, lays_of_alloc h₁ hl ((noted.excepting (some n)).trans filled) ?_, ?_⟩
  · rw [Layout.set_self]
    rfl
  · refine ⟨Layout.set_self σ n _, ?_⟩
    have := hl.named
    omega

end Draft

end QueryLint
