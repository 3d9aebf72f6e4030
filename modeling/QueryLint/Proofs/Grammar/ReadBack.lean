import Mathlib.Data.List.Nodup
import QueryLint.Proofs.Grammar.Filed

/-!
QueryLint.Proofs.Grammar.ReadBack — tables read back are the book they were made of.

A grammar is an expression; in tables it is an instruction, and everything that belongs to it stands
elsewhere under a number. `Tables.Reads` reads the tables again with the accessors that matching
uses: kind, settings, what the instruction stands for, and part by part whatever it is made of. Two
things are not followed further: a reference leads to the slot of its name, whose grammar is that of
the name, and a pair of brackets is two references to the names it is declared with.

Repetition limits are the one thing that is read back with a condition. A slot without a limit holds
the greatest number of 32 bits, so that number is no limit.

* `Tables.Reads` — an instruction reads as a grammar.
* `GrammarBook.Filed.reads` — the slot of a grammar reads as it.
* `GrammarBook.compile_reads` — compiling refuses a book for one of six reasons, or gives tables in
  which every definition reads as it is.
-/

namespace QueryLint

/-! ## 1. Reading tables -/

namespace GrammarForm

/-- Limits of repetitions are below the number that stands for none. -/
def limitsFit : GrammarForm → Bool
  | .anyNumberOf most perPart =>
    most.all (· < GrammarId.absent) && perPart.all (· < GrammarId.absent)
  | _ => true

/-- The form has a place for an exclude grammar. -/
def excludes : GrammarForm → Bool
  | .ref _ | .oneOf | .anyNumberOf _ _ => true
  | _ => false

/-- The condition that a marker is put in on. -/
def condition? : GrammarForm → Option (String × String)
  | .marker _ condition => condition
  | _ => none

end GrammarForm

namespace Grammar

mutual

/-- All limits of repetitions in a grammar are below the number that stands for none. -/
def limitsFit : Grammar → Bool
  | mk form parts terminators exclude delimiter _ =>
    form.limitsFit && allLimitsFit parts && allLimitsFit terminators && limitsFitOption exclude &&
      limitsFitOption delimiter

/-- The same for several grammars. -/
def allLimitsFit : List Grammar → Bool
  | [] => true
  | g :: rest => g.limitsFit && allLimitsFit rest

/-- The same for a grammar that may be missing. -/
def limitsFitOption : Option Grammar → Bool
  | none => true
  | some g => g.limitsFit

end

end Grammar

namespace Tables

variable (b : GrammarBook) (t : Tables)

/-- The delimiter of an instruction, if it has one. -/
def delimiter? (id : GrammarId) : Option GrammarId :=
  match t.shape id with
  | .delimited x _ => x
  | _ => none

/-- Matches of an instruction are put into no segment. -/
def IsAnonymous (id : GrammarId) : Prop := t.segmentType? id = none ∧ t.segmentClass? id = none

/-- All that an instruction says of a grammar by itself. -/
structure ReadsSettings (id : GrammarId) (form : GrammarForm) (hasExclude : Bool)
    (s : GrammarSettings) : Prop where
  kind_eq : (t.instruction id).kind = form.instructionKind
  mode_eq : (t.instruction id).mode = s.mode
  least_eq : (t.instruction id).least = s.least
  flags_eq : ∃ hinted, (t.instruction id).flags = {
    optional := s.optional, resetTerminators := s.resetTerminators
    allowGaps := s.allowGaps, allowTrailing := s.allowTrailing
    optionalDelimiter := s.optionalDelimiter, hasHint := hinted, hasExclude := hasExclude
    isConditional := form.condition?.isSome }
  condition_eq : t.condition? id = form.condition?
  casefold_eq : t.casefold id = form.fold
  trim_eq : t.trim id = form.trims

/-- A reference to a name and nothing else: it leads to the slot of the name. -/
structure ReadsReference (id : GrammarId) (name : String) : Prop where
  settings : t.ReadsSettings id (.ref name) false {}
  shape : ∃ n, b.slot? name = some n ∧ t.shape id = .ref name (some ⟨n⟩) none
  parts : t.parts id = []
  terminators : t.terminatorsOf id = []
  anonymous : t.IsAnonymous id

/-- What an instruction stands for is what a form says. -/
def ReadsForm (id : GrammarId) : GrammarForm → Prop
  | .ref name => ∃ n, b.slot? name = some n ∧
      t.shape id = .ref name (some ⟨n⟩) (t.exclude? id)
  | .sequence => t.shape id = .sequence
  | .oneOf => t.shape id = .oneOf (t.exclude? id)
  | .anyNumberOf most perPart => t.shape id = .anyNumberOf most perPart (t.exclude? id)
  | .delimited least => t.shape id = .delimited (t.delimiter? id) least
  | .bracketed type persists => ∃ pair opening closing,
      b.brackets.find? (·.type == type) = some pair ∧
      t.shape id = .bracketed (some (opening, closing, persists.getD pair.persists)) ∧
      t.ReadsReference b opening pair.opening ∧ t.ReadsReference b closing pair.closing
  | .string template type => t.shape id = .string template type
  | .multiString templates type => t.shape id = .multiString templates type
  | .typed template type _ _ => t.shape id = .typed template type
  | .pattern text anti type => ∃ p a, TablePattern.read? text = .ok p ∧
      anti.mapM TablePattern.read? = .ok a ∧ t.shape id = .pattern (some p) a type
  | .nothing => t.shape id = .nothing
  | .anything => t.shape id = .anything
  | .token => t.shape id = .token
  | .missing => t.shape id = .missing
  | .marker kind condition => t.shape id = .marker (some kind) condition

mutual

/-- An instruction reads as a grammar. -/
def Reads : Grammar → GrammarId → Prop
  | .mk form parts terminators exclude delimiter s, id =>
    t.ReadsSettings id form exclude.isSome s ∧ t.ReadsForm b id form ∧
      ReadsAll parts (t.parts id) ∧ ReadsAll terminators (t.terminatorsOf id) ∧
      (form.excludes = true → ReadsOption exclude (t.exclude? id)) ∧
      (form.instructionKind = .delimited → ReadsOption delimiter (t.delimiter? id))

/-- Instructions read as grammars inside another. -/
def ReadsAll : List Grammar → List GrammarId → Prop
  | [], ids => ids = []
  | g :: rest, ids => ∃ id more, ids = id :: more ∧ t.IsAnonymous id ∧ Reads g id ∧
      ReadsAll rest more

/-- The same for a grammar that may be missing. -/
def ReadsOption : Option Grammar → Option GrammarId → Prop
  | none, id? => id? = none
  | some g, id? => ∃ id, id? = some id ∧ t.IsAnonymous id ∧ Reads g id

end

end Tables

/-! ## 2. Slots read as their grammars -/

namespace GrammarBook.Filed

open Draft

variable {b : GrammarBook} {σ : Layout} {d : Draft} {t : Tables} {pairs : List BracketPair}
  {root n : Nat}

section
variable (hf : Filed b root pairs d t) (ho : LaidOut b σ d pairs)
include hf

theorem string_eq {k : Nat} {s : String} (hk : d.strings[k]? = some s) : t.string k = s := by
  rw [Tables.string, Array.getD_eq_getD_getElem?, hf.strings k s hk]
  rfl

theorem map_string_eq {ks : List Nat} {texts : List String}
    (h : ks.map (d.strings[·]?) = texts.map some) : ks.map t.string = texts := by
  induction ks generalizing texts with
  | nil => simpa using h
  | cons k ks ih =>
    cases texts with
    | nil => simp at h
    | cons s texts =>
      obtain ⟨hk, hks⟩ := List.cons.inj h
      rw [List.map_cons, hf.string_eq hk, ih hks]

theorem pattern?_eq {k : Nat} {p : String} (hk : d.patterns[k]? = some p)
    (hlt : d.patterns.size < GrammarId.absent) :
    ∃ q, TablePattern.read? p = .ok q ∧ t.pattern? k = some q := by
  obtain ⟨q, hq, hfound⟩ := hf.patterns k p hk
  refine ⟨q, hq, ?_⟩
  have hne : k ≠ GrammarId.absent := by
    have := (Array.getElem?_eq_some_iff.1 hk).1
    omega
  simp [Tables.pattern?, Tables.slotNat?, hne, hfound]

/-- An inner grammar is put into no segment. -/
theorem isAnonymous_of_inner (ho : LaidOut b σ d pairs) {g : Grammar} (h : σ.Inner b n g) :
    t.IsAnonymous ⟨n⟩ := by
  have hlt := hf.inner_lt ho h
  rw [hf.size_eq] at hlt
  obtain ⟨htype, hclass⟩ := ho.anonymous n h.2
  rw [Draft.slot, Array.getD_eq_getD_getElem?, Array.getElem?_eq_getElem hlt] at htype hclass
  simp only [Option.getD_some] at htype hclass
  constructor
  · simp [Tables.segmentType?, hf.segmentTypes, hlt, htype, Tables.slotNat?]
  · simp [Tables.segmentClass?, hf.segmentClasses, hlt, hclass, Tables.slotNat?]

end

section
variable {form : GrammarForm} {parts terminators : List Grammar}
  {exclude delimiter : Option Grammar} {settings : GrammarSettings} {s : Slot}
  {ids ends : List Nat} {i j x y : Nat}
  (hf : Filed b root pairs d t) (ho : LaidOut b σ d pairs)
  (h : HoldsIn b σ d n form parts terminators exclude delimiter settings s ids ends i j x y)
include hf h

theorem parameter_eq {k z : Nat} (hz : s.parameters[k]? = some z) : t.parameter ⟨n⟩ k = z :=
  (hf.finished.parameter n s h.slot k z hz).1

theorem parts_eq : t.parts ⟨n⟩ = ids.map (⟨·⟩) := by
  obtain ⟨hinted, hi⟩ := hf.instruction_eq h
  unfold Tables.parts
  rw [hi, hf.carries.partIds]
  simp only [instructionOf, h.partsLie.idsIn_eq]

theorem terminatorsOf_eq : t.terminatorsOf ⟨n⟩ = ends.map (⟨·⟩) := by
  obtain ⟨hinted, hi⟩ := hf.instruction_eq h
  unfold Tables.terminatorsOf
  rw [hi, hf.terminatorIds]
  simp only [instructionOf, h.terminatorsLie.idsIn_eq]

/-- The condition of a marker. -/
theorem condition?_eq : t.condition? ⟨n⟩ = form.condition? := by
  have parameters := h.parameters
  unfold Tables.condition?
  rw [hf.isConditional_eq h]
  cases form with
  | marker kind condition =>
    cases condition with
    | none => rfl
    | some kv =>
      obtain ⟨k, l, hk, hl, hps⟩ := parameters
      have key : t.parameter ⟨n⟩ 1 = k := hf.parameter_eq h (by rw [hps]; rfl)
      have value : t.parameter ⟨n⟩ 2 = l := hf.parameter_eq h (by rw [hps]; rfl)
      rw [key, value, hf.string_eq hk, hf.string_eq hl]
      rfl
  | _ => rfl

theorem readsSettings (hn : n < t.size) :
    t.ReadsSettings ⟨n⟩ form exclude.isSome settings := by
  obtain ⟨hinted, hi⟩ := hf.instruction_eq h
  refine ⟨hf.kind_eq h, by rw [hi]; rfl, by rw [hi]; rfl, ⟨hinted, ?_⟩, hf.condition?_eq h, ?_, ?_⟩
  · rw [hi]
    have same : form.isConditional = form.condition?.isSome := by
      cases form with
      | marker kind condition => cases condition <;> rfl
      | _ => rfl
    simp only [instructionOf, same]
  · rw [Tables.casefold, hf.getD_map _ 0 hf.casefolds hn, getElem?_slot h.slot, h.trims.casefold]
    cases form.fold <;> rfl
  · have trims := (h.trims.spells.mono hf.strings (.refl _)).map_getD
    rw [Tables.trim, hf.getD_map _ 0 hf.trimStarts hn, hf.getD_map _ 0 hf.trimCounts hn,
      getElem?_slot h.slot, hf.trimStrings]
    exact trims

/-- The exclude grammar of an instruction is in the slot that one of its parameters says. -/
theorem excludeIn_eq (hsize : d.slots.size < GrammarId.absent) (ho : LaidOut b σ d pairs) {k : Nat}
    (hx : s.parameters[k]? = some x) : t.excludeIn ⟨n⟩ k = exclude.map fun _ => ⟨x⟩ := by
  obtain ⟨hinted, hi⟩ := hf.instruction_eq h
  have lies := h.excludeLies
  unfold Tables.excludeIn
  rw [hf.parameter_eq h hx, hi]
  cases exclude with
  | none => rfl
  | some g =>
    have hlt := ho.laid.lt_size lies.1
    have hne : x ≠ GrammarId.absent := by omega
    simp [instructionOf, GrammarId.ofSlot?, hne]

end

/-! ## 3. What an instruction stands for -/

/-- A limit below the number that stands for none is read back. -/
theorem slotNat?_limit {o : Option Nat} (ho : o.all (· < GrammarId.absent) = true) :
    Tables.slotNat? (o.getD GrammarId.absent) = o := by
  cases o with
  | none => rfl
  | some k =>
    have : k < GrammarId.absent := by simpa using ho
    simp only [Tables.slotNat?, Option.getD_some]
    rw [if_neg (by omega)]

section
variable (hf : Filed b root pairs d t) (ho : LaidOut b σ d pairs)
  (hb : b.weight < GrammarId.absent)
include hf ho hb

section
variable {form : GrammarForm} {parts terminators : List Grammar}
  {exclude delimiter : Option Grammar} {settings : GrammarSettings} {s : Slot}
  {ids ends : List Nat} {i j x y : Nat}

/-- A reference leads to the slot of its name. -/
theorem shape_ref {name : String}
    (h : HoldsIn b σ d n (.ref name) parts terminators exclude delimiter settings s ids ends
      i j x y) :
    ∃ target, b.slot? name = some target ∧
      t.shape ⟨n⟩ = .ref name (some ⟨target⟩) (exclude.map fun _ => ⟨x⟩) := by
  obtain ⟨href, k, hk, hps⟩ := h.parameters
  obtain ⟨target, htarget, -⟩ := ho.references _ href
  have target_lt := Nat.lt_of_lt_of_le (slot?_lt htarget) ho.laid.named
  have few := (ho.few hb).1
  have hne : target ≠ GrammarId.absent := by omega
  rw [htarget, Option.getD_some] at hps
  have first : t.parameter ⟨n⟩ 0 = k := hf.parameter_eq h (by rw [hps]; rfl)
  have second : t.parameter ⟨n⟩ 1 = target := hf.parameter_eq h (by rw [hps]; rfl)
  have third := hf.excludeIn_eq h few ho (k := 2) (by rw [hps]; rfl)
  refine ⟨target, htarget, ?_⟩
  unfold Tables.shape
  rw [hf.kind_eq h]
  simp only [GrammarForm.instructionKind, first, second, third, hf.string_eq hk]
  simp [GrammarId.ofSlot?, hne]

theorem shape_oneOf
    (h : HoldsIn b σ d n .oneOf parts terminators exclude delimiter settings s ids ends i j x y) :
    t.shape ⟨n⟩ = .oneOf (exclude.map fun _ => ⟨x⟩) := by
  have hps : s.parameters = [x] := h.parameters
  have first := hf.excludeIn_eq h (ho.few hb).1 ho (k := 0) (by rw [hps]; rfl)
  unfold Tables.shape
  rw [hf.kind_eq h]
  simp only [GrammarForm.instructionKind, first]

theorem shape_anyNumberOf {most perPart : Option Nat}
    (hfit : (GrammarForm.anyNumberOf most perPart).limitsFit = true)
    (h : HoldsIn b σ d n (.anyNumberOf most perPart) parts terminators exclude delimiter settings
      s ids ends i j x y) :
    t.shape ⟨n⟩ = .anyNumberOf most perPart (exclude.map fun _ => ⟨x⟩) := by
  have hps : s.parameters = [most.getD _, perPart.getD _, x] := h.parameters
  obtain ⟨hmost, hper⟩ := Bool.and_eq_true_iff.1 hfit
  have first := hf.parameter_eq h (k := 0) (by rw [hps]; rfl)
  have second := hf.parameter_eq h (k := 1) (by rw [hps]; rfl)
  have third := hf.excludeIn_eq h (ho.few hb).1 ho (k := 2) (by rw [hps]; rfl)
  unfold Tables.shape
  rw [hf.kind_eq h]
  simp only [GrammarForm.instructionKind, first, second, third, slotNat?_limit hmost,
    slotNat?_limit hper]

theorem shape_delimited {least : Nat}
    (h : HoldsIn b σ d n (.delimited least) parts terminators exclude delimiter settings s ids ends
      i j x y) :
    t.shape ⟨n⟩ = .delimited (some ⟨y⟩) least := by
  have hps : s.parameters = [y, least] := h.parameters
  obtain ⟨g, hg⟩ := Option.isSome_iff_exists.1 h.whole
  have lies := h.delimiterLies
  rw [hg] at lies
  have hlt := ho.laid.lt_size lies.1
  have few := (ho.few hb).1
  have hne : y ≠ GrammarId.absent := by omega
  have first := hf.parameter_eq h (k := 0) (by rw [hps]; rfl)
  have second := hf.parameter_eq h (k := 1) (by rw [hps]; rfl)
  unfold Tables.shape
  rw [hf.kind_eq h]
  simp only [GrammarForm.instructionKind, first, second]
  simp [GrammarId.ofSlot?, hne]

/-- The exclude grammar is in the slot that is noted for it. -/
theorem exclude?_eq (hfit : form.limitsFit = true)
    (h : HoldsIn b σ d n form parts terminators exclude delimiter settings s ids ends i j x y)
    (hform : form.excludes = true) : t.exclude? ⟨n⟩ = exclude.map fun _ => ⟨x⟩ := by
  unfold Tables.exclude?
  cases form with
  | ref name =>
    obtain ⟨target, -, shape⟩ := hf.shape_ref ho hb h
    rw [shape]
  | oneOf => rw [hf.shape_oneOf ho hb h]
  | anyNumberOf most perPart => rw [hf.shape_anyNumberOf ho hb hfit h]
  | _ => cases hform

/-- The delimiter is in the slot that is noted for it. -/
theorem delimiter?_eq
    (h : HoldsIn b σ d n form parts terminators exclude delimiter settings s ids ends i j x y)
    (hform : form.instructionKind = .delimited) : t.delimiter? ⟨n⟩ = some ⟨y⟩ := by
  unfold Tables.delimiter?
  cases form with
  | delimited least => rw [hf.shape_delimited ho hb h]
  | _ => cases hform

end

/-- A slot that is made for a reference reads as one. -/
theorem readsReference {name : String} (hn : σ.Inner b n (.ref name)) :
    t.ReadsReference b ⟨n⟩ name := by
  have hlt := hf.inner_lt ho hn
  obtain ⟨s, ids, ends, i, j, x, y, h⟩ := ho.laid.holds n _ hn.1
  refine ⟨hf.readsSettings h hlt, hf.shape_ref ho hb h, ?_, ?_, hf.isAnonymous_of_inner ho hn⟩
  · rw [hf.parts_eq h, List.forall₂_nil_right_iff.1 h.parts]
    rfl
  · rw [hf.terminatorsOf_eq h, List.forall₂_nil_right_iff.1 h.terminators]
    rfl

/-- What an instruction stands for is what its form says. -/
theorem readsForm {form : GrammarForm} {parts terminators : List Grammar}
    {exclude delimiter : Option Grammar} {settings : GrammarSettings} {s : Slot}
    {ids ends : List Nat} {i j x y : Nat} (hfit : form.limitsFit = true)
    (h : HoldsIn b σ d n form parts terminators exclude delimiter settings s ids ends i j x y) :
    t.ReadsForm b ⟨n⟩ form := by
  have parameters := h.parameters
  obtain ⟨few, -, fewPatterns⟩ := ho.few hb
  have param (k z : Nat) (hz : s.parameters[k]? = some z) := hf.parameter_eq h hz
  have kind := hf.kind_eq h
  cases form with
  | ref name =>
    obtain ⟨target, htarget, shape⟩ := hf.shape_ref ho hb h
    exact ⟨target, htarget, by rw [hf.exclude?_eq ho hb hfit h rfl, shape]⟩
  | oneOf => exact (hf.shape_oneOf ho hb h).trans (by rw [hf.exclude?_eq ho hb hfit h rfl])
  | anyNumberOf most perPart =>
    exact (hf.shape_anyNumberOf ho hb hfit h).trans (by rw [hf.exclude?_eq ho hb hfit h rfl])
  | delimited least =>
    exact (hf.shape_delimited ho hb h).trans (by rw [hf.delimiter?_eq ho hb h rfl])
  | bracketed type persists =>
    obtain ⟨pair, o, c, hpair, hopening, hclosing, hps⟩ := parameters
    have opening_ne : o ≠ GrammarId.absent := by have := ho.laid.lt_size hopening.1; omega
    have closing_ne : c ≠ GrammarId.absent := by have := ho.laid.lt_size hclosing.1; omega
    refine ⟨pair, ⟨o⟩, ⟨c⟩, hpair, ?_, hf.readsReference ho hb hopening,
      hf.readsReference ho hb hclosing⟩
    unfold Tables.shape
    rw [kind]
    simp only [GrammarForm.instructionKind, param 0 o (by rw [hps]; rfl),
      param 1 c (by rw [hps]; rfl), param 2 _ (by rw [hps]; rfl)]
    simp only [GrammarId.ofSlot?, if_neg opening_ne, if_neg closing_ne]
    cases persists.getD pair.persists <;> rfl
  | string template type =>
    obtain ⟨k, l, hk, hl, hps⟩ := parameters
    unfold Tables.ReadsForm Tables.shape
    rw [kind]
    simp only [GrammarForm.instructionKind, param 0 k (by rw [hps]; rfl),
      param 1 l (by rw [hps]; rfl), hf.string_eq hk, hf.string_eq hl]
  | typed template type fold trim =>
    obtain ⟨k, l, hk, hl, hps⟩ := parameters
    unfold Tables.ReadsForm Tables.shape
    rw [kind]
    simp only [GrammarForm.instructionKind, param 0 k (by rw [hps]; rfl),
      param 1 l (by rw [hps]; rfl), hf.string_eq hk, hf.string_eq hl]
  | multiString templates type =>
    obtain ⟨k, ks, hk, hks, hlength, hps⟩ := parameters
    have hn := (Array.getElem?_eq_some_iff.1 h.slot).1
    have all : t.parameters ⟨n⟩ = k :: templates.length :: ks := by
      rw [hf.carries.parameters n hn, getElem?_slot h.slot, hps]
    unfold Tables.ReadsForm Tables.shape
    rw [kind]
    simp only [GrammarForm.instructionKind, param 0 k (by rw [hps]; rfl),
      param 1 templates.length (by rw [hps]; rfl), hf.string_eq hk, all]
    rw [List.drop_succ_cons, List.drop_succ_cons, List.drop_zero, ← hlength, List.take_length,
      hf.map_string_eq hks]
  | pattern text anti type =>
    obtain ⟨p, a, k, hp, ha, hk, hps⟩ := parameters
    obtain ⟨q, hq, hfound⟩ := hf.pattern?_eq hp fewPatterns
    have anti_eq : ∃ r, anti.mapM TablePattern.read? = .ok r ∧ t.pattern? a = r := by
      cases anti with
      | none =>
        obtain rfl : a = GrammarId.absent := ha
        exact ⟨none, rfl, rfl⟩
      | some text =>
        obtain ⟨r, hr, hfound⟩ := hf.pattern?_eq ha fewPatterns
        exact ⟨some r, by simp [hr], hfound⟩
    obtain ⟨r, hr, hanti⟩ := anti_eq
    refine ⟨q, r, hq, hr, ?_⟩
    unfold Tables.shape
    rw [kind]
    simp only [GrammarForm.instructionKind, param 0 p (by rw [hps]; rfl),
      param 1 a (by rw [hps]; rfl), param 2 k (by rw [hps]; rfl), hf.string_eq hk, hfound, hanti]
  | marker kind' condition =>
    have first : s.parameters[0]? = some kind'.number := by
      cases condition with
      | none =>
        have hps : s.parameters = [kind'.number] := parameters
        rw [hps]
        rfl
      | some kv =>
        obtain ⟨k, l, -, -, hps⟩ := parameters
        rw [hps]
        rfl
    have known : Tables.markerKind? kind'.number = some kind' := by cases kind' <;> rfl
    have conditioned := hf.condition?_eq h
    unfold Tables.condition? at conditioned
    unfold Tables.ReadsForm Tables.shape
    rw [kind]
    simp only [GrammarForm.instructionKind, param 0 _ first, known, conditioned]
    rfl
  | sequence | nothing | anything | token | missing =>
    unfold Tables.ReadsForm Tables.shape
    rw [kind]
    rfl

end

/-! ## 4. Grammars and all inside them -/

mutual

/-- The slot of a grammar reads as it. -/
theorem reads (hf : Filed b root pairs d t) (ho : LaidOut b σ d pairs)
    (hb : b.weight < GrammarId.absent) (g : Grammar) (hfit : g.limitsFit = true) {n : Nat}
    (hn : σ n = some g) : t.Reads b g ⟨n⟩ := by
  match g with
  | .mk form parts terminators exclude delimiter settings =>
    obtain ⟨s, ids, ends, i, j, x, y, h⟩ := ho.laid.holds n _ hn
    have hlt := ho.laid.lt_size hn
    rw [← hf.size_eq] at hlt
    unfold Grammar.limitsFit at hfit
    simp only [Bool.and_eq_true] at hfit
    obtain ⟨⟨⟨⟨hform, hparts⟩, hterminators⟩, hexclude⟩, hdelimiter⟩ := hfit
    unfold Tables.Reads
    refine ⟨hf.readsSettings h hlt, hf.readsForm ho hb hform h, ?_, ?_, fun hhas => ?_,
      fun hkind => ?_⟩
    · rw [hf.parts_eq h]
      exact readsAll hf ho hb parts hparts h.parts
    · rw [hf.terminatorsOf_eq h]
      exact readsAll hf ho hb terminators hterminators h.terminators
    · rw [hf.exclude?_eq ho hb hform h hhas]
      exact readsOption hf ho hb exclude hexclude h.excludeLies
    · rw [hf.delimiter?_eq ho hb h hkind]
      have := readsOption hf ho hb delimiter hdelimiter h.delimiterLies
      cases form with
      | delimited least =>
        obtain ⟨g, hg⟩ := Option.isSome_iff_exists.1 h.whole
        rw [hg] at this ⊢
        exact this
      | _ => cases hkind

theorem readsAll (hf : Filed b root pairs d t) (ho : LaidOut b σ d pairs)
    (hb : b.weight < GrammarId.absent) (gs : List Grammar) (hfit : Grammar.allLimitsFit gs = true)
    {ids : List Nat} (h : List.Forall₂ (σ.Inner b) ids gs) :
    t.ReadsAll b gs (ids.map (⟨·⟩)) := by
  match gs with
  | [] =>
    unfold Tables.ReadsAll
    rw [List.forall₂_nil_right_iff.1 h]
    rfl
  | g :: rest =>
    unfold Grammar.allLimitsFit at hfit
    obtain ⟨hg, hrest⟩ := Bool.and_eq_true_iff.1 hfit
    obtain ⟨n, more, hn, hmore, rfl⟩ := List.forall₂_cons_right_iff.1 h
    unfold Tables.ReadsAll
    exact ⟨⟨n⟩, more.map (⟨·⟩), rfl, hf.isAnonymous_of_inner ho hn, reads hf ho hb g hg hn.1,
      readsAll hf ho hb rest hrest hmore⟩

theorem readsOption (hf : Filed b root pairs d t) (ho : LaidOut b σ d pairs)
    (hb : b.weight < GrammarId.absent) (g : Option Grammar)
    (hfit : Grammar.limitsFitOption g = true) {n : Nat} (h : σ.InnerOption b n g) :
    t.ReadsOption b g (g.map fun _ => ⟨n⟩) := by
  match g with
  | none =>
    unfold Tables.ReadsOption
    rfl
  | some g =>
    unfold Tables.ReadsOption
    exact ⟨⟨n⟩, rfl, hf.isAnonymous_of_inner ho h, reads hf ho hb g hfit h.1⟩

end

/-! ## 5. Names and segments -/

/-- Numbered from `k` on, a name is found with the number of its place. -/
theorem lookup_zipIdx (names : List String) (k : Nat) (name : String) :
    ((names.zipIdx k).map fun p => (p.1, (⟨p.2⟩ : GrammarId))).lookup name =
      (names.idxOf? name).map fun n => ⟨n + k⟩ := by
  induction names generalizing k with
  | nil => rfl
  | cons x names ih =>
    rw [List.zipIdx_cons, List.map_cons, List.lookup_cons, List.idxOf?_cons, ih]
    by_cases hx : x = name
    · simp [hx]
    · have hne : (name == x) = false := by simpa using Ne.symm hx
      simp only [hne, hx, beq_iff_eq, if_false, Option.map_map]
      congr 1
      funext n
      simp only [Function.comp_apply, GrammarId.mk.injEq]
      omega

theorem lookup?_eq (hf : Filed b root pairs d t) (name : String) :
    t.lookup? name = (b.slot? name).map (⟨·⟩) := by
  unfold Tables.lookup?
  rw [hf.names_eq]
  exact lookup_zipIdx b.names 0 name

theorem segments_eq (hf : Filed b root pairs d t) (ho : LaidOut b σ d pairs)
    (hb : b.weight < GrammarId.absent) {x : Definition} (hx : b.definitions[n]? = some x) :
    t.segmentType? ⟨n⟩ = x.segmentType ∧
      t.segmentClass? ⟨n⟩ = x.segmentType.map fun _ => x.name := by
  have hlt : n < d.slots.size :=
    Nat.lt_of_lt_of_le (List.getElem?_eq_some_iff.1 hx).1 ho.laid.named
  obtain ⟨-, few, -⟩ := ho.few hb
  have names := (ho.definitions n x hx).2
  have slot : d.slot n = d.slots[n] := by
    rw [Draft.slot, Array.getD_eq_getD_getElem?, Array.getElem?_eq_getElem hlt]
    rfl
  unfold NamesSegments at names
  rw [slot] at names
  unfold Tables.segmentType? Tables.segmentClass?
  rw [hf.segmentTypes, hf.segmentClasses, Array.getElem?_map, Array.getElem?_map,
    Array.getElem?_eq_getElem hlt]
  have present {k : Nat} {s : String} (hk : d.strings[k]? = some s) :
      (Tables.slotNat? k).map t.string = some s := by
    have := (Array.getElem?_eq_some_iff.1 hk).1
    rw [Tables.slotNat?, if_neg (by omega), Option.map_some, hf.string_eq hk]
  cases htype : x.segmentType with
  | none =>
    rw [htype] at names
    simp [names.1, names.2, Tables.slotNat?]
  | some type =>
    rw [htype] at names
    exact ⟨present names.1, present names.2⟩

end GrammarBook.Filed

/-! ## 6. Books -/

namespace GrammarBook

variable {b : GrammarBook}

theorem nodup_of_firstRepeated {seen names : List String} (h : firstRepeated seen names = none) :
    names.Nodup ∧ ∀ name ∈ names, name ∉ seen := by
  induction names generalizing seen with
  | nil => simp
  | cons name names ih =>
    rw [firstRepeated] at h
    split at h
    · cases h
    · next hnew =>
      obtain ⟨hnodup, hapart⟩ := ih h
      have hnew : name ∉ seen := by simpa using hnew
      refine ⟨List.nodup_cons.2 ⟨fun hmem => hapart name hmem (by simp), hnodup⟩, ?_⟩
      refine List.forall_mem_cons.2 ⟨hnew, fun other hother hseen => ?_⟩
      exact hapart other hother (by simp [hseen])

/-- If no name is defined twice, every definition has the slot of its name. -/
theorem slot?_of_getElem? (hb : b.duplicate? = none) {n : Nat} {x : Definition}
    (hx : b.definitions[n]? = some x) : b.slot? x.name = some n := by
  obtain ⟨hlt, rfl⟩ := List.getElem?_eq_some_iff.1 hx
  have nodup := (nodup_of_firstRepeated hb).1
  refine List.idxOf?_eq_some_iff.2 ⟨by simpa [names] using hlt, by simp [names], ?_⟩
  intro j hj heq
  have hj' : j < b.names.length := by simp [names]; omega
  have hn' : n < b.names.length := by simpa [names] using hlt
  have : b.names[j] = b.names[n] := heq.trans (by simp [names])
  exact absurd (nodup.getElem_inj_iff.1 this) (Nat.ne_of_lt hj)

/-- Tables that a book is compiled into are the result of the steps. -/
theorem run_compileSteps {t : Tables} (h : b.compile = .ok t) :
    b.duplicate? = none ∧ ∃ d, b.compileSteps.run {} = .ok (t, d) := by
  unfold compile at h
  split at h
  · cases h
  next hduplicate =>
    refine ⟨hduplicate, ?_⟩
    cases hrun : b.compileSteps.run {} with
    | error e =>
      rw [hrun] at h
      cases h
    | ok r =>
      rw [hrun] at h
      cases hvalid : r.1.validate with
      | error e =>
        simp only [bind, Except.bind, hvalid] at h
        cases h
      | ok =>
        simp only [bind, Except.bind, hvalid, pure, Except.pure, Except.ok.injEq] at h
        exact ⟨r.2, by rw [← h]⟩

/-- What tables say of a book: the root and all definitions are where their names are, and each
definition reads as it is, with the segments that it makes. -/
structure ReadsBack (b : GrammarBook) (t : Tables) : Prop where
  root : t.lookup? b.root = some t.root
  name : ∀ (n : Nat) x, b.definitions[n]? = some x → t.lookup? x.name = some ⟨n⟩
  segments : ∀ (n : Nat) x, b.definitions[n]? = some x → t.segmentType? ⟨n⟩ = x.segmentType ∧
    t.segmentClass? ⟨n⟩ = x.segmentType.map fun _ => x.name
  body : ∀ (n : Nat) x, b.definitions[n]? = some x → x.body.limitsFit = true →
    t.Reads b x.body ⟨n⟩

/-- A book that asks for fewer numbers than there are in 32 bits is refused, if it is, for a name
that is defined twice, not at all or by itself, for the root, for too long a list or for a pattern;
its tables are never at fault. If it is not refused, the tables read back as the book. -/
theorem compile_reads (b : GrammarBook) (hwhole : b.isWhole = true)
    (hb : b.weight < GrammarId.absent) :
    (∀ e, b.compile = .error e → e.isOfBook = true) ∧
      ∀ t, b.compile = .ok t → b.ReadsBack t := by
  refine ⟨fun e he => isOfBook_of_error hwhole hb he, fun t ht => ?_⟩
  obtain ⟨hduplicate, d', hrun⟩ := run_compileSteps ht
  obtain ⟨σ, d, pairs, root, laid, hroot, hfinish⟩ := laidOut_of_run hwhole hrun
  have filed := filed_of_run hfinish
  refine ⟨?_, fun n x hx => ?_, fun n x hx => filed.segments_eq laid hb hx, fun n x hx hfit => ?_⟩
  · rw [filed.lookup?_eq, hroot, filed.root_eq]
    rfl
  · rw [filed.lookup?_eq, slot?_of_getElem? hduplicate hx]
    rfl
  · exact filed.reads laid hb x.body hfit (laid.definitions n x hx).1

/-- A book with grammars of many kinds, one inside the other. -/
def mixedBook : GrammarBook where
  root := "List"
  definitions := [
    .segment "List" "list" (((Grammar.delimited [.ref "Item", .conditional .dedent "k" "on"])
      |>.delimiter (.string ";" "mark") |>.atLeastDelimiters 1).terminators [.keyword "end"]),
    .grammar "Item" ((Grammar.oneOf [.ref "Group", .ref "Name"]).exclude (.keyword "end")),
    .grammar "Group" ((Grammar.bracketed [.indent, ((Grammar.anyNumberOf [.token]).atMost 3)])
      |>.mode .greedy |>.optional),
    .segment "Name" "name" (.seq [(Grammar.pattern "[a-z]" "word").anti "x",
      (Grammar.typed "word" "word").casefold .lower |>.trim ["_", "-"],
      .multiString ["+", "-"] "sign"]),
    .grammar "Start" (.string "(" "start_bracket"),
    .grammar "End" (.string ")" "end_bracket")]
  brackets := [⟨"round", "Start", "End", false⟩]

/-- The book compiles, and its tables read back. -/
theorem compile_reads_mixedBook :
    mixedBook.isWhole = true ∧ mixedBook.weight < GrammarId.absent ∧
      mixedBook.definitions.all (·.body.limitsFit) = true ∧
      ∃ t, mixedBook.compile = .ok t ∧ mixedBook.ReadsBack t := by
  have hwhole : mixedBook.isWhole = true := by decide +kernel
  have hweight : mixedBook.weight < GrammarId.absent := by decide +kernel
  refine ⟨hwhole, hweight, by decide +kernel, ?_⟩
  have hok : mixedBook.compile.isOk = true := by decide +kernel
  cases ht : mixedBook.compile with
  | error e =>
    rw [ht] at hok
    cases hok
  | ok t => exact ⟨t, rfl, (compile_reads mixedBook hwhole hweight).2 t ht⟩

end GrammarBook

end QueryLint
