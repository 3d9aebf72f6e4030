import QueryLint.Proofs.Grammar.Layout

/-!
QueryLint.Proofs.Grammar.LaidOut — a book laid out.

Compiling a grammar lays it out: its slot and all new slots hold what the layout says, and no other
slot changes. So when a book has been compiled, the slot of each definition holds its grammar, every
other slot holds a grammar inside one of these or a reference to a bracket, and there are no more
slots, texts and patterns than the book asks for.

* `Grammar.lays_compileInto` — compiling a grammar lays it out in its slot.
* `GrammarBook.LaidOut` — what a draft of a whole book holds.
* `GrammarBook.laidOut_of_run` — tables are finished from such a draft.
-/

namespace QueryLint

/-! ## 1. Grammars -/

namespace Grammar

open Draft

variable {b : GrammarBook} {σ : Layout} {d d' : Draft} {n : Nat}

/-- The pair of a bracketed grammar is the first one declared of its type. -/
theorem find_of_run_pairOf {type : String} {persists : Option Bool}
    {pair : Option BracketDefinition}
    (h : (pairOf b (.bracketed type persists)).run d = .ok (pair, d')) :
    ∃ p, b.brackets.find? (·.type == type) = some p ∧ pair = some p := by
  unfold pairOf at h
  dsimp only at h
  split at h
  · next p hp =>
    obtain ⟨rfl, -⟩ := run_pure_ok h
    exact ⟨p, hp, rfl⟩
  · cases h

/-- The parameters of a form say what it is. Only a bracketed form lays something out. -/
theorem lays_parametersOf {form : GrammarForm} {x y : Nat} {pair : Option BracketDefinition}
    {ps : List Nat} (hl : Laid b σ d) (hfree : σ n = none) (hs : d.slots[n]? = some {})
    (hpair : ∀ type persists, form = .bracketed type persists →
      ∃ p, b.brackets.find? (·.type == type) = some p ∧ pair = some p)
    (h : (parametersOf b n x y pair form).run d = .ok (ps, d')) :
    ∃ σ' s, Lays b (some n) σ σ' form.weight d d' ∧ σ' n = none ∧ d'.slots[n]? = some s ∧
      Trims d' s form ∧ Parameters b σ' d' n x y ps form := by
  -- All but two forms only make notes.
  have plain {k : Nat} (hn : Notes k d d') (hk : k = form.weight) (hfold : form.fold = .none)
      (htrims : form.trims = []) (hps : Parameters b σ d' n x y ps form) :
      ∃ σ' s, Lays b (some n) σ σ' form.weight d d' ∧ σ' n = none ∧ d'.slots[n]? = some s ∧
        Trims d' s form ∧ Parameters b σ' d' n x y ps form := by
    subst hk
    exact ⟨σ, {}, (hn.lays hl).excepting _, hfree, by rw [hn.slots_eq]; exact hs,
      trims_blank hfold htrims, hps⟩
  have nothing : Notes 0 d d := ⟨.refl d, rfl⟩
  cases form with
  | ref name =>
    obtain ⟨notes, href, hps⟩ := notes_reference h
    exact plain notes rfl rfl rfl ⟨href, hps⟩
  | sequence | nothing | anything | token | missing | oneOf | anyNumberOf most perPart
  | delimited least =>
    obtain ⟨rfl, rfl⟩ := run_pure_ok h
    exact plain nothing rfl rfl rfl rfl
  | bracketed type persists =>
    obtain ⟨p, hfind, rfl⟩ := hpair type persists rfl
    obtain ⟨opening, d₁, h₁, h⟩ := run_bind_ok h
    obtain ⟨closing, d₂, h₂, h⟩ := run_bind_ok h
    obtain ⟨rfl, rfl⟩ := run_pure_ok h
    obtain ⟨σ₁, lays₁, ho⟩ := lays_bareReference h₁ hl
    obtain ⟨σ₂, lays₂, hc⟩ := lays_bareReference h₂ lays₁.laid
    have lays := lays₁.trans lays₂
    obtain ⟨hσ, hslot⟩ := lays.old n (Array.getElem?_eq_some_iff.1 hs).1 (by simp)
    exact ⟨σ₂, {}, lays.excepting _, hσ.trans hfree, hslot.trans hs, trims_blank rfl rfl,
      p, opening, closing, hfind, ho.mono lays₂.agrees, hc, rfl⟩
  | string template type =>
    obtain ⟨k, d₁, h₁, h⟩ := run_bind_ok h
    obtain ⟨l, d₂, h₂, h⟩ := run_bind_ok h
    obtain ⟨rfl, rfl⟩ := run_pure_ok h
    obtain ⟨notes₁, hk⟩ := notes_intern h₁
    obtain ⟨notes₂, hl⟩ := notes_intern h₂
    exact plain (notes₁.trans notes₂) rfl rfl rfl ⟨k, l, notes₂.grows.strings k _ hk, hl, rfl⟩
  | multiString templates type =>
    obtain ⟨k, d₁, h₁, h⟩ := run_bind_ok h
    obtain ⟨ks, d₂, h₂, h⟩ := run_bind_ok h
    obtain ⟨rfl, rfl⟩ := run_pure_ok h
    obtain ⟨notes₁, hk⟩ := notes_intern h₁
    obtain ⟨notes₂, hks, hlength⟩ := notes_mapM_intern h₂
    exact plain (notes₁.trans notes₂) (Nat.add_comm _ _) rfl rfl
      ⟨k, ks, notes₂.grows.strings k _ hk, hks, hlength, by rw [hlength]⟩
  | typed template type fold trim =>
    obtain ⟨k, d₁, h₁, h⟩ := run_bind_ok h
    obtain ⟨l, d₂, h₂, h⟩ := run_bind_ok h
    obtain ⟨_, d₃, h₃, h⟩ := run_bind_ok h
    obtain ⟨count, d₄, h₄, h⟩ := run_bind_ok h
    obtain ⟨texts, d₅, h₅, h⟩ := run_bind_ok h
    obtain ⟨_, d₆, h₆, h⟩ := run_bind_ok h
    obtain ⟨_, d₇, h₇, h⟩ := run_bind_ok h
    obtain ⟨rfl, rfl⟩ := run_pure_ok h
    obtain ⟨rfl, rfl⟩ := run_get_ok h₃
    obtain ⟨rfl, rfl⟩ := run_count_ok h₄
    obtain ⟨notes₁, hk⟩ := notes_intern h₁
    obtain ⟨notes₂, hl'⟩ := notes_intern h₂
    obtain ⟨notes₅, htexts, hlength⟩ := notes_mapM_intern h₅
    have h₆ := (Prod.mk.inj (Except.ok.inj h₆)).2
    have h₇ := (Prod.mk.inj (Except.ok.inj h₇)).2
    have notes₆ : Notes 0 d₅ d₆ := by
      subst h₆
      exact ⟨{ Grows.refl d₅ with trimStrings := .append _ _ }, rfl⟩
    have trimmed : d₆.trimStrings = d₅.trimStrings ++ texts := by rw [← h₆]
    have unchanged : d₅.trimStrings = d₄.trimStrings := by
      rw [(run_mapM_intern_ok h₅).1.rest]
    have notes := ((notes₁.trans notes₂).trans notes₅).trans notes₆
    have noted := notes.lays hl
    have filled := (noted.excepting (some n)).trans
      (lays_of_modify h₇.symm (fun _ => ⟨rfl, rfl⟩) noted.laid hfree)
    have strings : d'.strings = d₆.strings := by rw [← h₇]
    have slot : d'.slots[n]? = some { ({} : Slot) with
        casefold := fold.number, trimStart := d₄.trimStrings.size, trimCount := trim.length } := by
      rw [← h₇, Array.getElem?_modify, if_pos rfl, notes.slots_eq, hs]
      rfl
    refine ⟨σ, _, filled.weaken (by simp only [GrammarForm.weight]; omega), hfree, slot,
      ⟨rfl, ?_⟩, k, l, ?_, ?_, rfl⟩
    · have := Spells.of_append d₅.trimStrings (notes₆.grows.strings.map_getElem? htexts)
      rw [← trimmed, unchanged, hlength] at this
      rw [strings, ← h₇]
      exact this
    · rw [strings]
      exact notes₆.grows.strings k _ (notes₅.grows.strings k _ (notes₂.grows.strings k _ hk))
    · rw [strings]
      exact notes₆.grows.strings l _ (notes₅.grows.strings l _ hl')
  | pattern text anti type =>
    obtain ⟨p, d₁, h₁, h⟩ := run_bind_ok h
    obtain ⟨notes₁, hp⟩ := notes_internPattern h₁
    cases anti with
    | none =>
      obtain ⟨a, d₂, h₂, h⟩ := run_bind_ok h
      obtain ⟨k, d₃, h₃, h⟩ := run_bind_ok h
      obtain ⟨rfl, rfl⟩ := run_pure_ok h
      obtain ⟨rfl, rfl⟩ := run_pure_ok h₂
      obtain ⟨notes₃, hk⟩ := notes_intern h₃
      exact plain ((notes₁.trans notes₃).weaken (by decide : 1 + 1 ≤ 3)) rfl rfl rfl
        ⟨p, _, k, notes₃.grows.patterns p _ hp, rfl, hk, rfl⟩
    | some t =>
      obtain ⟨a, d₂, h₂, h⟩ := run_bind_ok h
      obtain ⟨k, d₃, h₃, h⟩ := run_bind_ok h
      obtain ⟨rfl, rfl⟩ := run_pure_ok h
      obtain ⟨notes₂, ha⟩ := notes_internPattern h₂
      obtain ⟨notes₃, hk⟩ := notes_intern h₃
      exact plain ((notes₁.trans notes₂).trans notes₃) rfl rfl rfl
        ⟨p, a, k, notes₃.grows.patterns p _ (notes₂.grows.patterns p _ hp),
          notes₃.grows.patterns a _ ha, hk, rfl⟩
  | marker kind condition =>
    cases condition with
    | none =>
      obtain ⟨rfl, rfl⟩ := run_pure_ok h
      exact plain nothing rfl rfl rfl rfl
    | some kv =>
      obtain ⟨k, d₁, h₁, h⟩ := run_bind_ok h
      obtain ⟨l, d₂, h₂, h⟩ := run_bind_ok h
      obtain ⟨rfl, rfl⟩ := run_pure_ok h
      obtain ⟨notes₁, hk⟩ := notes_intern h₁
      obtain ⟨notes₂, hl⟩ := notes_intern h₂
      exact plain (notes₁.trans notes₂) rfl rfl rfl ⟨k, l, notes₂.grows.strings k _ hk, hl, rfl⟩

mutual

/-- Compiling a grammar lays it out in its slot. -/
theorem lays_compileInto (g : Grammar) {σ : Layout} {d d' : Draft} {n : Nat} {u : Unit}
    (h : (g.compileInto b n).run d = .ok (u, d')) (hwhole : g.isWhole = true) (hl : Laid b σ d)
    (hfree : σ n = none) (hs : d.slots[n]? = some {}) :
    ∃ σ', Lays b (some n) σ σ' g.weight d d' ∧ σ' n = some g := by
  match g with
  | mk form parts terminators exclude delimiter settings =>
    unfold compileInto at h
    obtain ⟨ends, d₁, h₁, h⟩ := run_bind_ok h
    obtain ⟨x, d₂, h₂, h⟩ := run_bind_ok h
    obtain ⟨pair, d₃, h₃, h⟩ := run_bind_ok h
    obtain ⟨ids, d₄, h₄, h⟩ := run_bind_ok h
    obtain ⟨y, d₅, h₅, h⟩ := run_bind_ok h
    obtain ⟨ps, d₆, h₆, h⟩ := run_bind_ok h
    obtain ⟨r, d₇, h₇, h⟩ := run_bind_ok h
    obtain ⟨r', d₈, h₈, hfill⟩ := run_bind_ok h
    unfold isWhole at hwhole
    simp only [Bool.and_eq_true] at hwhole
    obtain ⟨⟨⟨⟨howns, hends⟩, hexclude⟩, hparts⟩, hdelimiter⟩ := hwhole
    obtain rfl := (run_pairOf_ok h₃).1
    have hpair : ∀ type persists, form = .bracketed type persists →
        ∃ p, b.brackets.find? (·.type == type) = some p ∧ pair = some p := by
      rintro type persists rfl
      exact find_of_run_pairOf h₃
    obtain ⟨σ₁, lays₁, ends₁⟩ := lays_compileAll terminators h₁ hends hl
    obtain ⟨σ₂, lays₂, x₂⟩ := lays_compileOption exclude h₂ hexclude lays₁.laid
    obtain ⟨σ₄, lays₄, ids₄⟩ := lays_compileAll parts h₄ hparts lays₂.laid
    obtain ⟨σ₅, lays₅, y₅⟩ := lays_compileOption delimiter h₅ hdelimiter lays₄.laid
    have inside := ((lays₁.trans lays₂).trans lays₄).trans lays₅
    obtain ⟨hσ, hslot⟩ := inside.old n (Array.getElem?_eq_some_iff.1 hs).1 (by simp)
    obtain ⟨σ₆, s, lays₆, free₆, slot₆, trims₆, ps₆⟩ :=
      lays_parametersOf inside.laid (hσ.trans hfree) (hslot.trans hs) hpair h₆
    have later := lays₅.agrees.trans lays₆.agrees
    have filled := lays_fill form settings lays₆.laid free₆ slot₆ trims₆
      (Layout.inner_mono_all ids₄ later)
      (Layout.inner_mono_all ends₁ ((lays₂.agrees.trans lays₄.agrees).trans later))
      (x₂.mono (lays₄.agrees.trans later)) (y₅.mono lays₆.agrees) howns ps₆ h₇ h₈ hfill
    refine ⟨_, (((inside.excepting (some n)).trans lays₆).trans filled).weaken ?_,
      Layout.set_self _ n _⟩
    unfold weight
    omega

theorem lays_compileAll (gs : List Grammar) {σ : Layout} {d d' : Draft} {ids : List Nat}
    (h : (compileAll b gs).run d = .ok (ids, d')) (hwhole : areWhole gs = true)
    (hl : Laid b σ d) :
    ∃ σ', Lays b none σ σ' (weightAll gs) d d' ∧ List.Forall₂ (σ'.Inner b) ids gs := by
  match gs with
  | [] =>
    unfold compileAll at h
    obtain ⟨rfl, rfl⟩ := run_pure_ok h
    exact ⟨σ, .refl hl, .nil⟩
  | g :: rest =>
    unfold compileAll at h
    obtain ⟨n, d₁, h₁, h⟩ := run_bind_ok h
    obtain ⟨_, d₂, h₂, h⟩ := run_bind_ok h
    obtain ⟨ids', d₃, h₃, h⟩ := run_bind_ok h
    obtain ⟨rfl, rfl⟩ := run_pure_ok h
    unfold areWhole at hwhole
    obtain ⟨hg, hrest⟩ := Bool.and_eq_true_iff.1 hwhole
    obtain ⟨rfl, -, blank, free, laid₁, -⟩ := run_alloc_lays h₁ hl
    obtain ⟨σ₂, lays₂, hn⟩ := lays_compileInto g h₂ hg laid₁ free blank
    have first := lays_of_alloc h₁ hl lays₂ (by rw [hn]; rfl)
    obtain ⟨σ₃, lays₃, hids⟩ := lays_compileAll rest h₃ hrest first.laid
    refine ⟨σ₃, first.trans lays₃, .cons ⟨lays₃.agrees _ g hn, hl.named⟩ hids⟩

theorem lays_compileOption (g : Option Grammar) {σ : Layout} {d d' : Draft} {id : Nat}
    (h : (compileOption b g).run d = .ok (id, d')) (hwhole : isWholeOption g = true)
    (hl : Laid b σ d) :
    ∃ σ', Lays b none σ σ' (weightOption g) d d' ∧ σ'.InnerOption b id g := by
  match g with
  | none =>
    unfold compileOption at h
    obtain ⟨rfl, rfl⟩ := run_pure_ok h
    exact ⟨σ, .refl hl, rfl⟩
  | some g =>
    unfold compileOption at h
    obtain ⟨n, d₁, h₁, h⟩ := run_bind_ok h
    obtain ⟨_, d₂, h₂, h⟩ := run_bind_ok h
    obtain ⟨rfl, rfl⟩ := run_pure_ok h
    obtain ⟨hsize, -, blank, free, laid₁, -⟩ := run_alloc_lays h₁ hl
    obtain ⟨σ₂, lays₂, hn⟩ := lays_compileInto g h₂ hwhole laid₁ free blank
    refine ⟨σ₂, lays_of_alloc h₁ hl lays₂ (by rw [hn]; rfl), hn, ?_⟩
    have := hl.named
    omega

end

end Grammar

/-! ## 2. Definitions -/

namespace GrammarBook

open Draft

variable {b : GrammarBook} {σ : Layout} {d d' : Draft}

/-- Number of slots, texts and patterns that definitions ask for, with so many more for each. -/
def weightOf (more : Nat) : List Definition → Nat
  | [] => 0
  | x :: rest => x.body.weight + more + weightOf more rest

/-- Number of slots, texts and patterns that a book asks for. -/
def weight (b : GrammarBook) : Nat := weightOf 3 b.definitions + 4 * b.brackets.length

/-- One of three numbers that each definition asks for is that of its slot. -/
theorem weightOf_three (xs : List Definition) : weightOf 3 xs = weightOf 2 xs + xs.length := by
  induction xs with
  | nil => rfl
  | cons x xs ih =>
    simp only [weightOf, List.length_cons, ih]
    omega

/-- Every grammar of a book that has delimiters says which. -/
def isWhole (b : GrammarBook) : Bool := b.definitions.all (·.body.isWhole)

/-- What is noted of the segments that a definition makes. -/
def NamesSegments (d : Draft) (n : Nat) (x : Definition) : Prop :=
  match x.segmentType with
  | none => (d.slot n).segmentType = GrammarId.absent ∧ (d.slot n).segmentClass = GrammarId.absent
  | some type => d.strings[(d.slot n).segmentType]? = some type ∧
      d.strings[(d.slot n).segmentClass]? = some x.name

theorem NamesSegments.mono {n k : Nat} {x : Definition} (h : NamesSegments d n x)
    (hd : Grows k d d') (hs : SameSegments d d') : NamesSegments d' n x := by
  unfold NamesSegments at h ⊢
  rw [(hs n).1, (hs n).2]
  split at h
  · exact h
  · exact ⟨hd.strings _ _ h.1, hd.strings _ _ h.2⟩

/-- The first `k` definitions have been laid out, and the slots of the others are blank. -/
structure LaidUpTo (b : GrammarBook) (k : Nat) (σ : Layout) (d : Draft) : Prop where
  laid : Laid b σ d
  done : ∀ (n : Nat) x, n < k → b.definitions[n]? = some x →
    σ n = some x.body ∧ NamesSegments d n x
  left : ∀ n, k ≤ n → n < b.definitions.length → σ n = none ∧ d.slots[n]? = some {}
  inner : ∀ n, b.definitions.length ≤ n → n < d.slots.size → (σ n).isSome = true
  anonymous : ∀ n, b.definitions.length ≤ n → (d.slot n).segmentType = GrammarId.absent ∧
    (d.slot n).segmentClass = GrammarId.absent
  numbers_le : d.numbers + weightOf 2 (b.definitions.drop k) ≤ weightOf 3 b.definitions

/-- What is noted in the slot of a definition is no part of its grammar. -/
theorem laid_of_note {n : Nat} {f : Slot → Slot}
    (hd : d' = { d with slots := d.slots.modify n f })
    (hf : ∀ s, SameGrammar s (f s)) (h : Laid b σ d) : Laid b σ d' := by
  have slots : d'.slots = d.slots.modify n f := by rw [hd]
  refine ⟨by rw [slots, Array.size_modify]; exact h.named, fun m g hg => ?_⟩
  refine (h.holds m g hg).mono_of (fun _ _ h => h) (.of_modify hd) fun s hs => ?_
  refine ⟨_, getElem?_of_modify slots hs, ?_⟩
  split
  · exact hf s
  · exact ⟨rfl, rfl, rfl, rfl, rfl⟩

theorem getElem?_slot {n : Nat} {s : Slot} (h : d.slots[n]? = some s) : d.slot n = s := by
  rw [slot, Array.getD_eq_getD_getElem?, h]
  rfl

/-- What a definition says of segments is noted in its slot, and nothing else changes. -/
structure Notates (d d' : Draft) (k : Nat) (x : Definition) : Prop where
  laid : ∀ {b σ}, Laid b σ d → Laid b σ d'
  names : NamesSegments d' k x
  grows : Grows 2 d d'
  size_eq : d'.slots.size = d.slots.size
  others : ∀ n, n ≠ k → d'.slots[n]? = d.slots[n]?

theorem notates_none {k : Nat} {x : Definition} (hx : x.segmentType = none)
    (hanonymous : (d.slot k).segmentType = GrammarId.absent ∧
      (d.slot k).segmentClass = GrammarId.absent) : Notates d d k x where
  laid h := h
  names := by
    unfold NamesSegments
    rw [hx]
    exact hanonymous
  grows := (Grows.refl d).weaken (Nat.zero_le 2)
  size_eq := rfl
  others _ _ := rfl

theorem notates_some {k l m : Nat} {x : Definition} {type : String} {u : Unit} {d₁ d₂ : Draft}
    (hx : x.segmentType = some type) (hk : k < d.slots.size)
    (h₁ : (Compiling.intern type).run d = .ok (l, d₁))
    (h₂ : (Compiling.intern x.name).run d₁ = .ok (m, d₂))
    (h₃ : (Compiling.setSlot k ({ · with segmentType := l, segmentClass := m })).run d₂ =
      .ok (u, d')) : Notates d d' k x := by
  obtain ⟨notes₁, hl⟩ := notes_intern h₁
  obtain ⟨notes₂, hm⟩ := notes_intern h₂
  have notes := notes₁.trans notes₂
  have hd' := (Prod.mk.inj (Except.ok.inj h₃)).2.symm
  have same (s : Slot) : SameGrammar s { s with segmentType := l, segmentClass := m } :=
    ⟨rfl, rfl, rfl, rfl, rfl⟩
  refine ⟨fun hlaid => laid_of_note hd' same (notes.lays hlaid).laid, ?_,
    notes.grows.trans (.of_modify hd'), ?_, fun n hn => ?_⟩
  · have slot : d'.slot k = { d.slots[k] with segmentType := l, segmentClass := m } := by
      apply getElem?_slot
      rw [hd', Array.getElem?_modify, if_pos rfl, notes.slots_eq, Array.getElem?_eq_getElem hk]
      rfl
    have strings : d'.strings = d₂.strings := by rw [hd']
    unfold NamesSegments
    rw [hx, slot, strings]
    exact ⟨notes₂.grows.strings l _ hl, hm⟩
  · rw [hd', Array.size_modify, notes.slots_eq]
  · rw [hd', Array.getElem?_modify, if_neg (Ne.symm hn), notes.slots_eq]

/-- The next definition is laid out. -/
theorem LaidUpTo.next {k : Nat} {x : Definition} {u : Unit} {d₁ : Draft}
    (h : LaidUpTo b k σ d) (hx : b.definitions[k]? = some x) (hwhole : x.body.isWhole = true)
    (h₁ : (x.body.compileInto b k).run d = .ok (u, d₁))
    (hnote : k < d₁.slots.size → (d₁.slot k).segmentType = GrammarId.absent ∧
      (d₁.slot k).segmentClass = GrammarId.absent → Notates d₁ d' k x) :
    ∃ σ', LaidUpTo b (k + 1) σ' d' := by
  obtain ⟨hlt, rfl⟩ := List.getElem?_eq_some_iff.1 hx
  obtain ⟨hfree, hblank⟩ := h.left k (Nat.le_refl k) hlt
  obtain ⟨σ', lays, hbody⟩ := Grammar.lays_compileInto _ h₁ hwhole h.laid hfree hblank
  have anonymous : (d₁.slot k).segmentType = GrammarId.absent ∧
      (d₁.slot k).segmentClass = GrammarId.absent := by
    rw [(lays.segments k).1, (lays.segments k).2, getElem?_slot hblank]
    exact ⟨rfl, rfl⟩
  have named := h.laid.named
  have notates := hnote (by have := lays.grows.slots_le; omega) anonymous
  have slot_eq {n : Nat} (hn : n ≠ k) : d'.slot n = d₁.slot n := by
    rw [slot, slot, Array.getD_eq_getD_getElem?, Array.getD_eq_getD_getElem?, notates.others n hn]
  refine ⟨σ', notates.laid lays.laid, ?_, ?_, ?_, ?_, ?_⟩
  · intro n y hn hy
    by_cases hk : n = k
    · subst hk
      rw [hx] at hy
      cases hy
      exact ⟨hbody, notates.names⟩
    · obtain ⟨hσ, hnames⟩ := h.done n y (by omega) hy
      have kept := hnames.mono lays.grows lays.segments
      refine ⟨lays.agrees n _ hσ, ?_⟩
      unfold NamesSegments at kept ⊢
      rw [slot_eq hk]
      split at kept
      · exact kept
      · exact ⟨notates.grows.strings _ _ kept.1, notates.grows.strings _ _ kept.2⟩
  · intro n hn hlt
    have hne : n ≠ k := by omega
    obtain ⟨hσ, hslot⟩ := lays.old n (by omega) (by simp; omega)
    obtain ⟨hfree, hblank⟩ := h.left n (by omega) hlt
    exact ⟨hσ.trans hfree, (notates.others n hne).trans (hslot.trans hblank)⟩
  · intro n hn hlt
    rw [notates.size_eq] at hlt
    by_cases hold : n < d.slots.size
    · obtain ⟨g, hg⟩ := Option.isSome_iff_exists.1 (h.inner n hn hold)
      exact Option.isSome_iff_exists.2 ⟨g, lays.agrees n g hg⟩
    · exact lays.new n (by omega) hlt
  · intro n hn
    have hne : n ≠ k := by omega
    rw [slot_eq hne, (lays.segments n).1, (lays.segments n).2]
    exact h.anonymous n hn
  · have := h.numbers_le
    have := lays.grows.numbers_le
    have := notates.grows.numbers_le
    rw [List.drop_eq_getElem_cons hlt, weightOf] at *
    omega

/-- Before the first definition is compiled, every name has a blank slot. -/
theorem laidUpTo_zero (hslots : d = { slots := Array.replicate b.definitions.length {} }) :
    LaidUpTo b 0 (fun _ => none) d := by
  have blank {n : Nat} (hn : n < b.definitions.length) : d.slots[n]? = some {} := by
    rw [hslots]
    simp [hn]
  have size : d.slots.size = b.definitions.length := by
    rw [hslots]
    simp
  refine ⟨⟨Nat.le_of_eq size.symm, nofun⟩, nofun, fun n _ hn => ⟨rfl, blank hn⟩, fun n hn hlt => ?_,
    fun n hn => ?_, ?_⟩
  · omega
  · rw [slot, Array.getD_eq_getD_getElem?, Array.getElem?_eq_none (by omega)]
    exact ⟨rfl, rfl⟩
  · have numbers : d.numbers = b.definitions.length := by
      rw [hslots]
      simp [numbers]
    rw [numbers, List.drop_zero, weightOf_three]
    omega

/-- All definitions are laid out, each in the slot of its name. -/
theorem laidUpTo_compileDefinitions {u : Unit} (hwhole : b.isWhole = true)
    (h : b.compileDefinitions.run {} = .ok (u, d')) :
    ∃ σ, LaidUpTo b b.definitions.length σ d' := by
  obtain ⟨_, d₁, h₁, h⟩ := run_bind_ok h
  obtain ⟨_, d₂, h₂, h⟩ := run_bind_ok h
  obtain ⟨-, rfl⟩ := run_pure_ok h
  have made : ∃ k, k = b.definitions.length ∧
      d₁ = { slots := Array.replicate k {} } := by
    have := run_forIn_ok
      (P := fun rest e => ∃ k, k + rest.length = b.definitions.length ∧
        e = { slots := Array.replicate k {} })
      (fun x rest e r e' he hrun => ?_) b.definitions ⟨0, Nat.zero_add _, rfl⟩ h₁
    · simpa using this
    · obtain ⟨k, hk, rfl⟩ := he
      obtain ⟨_, e₁, hdiscard, hrun⟩ := run_bind_ok hrun
      obtain ⟨rfl, rfl⟩ := run_pure_ok hrun
      obtain ⟨-, rfl⟩ := Prod.mk.inj (Except.ok.inj hdiscard)
      refine ⟨rfl, k + 1, ?_, ?_⟩
      · rw [List.length_cons] at hk
        omega
      · rw [Array.replicate_succ]
  obtain ⟨_, rfl, hblank⟩ := made
  have whole (n : Nat) (x : Definition) (hx : b.definitions[n]? = some x) :
      x.body.isWhole = true := List.all_eq_true.1 hwhole x (List.mem_of_getElem? hx)
  -- The loop has come to definition `k` when those from `k` on are left.
  have := run_forIn_ok
    (P := fun rest e => ∃ k σ, rest = b.definitions.zipIdx.drop k ∧ k ≤ b.definitions.length ∧
      LaidUpTo b k σ e)
    (fun x rest e r e' he hrun => ?_) b.definitions.zipIdx
    ⟨0, _, rfl, Nat.zero_le _, laidUpTo_zero hblank⟩ h₂
  · obtain ⟨k, σ, hrest, hk, hlaid⟩ := this
    have := congrArg List.length hrest
    rw [List.length_nil, List.length_drop, List.length_zipIdx] at this
    obtain rfl : k = b.definitions.length := by omega
    exact ⟨σ, hlaid⟩
  · obtain ⟨k, σ, hrest, hk, hlaid⟩ := he
    have hlt : k < b.definitions.zipIdx.length := by
      refine Nat.lt_of_not_le fun hle => ?_
      rw [List.drop_of_length_le hle] at hrest
      cases hrest
    rw [List.drop_eq_getElem_cons hlt] at hrest
    obtain ⟨rfl, hleft⟩ := List.cons.inj hrest
    rw [List.length_zipIdx] at hlt
    have hx : b.definitions[k]? = some b.definitions[k] := List.getElem?_eq_getElem hlt
    rw [List.getElem_zipIdx, Nat.zero_add] at hrun
    obtain ⟨_, e₁, he₁, hrun⟩ := run_bind_ok hrun
    have finish (hnote : k < e₁.slots.size → (e₁.slot k).segmentType = GrammarId.absent ∧
        (e₁.slot k).segmentClass = GrammarId.absent → Notates e₁ e' k b.definitions[k]) :
        ∃ j σ, rest = b.definitions.zipIdx.drop j ∧ j ≤ b.definitions.length ∧
          LaidUpTo b j σ e' := by
      obtain ⟨σ', next⟩ := hlaid.next hx (whole k _ hx) he₁ hnote
      exact ⟨k + 1, σ', hleft, hlt, next⟩
    split at hrun
    · next type htype =>
      obtain ⟨l, e₂, he₂, hrun⟩ := run_bind_ok hrun
      obtain ⟨m, e₃, he₃, hrun⟩ := run_bind_ok hrun
      obtain ⟨_, e₄, he₄, hrun⟩ := run_bind_ok hrun
      obtain ⟨rfl, rfl⟩ := run_pure_ok hrun
      exact ⟨rfl, finish fun hk _ => notates_some htype hk he₂ he₃ he₄⟩
    · next hnone =>
      obtain ⟨rfl, rfl⟩ := run_pure_ok hrun
      refine ⟨rfl, finish fun _ => notates_none ?_⟩
      cases htype : b.definitions[k].segmentType with
      | none => rfl
      | some type => exact absurd htype (hnone type)

/-! ## 3. Brackets and the whole book -/

/-- The declared pairs of brackets are references to their names. -/
def PairsLaid (b : GrammarBook) (σ : Layout) : List BracketPair → List BracketDefinition → Prop :=
  List.Forall₂ fun p q => p.type = q.type ∧ p.persists = q.persists ∧
    σ.Inner b p.opening.index (.ref q.opening) ∧ σ.Inner b p.closing.index (.ref q.closing)

theorem PairsLaid.inner {ps : List BracketPair} {qs : List BracketDefinition}
    (h : PairsLaid b σ ps qs) : ∀ p ∈ ps, ∃ q ∈ qs,
      σ.Inner b p.opening.index (.ref q.opening) ∧ σ.Inner b p.closing.index (.ref q.closing) := by
  induction h with
  | nil => simp
  | @cons p q ps qs hpq _ ih =>
    refine List.forall_mem_cons.2 ⟨⟨q, by simp, hpq.2.2⟩, fun p' hp' => ?_⟩
    obtain ⟨q', hq', inner⟩ := ih p' hp'
    exact ⟨q', by simp [hq'], inner⟩

theorem lays_compileBrackets {pairs : List BracketPair} (hl : Laid b σ d)
    (h : b.compileBrackets.run d = .ok (pairs, d')) :
    ∃ σ', Lays b none σ σ' (4 * b.brackets.length) d d' ∧ PairsLaid b σ' pairs b.brackets := by
  unfold compileBrackets at h
  generalize b.brackets = qs at h
  induction qs generalizing σ d pairs with
  | nil =>
    obtain ⟨rfl, rfl⟩ := run_pure_ok h
    exact ⟨σ, .refl hl, .nil⟩
  | cons q qs ih =>
    rw [List.mapM_cons] at h
    obtain ⟨p, d₁, h₁, h⟩ := run_bind_ok h
    obtain ⟨ps, d₂, h₂, h⟩ := run_bind_ok h
    obtain ⟨rfl, rfl⟩ := run_pure_ok h
    obtain ⟨opening, e₁, he₁, h₁⟩ := run_bind_ok h₁
    obtain ⟨closing, e₂, he₂, h₁⟩ := run_bind_ok h₁
    obtain ⟨rfl, rfl⟩ := run_pure_ok h₁
    obtain ⟨σ₁, lays₁, ho⟩ := lays_bareReference he₁ hl
    obtain ⟨σ₂, lays₂, hc⟩ := lays_bareReference he₂ lays₁.laid
    obtain ⟨σ₃, lays₃, hpairs⟩ := ih lays₂.laid h₂
    refine ⟨σ₃, ((lays₁.trans lays₂).trans lays₃).weaken ?_, .cons ⟨rfl, rfl, ?_, ?_⟩ hpairs⟩
    · rw [List.length_cons]
      omega
    · exact ho.mono (lays₂.agrees.trans lays₃.agrees)
    · exact hc.mono lays₃.agrees

/-- What the draft of a whole book holds: each definition in the slot of its name, and in every
other slot a grammar that nothing is noted of for segments. All references lead somewhere else. -/
structure LaidOut (b : GrammarBook) (σ : Layout) (d : Draft) (pairs : List BracketPair) : Prop where
  laid : Laid b σ d
  all : ∀ n, n < d.slots.size → (σ n).isSome = true
  definitions : ∀ (n : Nat) x, b.definitions[n]? = some x →
    σ n = some x.body ∧ NamesSegments d n x
  anonymous : ∀ n, b.definitions.length ≤ n → (d.slot n).segmentType = GrammarId.absent ∧
    (d.slot n).segmentClass = GrammarId.absent
  pairs : PairsLaid b σ pairs b.brackets
  numbers_le : d.numbers ≤ b.weight
  references : ∀ x ∈ d.references, ∃ target, b.slot? x.2 = some target ∧ target ≠ x.1

/-- Where a book asks for less than the greatest number of 32 bits, no slot, text or pattern has
that number. -/
theorem LaidOut.few {pairs : List BracketPair} (h : LaidOut b σ d pairs)
    (hb : b.weight < GrammarId.absent) :
    d.slots.size < GrammarId.absent ∧ d.strings.size < GrammarId.absent ∧
      d.patterns.size < GrammarId.absent := by
  have := h.numbers_le
  unfold numbers at this
  omega

theorem of_checkReferences {refs : List (Nat × String)} (h : b.checkReferences refs = .ok ()) :
    ∀ x ∈ refs, ∃ target, b.slot? x.2 = some target ∧ target ≠ x.1 := by
  induction refs with
  | nil => simp
  | cons x refs ih =>
    obtain ⟨n, name⟩ := x
    rw [checkReferences] at h
    split at h
    · cases h
    · next target htarget =>
      split at h
      · cases h
      · next hne => exact List.forall_mem_cons.2 ⟨⟨target, htarget, hne⟩, ih h⟩

theorem eq_of_run_lift {α : Type} {x : Except GrammarError α} {a : α}
    (h : (liftM x : Compiling α).run d = .ok (a, d')) : x = .ok a := by
  cases x with
  | error e => cases h
  | ok r =>
    cases h
    rfl

/-- Tables are finished from the draft of the whole book. -/
theorem laidOut_of_run {t : Tables} (hwhole : b.isWhole = true)
    (h : b.compileSteps.run {} = .ok (t, d')) :
    ∃ σ d pairs root, LaidOut b σ d pairs ∧ b.slot? b.root = some root ∧
      (b.finish root pairs).run d = .ok (t, d') := by
  obtain ⟨_, d₁, h₁, h⟩ := run_bind_ok h
  obtain ⟨pairs, d₂, h₂, h⟩ := run_bind_ok h
  obtain ⟨_, _, hget, h⟩ := run_bind_ok h
  obtain ⟨_, _, hchecked, hfinish⟩ := run_bind_ok h
  have checked := of_checkReferences (eq_of_run_lift hchecked)
  obtain rfl := run_lift_ok hchecked
  obtain ⟨rfl, rfl⟩ := run_get_ok hget
  obtain ⟨σ₁, upTo⟩ := laidUpTo_compileDefinitions hwhole h₁
  obtain ⟨σ₂, lays, hpairs⟩ := lays_compileBrackets upTo.laid h₂
  have named := upTo.laid.named
  split at hfinish
  · cases hfinish
  next root hroot =>
  refine ⟨σ₂, _, pairs, root, ⟨lays.laid, ?_, ?_, ?_, hpairs, ?_, checked⟩, hroot, hfinish⟩
  · intro n hn
    by_cases hold : n < d₁.slots.size
    · refine Option.isSome_iff_exists.2 ?_
      by_cases hdefined : n < b.definitions.length
      · obtain ⟨hσ, -⟩ := upTo.done n _ hdefined (List.getElem?_eq_getElem hdefined)
        exact ⟨_, lays.agrees n _ hσ⟩
      · obtain ⟨g, hg⟩ := Option.isSome_iff_exists.1 (upTo.inner n (by omega) hold)
        exact ⟨g, lays.agrees n g hg⟩
    · exact lays.new n (by omega) hn
  · intro n x hx
    obtain ⟨hσ, hnames⟩ := upTo.done n x (List.getElem?_eq_some_iff.1 hx).1 hx
    exact ⟨lays.agrees n _ hσ, hnames.mono lays.grows lays.segments⟩
  · intro n hn
    rw [(lays.segments n).1, (lays.segments n).2]
    exact upTo.anonymous n hn
  · have := upTo.numbers_le
    have := lays.grows.numbers_le
    unfold weight
    omega

end GrammarBook

end QueryLint
