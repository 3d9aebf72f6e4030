import QueryLint.Proofs.Grammar.Brackets
import QueryLint.Proofs.Grammar.ReadBack

/-!
QueryLint.Proofs.Grammar.Fits — books that compile.

What a book can be refused for can be seen in the book itself: names that are not defined, lists
that are too long, patterns that cannot be read. If there is nothing of the kind, every step of
compiling succeeds. What a step relies on is an invariant of the draft: it has a slot for every
name, all its references lead to other slots, and all its patterns can be read.

A book that compiles need not be prompt, but greedy repetitions can be looked for in the book too,
and so can what closes its brackets.

* `GrammarBook.fits` — there is nothing to refuse a book for.
* `GrammarBook.Ready` — what the steps of compiling rely on and keep.
* `GrammarBook.compile_of_fits` — a book that fits compiles, into prompt tables if it is prompt.
* `GrammarBook.closersAreTerminal_of_compile` — brackets that are closed by terminals.
-/

namespace QueryLint

/-! ## 1. What can be seen in a book -/

namespace GrammarForm

/-- A book has the names and brackets that a form asks for, and its patterns can be read. -/
def fits (b : GrammarBook) : GrammarForm → Bool
  | ref name => b.contains name
  | bracketed type _ => b.brackets.any (·.type == type)
  | typed _ _ _ trim => trim.length < UInt16.size
  | pattern text anti _ =>
    (TablePattern.read? text).isOk && anti.all fun p => (TablePattern.read? p).isOk
  | _ => true

/-- The form is no greedy repetition of two parts or more. -/
def isPrompt (s : GrammarSettings) : GrammarForm → Bool
  | anyNumberOf _ _ => s.mode != .greedy || s.least ≤ 1
  | _ => true

/-- The form is a reference to a name. -/
def refersTo (name : String) : GrammarForm → Bool
  | ref other => other == name
  | _ => false

end GrammarForm

namespace Grammar

/-- The grammar is a reference to a name. -/
def refersTo (name : String) : Grammar → Bool
  | mk form _ _ _ _ _ => form.refersTo name

/-- The grammar matches one token or none. -/
def isTerminal : Grammar → Bool
  | mk form _ _ _ _ _ => form.instructionKind.isTerminal

mutual

/-- A book has what a grammar asks for, and no list in it is too long. -/
def fits (b : GrammarBook) : Grammar → Bool
  | mk form parts terminators exclude delimiter _ =>
    form.fits b && parts.length < UInt16.size && terminators.length < UInt16.size &&
      allFit b parts && allFit b terminators && optionFits b exclude && optionFits b delimiter

/-- The same for several grammars. -/
def allFit (b : GrammarBook) : List Grammar → Bool
  | [] => true
  | g :: rest => g.fits b && allFit b rest

/-- The same for a grammar that may be missing. -/
def optionFits (b : GrammarBook) : Option Grammar → Bool
  | none => true
  | some g => g.fits b

end

mutual

/-- No grammar inside is a greedy repetition of two parts or more. -/
def isPrompt : Grammar → Bool
  | mk form parts terminators exclude delimiter s =>
    form.isPrompt s && arePrompt parts && arePrompt terminators && optionIsPrompt exclude &&
      optionIsPrompt delimiter

/-- The same for several grammars. -/
def arePrompt : List Grammar → Bool
  | [] => true
  | g :: rest => g.isPrompt && arePrompt rest

/-- The same for a grammar that may be missing. -/
def optionIsPrompt : Option Grammar → Bool
  | none => true
  | some g => g.isPrompt

end

end Grammar

/-- It is no greedy repetition of two parts or more. -/
def Instruction.IsPrompt (i : Instruction) : Prop :=
  i.kind = .anyNumberOf → i.mode = .greedy → i.least ≤ 1

namespace GrammarBook

open Draft

variable {b : GrammarBook} {n : Nat} {α β : Type}

/-- The names of all brackets are defined. -/
def bracketsFit (b : GrammarBook) : Bool :=
  b.brackets.all fun p => b.contains p.opening && b.contains p.closing

/-- There is nothing to refuse a book for: no name is defined twice or by itself, and whatever is
named is there. -/
def fits (b : GrammarBook) : Bool :=
  b.duplicate?.isNone && b.contains b.root && b.bracketsFit &&
    b.definitions.all fun d => d.body.fits b && !d.body.refersTo d.name

/-- No grammar of a book is a greedy repetition of two parts or more. -/
def isPrompt (b : GrammarBook) : Bool := b.definitions.all (·.body.isPrompt)

/-- Every pair of brackets is closed by the name of a grammar that matches one token or none. -/
def closesByTerminals (b : GrammarBook) : Bool :=
  b.brackets.all fun p => b.definitions.all fun d => d.name != p.closing || d.body.isTerminal

theorem exists_slot?_of_contains {name : String} (h : b.contains name = true) :
    ∃ k, b.slot? name = some k := by
  have hmem : name ∈ b.names := by simpa [contains] using h
  have : ¬ b.slot? name = none := by
    intro hnone
    exact absurd hmem (List.idxOf?_eq_none_iff.1 hnone)
  exact Option.ne_none_iff_exists'.1 this

/-! ## 2. Steps that succeed -/

/-- What the steps of compiling rely on: every name has a slot, all references so far lead to the
slots of other names, and all patterns can be read. -/
structure Ready (b : GrammarBook) (d : Draft) : Prop where
  named : b.definitions.length ≤ d.slots.size
  prompt : b.isPrompt = true → ∀ s ∈ d.slots, s.instruction.IsPrompt
  references : ∀ x ∈ d.references, ∃ target, b.slot? x.2 = some target ∧ target ≠ x.1
  patterns : ∀ p ∈ d.patterns, (TablePattern.read? p).isOk = true

/-- From every draft that is ready a step succeeds, and leaves one that is. -/
def Works (b : GrammarBook) (x : Compiling α) (post : α → Prop) : Prop :=
  ∀ d, Ready b d → ∃ a d', x.run d = .ok (a, d') ∧ Ready b d' ∧ post a

/-- A step after one that succeeds. -/
theorem run_bind_of_ok {x : Compiling α} {f : α → Compiling β} {a : α} {d d' : Draft}
    (h : x.run d = .ok (a, d')) : (x >>= f).run d = (f a).run d' := by
  rw [StateT.run_bind, h]
  rfl

namespace Works

variable {x : Compiling α} {post : α → Prop} {post' : β → Prop}

/-- A step that is taken for its effect. -/
theorem run_unit {x : Compiling Unit} (h : Works b x fun _ => True) {d : Draft} (hd : Ready b d) :
    ∃ d', x.run d = .ok ((), d') ∧ Ready b d' := by
  obtain ⟨_, d', hrun, hd', -⟩ := h d hd
  exact ⟨d', hrun, hd'⟩

theorem pure {a : α} (h : post a) : Works b (Pure.pure a) post :=
  fun d hd => ⟨a, d, rfl, hd, h⟩

theorem bind {f : α → Compiling β} (hx : Works b x post)
    (hf : ∀ a, post a → Works b (f a) post') : Works b (x >>= f) post' := by
  intro d hd
  obtain ⟨a, e, hrun, he, ha⟩ := hx d hd
  obtain ⟨r, d', hrun', hd', hr⟩ := hf a ha e he
  exact ⟨r, d', (run_bind_of_ok hrun).trans hrun', hd', hr⟩

theorem get : Works b (MonadState.get : Compiling Draft) (Ready b) :=
  fun d hd => ⟨d, d, rfl, hd, hd⟩

theorem of_modifyGet {f : Draft → α × Draft}
    (h : ∀ d, Ready b d → Ready b (f d).2 ∧ post (f d).1) :
    Works b (MonadStateOf.modifyGet f : Compiling α) post :=
  fun d hd => ⟨(f d).1, (f d).2, rfl, h d hd⟩

theorem of_modify {f : Draft → Draft} (h : ∀ d, Ready b d → Ready b (f d)) :
    Works b (modify f : Compiling PUnit) fun _ => True :=
  of_modifyGet fun d hd => ⟨h d hd, trivial⟩

theorem lift {r : Except GrammarError α} (h : r.isOk = true) :
    Works b (liftM r : Compiling α) fun _ => True := by
  cases r with
  | error e => cases h
  | ok a => exact fun d hd => ⟨a, d, rfl, hd, trivial⟩

theorem mapM {f : α → Compiling β} (xs : List α) (h : ∀ x ∈ xs, Works b (f x) fun _ => True) :
    Works b (xs.mapM f) fun _ => True := by
  induction xs with
  | nil => exact pure trivial
  | cons x xs ih =>
    rw [List.mapM_cons]
    exact bind (h x (by simp)) fun _ _ => bind (ih fun y hy => h y (by simp [hy])) fun _ _ =>
      pure trivial

theorem foldlM {f : β → α → Compiling β} (h : ∀ y x, Works b (f y x) fun _ => True) (xs : List α)
    (y : β) : Works b (xs.foldlM f y) fun _ => True := by
  induction xs generalizing y with
  | nil => exact pure trivial
  | cons x xs ih =>
    rw [List.foldlM_cons]
    exact bind (h y x) fun y' _ => ih y'

theorem forIn {f : α → PUnit → Compiling (ForInStep PUnit)} (xs : List α)
    (h : ∀ x ∈ xs, Works b (f x ⟨⟩) fun r => r = .yield ⟨⟩) :
    Works b (ForIn.forIn xs PUnit.unit f) fun _ => True := by
  induction xs with
  | nil =>
    rw [List.forIn_nil]
    exact pure trivial
  | cons x xs ih =>
    rw [List.forIn_cons]
    refine bind (h x (by simp)) fun r hr => ?_
    subst hr
    exact ih fun y hy => h y (by simp [hy])

/-! ## 3. Steps of compiling -/

/-- A new slot comes behind those of the names. -/
theorem alloc : Works b Compiling.alloc fun n => b.definitions.length ≤ n := by
  refine of_modifyGet fun d hd => ⟨{ hd with named := ?_, prompt := ?_ }, hd.named⟩
  · have := hd.named
    simp only [Array.size_push]
    omega
  · intro hprompt s hs
    rcases Array.mem_push.1 hs with hs | rfl
    · exact hd.prompt hprompt s hs
    · intro hkind
      cases hkind

theorem intern (s : String) : Works b (Compiling.intern s) fun _ => True := by
  refine of_modifyGet fun d hd => ⟨?_, trivial⟩
  split
  · exact hd
  · exact { hd with }

theorem internPattern {p : String} (hp : (TablePattern.read? p).isOk = true) :
    Works b (Compiling.internPattern p) fun _ => True := by
  refine of_modifyGet fun d hd => ⟨?_, trivial⟩
  split
  · exact hd
  · refine { hd with patterns := fun q hq => ?_ }
    rcases Array.mem_push.1 hq with hq | rfl
    · exact hd.patterns q hq
    · exact hp

theorem setSlot {f : Slot → Slot}
    (h : b.isPrompt = true → ∀ s, s.instruction.IsPrompt → (f s).instruction.IsPrompt) :
    Works b (Compiling.setSlot n f) fun _ => True := by
  refine of_modify fun d hd => { hd with named := ?_, prompt := ?_ }
  · simpa using hd.named
  · intro hprompt s hs
    obtain ⟨k, hk, rfl⟩ := Array.mem_iff_getElem.1 hs
    rw [Array.size_modify] at hk
    have old := hd.prompt hprompt d.slots[k] (Array.getElem_mem hk)
    rw [Array.getElem_modify]
    split
    · exact h hprompt _ old
    · exact old

theorem count {what : String} {m : Nat} (h : m < UInt16.size) :
    Works b (Compiling.count what m) fun _ => True := by
  unfold Compiling.count
  rw [if_pos h]
  exact pure trivial

theorem listParts {ids : List Nat} (h : ids.length < UInt16.size) :
    Works b (Compiling.listParts ids) fun _ => True :=
  bind get fun _ _ => bind (count h) fun _ _ => bind (of_modify fun _ hd => { hd with })
    fun _ _ => pure trivial

theorem listTerminators {ids : List Nat} (h : ids.length < UInt16.size) :
    Works b (Compiling.listTerminators ids) fun _ => True :=
  bind get fun _ _ => bind (count h) fun _ _ => bind (of_modify fun _ hd => { hd with })
    fun _ _ => pure trivial

/-- A reference can be made to any other name. -/
theorem reference {name : String} (exclude : Nat) (hname : b.contains name = true)
    (hn : b.slot? name ≠ some n) : Works b (Compiling.reference b n name exclude) fun _ => True := by
  obtain ⟨target, htarget⟩ := exists_slot?_of_contains hname
  have apart : target ≠ n := by
    rintro rfl
    exact hn htarget
  refine bind (of_modify fun d hd => { hd with references := fun x hx => ?_ }) fun _ _ =>
    bind (intern name) fun _ _ => pure trivial
  rcases List.mem_append.1 hx with hx | hx
  · exact hd.references x hx
  · rw [List.mem_singleton.1 hx]
    exact ⟨target, htarget, apart⟩

theorem slot?_ne {name : String} (hn : b.definitions.length ≤ n) : b.slot? name ≠ some n := by
  intro h
  have := slot?_lt h
  omega

theorem bareReference {name : String} (hname : b.contains name = true) :
    Works b (Compiling.bareReference b name) fun _ => True := by
  refine bind alloc fun n hn => bind (reference _ hname (slot?_ne hn)) fun _ _ =>
    bind (listParts (by decide)) fun _ _ => bind (listTerminators (by decide)) fun _ _ =>
      bind (setSlot fun _ _ _ => ?_) fun _ _ => pure trivial
  intro hkind
  cases hkind

end Works

end GrammarBook

/-! ## 4. Grammars -/

namespace Grammar

open GrammarBook GrammarBook.Works

variable {b : GrammarBook} {n : Nat}

/-- The pair of a bracketed grammar is one of those that are declared. -/
theorem works_pairOf {form : GrammarForm} (hfit : form.fits b = true) :
    Works b (pairOf b form) fun pair => ∀ p, pair = some p → p ∈ b.brackets := by
  cases form with
  | bracketed type persists =>
    unfold pairOf
    dsimp only
    split
    · next p hp =>
      refine pure fun q hq => ?_
      cases hq
      exact List.mem_of_find?_eq_some hp
    · next hnone =>
      obtain ⟨p, hp, htype⟩ := List.any_eq_true.1 hfit
      exact absurd htype (by simpa using List.find?_eq_none.1 hnone p hp)
  | _ => exact pure nofun

theorem works_parametersOf (hbrackets : b.bracketsFit = true) {form : GrammarForm}
    (hfit : form.fits b = true) (hn : ∀ name, form.refersTo name = true → b.slot? name ≠ some n) (x y : Nat)
    {pair : Option BracketDefinition} (hpair : ∀ p, pair = some p → p ∈ b.brackets) :
    Works b (parametersOf b n x y pair form) fun _ => True := by
  cases form with
  | ref name => exact reference x hfit (hn name (by simp [GrammarForm.refersTo]))
  | sequence | nothing | anything | token | missing | oneOf | anyNumberOf most perPart
  | delimited least => exact pure trivial
  | bracketed type persists =>
    cases pair with
    | none => exact pure trivial
    | some p =>
      have named := List.all_eq_true.1 hbrackets p (hpair p rfl)
      rw [Bool.and_eq_true] at named
      obtain ⟨hopening, hclosing⟩ := named
      exact bind (bareReference hopening) fun _ _ => bind (bareReference hclosing) fun _ _ =>
        pure trivial
  | string template type =>
    exact bind (intern _) fun _ _ => bind (intern _) fun _ _ => pure trivial
  | multiString templates type =>
    exact bind (intern _) fun _ _ => bind (mapM _ fun _ _ => intern _) fun _ _ => pure trivial
  | typed template type fold trim =>
    have few : trim.length < UInt16.size := by simpa [GrammarForm.fits] using hfit
    exact bind (intern _) fun _ _ => bind (intern _) fun _ _ => bind get fun _ _ =>
      bind (count few) fun _ _ => bind (mapM _ fun _ _ => intern _) fun _ _ =>
        bind (of_modify fun _ hd => { hd with }) fun _ _ =>
          bind (setSlot fun _ _ hs => hs) fun _ _ => pure trivial
  | pattern text anti type =>
    simp only [GrammarForm.fits, Bool.and_eq_true] at hfit
    refine bind (internPattern hfit.1) fun _ _ => ?_
    cases anti with
    | none =>
      have nothing : Works b (Pure.pure GrammarId.absent) fun _ => True := pure trivial
      exact bind nothing fun _ _ => bind (intern _) fun _ _ => pure trivial
    | some p =>
      have readable : (TablePattern.read? p).isOk = true := by simpa using hfit.2
      exact bind (internPattern readable) fun _ _ => bind (intern _) fun _ _ => pure trivial
  | marker kind condition =>
    cases condition with
    | none => exact pure trivial
    | some kv => exact bind (intern _) fun _ _ => bind (intern _) fun _ _ => pure trivial

mutual

/-- A grammar that fits can be compiled into any slot but that of a name it is a reference to. -/
theorem works_compileInto (hbrackets : b.bracketsFit = true) (g : Grammar) {n : Nat}
    (hfit : g.fits b = true) (hprompt : b.isPrompt = true → g.isPrompt = true)
    (hn : ∀ name, g.refersTo name = true → b.slot? name ≠ some n) :
    Works b (g.compileInto b n) fun _ => True := by
  match g with
  | mk form parts terminators exclude delimiter s =>
    unfold fits at hfit
    simp only [Bool.and_eq_true, decide_eq_true_eq] at hfit
    obtain ⟨⟨⟨⟨⟨⟨hform, fewParts⟩, fewTerminators⟩, hparts⟩, hterminators⟩, hexclude⟩, hdelimiter⟩ :=
      hfit
    unfold isPrompt at hprompt
    simp only [Bool.and_eq_true] at hprompt
    unfold compileInto
    refine bind (works_compileAll hbrackets terminators hterminators fun h => (hprompt h).1.1.2)
      fun ends hends => bind (works_compileOption hbrackets exclude hexclude fun h => (hprompt h).1.2)
        fun _ _ => bind (works_pairOf hform) fun pair hpair =>
          bind (works_compileAll hbrackets parts hparts fun h => (hprompt h).1.1.1.2) fun ids hids =>
            bind (works_compileOption hbrackets delimiter hdelimiter fun h => (hprompt h).2) fun _ _ =>
              bind (works_parametersOf hbrackets hform hn _ _ hpair) fun _ _ =>
                bind (listParts (by omega)) fun _ _ => bind (listTerminators (by omega))
                  fun _ _ => setSlot fun h _ _ => ?_
    intro hkind hmode
    have own := (hprompt h).1.1.1.1
    cases form with
    | anyNumberOf most perPart =>
      have hmode : s.mode = .greedy := hmode
      simpa [GrammarForm.isPrompt, hmode] using own
    | _ => cases hkind

/-- Grammars that fit can be compiled into new slots, one each. -/
theorem works_compileAll (hbrackets : b.bracketsFit = true) (gs : List Grammar)
    (hfit : allFit b gs = true)
    (hprompt : b.isPrompt = true → arePrompt gs = true) :
    Works b (compileAll b gs) fun ids => ids.length = gs.length := by
  match gs with
  | [] =>
    unfold compileAll
    exact pure rfl
  | g :: rest =>
    unfold allFit at hfit
    unfold arePrompt at hprompt
    simp only [Bool.and_eq_true] at hfit hprompt
    unfold compileAll
    exact bind alloc fun n hn =>
      bind (works_compileInto hbrackets g hfit.1 (fun h => (hprompt h).1) fun _ _ => slot?_ne hn) fun _ _ =>
        bind (works_compileAll hbrackets rest hfit.2 fun h => (hprompt h).2) fun ids hids =>
          pure (by simp [hids])

theorem works_compileOption (hbrackets : b.bracketsFit = true) (g : Option Grammar)
    (hfit : optionFits b g = true)
    (hprompt : b.isPrompt = true → optionIsPrompt g = true) :
    Works b (compileOption b g) fun _ => True := by
  match g with
  | none =>
    unfold compileOption
    exact pure trivial
  | some g =>
    unfold optionFits at hfit
    unfold optionIsPrompt at hprompt
    unfold compileOption
    exact bind alloc fun n hn =>
      bind (works_compileInto hbrackets g hfit hprompt fun _ _ => slot?_ne hn) fun _ _ => pure trivial

end

end Grammar

/-! ## 5. Books -/

namespace GrammarBook

open Draft Works

variable {b : GrammarBook} {d : Draft}

/-- Before any grammar is compiled, every name gets a slot. -/
theorem run_allocs (xs : List Definition) (k : Nat) :
    (forIn xs PUnit.unit (fun _ _ => do
      discard Compiling.alloc
      return ForInStep.yield PUnit.unit) : Compiling PUnit).run { slots := Array.replicate k {} } =
        .ok (⟨⟩, { slots := Array.replicate (k + xs.length) {} }) := by
  induction xs generalizing k with
  | nil => rfl
  | cons x xs ih =>
    have next := ih (k + 1)
    rw [Array.replicate_succ] at next
    rw [List.forIn_cons, List.length_cons, Nat.add_comm xs.length, ← Nat.add_assoc]
    exact next

theorem ready_names : Ready b { slots := Array.replicate b.definitions.length {} } where
  named := by simp
  prompt _ s hs := by
    obtain ⟨-, rfl⟩ := Array.mem_replicate.1 hs
    intro hkind
    cases hkind
  references := by simp
  patterns := by simp

section
variable (hfits : b.fits = true)
include hfits

/-- The grammar of a definition can be compiled into the slot of its name. -/
theorem works_body {x : Definition} {n : Nat} (hx : b.definitions[n]? = some x) :
    Works b (x.body.compileInto b n) fun _ => True := by
  simp only [fits, Bool.and_eq_true] at hfits
  obtain ⟨⟨-, hbrackets⟩, hbodies⟩ := hfits
  have own := List.all_eq_true.1 hbodies x (List.mem_of_getElem? hx)
  simp only [Bool.and_eq_true, Bool.not_eq_true'] at own
  refine Grammar.works_compileInto hbrackets x.body own.1 (fun hprompt => ?_) fun name hname => ?_
  · exact List.all_eq_true.1 hprompt x (List.mem_of_getElem? hx)
  · intro hslot
    obtain ⟨y, hy, rfl⟩ := slot?_eq_some hslot
    rw [hx] at hy
    cases hy
    rw [hname] at own
    cases own.2

theorem run_compileDefinitions :
    ∃ d, b.compileDefinitions.run {} = .ok ((), d) ∧ Ready b d := by
  have names := run_allocs b.definitions 0
  rw [Nat.zero_add] at names
  show ∃ d, b.compileDefinitions.run { slots := Array.replicate 0 {} } = .ok ((), d) ∧ Ready b d
  unfold compileDefinitions
  rw [run_bind_of_ok names]
  -- Every name has its slot; the grammars are filled in one after the other.
  refine (bind (forIn _ ?_) fun _ _ => pure trivial).run_unit ready_names
  rintro ⟨x, n⟩ hx
  have hx : b.definitions[n]? = some x := List.mem_zipIdx_iff_getElem?.1 hx
  refine bind (works_body hfits hx) fun _ _ => ?_
  split
  · exact bind (intern _) fun _ _ => bind (intern _) fun _ _ =>
      bind (setSlot fun _ _ hs => hs) fun _ _ => pure rfl
  · exact pure rfl

theorem works_compileBrackets : Works b b.compileBrackets fun _ => True := by
  simp only [fits, Bool.and_eq_true] at hfits
  refine mapM _ fun p hp => ?_
  have named := List.all_eq_true.1 hfits.1.2 p hp
  rw [Bool.and_eq_true] at named
  exact bind (bareReference named.1) fun _ _ => bind (bareReference named.2) fun _ _ => pure trivial

end

theorem checkReferences_eq_ok {refs : List (Nat × String)}
    (h : ∀ x ∈ refs, ∃ target, b.slot? x.2 = some target ∧ target ≠ x.1) :
    b.checkReferences refs = .ok () := by
  induction refs with
  | nil => rfl
  | cons x refs ih =>
    obtain ⟨n, name⟩ := x
    obtain ⟨⟨target, htarget, hne⟩, hrefs⟩ := List.forall_mem_cons.1 h
    rw [checkReferences, htarget]
    dsimp only
    rw [if_neg hne]
    exact ih hrefs

theorem works_push (h : HintTables) (f : Option FirstSet) : Works b (h.push f) fun _ => True := by
  cases f with
  | none => exact pure trivial
  | some f =>
    exact bind (mapM _ fun _ _ => intern _) fun _ _ => bind (mapM _ fun _ _ => intern _)
      fun _ _ => pure trivial

theorem works_read (hd : Ready b d) :
    Works b (d.patterns.mapM fun p => (TablePattern.read? p : Compiling TablePattern))
      fun _ => True := by
  rw [Array.mapM_eq_mapM_toList, ← bind_pure_comp]
  refine bind (mapM _ fun p hp => lift ?_) fun _ _ => pure trivial
  exact hd.patterns p (Array.mem_toList_iff.1 hp)

/-- Hints are numbered, and patterns read. -/
theorem works_finish (root : Nat) (pairs : List BracketPair) :
    Works b (b.finish root pairs) fun _ => True :=
  bind get fun _ _ => bind (foldlM works_push _ _) fun _ _ => bind get fun _ hd =>
    bind (works_read hd) fun _ _ => pure trivial

/-- A book that fits compiles. If it is prompt, so are its tables. -/
theorem compile_of_fits (hwhole : b.isWhole = true) (hb : b.weight < GrammarId.absent)
    (hfits : b.fits = true) :
    ∃ t, b.compile = .ok t ∧ (b.isPrompt = true → t.IsPrompt) := by
  obtain ⟨d₁, h₁, hd₁⟩ := run_compileDefinitions hfits
  obtain ⟨pairs, d, h₂, hd, -⟩ := works_compileBrackets hfits d₁ hd₁
  have checks := hfits
  simp only [fits, Bool.and_eq_true, Option.isNone_iff_eq_none] at checks
  obtain ⟨root, hroot⟩ := exists_slot?_of_contains checks.1.1.2
  obtain ⟨t, d', h₃, -⟩ := works_finish root pairs d hd
  have hrun : b.compileSteps.run {} = .ok (t, d') := by
    refine (run_bind_of_ok h₁).trans ((run_bind_of_ok h₂).trans ?_)
    refine (run_bind_of_ok (a := d) rfl).trans ?_
    rw [checkReferences_eq_ok hd.references, hroot]
    exact h₃
  refine ⟨t, ?_, fun hprompt id hkind => ?_⟩
  · unfold compile
    rw [checks.1.1.1]
    show (b.compileSteps.run {} >>= _) = _
    rw [hrun]
    show (t.validate >>= _) = _
    rw [validate_of_run hwhole hb hrun]
    rfl
  · obtain ⟨hinted, hi⟩ := (filed_of_run h₃).carries.instruction id.index
    have found : t.instruction id = _ := hi
    rw [found] at hkind ⊢
    by_cases hlt : id.index < d.slots.size
    · have slot : d.slot id.index = d.slots[id.index] := getElem?_slot (Array.getElem?_eq_getElem hlt)
      rw [slot] at hkind ⊢
      exact hd.prompt hprompt _ (Array.getElem_mem hlt) hkind
    · have slot : d.slot id.index = {} := by
        rw [Draft.slot, Array.getD_eq_getD_getElem?, Array.getElem?_eq_none (by omega)]
        rfl
      rw [slot] at hkind
      cases hkind

/-! ## 6. What closes brackets -/

theorem PairsLaid.closing {σ : Layout} {ps : List BracketPair} {qs : List BracketDefinition}
    (h : PairsLaid b σ ps qs) :
    ∀ p ∈ ps, ∃ q ∈ qs, σ.Inner b p.closing.index (.ref q.closing) := by
  induction h with
  | nil => simp
  | @cons p q ps qs hpq _ ih =>
    refine List.forall_mem_cons.2 ⟨⟨q, by simp, hpq.2.2.2⟩, fun p' hp' => ?_⟩
    obtain ⟨q', hq', hinner⟩ := ih p' hp'
    exact ⟨q', by simp [hq'], hinner⟩

/-- What closes the brackets of compiled tables is what the names in the book stand for. -/
theorem closersAreTerminal_of_compile (hwhole : b.isWhole = true) (hb : b.weight < GrammarId.absent)
    (hclose : b.closesByTerminals = true) {t : Tables} (h : b.compile = .ok t) :
    t.ClosersAreTerminal := by
  obtain ⟨-, d', hrun⟩ := run_compileSteps h
  obtain ⟨σ, d, pairs, root, laid, -, hfinish⟩ := laidOut_of_run hwhole hrun
  have filed := filed_of_run hfinish
  intro p hp
  rw [filed.finished.pairs_eq] at hp
  obtain ⟨q, hq, hinner⟩ := laid.pairs.closing p hp
  have reads := filed.readsReference laid hb hinner
  obtain ⟨n, hslot, hshape⟩ := reads.shape
  have kind : (t.instruction p.closing).kind = .ref := reads.settings.kind_eq
  have target : GrammarId.ofSlot? (t.parameter p.closing 1) = some ⟨n⟩ := by
    unfold Tables.shape at hshape
    rw [show (t.instruction ⟨p.closing.index⟩).kind = .ref from kind] at hshape
    exact (Shape.ref.inj hshape).2.1
  have present : t.parameter p.closing 1 = n ∧ t.parameter p.closing 1 ≠ GrammarId.absent := by
    unfold GrammarId.ofSlot? at target
    split at target
    · cases target
    · next hne => exact ⟨congrArg GrammarId.index (Option.some.inj target), hne⟩
  refine ⟨kind, present.2, ?_⟩
  obtain ⟨x, hx, hname⟩ := slot?_eq_some hslot
  have terminal : x.body.isTerminal = true := by
    have := List.all_eq_true.1 (List.all_eq_true.1 hclose q hq) x (List.mem_of_getElem? hx)
    simpa [hname] using this
  rw [present.1]
  have holds := laid.laid.holds n x.body (laid.definitions n x hx).1
  cases hbody : x.body with
  | mk form parts terminators exclude delimiter settings =>
    rw [hbody] at holds terminal
    obtain ⟨s, ids, ends, i, j, y, z, held⟩ := holds
    rw [filed.kind_eq held]
    exact terminal

end GrammarBook

end QueryLint
