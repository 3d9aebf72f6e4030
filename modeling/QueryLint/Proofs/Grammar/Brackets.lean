import QueryLint.Proofs.Grammar.Draft
import QueryLint.Proofs.Match.Grammar

/-!
QueryLint.Proofs.Grammar.Brackets — the brackets in the tables of a book.

In compiled tables a bracketed grammar names its brackets by references of its own, and the declared
pairs name theirs by other references. Both lead to the same grammars, so matching always finds the
declared pair of a bracketed grammar.

What closes a pair should be one token. Whether a grammar takes one token is a question about every
state that matching can be in, since the memo may answer. For a reference to a terminal grammar it
can be read off the tables: what the memo holds of the terminal was matched by the terminal.

* `GrammarBook.HoldsSlots` — the tables of a draft, slot by slot.
* `GrammarBook.Finished` — tables hold the slots of a draft.
* `Tables.ClosersTakeOneToken` — what closes a declared pair of brackets is one token.
* `GrammarBook.exactBrackets_of_compile` — then the brackets of compiled tables are exact.
* `MatchContext.reachable_matchGrammar` — matching leads from reachable states to reachable ones.
* `MatchContext.takesOneToken_of_terminal` — a reference to a terminal takes one token.
* `Tables.closersTakeOneToken_of_terminal` — brackets that are terminals take one token each.
-/

namespace QueryLint

/-- Wherever it is matched, what closes a declared pair of brackets takes one token. -/
def Tables.ClosersTakeOneToken (t : Tables) : Prop :=
  ∀ c : MatchContext, c.tables = t → ∀ p ∈ t.bracketPairs, c.TakesOneToken p.closing

namespace GrammarBook

open Draft

variable {b : GrammarBook} {d d' : Draft} {t : Tables}

/-! ## 1. From slots to tables -/

theorem getElem?_offsets_zero (start : Nat) (xss : List (List Nat)) :
    (offsets start xss)[0]? = some start := by
  cases xss <;> rfl

/-- Lists put one after the other are found again by where they start and end. -/
theorem getElem?_offsets (start : Nat) {i : Nat} {xss : List (List Nat)} {xs : List Nat}
    (h : xss[i]? = some xs) :
    ∃ a, (offsets start xss)[i]? = some a ∧ (offsets start xss)[i + 1]? = some (a + xs.length) ∧
      start ≤ a ∧ ∀ k, k < xs.length → xss.flatten[a - start + k]? = xs[k]? := by
  induction xss generalizing start i with
  | nil => simp at h
  | cons ys yss ih =>
    cases i with
    | zero =>
      obtain rfl : ys = xs := by simpa using h
      refine ⟨start, rfl, ?_, Nat.le_refl _, fun k hk => ?_⟩
      · rw [offsets, List.getElem?_cons_succ, getElem?_offsets_zero]
      · rw [Nat.sub_self, Nat.zero_add, List.flatten_cons, List.getElem?_append_left hk]
    | succ i =>
      rw [List.getElem?_cons_succ] at h
      obtain ⟨a, ha, hb, hle, hget⟩ := ih (start + ys.length) h
      refine ⟨a, ?_, ?_, by omega, fun k hk => ?_⟩
      · rw [offsets, List.getElem?_cons_succ, ha]
      · rw [offsets, List.getElem?_cons_succ, hb]
      · rw [List.flatten_cons, List.getElem?_append_right (by omega), ← hget k hk]
        congr 1
        omega

/-- The end of every list lies within all of them together. -/
theorem offsets_le {start : Nat} {xss : List (List Nat)} {i a : Nat}
    (h : (offsets start xss)[i]? = some a) : a ≤ start + xss.flatten.length := by
  induction xss generalizing start i with
  | nil =>
    cases i with
    | zero => simp_all [offsets]
    | succ i => simp [offsets] at h
  | cons xs xss ih =>
    cases i with
    | zero => simp_all [offsets]
    | succ i =>
      have := ih (by simpa [offsets] using h)
      simp only [List.flatten_cons, List.length_append]
      omega

/-- Tables hold slots: the instructions, each with a hint if it has a first set, and the parameters,
one list after the other. -/
structure HoldsSlots (slots : List Slot) (firsts : List (Option FirstSet)) (t : Tables) : Prop where
  instructions : t.instructions = ((slots.zip firsts).map fun x => { x.1.instruction with
    flags := { x.1.instruction.flags with hasHint := x.2.isSome } }).toArray
  aux : t.aux = (slots.map (·.parameters)).flatten.toArray
  auxOffsets : t.auxOffsets = (offsets 0 (slots.map (·.parameters))).toArray

namespace HoldsSlots

variable {slots : List Slot} {firsts : List (Option FirstSet)}

theorem size_eq (h : HoldsSlots slots firsts t) (hlength : firsts.length = slots.length) :
    t.size = slots.length := by
  rw [Tables.size, h.instructions]
  simp [hlength]

theorem instruction_eq (h : HoldsSlots slots firsts t) {n : Nat} {s : Slot} {f : Option FirstSet}
    (hs : slots[n]? = some s) (hf : firsts[n]? = some f) :
    t.instruction ⟨n⟩ = { s.instruction with
      flags := { s.instruction.flags with hasHint := f.isSome } } := by
  have both : (slots.zip firsts)[n]? = some (s, f) := List.getElem?_zip_eq_some.2 ⟨hs, hf⟩
  rw [Tables.instruction, h.instructions, Array.getD_eq_getD_getElem?, List.getElem?_toArray,
    List.getElem?_map, both]
  rfl

/-- What a number in the tables stands for was in a slot. -/
theorem exists_slot (h : HoldsSlots slots firsts t) {n : Nat} (hn : n < t.size) :
    ∃ s f, slots[n]? = some s ∧ firsts[n]? = some f := by
  rw [Tables.size, h.instructions] at hn
  simp only [List.size_toArray, List.length_map, List.length_zip] at hn
  exact ⟨slots[n], firsts[n], List.getElem?_eq_getElem (by omega),
    List.getElem?_eq_getElem (by omega)⟩

/-- The parameters of a slot are where its offset says, up to the next offset. -/
theorem parameters_at (h : HoldsSlots slots firsts t) {n : Nat} {s : Slot}
    (hs : slots[n]? = some s) :
    t.auxOffsets.getD (n + 1) 0 = t.auxOffsets.getD n 0 + s.parameters.length ∧
      t.auxOffsets.getD (n + 1) 0 ≤ t.aux.size ∧
      ∀ k, k < s.parameters.length →
        t.aux[t.auxOffsets.getD n 0 + k]? = s.parameters[k]? := by
  have listed : (slots.map (·.parameters))[n]? = some s.parameters := by
    rw [List.getElem?_map, hs]
    rfl
  obtain ⟨a, ha, hb, -, found⟩ := getElem?_offsets 0 listed
  have offset : t.auxOffsets.getD n 0 = a := by
    rw [h.auxOffsets, Array.getD_eq_getD_getElem?, List.getElem?_toArray, ha]
    rfl
  have next : t.auxOffsets.getD (n + 1) 0 = a + s.parameters.length := by
    rw [h.auxOffsets, Array.getD_eq_getD_getElem?, List.getElem?_toArray, hb]
    rfl
  refine ⟨by rw [offset, next], ?_, fun k hk => ?_⟩
  · rw [next, h.aux, List.size_toArray]
    have := offsets_le hb
    rwa [Nat.zero_add] at this
  · rw [offset, h.aux, List.getElem?_toArray, ← found k hk, Nat.sub_zero]

end HoldsSlots

/-- Tables hold the slots of a draft: their kinds and their parameters. -/
structure Finished (d : Draft) (pairs : List BracketPair) (t : Tables) : Prop where
  pairs_eq : t.bracketPairs = pairs
  kind : ∀ n, n < t.size → ∃ s, d.slots[n]? = some s ∧
    (t.instruction ⟨n⟩).kind = s.instruction.kind
  parameter : ∀ (n : Nat) s, d.slots[n]? = some s → ∀ k x, s.parameters[k]? = some x →
    t.parameter ⟨n⟩ k = x ∧ t.aux.getD (t.auxOffsets.getD n 0 + k) GrammarId.absent = x

theorem keepsSlots_push (h : HintTables) (f : Option FirstSet) : KeepsSlots (h.push f) := by
  cases f with
  | none => exact .pure _
  | some f =>
    exact .bind (.mapM _ fun _ _ => .intern _) fun _ =>
      .bind (.mapM _ fun _ _ => .intern _) fun _ => .pure _

theorem keepsSlots_pushAll (h : HintTables) (fs : List (Option FirstSet)) :
    KeepsSlots (fs.foldlM (fun h f => h.push f) h) := by
  induction fs generalizing h with
  | nil => exact .pure h
  | cons f fs ih =>
    rw [List.foldlM_cons]
    exact .bind (keepsSlots_push h f) fun h' => ih h'

/-- The finished tables hold the slots, with the first sets that are found for them. -/
theorem holdsSlots_of_run {root : Nat} {pairs : List BracketPair}
    (h : (b.finish root pairs).run d = .ok (t, d')) :
    HoldsSlots d.slots.toList d.allHints t ∧ t.bracketPairs = pairs := by
  obtain ⟨_, d₁, h₁, hrun₁⟩ := run_bind_ok h
  obtain ⟨rfl, rfl⟩ := run_get_ok h₁
  obtain ⟨hints, d₂, h₂, hrun₂⟩ := run_bind_ok hrun₁
  obtain ⟨_, d₃, h₃, hrun₃⟩ := run_bind_ok hrun₂
  obtain ⟨rfl, rfl⟩ := run_get_ok h₃
  obtain ⟨patterns, d₄, -, hrun₄⟩ := run_bind_ok hrun₃
  have same : d₃.slots = d₁.slots := keepsSlots_pushAll _ _ _ _ _ h₂
  obtain ⟨ht, -⟩ := run_pure_ok hrun₄
  rw [ht, ← same]
  exact ⟨⟨rfl, rfl, rfl⟩, rfl⟩

/-- The finished tables say what is in the slots. -/
theorem finished_of_run {root : Nat} {pairs : List BracketPair}
    (h : (b.finish root pairs).run d = .ok (t, d')) : Finished d pairs t := by
  obtain ⟨holds, hpairs⟩ := holdsSlots_of_run h
  refine ⟨hpairs, fun n hn => ?_, fun n s hs k x hx => ?_⟩
  · obtain ⟨s, f, hs, hf⟩ := holds.exists_slot hn
    exact ⟨s, by rw [← Array.getElem?_toList, hs], by rw [holds.instruction_eq hs hf]⟩
  · obtain ⟨next, -, values⟩ :=
      holds.parameters_at (show d.slots.toList[n]? = some s by rw [Array.getElem?_toList, hs])
    have hk : k < s.parameters.length := (List.getElem?_eq_some_iff.1 hx).1
    have found : t.aux.getD (t.auxOffsets.getD n 0 + k) GrammarId.absent = x := by
      rw [Array.getD_eq_getD_getElem?, values k hk, hx]
      rfl
    refine ⟨?_, found⟩
    unfold Tables.parameter
    dsimp only
    rw [next, if_pos (by omega), found]

/-- Compiled tables hold the slots of a settled draft, and have been checked. -/
theorem settled_of_compile (h : b.compile = .ok t) :
    t.validate = .ok () ∧ ∃ d pairs, Settled b d ∧ Finished d pairs t ∧
      (∀ p ∈ pairs, ∃ q ∈ b.brackets, IsReference b d p.opening.index q.opening ∧
        IsReference b d p.closing.index q.closing) ∧
      ∀ q ∈ b.brackets, ∃ p ∈ pairs, IsReference b d p.opening.index q.opening := by
  obtain ⟨hvalid, _, d₁, pairs, d₂, root, d₃, h₁, h₂, hfinish⟩ := run_of_compile h
  obtain ⟨extended, declared, openings⟩ := run_compileBrackets_ok h₂
  exact ⟨hvalid, d₂, pairs, extended.settled (settled_compileDefinitions h₁),
    finished_of_run hfinish, declared, openings⟩

/-! ## 2. What brackets refer to -/

/-- An instruction refers to a grammar. -/
def RefersTo (t : Tables) (id target : GrammarId) : Prop :=
  ∃ name x, t.shape id = .ref name (some target) x

/-- Where all that is checked of tables holds, it holds of one instruction. -/
theorem holds_of_validate (h : t.validate = .ok ()) {n : Nat} (hn : n < t.size) {check : TableCheck}
    (hc : check ∈ t.instructionChecks n (t.instruction ⟨n⟩)) : check.holds = true := by
  refine t.validate_eq_ok_iff.1 h check ?_
  unfold Tables.checks
  refine List.mem_append_left _ (List.mem_append_right _ (List.mem_flatMap.2
    ⟨(t.instruction ⟨n⟩, n), ?_, hc⟩))
  rw [List.mem_zipIdx_iff_getElem?]
  simp only [Tables.size] at hn
  simp [Tables.instruction, hn]

/-- A parameter check of checked tables holds. -/
theorem holds_of_parameterChecks (h : t.validate = .ok ()) {n : Nat} (hn : n < t.size)
    {check : TableCheck}
    (hc : check ∈ t.parameterChecks n (t.instruction ⟨n⟩) (t.auxOffsets.getD n 0)
      (t.auxOffsets.getD (n + 1) 0)) : check.holds = true :=
  holds_of_validate h hn (List.mem_append_left _ (List.mem_append_left _ (List.mem_append_right _
    (List.mem_cons_of_mem _ hc))))

/-- A reference of checked tables leads to a grammar. -/
theorem target_ne_absent (h : t.validate = .ok ()) {n : Nat} (hn : n < t.size)
    (hkind : (t.instruction ⟨n⟩).kind = .ref) :
    t.aux.getD (t.auxOffsets.getD n 0 + 1) GrammarId.absent ≠ GrammarId.absent := by
  have listed : (⟨decide (t.aux.getD (t.auxOffsets.getD n 0 + 1) GrammarId.absent ≠
      GrammarId.absent), .unknownReference (t.string (t.aux.getD (t.auxOffsets.getD n 0 + 0)
      GrammarId.absent))⟩ : TableCheck) ∈ t.parameterChecks n (t.instruction ⟨n⟩)
      (t.auxOffsets.getD n 0) (t.auxOffsets.getD (n + 1) 0) := by
    simp [Tables.parameterChecks, hkind]
  simpa using holds_of_parameterChecks h hn listed

/-- A reference to a name refers to the grammar of the name. -/
theorem refersTo_of_isReference (hvalid : t.validate = .ok ()) {pairs : List BracketPair}
    (hf : Finished d pairs t) {n : Nat} {name : String} (hn : n < t.size)
    (h : IsReference b d n name) :
    (t.instruction ⟨n⟩).kind = .ref ∧
      RefersTo t ⟨n⟩ ⟨(b.slot? name).getD GrammarId.absent⟩ := by
  obtain ⟨s, k, hs, hkind, hp⟩ := h
  obtain ⟨s', hs', hkind'⟩ := hf.kind n hn
  rw [hs] at hs'
  cases hs'
  rw [hkind] at hkind'
  refine ⟨hkind', ?_⟩
  obtain ⟨target, target'⟩ := hf.parameter n s hs 1 ((b.slot? name).getD GrammarId.absent)
    (by rw [hp]; rfl)
  have present := target_ne_absent hvalid hn hkind'
  rw [target'] at present
  unfold RefersTo Tables.shape
  rw [hkind']
  simp [target, GrammarId.ofSlot?, present]

/-- The brackets of a declared pair are instructions. -/
theorem lt_size_of_mem_bracketPairs (h : t.validate = .ok ()) {p : BracketPair}
    (hp : p ∈ t.bracketPairs) : p.opening.index < t.size ∧ p.closing.index < t.size := by
  have holds : ∀ id ∈ [p.opening, p.closing], id.index < t.size := by
    intro id hid
    have listed : (⟨t.hasInstruction id.index, .childOutOfRange id.index id.index⟩ : TableCheck) ∈
        t.checks :=
      List.mem_append_right _ (List.mem_flatMap.2 ⟨p, hp, List.mem_map.2 ⟨id, hid, rfl⟩⟩)
    simpa [Tables.hasInstruction] using t.validate_eq_ok_iff.1 h _ listed
  exact ⟨holds p.opening (by simp), holds p.closing (by simp)⟩

theorem kind_of_shape_bracketed {id : GrammarId} {pair : Option (GrammarId × GrammarId × Bool)}
    (h : t.shape id = .bracketed pair) : (t.instruction id).kind = .bracketed := by
  unfold Tables.shape at h
  dsimp only at h
  split at h <;> first | assumption | cases h

/-- The opening bracket of a bracketed grammar is its first parameter, and the last one says whether
the brackets make a segment. -/
theorem parameters_of_shape {id opening closing : GrammarId} {persists : Bool}
    (h : t.shape id = .bracketed (some (opening, closing, persists))) :
    opening.index = t.parameter id 0 ∧ persists = (t.parameter id 2 != 0) := by
  have hkind := kind_of_shape_bracketed h
  unfold Tables.shape at h
  rw [hkind] at h
  simp only [Shape.bracketed.injEq, bind, Option.bind, GrammarId.ofSlot?] at h
  split at h
  · cases h
  · next o ho =>
    split at h
    · cases h
    · cases h
      split at ho
      · cases ho
      · cases ho
        exact ⟨rfl, rfl⟩

/-- The opening bracket of a bracketed grammar refers to the same grammar as that of a declared
pair. -/
theorem declared_of_compile (h : b.compile = .ok t) {id opening closing : GrammarId}
    {persists : Bool} (hs : t.shape id = .bracketed (some (opening, closing, persists))) :
    ∃ p ∈ t.bracketPairs, ∃ target, RefersTo t p.opening target ∧ RefersTo t opening target := by
  obtain ⟨hvalid, d, pairs, settled, hf, -, openings⟩ := settled_of_compile h
  have hkind := kind_of_shape_bracketed hs
  have hid : id.index < t.size := Tables.lt_size_of_kind (by simp [hkind])
  obtain ⟨s, hslot, hkind'⟩ := hf.kind id.index hid
  obtain ⟨q, hq, o, _, _, hp, ho, -⟩ := settled id.index s hslot (hkind'.symm.trans hkind)
  obtain ⟨first, first'⟩ := hf.parameter id.index s hslot 0 o (by rw [hp]; rfl)
  obtain rfl : opening = ⟨o⟩ := by
    have := (parameters_of_shape hs).1
    rw [first] at this
    cases opening
    cases this
    rfl
  have opening_lt : o < t.size := by
    have listed : (⟨t.hasInstruction (t.aux.getD (t.auxOffsets.getD id.index 0 + 0)
        GrammarId.absent), .childOutOfRange id.index (t.aux.getD (t.auxOffsets.getD id.index 0 + 0)
        GrammarId.absent)⟩ : TableCheck) ∈ t.parameterChecks id.index (t.instruction ⟨id.index⟩)
        (t.auxOffsets.getD id.index 0) (t.auxOffsets.getD (id.index + 1) 0) := by
      simp [Tables.parameterChecks, hkind, Tables.partChecks]
    have holds := holds_of_parameterChecks hvalid hid listed
    rw [first'] at holds
    simpa [Tables.hasInstruction] using holds
  obtain ⟨p, hpair, hopen⟩ := openings q hq
  refine ⟨p, by rw [hf.pairs_eq]; exact hpair, ⟨(b.slot? q.opening).getD GrammarId.absent⟩, ?_,
    (refersTo_of_isReference hvalid hf opening_lt ho).2⟩
  have hmem : p ∈ t.bracketPairs := by rw [hf.pairs_eq]; exact hpair
  exact (refersTo_of_isReference hvalid hf (lt_size_of_mem_bracketPairs hvalid hmem).1 hopen).2

/-- Two references to the same grammar lead to the same grammar. -/
theorem resolve_eq_of_refersTo {c : MatchContext} {a a' target : GrammarId}
    (ha : RefersTo c.tables a target) (ha' : RefersTo c.tables a' target) :
    c.resolve a = c.resolve a' := by
  obtain ⟨name, x, hshape⟩ := ha
  obtain ⟨name', x', hshape'⟩ := ha'
  have follow_eq (n : Nat) :
      MatchContext.resolve.follow c (n + 1) a = MatchContext.resolve.follow c (n + 1) a' := by
    rw [MatchContext.resolve.follow, MatchContext.resolve.follow, hshape, hshape']
  have size_pos : c.tables.size ≠ 0 := by
    intro hsize
    unfold Tables.shape at hshape
    rw [Tables.instruction_of_size_le (by omega)] at hshape
    cases hshape
  unfold MatchContext.resolve
  obtain ⟨n, hn⟩ := Nat.exists_eq_succ_of_ne_zero size_pos
  rw [hn]
  exact follow_eq n

/-- What opens and what closes a declared pair of brackets are references. -/
theorem kind_of_mem_bracketPairs (h : b.compile = .ok t) {p : BracketPair}
    (hp : p ∈ t.bracketPairs) :
    (t.instruction p.opening).kind = .ref ∧ (t.instruction p.closing).kind = .ref := by
  obtain ⟨hvalid, d, pairs, -, hf, declared, -⟩ := settled_of_compile h
  obtain ⟨q, -, ho, hc⟩ := declared p (by rw [← hf.pairs_eq]; exact hp)
  obtain ⟨opening_lt, closing_lt⟩ := lt_size_of_mem_bracketPairs hvalid hp
  exact ⟨(refersTo_of_isReference hvalid hf opening_lt ho).1,
    (refersTo_of_isReference hvalid hf closing_lt hc).1⟩

/-- The brackets of compiled tables are exact if what closes them takes one token. -/
theorem exactBrackets_of_compile (h : b.compile = .ok t) (hone : t.ClosersTakeOneToken)
    {c : MatchContext} (hc : c.tables = t) : c.ExactBrackets := by
  subst hc
  refine ⟨fun id opening closing persists hshape => ?_, fun p hp => ?_, hone c rfl⟩
  · obtain ⟨p, hp, target, ho, ho'⟩ := declared_of_compile h hshape
    exact ⟨p, hp, resolve_eq_of_refersTo ho ho'⟩
  · exact (kind_of_mem_bracketPairs h hp).2

end GrammarBook

open Matching

namespace MatchContext

variable {c : MatchContext}

/-! ## 3. Reachable states -/

/-- What the memo holds in a reachable state is as sound as what is matched. -/
theorem Reachable.invariant_of {apart prompt : Prop} (hapart : apart → c.ExactBrackets)
    (hprompt : prompt → c.tables.IsPrompt) {s : MatchState} (h : c.Reachable s) :
    Invariant c apart prompt s := by
  induction h with
  | initial => exact .initial
  | note notes _ ih => exact ih.note notes
  | @keep s s' m n limit i ts g _ run _ ih ih' =>
    exact ih.keep run ih' ((sound_matchGrammar hapart hprompt n ts limit i g).of_run ih run).1

theorem Reachable.invariant {s : MatchState} (h : c.Reachable s) : Invariant c False False s :=
  h.invariant_of False.elim False.elim

/-- Matching leads from reachable states to reachable states. -/
theorem reachable_matchGrammar (n : Nat) (ts : List GrammarId) (limit i : Nat) (g : GrammarId) :
    Meets c.Reachable (c.matchGrammar n ts limit i g) fun _ => True :=
  fun s hs => ⟨trivial,
    (sound_matchGrammar False.elim False.elim n ts limit i g s hs.invariant).2.reachable⟩

/-! ## 4. Terminals -/

section Terminals

variable (limit i : Nat)

theorem isOne_matchCode (type : String) (test : TokenView → Bool) :
    (c.matchCode limit i type test).IsOne := by
  unfold matchCode
  split
  · split
    · exact .single i _
    · exact .empty i
  · exact .empty i

theorem isOne_matchTyped (id : GrammarId) (template type : String) :
    (c.matchTyped limit i id template type).IsOne := by
  unfold matchTyped
  split
  · split
    · exact .single i _
    · exact .empty i
  · exact .empty i

theorem isOne_matchPattern (text anti : Option TablePattern) (type : String) :
    (c.matchPattern limit i text anti type).IsOne := by
  unfold matchPattern
  split
  · exact .empty i
  · exact isOne_matchCode limit i _ _

/-- A terminal grammar takes one token, whatever is in the memo. -/
theorem isOne_matchOne {here below below2 : Matcher} {id : GrammarId}
    (h : (c.tables.instruction id).kind.isTerminal = true) (ts : List GrammarId) (s : MatchState) :
    ((c.matchOne here below below2 ts limit i id).run s).1.IsOne := by
  have shaped : ∃ m : Match, m.IsOne ∧ c.matchShape here below below2 ts limit i id = pure m := by
    unfold matchShape Tables.shape
    cases hkind : (c.tables.instruction id).kind with
    | string => exact ⟨_, isOne_matchCode limit i _ _, rfl⟩
    | multiString => exact ⟨_, isOne_matchCode limit i _ _, rfl⟩
    | typed => exact ⟨_, isOne_matchTyped limit i id _ _, rfl⟩
    | pattern => exact ⟨_, isOne_matchPattern limit i _ _ _, rfl⟩
    | token =>
      refine ⟨_, ?_, rfl⟩
      split
      · exact .single i none
      · exact .empty i
    | _ => rw [hkind] at h; cases h
  obtain ⟨m, hm, hshape⟩ := shaped
  unfold matchOne
  rw [hshape]
  exact hm.wrap? _

end Terminals

theorem isOne_matchGrammar {id : GrammarId}
    (h : (c.tables.instruction id).kind.isTerminal = true) (n : Nat) (ts : List GrammarId)
    (limit i : Nat) (s : MatchState) : ((c.matchGrammar n ts limit i id).run s).1.IsOne := by
  cases n with
  | zero => exact .empty i
  | succ n =>
    rw [matchGrammar_succ, matchLevel]
    exact isOne_matchOne limit i h ts s

/-- What the memo holds of a terminal grammar is one token. -/
theorem Reachable.isOne {s : MatchState} (h : c.Reachable s) {id : GrammarId}
    (hid : (c.tables.instruction id).kind.isTerminal = true) {key : MemoKey} {m : Match}
    (hm : s.memo[key]? = some m) (hkey : key.grammar = id) : m.IsOne := by
  have all : ∀ (key : MemoKey) m, s.memo[key]? = some m → key.grammar = id → m.IsOne := by
    clear hm
    induction h with
    | initial => simp
    | note notes _ ih => exact ih
    | @keep s s' m' n limit i ts g _ run _ _ ih' =>
      refine forall_memo_insert ih' ?_
      rintro rfl
      have one := isOne_matchGrammar hid n ts limit i s
      rw [run] at one
      exact one
  exact all key m hm hkey

/-- A reference to a terminal grammar takes one token. -/
theorem takesOneToken_of_terminal {id target : GrammarId} {name : String}
    {exclude : Option GrammarId} (hshape : c.tables.shape id = .ref name (some target) exclude)
    (h : (c.tables.instruction target).kind.isTerminal = true) : c.TakesOneToken id := by
  have one (n : Nat) (ts : List GrammarId) (limit i : Nat) :
      Meets c.Reachable (c.matchGrammar n ts limit i id) Match.IsOne := by
    cases n with
    | zero => exact .pure (.empty i)
    | succ n =>
      have below := reachable_matchGrammar (c := c) n
      rw [matchGrammar_succ, matchLevel]
      unfold matchOne matchShape
      rw [hshape]
      refine Meets.bind (Q := Match.IsOne) ?_ fun m hm => .pure (hm.wrap? _)
      unfold matchReference
      dsimp only
      have excluded (ts : List GrammarId) :
          Meets c.Reachable (matchesExcluded (c.matchGrammar n) ts limit i exclude)
            fun _ => True := by
        cases exclude with
        | none => exact .pure trivial
        | some x => exact (below ts limit i x).bind fun _ _ => .pure trivial
      refine (excluded _).bind fun found _ => ?_
      split
      · exact .pure (.empty i)
      · refine meets_memoized
          (fun s hs => ⟨isOne_matchGrammar h n _ limit i s, (below _ _ _ _ s hs).2⟩)
          (fun s m hs hm => hs.isOne h hm rfl) fun s hs => ?_
        exact hs.keep rfl (below _ limit i target s hs).2
  exact fun n ts limit i s hs => (one n ts limit i s hs).1

end MatchContext

/-- What closes every declared pair of brackets refers to a terminal grammar. -/
def Tables.ClosersAreTerminal (t : Tables) : Prop :=
  ∀ p ∈ t.bracketPairs, (t.instruction p.closing).kind = .ref ∧
    t.parameter p.closing 1 ≠ GrammarId.absent ∧
    (t.instruction ⟨t.parameter p.closing 1⟩).kind.isTerminal = true

instance (t : Tables) : Decidable t.ClosersAreTerminal :=
  inferInstanceAs (Decidable (∀ p ∈ t.bracketPairs, _))

/-- The shape of a reference that names a grammar. -/
theorem Tables.shape_of_reference {t : Tables} {id : GrammarId}
    (hkind : (t.instruction id).kind = .ref) (hslot : t.parameter id 1 ≠ GrammarId.absent) :
    t.shape id = .ref (t.string (t.parameter id 0)) (some ⟨t.parameter id 1⟩)
      (t.excludeIn id 2) := by
  unfold Tables.shape
  rw [hkind]
  dsimp only
  rw [GrammarId.ofSlot?, if_neg hslot]

/-- Brackets whose closing ones are terminals take one token each. -/
theorem Tables.closersTakeOneToken_of_terminal {t : Tables} (h : t.ClosersAreTerminal) :
    t.ClosersTakeOneToken := by
  rintro c rfl p hp
  obtain ⟨hkind, hslot, hterminal⟩ := h p hp
  exact MatchContext.takesOneToken_of_terminal (shape_of_reference hkind hslot) hterminal

end QueryLint
