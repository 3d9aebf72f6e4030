import Mathlib.Data.List.Infix
import QueryLint.Proofs.Pattern.Caseless

/-!
QueryLint.Proofs.Pattern.IgnoreCase — patterns that are read with case ignored.

Patterns for whole tokens are read with a flag in front that says that case is ignored. A group of
flags further on can switch that off again. If no part of the text looks like such a group, every
set that the reader makes is closed under the case of letters, and so the pattern is caseless.

* `Reads` — what holds of the state and the result after a reader, if something held before it.
* `Pattern.Reader.keepsCase` — the text switches off nowhere that case is ignored.
* `Pattern.isCaseless_of_read?` — then the pattern is caseless.
-/

namespace QueryLint

namespace Pattern.Reader

/-! ## 1. What holds after a reader -/

variable {α β : Type} {P : State → Prop}

/-- From states of which `P` holds, a reader that does not refuse gets to a result and a state of
which `Q` holds. -/
def Reads (P : State → Prop) (x : Reading α) (Q : α → State → Prop) : Prop :=
  ∀ s, P s → ∀ a s', x s = some (a, s') → Q a s'

namespace Reads

variable {Q : α → State → Prop} {R : β → State → Prop}

theorem pure {a : α} (h : ∀ s, P s → Q a s) : Reads P (Pure.pure a) Q := by
  intro s hs a' s' hrun
  cases hrun
  exact h s hs

theorem bind {x : Reading α} {f : α → Reading β} (hx : Reads P x Q)
    (hf : ∀ a, Reads (Q a) (f a) R) : Reads P (x >>= f) R := by
  intro s hs b s'' hrun
  obtain ⟨⟨a, s'⟩, hx', hf'⟩ := Option.bind_eq_some_iff.1 hrun
  exact hf a s' (hx s hs a s' hx') b s'' hf'

theorem failure : Reads P (Alternative.failure : Reading α) Q := by
  intro s hs a s' hrun
  cases hrun

/-- What goes on from the state may know that `P` holds of it. -/
theorem get {f : State → Reading β} (hf : ∀ s, P s → Reads P (f s) R) :
    Reads P (MonadState.get >>= f) R :=
  fun s hs => hf s hs s hs

theorem modified {g : State → State} {Q : Unit → State → Prop} (h : ∀ s, P s → Q () (g s)) :
    Reads P (modify g : Reading Unit) Q := by
  intro s hs a s' hrun
  cases hrun
  exact h s hs

theorem ite {p : Prop} [Decidable p] {x y : Reading α} (hx : p → Reads P x Q)
    (hy : ¬ p → Reads P y Q) : Reads P (if p then x else y) Q := by
  split
  · next h => exact hx h
  · next h => exact hy h

/-- A reader that refuses under a condition goes on without it. -/
theorem refuse {p : Prop} [Decidable p] {k : Unit → Reading α} {y : Reading α}
    (hy : ¬ p → Reads P y Q) : Reads P (if p then (Alternative.failure >>= k) else y) Q :=
  .ite (fun _ => .bind (Q := fun _ _ => False) .failure fun _ _ hs => hs.elim) hy

theorem mono {P' : State → Prop} {Q' : α → State → Prop} {x : Reading α} (h : Reads P x Q)
    (hP : ∀ s, P' s → P s) (hQ : ∀ a s, Q a s → Q' a s) : Reads P' x Q' :=
  fun s hs a s' hrun => hQ a s' (h s (hP s hs) a s' hrun)

end Reads

/-! ## 2. Readers that leave the flags -/

/-- The flags are these, and what is left to read is the end of a text. -/
structure At (fl : Flags) (text : List Char) (s : State) : Prop where
  flags_eq : s.flags = fl
  rest : s.rest <:+ text

/-- Wherever it starts, a reader leaves the flags and reads on; of the flags and its result `post`
holds. -/
def Stays (x : Reading α) (post : Flags → α → Prop) : Prop :=
  ∀ fl text, Reads (At fl text) x fun a s => At fl text s ∧ post fl a

/-- Nothing is said of the result. -/
abbrev Any {α : Type} (_ : Flags) (_ : α) : Prop := True

namespace Stays

variable {post : Flags → α → Prop} {post' : Flags → β → Prop}

theorem pure {a : α} (h : ∀ fl, post fl a) : Stays (Pure.pure a) post := fun fl _ =>
  .pure fun _ hs => ⟨hs, h fl⟩

theorem failure : Stays (Alternative.failure : Reading α) post := fun _ _ => .failure

/-- Steps that go on whatever was read. -/
theorem bind {x : Reading α} {f : α → Reading β} (hx : Stays x Any)
    (hf : ∀ a, Stays (f a) post') : Stays (x >>= f) post' := fun fl text =>
  (hx fl text).bind fun a => (hf a fl text).mono (fun _ hs => hs.1) fun _ _ h => h

/-- What is made of a result. -/
theorem map {x : Reading α} {f : α → β} (hx : Stays x post)
    (h : ∀ fl a, post fl a → post' fl (f a)) :
    Stays (x >>= fun a => Pure.pure (f a)) post' := fun fl text =>
  (hx fl text).bind fun a => .pure fun _ hs => ⟨hs.1, h fl a hs.2⟩

/-- Steps that go on from the state. -/
theorem get {f : State → Reading β}
    (hf : ∀ s : State, Stays (f s) fun fl b => s.flags = fl → post' fl b) :
    Stays (MonadState.get >>= f) post' := by
  refine fun fl text => .get fun s hs => (hf s fl text).mono (fun _ h => h) fun b s' h => ?_
  exact ⟨h.1, h.2 hs.flags_eq⟩

theorem ite {p : Prop} [Decidable p] {x y : Reading α} (hx : p → Stays x post)
    (hy : ¬ p → Stays y post) : Stays (if p then x else y) post := fun fl text =>
  .ite (fun h => hx h fl text) fun h => hy h fl text

theorem refuse {p : Prop} [Decidable p] {k : Unit → Reading α} {y : Reading α}
    (hy : Stays y post) : Stays (if p then (Alternative.failure >>= k) else y) post :=
  fun fl text => .refuse fun _ => hy fl text

/-- A step that reads on. -/
theorem modified {g : State → State}
    (h : ∀ s, (g s).flags = s.flags ∧ (g s).rest <:+ s.rest) : Stays (modify g) Any :=
  fun _ _ => .modified fun s hs =>
    ⟨⟨(h s).1.trans hs.flags_eq, (h s).2.trans hs.rest⟩, trivial⟩

theorem mono {x : Reading α} {post₁ : Flags → α → Prop} (hx : Stays x post)
    (h : ∀ fl a, post fl a → post₁ fl a) : Stays x post₁ := fun fl text =>
  (hx fl text).mono (fun _ hs => hs) fun _ _ hs => ⟨hs.1, h fl _ hs.2⟩

end Stays

theorem afterBlanks_suffix (cs : List Char) :
    afterBlanks cs <:+ cs ∧ afterBlanks.comment cs <:+ cs := by
  induction cs with
  | nil => exact ⟨List.suffix_rfl, List.suffix_rfl⟩
  | cons c cs ih =>
    have after := ih.1.trans (List.suffix_cons c cs)
    have comment := ih.2.trans (List.suffix_cons c cs)
    constructor
    · unfold afterBlanks
      split
      · exact comment
      · split
        · exact after
        · exact List.suffix_rfl
    · unfold afterBlanks.comment
      split
      · exact after
      · exact comment

theorem stays_peek : Stays peek Any := .get fun _ => .pure fun _ _ => trivial

theorem stays_peekSecond : Stays peekSecond Any := .get fun _ => .pure fun _ _ => trivial

theorem stays_skip : Stays skip Any := .modified fun s => ⟨rfl, List.tail_suffix s.rest⟩

theorem stays_skipIf (c : Char) : Stays (skipIf c) Any :=
  stays_peek.bind fun _ => .ite (fun _ => stays_skip.bind fun _ => .pure fun _ => trivial)
    fun _ => .pure fun _ => trivial

theorem stays_next : Stays next Any := by
  refine stays_peek.bind fun o => ?_
  cases o with
  | none => exact .failure
  | some c => exact stays_skip.bind fun _ => .pure fun _ => trivial

theorem stays_skipBlanks : Stays skipBlanks Any := .modified fun s => by
  split
  · exact ⟨rfl, (afterBlanks_suffix s.rest).1⟩
  · exact ⟨rfl, List.suffix_rfl⟩

theorem stays_collect (ok : Char → Bool) (n : Nat) : Stays (collect ok n) Any := by
  induction n with
  | zero => exact .pure fun _ => trivial
  | succ n ih =>
    refine stays_skipBlanks.bind fun _ => stays_peek.bind fun o => ?_
    cases o with
    | none => exact .pure fun _ => trivial
    | some c =>
      refine .ite (fun _ => .pure fun _ => trivial) fun _ => ?_
      exact stays_skip.bind fun _ => ih.bind fun _ => .pure fun _ => trivial

theorem stays_collectAll (ok : Char → Bool) : Stays (collectAll ok) Any :=
  .get fun s => (stays_collect ok s.rest.length).mono fun _ _ _ _ => trivial

/-! ## 3. Escapes -/

/-- A set that the flags close under case is caseless. -/
theorem isCaseless_folded {fl : Flags} (h : fl.ignoreCase = true) (s : CharSet) :
    (folded fl s).IsCaseless := by
  have ascii : CharSet.ascii.IsCaseless := .ofLetters (by decide)
  unfold folded
  rw [if_pos h]
  split
  · exact (CharSet.IsCaseless.anyCase s).inter ascii
  · exact .anyCase s

theorem isCaseless_namedSet (fl : Flags) {k : CharClass}
    (h : ∀ n : Fin 26, k.contains (Char.ofNat (n + 97)) = k.contains (Char.ofNat (n + 65))) :
    (namedSet fl k).IsCaseless := by
  have ascii : CharSet.ascii.IsCaseless := .ofLetters (by decide)
  have named : (CharSet.named k).IsCaseless := .ofLetters h
  unfold namedSet
  split
  · exact named.inter ascii
  · exact named

/-- A literal that is not ASCII is no letter of ASCII. -/
theorem isCaseless_literal {fl : Flags} (h : fl.ignoreCase = true) (c : Char) :
    (literal fl c).IsCaseless := by
  unfold literal
  split
  · next outside =>
    have high : 0x80 ≤ c.toNat := by simp_all
    have small : ∀ n : Fin 26,
        (Char.ofNat (n + 97)).toNat < 0x80 ∧ (Char.ofNat (n + 65)).toNat < 0x80 := by
      decide
    have without {d : Char} (hd : d.toNat < 0x80) : (CharSet.single c).contains d = false := by
      simp [CharSet.single, CharSet.contains, Text.inRanges]
      omega
    exact .ofLetters fun n => by rw [without (small n).1, without (small n).2]
  · exact isCaseless_folded h _

/-- What an escape stands for does not tell cases apart. -/
def Escape.IsCaseless : Escape → Prop
  | .set s => s.IsCaseless
  | .literal _ | .anchor _ => True

/-- A set that does not tell cases apart, if case is ignored. -/
abbrev Folds (fl : Flags) (s : CharSet) : Prop := fl.ignoreCase = true → s.IsCaseless

theorem stays_complement (fl : Flags) (s : CharSet) :
    Stays (complement fl s) fun _ t => s.IsCaseless → t.IsCaseless :=
  .ite (fun _ => .failure) fun _ => .pure fun _ h => h.compl

theorem stays_hexChar (digits : List Char) : Stays (hexChar digits) Any := by
  unfold hexChar
  cases digits.mapM hexValue? with
  | none => exact fun _ _ _ _ _ _ hrun => by cases hrun
  | some values => exact .refuse (.pure fun _ => trivial)

theorem stays_codePoint (width : Nat) : Stays (codePoint width) Any := by
  refine stays_skipBlanks.bind fun _ => (stays_skipIf _).bind fun braced =>
    .ite (fun _ => ?_) fun _ => ?_
  · refine (stays_collectAll _).bind fun digits => (stays_skipIf _).bind fun closed => ?_
    exact .refuse (stays_hexChar digits)
  · refine (stays_collect _ _).bind fun digits => .refuse ?_
    refine (stays_hexChar digits).bind fun c => .get fun s => ?_
    exact .refuse (.pure fun _ _ => trivial)

theorem stays_property (negated : Bool) : Stays (property negated) Folds := by
  refine .get fun s => ?_
  have named (members : CharSet) (differs : Bool) : Stays (
      if s.flags.ascii then failure >>= fun (_ : Unit) =>
        if negated != differs then pure (.compl (folded s.flags members))
        else pure (folded s.flags members)
      else if negated != differs then pure (.compl (folded s.flags members))
      else pure (folded s.flags members)) (fun fl t => s.flags = fl → Folds fl t) := by
    refine .refuse (.ite (fun _ => .pure ?_) fun _ => .pure ?_)
    · rintro _ rfl h
      exact (isCaseless_folded h _).compl
    · rintro _ rfl h
      exact isCaseless_folded h _
  refine stays_skipBlanks.bind fun _ => (stays_skipIf _).bind fun braced =>
    .ite (fun _ => ?_) fun _ => ?_
  · refine (stays_collectAll _).bind fun text => (stays_skipIf _).bind fun closed => .refuse ?_
    simp only [pure_bind]
    cases propertySet? text with
    | none => exact .failure
    | some found => exact named found.1 found.2
  · refine stays_next.bind fun c => ?_
    simp only [pure_bind]
    cases propertySet? [c] with
    | none => exact .failure
    | some found => exact named found.1 found.2

/-- Where no edge of words is named, what was looked at is read again. -/
theorem stays_boundary : Stays boundary Any := by
  refine fun fl text => .get fun before hbefore => ?_
  refine (stays_skipIf _ fl text).bind fun braced => .mono (.ite (fun _ => ?_) fun _ => .pure
    fun _ hs => ⟨hs, trivial⟩) (fun _ hs => hs.1) fun _ _ h => h
  refine (stays_skipBlanks fl text).bind fun _ => .mono ((stays_peek fl text).bind fun o => ?_)
    (fun _ hs => hs.1) fun _ _ h => h
  cases o with
  | none => exact .failure
  | some c =>
    refine .mono (.ite (fun _ => ?_) fun _ => ?_) (fun _ hs => hs.1) fun _ _ h => h
    · exact .bind (.modified (Q := fun _ => At fl text) fun _ _ => hbefore) fun _ =>
        .pure fun _ hs => ⟨hs, trivial⟩
    · refine Stays.bind (stays_collectAll _) (fun name => ?_) fl text
      refine (stays_skipIf _).bind fun closed => .refuse ?_
      cases wordEdge? name with
      | none => exact .failure
      | some edge => exact .pure fun _ => trivial

theorem stays_escape : Stays escape fun fl e => fl.ignoreCase = true → e.IsCaseless := by
  have digit (fl : Flags) : (namedSet fl .digit).IsCaseless := isCaseless_namedSet fl (by decide)
  have blank (fl : Flags) : (namedSet fl .blank).IsCaseless := isCaseless_namedSet fl (by decide)
  have word (fl : Flags) : (namedSet fl .word).IsCaseless := isCaseless_namedSet fl (by decide)
  refine .get fun s => stays_next.bind fun c => ?_
  split
  case h_1 => exact .pure fun _ _ _ => digit _
  case h_2 => exact .pure fun _ _ _ => blank _
  case h_3 => exact .pure fun _ _ _ => word _
  case h_4 => exact (stays_complement _ _).map fun _ _ h _ _ => h (digit _)
  case h_5 => exact (stays_complement _ _).map fun _ _ h _ _ => h (blank _)
  case h_6 => exact (stays_complement _ _).map fun _ _ h _ _ => h (word _)
  case h_7 | h_8 => exact (stays_property _).map fun _ _ h _ => h
  case h_9 | h_10 | h_11 => exact (stays_codePoint _).map fun _ _ _ _ _ => trivial
  case h_20 => exact stays_boundary.map fun _ _ _ _ _ => trivial
  case h_24 => exact .ite (fun _ => .pure fun _ _ _ => trivial) fun _ => .failure
  all_goals exact .pure fun _ _ _ => trivial

/-! ## 4. Bracketed classes -/

theorem stays_classItem : Stays classItem Any := by
  refine stays_next.bind fun c => ?_
  split
  · refine (stays_escape.mono fun _ _ _ => trivial).bind fun e => ?_
    cases e with
    | literal c => exact .pure fun _ => trivial
    | set s => exact .pure fun _ => trivial
    | anchor a => exact .failure
  · exact .pure fun _ => trivial

theorem stays_peekPastBlanks : Stays peekPastBlanks Any := by
  refine .get fun s => .get fun s' => .ite (fun _ => ?_) fun _ => .pure fun _ _ _ => trivial
  split <;> exact .pure fun _ _ _ => trivial

theorem stays_range (a b : Char) : Stays (range a b) Any :=
  .get fun _ => .refuse (.pure fun _ _ => trivial)

theorem stays_classRange : Stays classRange Any := by
  refine stays_skipBlanks.bind fun _ => stays_classItem.bind fun first => ?_
  refine stays_skipBlanks.bind fun _ => stays_peekPastBlanks.bind fun after => ?_
  refine stays_peek.bind fun o => .ite (fun _ => ?_) fun _ => ?_
  · refine stays_skip.bind fun _ => stays_skipBlanks.bind fun _ =>
      stays_classItem.bind fun last => ?_
    split
    · exact stays_range _ _
    · exact .failure
  · cases first with
    | char c => exact stays_range c c
    | set s => exact .pure fun _ => trivial

theorem stays_leadingHyphens (fuel : Nat) (items : Members) :
    Stays (leadingHyphens fuel items) Any := by
  induction fuel generalizing items with
  | zero => exact .failure
  | succ fuel ih =>
    refine stays_skipBlanks.bind fun _ => (stays_skipIf _).bind fun hyphen => ?_
    exact .ite (fun _ => ih _) fun _ => .pure fun _ => trivial

/-- What follows a named class is read on. -/
theorem bracketedName?_suffix {text rest : List Char} {named : CharSet} {negated : Bool}
    (h : bracketedName? text = some (named, negated, rest)) : rest <:+ text := by
  unfold bracketedName? at h
  split at h
  · next cs =>
    dsimp only at h
    split at h
    · next rest' hdrop =>
      obtain ⟨_, _, hrest⟩ := Option.map_eq_some_iff.1 h
      cases hrest
      have inner : rest <:+ (if cs.head? == some '^' then cs.tail else cs) := by
        have dropped := hdrop ▸ List.drop_suffix _ (if cs.head? == some '^' then cs.tail else cs)
        exact List.IsSuffix.trans ⟨[':', ']'], rfl⟩ dropped
      have tail : (if cs.head? == some '^' then cs.tail else cs) <:+ cs := by
        split
        · exact List.tail_suffix cs
        · exact List.suffix_rfl
      exact (inner.trans tail).trans ⟨['[', ':'], rfl⟩
    · cases h
  · cases h

/-- Going one level further in and out again leaves the flags and the text. -/
theorem stays_inside {x : Reading α} {post : Flags → α → Prop} (hx : Stays x post) :
    Stays (inside x) post := by
  refine .get fun s => .refuse (.bind (.modified fun s => ⟨rfl, List.suffix_rfl⟩) fun _ => ?_)
  refine fun fl text => (hx fl text).bind fun a => ?_
  refine .bind (.modified (Q := fun _ s => At fl text s ∧ post fl a) ?_) fun _ => .pure ?_
  · rintro s ⟨⟨hflags, hrest⟩, hpost⟩
    exact ⟨⟨hflags, hrest⟩, hpost⟩
  · rintro s ⟨hs, hpost⟩
    exact ⟨hs, fun _ => hpost⟩

/-- A class is closed under case at its end, whatever its items are. -/
theorem stays_bracket (fuel : Nat) :
    Stays (bracket fuel) (fun fl r => fl.ignoreCase = true → r.1.IsCaseless) ∧
      ∀ pending items, Stays (bracketItems fuel pending items) Any := by
  induction fuel with
  | zero => exact ⟨.failure, fun _ _ => .failure⟩
  | succ fuel ih =>
    obtain ⟨ihBracket, ihItems⟩ := ih
    have nested : Stays (bracket fuel) Any := ihBracket.mono fun _ _ _ => trivial
    constructor
    · unfold bracket
      refine .get fun s => stays_skipBlanks.bind fun _ => (stays_skipIf _).bind fun negated => ?_
      refine stays_skipBlanks.bind fun _ => (stays_leadingHyphens fuel {}).bind fun items => ?_
      have closed (items : Members) : Stays (inside (bracketItems fuel none items) >>= fun r =>
          if negated then complement s.flags (folded s.flags r.1) >>= fun t => pure (t, r.2 + 1)
          else pure (folded s.flags r.1) >>= fun t => pure (t, r.2 + 1))
          (fun fl r => s.flags = fl → fl.ignoreCase = true → r.1.IsCaseless) := by
        refine (stays_inside (ihItems none items)).bind fun r => .ite (fun _ => ?_) fun _ => ?_
        · refine (stays_complement _ _).map ?_
          rintro _ t h rfl hcase
          exact h (isCaseless_folded hcase _)
        · refine .pure ?_
          rintro _ rfl h
          exact isCaseless_folded h _
      refine stays_peek.bind fun o => .ite (fun _ => ?_) fun _ => ?_
      · exact stays_skip.bind fun _ => closed _
      · exact closed _
    · intro pending items
      unfold bracketItems
      refine stays_skipBlanks.bind fun _ => .get fun s => stays_peek.bind fun o => ?_
      refine stays_peekSecond.bind fun o' => ?_
      have operation (op : CharSet → CharSet → CharSet) : Stays (skip >>= fun _ => skip >>= fun _ =>
          bracketItems fuel (some (op, complete s.flags pending items)) {})
          (fun fl a => s.flags = fl → Any fl a) :=
        stays_skip.bind fun _ => stays_skip.bind fun _ => (ihItems _ _).mono fun _ _ _ _ => trivial
      have next (item : Members) :
          Stays (bracketItems fuel pending item) fun fl a => s.flags = fl → Any fl a :=
        (ihItems _ _).mono fun _ _ _ _ => trivial
      split
      · exact stays_skip.bind fun _ => .pure fun _ _ => trivial
      · refine fun fl text => .get fun s' hs' => ?_
        split
        · next named negated rest hname =>
          refine .bind (.modified (Q := fun _ => At fl text) fun s hs => ⟨hs.flags_eq,
            (bracketedName?_suffix hname).trans hs'.rest⟩) fun _ => ?_
          cases negated with
          | true =>
            exact Stays.bind ((stays_complement _ _).mono fun _ _ _ => trivial)
              (fun item => next _) fl text
          | false => exact next _ fl text
        · exact stays_skip.bind (fun _ => nested.bind fun r => next _) fl text
      · exact operation .inter
      · exact operation .diff
      · exact operation .symmDiff
      · exact stays_classRange.bind fun item => next _
      · exact .failure

/-! ## 5. Repetitions -/

theorem stays_groupName : Stays groupName Any := by
  refine .get fun s => .bind (.modified fun s => ⟨rfl, List.drop_suffix _ _⟩) fun _ => ?_
  refine (stays_skipIf _).bind fun closed => .get fun s' => .refuse ?_
  exact Stays.mono (.modified fun s => ⟨rfl, List.suffix_rfl⟩) (by intros; trivial)

theorem stays_count : Stays count Any := by
  refine .bind (.modified fun s => ⟨rfl, List.dropWhile_suffix _⟩) fun _ => ?_
  refine (stays_collectAll _).bind fun digits => .refuse ?_
  refine .bind (.modified fun s => ⟨rfl, List.dropWhile_suffix _⟩) fun _ => ?_
  exact stays_skipBlanks.bind fun _ => .pure fun _ => trivial

theorem stays_bounds : Stays bounds Any := by
  have closed {check : Reading (Nat × Option Nat)} (hcheck : Stays check Any) :
      Stays (skipIf '\x7d' >>= fun closed =>
        if !closed then failure >>= fun (_ : Unit) => check else check) Any :=
    (stays_skipIf _).bind fun _ => .refuse hcheck
  have ordered (low high : Nat) : Stays
      (if low ≤ high then pure (low, some high) else failure) Any :=
    .ite (fun _ => .pure fun _ => trivial) fun _ => .failure
  have unbounded (low : Nat) : Stays (pure (low, (none : Option Nat))) Any :=
    .pure fun _ => trivial
  refine stays_skipBlanks.bind fun _ => stays_count.bind fun low => ?_
  refine (stays_skipIf _).bind fun comma => .ite (fun _ => ?_) fun _ => closed (ordered low low)
  refine stays_skipBlanks.bind fun _ => stays_peek.bind fun o =>
    .ite (fun _ => closed (unbounded low)) fun _ => ?_
  have counted : Stays (some <$> count) Any := stays_count.bind fun n => .pure fun _ => trivial
  refine counted.bind fun high => ?_
  cases high with
  | none => exact closed (unbounded low)
  | some high => exact closed (ordered low high)

end Pattern.Reader

namespace Pattern

variable {p q : Pattern}

theorem IsCaseless.andThen (hp : p.IsCaseless) (hq : q.IsCaseless) : (p.andThen q).IsCaseless := by
  unfold Pattern.andThen
  split
  · exact hq
  · exact hp
  · exact ⟨hp, hq⟩

theorem IsCaseless.optional (greedy : Bool) (hp : p.IsCaseless) :
    (p.optional greedy).IsCaseless := by
  cases greedy with
  | true => exact ⟨hp, trivial⟩
  | false => exact ⟨trivial, hp⟩

/-- A repeated pattern is caseless if what is repeated is. -/
theorem IsCaseless.bounded (greedy : Bool) (hp : p.IsCaseless) (low : Nat) (high : Option Nat) :
    (p.bounded greedy low high).IsCaseless := by
  unfold Pattern.bounded
  dsimp only
  generalize (if p.takesText then low else min low 1) = low,
    (if p.takesText then high else some (min (high.getD 1) 1)) = high
  split
  · trivial
  · exact hp
  · exact hp.optional greedy
  · refine .andThen ?_ ?_
    · split
      · trivial
      · exact hp
    · split
      · trivial
      · exact hp
  · exact IsCaseless.optional greedy hp
  · exact hp
  · exact ⟨hp, hp⟩

namespace Reader

/-- The pattern of a part is caseless. -/
abbrev Part.IsCaseless (p : Part) : Prop := p.pattern.IsCaseless

theorem isCaseless_concat {ps : List Part} (h : ∀ p ∈ ps, p.IsCaseless) :
    (Part.concat ps).IsCaseless := by
  have folded (q : Pattern) (hq : q.IsCaseless) :
      ((ps.map (·.pattern)).foldl Pattern.andThen q).IsCaseless := by
    induction ps generalizing q with
    | nil => exact hq
    | cons p ps ih =>
      obtain ⟨hp, hps⟩ := List.forall_mem_cons.1 h
      exact ih hps _ (hq.andThen hp)
  exact folded _ trivial

theorem isCaseless_choice {ps : List Part} (h : ∀ p ∈ ps, p.IsCaseless) :
    (Part.choice ps).IsCaseless := by
  have all : ∀ q ∈ ps.reverse.map (·.pattern), q.IsCaseless := by
    intro q hq
    obtain ⟨p, hp, rfl⟩ := List.mem_map.1 hq
    exact h p (List.mem_reverse.1 hp)
  unfold Part.choice
  split
  · trivial
  · next last before heq =>
    rw [heq] at all
    obtain ⟨hlast, hbefore⟩ := List.forall_mem_cons.1 all
    clear heq all
    dsimp only [Part.IsCaseless]
    induction before generalizing last with
    | nil => exact hlast
    | cons p before ih =>
      obtain ⟨hp, hbefore⟩ := List.forall_mem_cons.1 hbefore
      exact ih _ ⟨hp, hlast⟩ hbefore

theorem stays_suffixes (fuel : Nat) (p : Part) :
    Stays (suffixes fuel p) fun _ q => p.IsCaseless → q.IsCaseless := by
  induction fuel generalizing p with
  | zero => exact .failure
  | succ fuel ih =>
    unfold suffixes
    have again (low : Nat) (high : Option Nat) : Stays (skipIf '?' >>= fun lazy =>
        MonadState.get >>= fun s : State =>
          suffixes fuel (p.bounded (lazy == s.flags.swapGreed) low high))
        fun _ q => p.IsCaseless → q.IsCaseless := by
      refine (stays_skipIf _).bind fun lazy => .get fun s => (ih _).mono fun _ q h _ hp => ?_
      exact h (IsCaseless.bounded _ hp low high)
    refine stays_skipBlanks.bind fun _ => stays_peek.bind fun o => ?_
    dsimp only
    split
    · exact stays_skip.bind fun _ => again 0 none
    · exact stays_skip.bind fun _ => again 1 none
    · exact stays_skip.bind fun _ => again 0 (some 1)
    · refine stays_skip.bind fun _ => stays_bounds.bind fun r => stays_skipBlanks.bind fun _ => ?_
      exact again r.1 r.2
    · exact .pure fun _ hp => hp

theorem stays_dot (fl : Flags) : Stays (dot fl) fun _ p => p.IsCaseless := by
  have all : (Pattern.set .all).IsCaseless := CharSet.IsCaseless.ofLetters (by decide)
  have crlf : (Pattern.set (.compl (.ofList ['\r', '\n']))).IsCaseless :=
    CharSet.IsCaseless.ofLetters (by decide)
  have line : (Pattern.set (.compl (.single '\n'))).IsCaseless :=
    CharSet.IsCaseless.ofLetters (by decide)
  unfold dot
  refine .ite (fun _ => .failure) fun _ => .ite (fun _ => .pure fun _ => all) fun _ => ?_
  exact .ite (fun _ => .pure fun _ => crlf) fun _ => .pure fun _ => line

/-! ## 6. Flags -/

/-- The text does not go on with flags that switch off that case is ignored. -/
def opensCaseless : List Char → Bool
  | '?' :: cs =>
    (switchAll { ignoreCase := true } true (cs.takeWhile fun c => c != ':' && c != ')')).all
      (·.ignoreCase)
  | _ => true

/-- Nowhere in a text is there something that looks like a group of flags and switches off that case
is ignored. Where blanks are passed over, they may stand before the flags. -/
def keepsCase (text : List Char) : Bool :=
  text.tails.all fun
    | '(' :: cs => opensCaseless cs && opensCaseless (afterBlanks cs)
    | _ => true

/-- What flags say of case depends on what they said of it before only. -/
theorem ignoreCase_switchAll {f g f' : Flags} (hf : f.ignoreCase = g.ignoreCase) {on : Bool}
    {cs : List Char} (h : switchAll f on cs = some f') :
    ∃ g', switchAll g on cs = some g' ∧ f'.ignoreCase = g'.ignoreCase := by
  have switched {f g f₁ : Flags} {c : Char} {on : Bool} (hf : f.ignoreCase = g.ignoreCase)
      (h : f.switch? c on = some f₁) :
      ∃ g₁, g.switch? c on = some g₁ ∧ f₁.ignoreCase = g₁.ignoreCase := by
    unfold Flags.switch? at h ⊢
    split at h <;> cases h
    case h_1 => exact ⟨_, rfl, rfl⟩
    all_goals exact ⟨_, rfl, hf⟩
  induction cs generalizing f g on with
  | nil =>
    cases h
    exact ⟨g, rfl, hf⟩
  | cons c cs ih =>
    by_cases minus : c = '-'
    · subst minus
      rw [switchAll] at h ⊢
      split at h
      · next allowed =>
        rw [if_pos allowed]
        exact ih hf h
      · cases h
    · rw [switchAll] at h ⊢
      · split at h
        · cases h
        · next once =>
          rw [if_neg once]
          obtain ⟨f₁, hswitch, h⟩ := Option.bind_eq_some_iff.1 h
          obtain ⟨g₁, hswitch', hcase⟩ := switched hf hswitch
          obtain ⟨g', hg', hcase'⟩ := ih hcase h
          exact ⟨g', by rw [hswitch']; exact hg', hcase'⟩
      · exact minus
      · exact minus

/-- Flags after which the text goes on leave case ignored. -/
theorem ignoreCase_of_opensCaseless {f f' : Flags} (hf : f.ignoreCase = true) {cs : List Char}
    (h : opensCaseless ('?' :: cs) = true)
    (hswitch : switchAll f true (cs.takeWhile fun c => c != ':' && c != ')') = some f') :
    f'.ignoreCase = true := by
  obtain ⟨g', hg', hcase⟩ :=
    ignoreCase_switchAll (g := { ignoreCase := true }) hf hswitch
  have all : (switchAll { ignoreCase := true } true
    (cs.takeWhile fun c => c != ':' && c != ')')).all (·.ignoreCase) = true := h
  rw [hg'] at all
  exact hcase.trans all

/-! ## 7. Expressions -/

/-- Case is ignored, and what is left to read is the end of a text. -/
structure Good (text : List Char) (s : State) : Prop where
  ignoreCase : s.flags.ignoreCase = true
  rest : s.rest <:+ text

/-- A reader goes on ignoring case; of its result `post` holds. -/
def Keeps (text : List Char) {α : Type} (x : Reading α) (post : α → Prop) : Prop :=
  Reads (Good text) x fun a s => Good text s ∧ post a

namespace Keeps

variable {α β : Type} {text : List Char} {post : α → Prop} {post' : β → Prop}

theorem pure {a : α} (h : post a) : Keeps text (Pure.pure a) post :=
  Reads.pure fun _ hs => ⟨hs, h⟩

theorem failure : Keeps text (Alternative.failure : Reading α) post := Reads.failure

theorem bind {x : Reading α} {f : α → Reading β} (hx : Keeps text x post)
    (hf : ∀ a, post a → Keeps text (f a) post') : Keeps text (x >>= f) post' :=
  Reads.bind hx fun a s hs => hf a hs.2 s hs.1

/-- A reader that leaves the flags goes on ignoring case. -/
theorem ofStays {x : Reading α} {post : Flags → α → Prop} (hx : Stays x post) :
    Keeps text x fun a => ∃ fl : Flags, fl.ignoreCase = true ∧ post fl a := by
  intro s hs a s' hrun
  obtain ⟨hat, hpost⟩ := hx s.flags text s ⟨rfl, hs.rest⟩ a s' hrun
  exact ⟨⟨by rw [hat.flags_eq, hs.ignoreCase], hat.rest⟩, s.flags, hs.ignoreCase, hpost⟩

/-- Going one level further in and out again leaves the flags and the text. -/
theorem inside {x : Reading α} (hx : Keeps text x post) : Keeps text (inside x) post := by
  refine .get fun s hs => .refuse fun _ => .bind (.modified ?_) fun _ => .bind hx fun a => ?_
  · exact fun s hs => ⟨hs.ignoreCase, hs.rest⟩
  · refine .bind (.modified (Q := fun _ s => Good text s ∧ post a) ?_) fun _ => .pure ?_
    · exact fun s hs => ⟨⟨hs.1.ignoreCase, hs.1.rest⟩, hs.2⟩
    · exact fun s hs => hs

end Keeps

section
variable {text : List Char}

/-- The character that is read stands before what is left. -/
theorem reads_next :
    Reads (Good text) next fun c s => Good text s ∧ (c :: s.rest) <:+ text := by
  intro s hs c s' hrun
  obtain ⟨rest, flags, names, levels⟩ := s
  cases rest with
  | nil => cases hrun
  | cons c' cs =>
    cases hrun
    exact ⟨⟨hs.ignoreCase, (List.suffix_cons c cs).trans hs.rest⟩, hs.rest⟩

/-- After an opening parenthesis the text goes on with no flags that switch off that case is
ignored, where it is kept. -/
theorem reads_skipBlanks_open (htext : keepsCase text = true) :
    Reads (fun s => Good text s ∧ ('(' :: s.rest) <:+ text) skipBlanks
      fun _ s => Good text s ∧ opensCaseless s.rest = true := by
  refine .modified fun s ⟨hs, hopen⟩ => ?_
  have kept := List.all_eq_true.1 htext _ ((List.mem_tails _ _).2 hopen)
  obtain ⟨here, after⟩ := Bool.and_eq_true_iff.1 kept
  split
  · exact ⟨⟨hs.ignoreCase, (afterBlanks_suffix s.rest).1.trans hs.rest⟩, after⟩
  · exact ⟨hs, here⟩

/-- What stood before a question mark that is passed over stood before it and the rest. -/
theorem reads_skipIf_question :
    Reads (fun s => Good text s ∧ opensCaseless s.rest = true) (skipIf '?')
      fun flagged s => Good text s ∧ (flagged = true → opensCaseless ('?' :: s.rest) = true) := by
  intro s ⟨hs, hopen⟩ flagged s' hrun
  obtain ⟨rest, flags, names, levels⟩ := s
  by_cases question : rest.head? = some '?'
  · obtain ⟨cs, rfl⟩ := List.head?_eq_some_iff.1 question
    cases hrun
    exact ⟨⟨hs.ignoreCase, (List.suffix_cons '?' cs).trans hs.rest⟩, fun _ => hopen⟩
  · have unread : (skipIf '?' : Reading Bool) ⟨rest, flags, names, levels⟩ =
        some (false, ⟨rest, flags, names, levels⟩) := by
      change (if rest.head? = some '?' then skip >>= fun _ => pure true else pure false :
        Reading Bool) ⟨rest, flags, names, levels⟩ = _
      rw [if_neg question]
      rfl
    cases unread.symm.trans hrun
    exact ⟨hs, nofun⟩

/-- Flags that are read where case is kept leave case ignored. -/
theorem reads_switchAll {f : Flags} (hf : f.ignoreCase = true) {cs : List Char}
    (hopen : opensCaseless ('?' :: cs) = true) :
    Keeps text (liftM (switchAll f true (cs.takeWhile fun c => c != ':' && c != ')')) :
      Reading Flags) fun inner => inner.ignoreCase = true := by
  intro s hs inner s' hrun
  cases hswitch : switchAll f true (cs.takeWhile fun c => c != ':' && c != ')') with
  | none =>
    rw [hswitch] at hrun
    cases hrun
  | some f' =>
    rw [hswitch] at hrun
    cases hrun
    exact ⟨hs, ignoreCase_of_opensCaseless hf hopen hswitch⟩

/-- Other flags that ignore case. -/
theorem keeps_setFlags {f : Flags} (hf : f.ignoreCase = true) :
    Keeps text (modify fun s => { s with flags := f } : Reading Unit) fun _ => True :=
  .modified fun _ hs => ⟨⟨hf, hs.rest⟩, trivial⟩

/-- A literal, a class, an anchor or a group does not tell cases apart, read where case is kept, if
the rest of a group does not. -/
theorem keeps_atom (htext : keepsCase text = true) (fuel : Nat)
    (hgroup : ∀ outer : Flags, outer.ignoreCase = true →
      Keeps text (group fuel outer) (·.IsCaseless)) :
    Keeps text (atom (fuel + 1)) (∀ p ∈ ·, p.IsCaseless) := by
  unfold atom
  refine .get fun s hs => Reads.bind reads_next fun c => ?_
  have kept {x : Reading (Option Part)} (h : Keeps text x (∀ p ∈ ·, p.IsCaseless)) :
      Reads (fun s => Good text s ∧ (c :: s.rest) <:+ text) x
        fun o s => Good text s ∧ ∀ p ∈ o, p.IsCaseless :=
    h.mono (fun _ hs => hs.1) fun _ _ h => h
  have one {p : Part} (hp : p.IsCaseless) :
      Keeps text (pure (some p)) (∀ p ∈ ·, p.IsCaseless) :=
    .pure fun q hq => Option.some.inj hq ▸ hp
  have grouped : Keeps text (group fuel s.flags >>= fun p => pure (some p))
      (∀ p ∈ ·, p.IsCaseless) :=
    .bind (hgroup s.flags hs.ignoreCase) fun p hp => one hp
  have named : Keeps text (groupName >>= fun _ => group fuel s.flags >>= fun p => pure (some p))
      (∀ p ∈ ·, p.IsCaseless) :=
    .bind (.ofStays stays_groupName) fun _ _ => grouped
  split
  case h_1 => exact kept (.bind (.ofStays (stays_dot _)) fun p ⟨_, _, hp⟩ => one hp)
  case h_2 | h_3 => exact kept (one trivial)
  case h_4 =>
    refine kept (.bind (.ofStays (stays_bracket fuel).1) fun r ⟨fl, hfl, hr⟩ => ?_)
    exact one (p := ⟨.set r.1, r.2⟩) (hr hfl)
  case h_5 =>
    refine kept (.bind (.ofStays stays_escape) fun e ⟨fl, hfl, he⟩ => ?_)
    cases e with
    | literal c => exact one (p := ⟨.set _, 0⟩) (isCaseless_literal hs.ignoreCase c)
    | set s => exact one (p := ⟨.set s, 0⟩) (he hfl)
    | anchor a => exact one trivial
  case h_6 =>
    refine .bind (reads_skipBlanks_open htext) fun _ => .bind reads_skipIf_question
      fun flagged => ?_
    refine .ite (fun isFlagged => ?_) fun _ => grouped.mono (fun _ hs => hs.1) fun _ _ h => h
    subst isFlagged
    have opened {x : Reading (Option Part)} (h : Keeps text x (∀ p ∈ ·, p.IsCaseless)) :
        Reads (fun s => Good text s ∧ (true = true → opensCaseless ('?' :: s.rest) = true)) x
          fun o s => Good text s ∧ ∀ p ∈ o, p.IsCaseless :=
      h.mono (fun _ hs => hs.1) fun _ _ h => h
    refine .get fun s' ⟨hs', hopen⟩ => ?_
    refine .ite (fun _ => opened (.bind (.ofStays stays_skip) fun _ _ =>
      .bind (.ofStays stays_skip) fun _ _ => named)) fun _ => ?_
    refine .ite (fun _ => opened (.bind (.ofStays stays_skip) fun _ _ => named)) fun _ => ?_
    -- the letters of flags, up to the sign that ends them
    refine opened (.bind (.ofStays (.modified fun s => ⟨rfl, List.drop_suffix _ _⟩)) fun _ _ =>
      .bind (reads_switchAll hs.ignoreCase (hopen rfl)) fun inner hinner =>
      .bind (.ofStays stays_next) fun sign _ => ?_)
    split
    · exact .refuse fun _ => Keeps.bind (keeps_setFlags hinner) fun _ _ => Keeps.pure nofun
    · exact Keeps.bind (keeps_setFlags hinner) fun _ _ => grouped
  case h_7 =>
    exact kept (one (p := ⟨.set _, 0⟩) (isCaseless_literal hs.ignoreCase c))

/-- The parts of an expression do not tell cases apart, read where case is kept. -/
theorem keeps_expression (htext : keepsCase text = true) (fuel : Nat) :
    Keeps text (alternatives fuel) (∀ p ∈ ·, p.IsCaseless) ∧
      Keeps text (items fuel) (∀ p ∈ ·, p.IsCaseless) ∧
      Keeps text (atom fuel) (∀ p ∈ ·, p.IsCaseless) ∧
      ∀ outer : Flags, outer.ignoreCase = true → Keeps text (group fuel outer) (·.IsCaseless) := by
  induction fuel with
  | zero => exact ⟨.failure, .failure, .failure, fun _ _ => .failure⟩
  | succ fuel ih =>
    obtain ⟨ihAlternatives, ihItems, ihAtom, ihGroup⟩ := ih
    refine ⟨?_, ?_, ?_, ?_⟩
    · unfold alternatives
      refine .bind ihItems fun ps hps => .bind (.ofStays (stays_skipIf _)) fun more _ => ?_
      refine .ite (fun _ => ?_) fun _ => ?_
      · exact Keeps.bind ihAlternatives fun qs hqs =>
          .pure (List.forall_mem_cons.2 ⟨isCaseless_concat hps, hqs⟩)
      · exact Keeps.pure (List.forall_mem_singleton.2 (isCaseless_concat hps))
    · unfold items
      refine .bind (.ofStays stays_skipBlanks) fun _ _ => .bind (.ofStays stays_peek) fun o _ => ?_
      split
      case h_1 | h_2 | h_3 => exact .pure nofun
      case h_4 | h_5 | h_6 | h_7 => exact .failure
      case h_8 =>
        refine .bind ihAtom fun o ho => ?_
        cases o with
        | none => exact .bind ihItems fun ps hps => .pure (List.forall_mem_cons.2 ⟨trivial, hps⟩)
        | some p =>
          refine .bind (.ofStays (stays_suffixes fuel p)) fun q ⟨_, _, hq⟩ => ?_
          exact .bind ihItems fun ps hps => .pure (List.forall_mem_cons.2 ⟨hq (ho p rfl), hps⟩)
    · exact keeps_atom htext fuel ihGroup
    · intro outer houter
      unfold group
      refine .bind (.inside ihAlternatives) fun ps hps => .bind (.ofStays (stays_skipIf _))
        fun closed _ => .refuse fun _ => Keeps.bind (keeps_setFlags houter) fun _ _ => ?_
      exact Keeps.pure (isCaseless_choice hps)

end

/-- The flag in front is read first, and leaves nothing but that case is ignored. -/
theorem exists_items_of_caseFlag {fuel : Nat} {text : List Char} {r : List Part × State}
    (h : items (fuel + 2) { rest := "(?i)".toList ++ text } = some r) :
    ∃ ps, items (fuel + 1) { rest := text, flags := { ignoreCase := true } } = some (ps, r.2) ∧
      r.1 = ⟨.empty, 0⟩ :: ps := by
  unfold items at h
  have h : (items (fuel + 1) >>= fun ps => pure (⟨.empty, 0⟩ :: ps) : Reading (List Part))
      { rest := text, flags := { ignoreCase := true } } = some r := h
  obtain ⟨⟨ps, s⟩, hitems, hpure⟩ := Option.bind_eq_some_iff.1 h
  cases hpure
  exact ⟨ps, hitems, rfl⟩

/-- An expression with the flag in front does not tell cases apart, where case is kept. -/
theorem isCaseless_of_alternatives {text : List Char} (htext : keepsCase text = true) {fuel : Nat}
    {ps : List Part} {s : State}
    (h : alternatives (fuel + 3) { rest := "(?i)".toList ++ text } = some (ps, s)) :
    ∀ p ∈ ps, p.IsCaseless := by
  unfold alternatives at h
  obtain ⟨⟨first, s₁⟩, hitems, h⟩ := Option.bind_eq_some_iff.1 h
  obtain ⟨qs, hqs, hfirst⟩ := exists_items_of_caseFlag hitems
  obtain ⟨good, caseless⟩ :=
    (keeps_expression htext (fuel + 1)).2.1 _ ⟨rfl, List.suffix_rfl⟩ qs s₁ hqs
  have hconcat : (Part.concat first).IsCaseless := by
    refine isCaseless_concat ?_
    rw [show first = _ from hfirst]
    exact List.forall_mem_cons.2 ⟨trivial, caseless⟩
  have rest : Keeps text (skipIf '|' >>= fun more =>
      if more then alternatives (fuel + 2) >>= fun ps => pure (Part.concat first :: ps)
      else pure [Part.concat first]) (∀ p ∈ ·, p.IsCaseless) := by
    refine .bind (.ofStays (stays_skipIf _)) fun more _ => .ite (fun _ => ?_) fun _ => ?_
    · exact Keeps.bind (keeps_expression htext (fuel + 2)).1 fun ps hps =>
        .pure (List.forall_mem_cons.2 ⟨hconcat, hps⟩)
    · exact Keeps.pure (List.forall_mem_singleton.2 hconcat)
  exact (rest s₁ good ps s h).2

end Reader

/-- A pattern with the flag in front, which nothing in its text switches off, does not tell cases
apart. -/
theorem isCaseless_of_read? {text : List Char} {s : String} (hs : s.toList = "(?i)".toList ++ text)
    (htext : Reader.keepsCase text = true) {p : Pattern} (h : read? s = some p) : p.IsCaseless := by
  obtain ⟨⟨ps, s'⟩, hrun, h⟩ := Option.bind_eq_some_iff.1 h
  obtain ⟨-, hp⟩ := Option.ite_none_right_eq_some.1 h
  obtain rfl : (Reader.Part.choice ps).pattern = p := Option.some.inj hp
  rw [hs] at hrun
  exact Reader.isCaseless_choice (Reader.isCaseless_of_alternatives htext hrun)

end Pattern

end QueryLint
