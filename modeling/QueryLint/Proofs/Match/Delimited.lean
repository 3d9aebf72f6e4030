import QueryLint.Proofs.Match.Parts
import QueryLint.Proofs.Match.Transparent
import QueryLint.Proofs.Parse

/-!
QueryLint.Proofs.Match.Delimited — a delimited list matches its language.

A list with delimiters goes from token to token, an element and a delimiter in turn. A delimiter
that has been passed counts only when an element comes behind it, so there are three ways to stand:
before the first element, behind an element, and behind a delimiter that waits. Where elements and
delimiters are one token each, what is matched is told by the tokens of code alone: the list matches
where they begin with enough elements, and it takes as many as there are.

* `Alternates` — elements with delimiters between them.
* `MatchContext.Accepts` — a grammar of one token, of some kind.
* `MatchContext.Listing` — how a delimited list stands, with the tokens it has taken.
* `MatchContext.matchDelimited_language` — what a delimited list matches.
-/

namespace QueryLint

open Matching

/-! ## 1. Elements with delimiters between them -/

section Alternates

variable {α : Type}

/-- An element, and then so many times a delimiter with an element behind it. -/
inductive Alternates (A D : α → Prop) : Nat → List α → Prop where
  | one {x : α} (element : A x) : Alternates A D 0 [x]
  | more {n : Nat} {w : List α} {y x : α} (before : Alternates A D n w) (delimiter : D y)
    (element : A x) : Alternates A D (n + 1) (w ++ [y, x])

variable {A D : α → Prop} {n : Nat} {w xs rest : List α}

namespace Alternates

theorem length_eq (h : Alternates A D n w) : w.length = 2 * n + 1 := by
  induction h with
  | one => rfl
  | more _ _ _ ih =>
    rw [List.length_append, ih]
    simp only [List.length_cons, List.length_nil]
    omega

/-- Elements stand at even places. -/
theorem element_of_getElem? (h : Alternates A D n w) {k : Nat} {x : α}
    (hk : w[2 * k]? = some x) : A x := by
  induction h with
  | one element =>
    obtain ⟨hlt, heq⟩ := List.getElem?_eq_some_iff.1 hk
    rw [List.length_singleton] at hlt
    obtain rfl : k = 0 := by omega
    exact heq ▸ element
  | @more n w y z before _ element ih =>
    have hlen := before.length_eq
    rw [List.getElem?_append] at hk
    split at hk
    · exact ih hk
    · obtain ⟨hlt, heq⟩ := List.getElem?_eq_some_iff.1 hk
      obtain hlast : 2 * k - w.length = 1 := by
        simp only [List.length_cons, List.length_nil] at hlt
        omega
      simp only [hlast, List.getElem_cons_succ, List.getElem_cons_zero] at heq
      exact heq ▸ element

/-- Delimiters stand at odd places. -/
theorem delimiter_of_getElem? (h : Alternates A D n w) {k : Nat} {y : α}
    (hk : w[2 * k + 1]? = some y) : D y := by
  induction h with
  | one =>
    obtain ⟨hlt, -⟩ := List.getElem?_eq_some_iff.1 hk
    simp at hlt
  | @more n w z x before delimiter _ ih =>
    have hlen := before.length_eq
    rw [List.getElem?_append] at hk
    split at hk
    · exact ih hk
    · obtain ⟨hlt, heq⟩ := List.getElem?_eq_some_iff.1 hk
      obtain hfirst : 2 * k + 1 - w.length = 0 := by
        simp only [List.length_cons, List.length_nil] at hlt
        omega
      simp only [hfirst, List.getElem_cons_zero] at heq
      exact heq ▸ delimiter

/-- What alternates begins with every shorter number of elements. -/
theorem exists_shorter (h : Alternates A D n w) {k : Nat} (hk : k ≤ n) :
    ∃ w', Alternates A D k w' ∧ w' <+: w := by
  induction h with
  | one element =>
    obtain rfl : k = 0 := by omega
    exact ⟨_, .one element, List.prefix_rfl⟩
  | @more n w y x before delimiter element ih =>
    by_cases hlast : k = n + 1
    · exact ⟨_, hlast ▸ before.more delimiter element, List.prefix_rfl⟩
    · obtain ⟨w', shorter, within⟩ := ih (by omega)
      exact ⟨w', shorter, within.trans (List.prefix_append w _)⟩

end Alternates

/-- The longest list that begins the tokens. -/
structure IsLongestList (A D : α → Prop) (xs w : List α) : Prop where
  alternates : ∃ n, Alternates A D n w
  begins : w <+: xs
  longest : ∀ n w', Alternates A D n w' → w' <+: xs → w'.length ≤ w.length

/-- What stands in tokens at the end of some of them begins the others. -/
theorem mem_head?_of_getElem? {u w' : List α} {x : α} (h : w' <+: u ++ rest)
    (hx : w'[u.length]? = some x) : x ∈ rest.head? := by
  obtain ⟨more, hmore⟩ := h
  obtain ⟨hlt, -⟩ := List.getElem?_eq_some_iff.1 hx
  have := congrArg (·[u.length]?) hmore
  rw [List.getElem?_append_left hlt, hx, List.getElem?_append_right (Nat.le_refl _),
    Nat.sub_self, ← List.head?_eq_getElem?] at this
  exact this.symm

/-- No list begins with what is no element. -/
theorem not_alternates_of_head (hstuck : ∀ x ∈ rest.head?, ¬ A x) (h : Alternates A D n w) :
    ¬ w <+: rest := by
  intro begins
  have hlen := h.length_eq
  obtain ⟨x, hx⟩ : ∃ x, w[2 * 0]? = some x := ⟨_, List.getElem?_eq_getElem (by omega)⟩
  exact hstuck x (mem_head?_of_getElem? (u := []) begins hx) (h.element_of_getElem? hx)

/-- A list that goes on no further is the longest. -/
theorem IsLongestList.of_stuck (h : Alternates A D n w) (begins : w <+: xs)
    (hstuck : ∀ w', Alternates A D (n + 1) w' → ¬ w' <+: xs) : IsLongestList A D xs w := by
  refine ⟨⟨n, h⟩, begins, fun k w' h' begins' => ?_⟩
  by_contra hlt
  have hlen := h.length_eq
  have hlen' := h'.length_eq
  obtain ⟨v, shorter, within⟩ := h'.exists_shorter (k := n + 1) (by omega)
  exact hstuck v shorter (within.trans begins')

/-- Behind an element the longest list ends where no delimiter comes. -/
theorem IsLongestList.of_element (h : Alternates A D n w)
    (hstuck : ∀ y ∈ rest.head?, ¬ D y) : IsLongestList A D (w ++ rest) w := by
  refine .of_stuck h (List.prefix_append w rest) fun w' h' begins => ?_
  have hlen := h.length_eq
  have hlen' := h'.length_eq
  obtain ⟨y, hy⟩ : ∃ y, w'[2 * n + 1]? = some y := ⟨_, List.getElem?_eq_getElem (by omega)⟩
  exact hstuck y (mem_head?_of_getElem? begins (hlen ▸ hy)) (h'.delimiter_of_getElem? hy)

/-- A delimiter behind the longest list is not part of it if no element comes behind it. -/
theorem IsLongestList.of_delimiter (h : Alternates A D n w) (y : α)
    (hstuck : ∀ x ∈ rest.head?, ¬ A x) : IsLongestList A D (w ++ [y] ++ rest) w := by
  refine .of_stuck h ((List.prefix_append w [y]).trans (List.prefix_append _ rest))
    fun w' h' begins => ?_
  have hlen := h.length_eq
  have hlen' := h'.length_eq
  obtain ⟨x, hx⟩ : ∃ x, w'[2 * (n + 1)]? = some x := ⟨_, List.getElem?_eq_getElem (by omega)⟩
  refine hstuck x (mem_head?_of_getElem? begins ?_) (h'.element_of_getElem? hx)
  rw [List.length_append, hlen, List.length_singleton]
  exact hx

end Alternates

/-! ## 2. The tokens of code -/

/-- A terminal grammar accepts a token of code. -/
def Tables.accepts (t : Tables) (id : GrammarId) (v : TokenView) : Bool :=
  match t.shape id with
  | .string template _ => v.upper == template
  | .multiString templates _ => templates.contains v.upper
  | .typed template _ => v.segment.isType template
  | .pattern text anti _ =>
    text.any fun p => !v.segment.raw.isEmpty && p.pattern.isMatch v.segment.raw &&
      !anti.any (·.pattern.isMatch v.segment.raw)
  | .token => true
  | _ => false

theorem Tables.shape_of_delimited {t : Tables} {id : GrammarId}
    (hkind : (t.instruction id).kind = .delimited) (hslot : t.parameter id 0 ≠ GrammarId.absent) :
    t.shape id = .delimited (some ⟨t.parameter id 0⟩) (t.parameter id 1) := by
  unfold Tables.shape
  rw [hkind]
  dsimp only
  rw [GrammarId.ofSlot?, if_neg hslot]

namespace Match

/-- A match that takes all from one place up to another. -/
structure Reaches (a b : Nat) (m : Match) : Prop where
  lt : a < b
  start_eq : m.start = a
  stop_eq : m.stop = b

namespace Reaches

variable {a b b' : Nat} {m x : Match}

theorem isMatch (h : Reaches a b m) : m.isMatch = true :=
  isMatch_of_lt (by rw [h.start_eq, h.stop_eq]; exact h.lt)

theorem lt_stop (h : Reaches a b m) : a < m.stop := h.stop_eq.symm ▸ h.lt

/-- What comes behind a match takes it further. -/
theorem append (h : Reaches a b m) (hx : x.isMatch = true) (hstop : x.stop = b') (hlt : a < b') :
    Reaches a b' (m.append x) :=
  ⟨hlt, by rw [start_append x h.isMatch, h.start_eq], by rw [stop_append m hx, hstop]⟩

theorem wrap? (h : Reaches a b m) (k : Option MatchClass) : Reaches a b (m.wrap? k) := by
  cases k with
  | none => exact h
  | some k =>
    exact ⟨h.lt, (start_wrap m k).trans h.start_eq, (stop_wrap m k).trans h.stop_eq⟩

end Reaches

/-- One token is taken if something holds, and else nothing. -/
structure TakesIf (p : Prop) (i : Nat) (m : Match) : Prop where
  isMatch_iff : m.isMatch = true ↔ p
  spans : m.isMatch = true → m.Reaches i (i + 1)

namespace TakesIf

variable {p : Prop} {i : Nat} {m : Match}

theorem empty (h : ¬ p) (i : Nat) : (Match.empty i).TakesIf p i :=
  ⟨by simpa using h, by simp⟩

theorem wrap? (h : m.TakesIf p i) (k : Option MatchClass) : (m.wrap? k).TakesIf p i := by
  by_cases hm : m.isMatch = true
  · have spans := (h.spans hm).wrap? k
    exact ⟨⟨fun _ => h.isMatch_iff.1 hm, fun _ => spans.isMatch⟩, fun _ => spans⟩
  · rwa [wrap?_of_not_isMatch (by simpa using hm)]

end TakesIf

end Match

namespace MatchContext

variable {c : MatchContext} {I : MatchState → Prop}

/-- The code from a place on up to a limit, with its places. -/
def codeFrom (c : MatchContext) (limit i : Nat) : List (Nat × TokenView) :=
  (List.range' i (limit - i)).filterMap fun p => ((c.tokens[p]?).filter (·.isCode)).map (p, ·)

theorem codeFrom_of_le {limit i : Nat} (h : limit ≤ i) : c.codeFrom limit i = [] := by
  rw [codeFrom, Nat.sub_eq_zero_of_le h]
  rfl

theorem codeFrom_of_lt {limit i : Nat} (h : i < limit) :
    c.codeFrom limit i =
      (((c.tokens[i]?).filter (·.isCode)).map (i, ·)).toList ++ c.codeFrom limit (i + 1) := by
  rw [codeFrom, show limit - i = (limit - (i + 1)) + 1 by omega, List.range'_succ,
    List.filterMap_cons, codeFrom]
  cases ((c.tokens[i]?).filter (·.isCode)).map (i, ·) <;> rfl

/-- Code comes before the code behind it. -/
theorem codeFrom_of_token? {limit i : Nat} {v : TokenView} (hv : c.token? limit i = some v)
    (hcode : v.isCode = true) : c.codeFrom limit i = (i, v) :: c.codeFrom limit (i + 1) := by
  obtain ⟨hlt, hv⟩ := token?_eq_some limit i hv
  rw [codeFrom_of_lt hlt, hv]
  simp [Option.filter, hcode]

/-- What is passed over is no code. -/
theorem codeFrom_skipToCode (i limit : Nat) :
    c.codeFrom limit (c.skipToCode i limit) = c.codeFrom limit i := by
  fun_induction skipToCode with
  | case1 => rfl
  | case2 i hlt hcode ih =>
    rw [ih, codeFrom_of_lt hlt]
    unfold isCodeAt at hcode
    cases hv : c.tokens[i]? with
    | none => rfl
    | some v =>
      rw [hv] at hcode
      simp [Option.filter, show v.isCode = false by simpa using hcode]
  | case3 => rfl

theorem exists_token?_of_isCodeAt {limit i : Nat} (h : c.isCodeAt i = true) (hlt : i < limit) :
    ∃ v, c.token? limit i = some v ∧ v.isCode = true := by
  unfold isCodeAt at h
  obtain ⟨v, hv, hcode⟩ := (Option.any_eq_true _ _).1 h
  exact ⟨v, by rw [token?, if_pos hlt]; exact hv, hcode⟩

/-! ## 3. Grammars of one token -/

/-- Of code a grammar matches one token of a kind, and nothing else. Its hint admits the tokens of
that kind. -/
structure Accepts (c : MatchContext) (I : MatchState → Prop) (run : Matcher) (g : GrammarId)
    (A : TokenView → Prop) : Prop where
  takes : ∀ ts {limit i : Nat} {v : TokenView}, c.token? limit i = some v → v.isCode = true →
    Meets I (run ts limit i g) (Match.TakesIf (A v) i)
  hinted : ∀ {i : Nat} {v : TokenView}, c.tokens[i]? = some v → v.isCode = true → A v →
    c.tables.admits g v.upper v.segment.classTypes = true

/-- Alone among the options, such a grammar matches a token of its kind. -/
theorem Accepts.longest {here below : Matcher} {g : GrammarId} {A : TokenView → Prop}
    (h : c.Accepts I below g A) (ts : List GrammarId) {limit i : Nat} {v : TokenView}
    (hv : c.token? limit i = some v) (hcode : v.isCode = true) (hsolid : v.isAllBlank = false) :
    Meets I (c.longest here below ts limit i [g]) fun r => r.1.TakesIf (A v) i := by
  obtain ⟨hlt, htoken⟩ := token?_eq_some limit i hv
  have pruned : c.prune limit i [g] =
      if c.tables.admits g v.upper v.segment.classTypes then [g] else [] := by
    unfold prune nextSolid?
    simp [hlt, htoken, hsolid, List.filter_cons]
  unfold MatchContext.longest
  rw [if_neg (by omega), pruned]
  by_cases hadmits : c.tables.admits g v.upper v.segment.classTypes = true
  · rw [if_pos hadmits]
    unfold longestFrom
    refine (h.takes ts hv hcode).bind fun m hm => ?_
    refine .ite (fun _ => .pure hm) fun _ => .ite (fun hshort => .pure ?_) fun _ => .pure hm
    -- nothing is longer than no match only if it is none itself
    have none : m.isMatch ≠ true := by
      intro hmatch
      have spans := hm.spans hmatch
      simp [Match.isLongerThan, Match.length, Match.empty, spans.start_eq, spans.stop_eq] at hshort
    exact .empty (fun ha => none (hm.isMatch_iff.2 ha)) i
  · rw [if_neg hadmits]
    exact .pure (.empty (fun ha => hadmits (h.hinted htoken hcode ha)) i)

/-- A terminal grammar takes the token of code that it accepts. -/
theorem exists_matchShape_of_terminal {here below below2 : Matcher} {g : GrammarId}
    (hg : (c.tables.instruction g).kind.isTerminal = true) (ts : List GrammarId) {limit i : Nat}
    {v : TokenView} (hv : c.token? limit i = some v) (hcode : v.isCode = true) :
    ∃ k, c.matchShape here below below2 ts limit i g =
      pure (if c.tables.accepts g v then .mk i (i + 1) k [] [] else .empty i) := by
  unfold matchShape Tables.accepts Tables.shape
  cases hkind : (c.tables.instruction g).kind with
  | string => exact ⟨_, by simp only [matchCode, hv, hcode, Bool.true_and]; rfl⟩
  | multiString => exact ⟨_, by simp only [matchCode, hv, hcode, Bool.true_and]; rfl⟩
  | typed => exact ⟨_, by simp only [matchTyped, hv]; rfl⟩
  | pattern =>
    cases htext : c.tables.pattern? (c.tables.parameter g 0) with
    | none => exact ⟨none, by simp [matchPattern, htext]⟩
    | some p =>
      exact ⟨_, by
        simp only [matchPattern, htext, matchCode, hv, hcode, Bool.true_and, Option.any_some]
        rfl⟩
  | token => exact ⟨none, by simp [hv, hcode, Match.range]⟩
  | _ => rw [hkind] at hg; cases hg

section Terminals

variable (hexplained : ∀ id, (c.tables.hint? id).isSome = true → c.tables.HintExplained id)

include hexplained

/-- The hint of a terminal grammar admits what it accepts. -/
theorem admits_of_accepts {g : GrammarId} {v : TokenView} (h : c.tables.accepts g v = true) :
    c.tables.admits g v.upper v.segment.classTypes = true := by
  cases hhint : c.tables.hint? g with
  | none => simp [Tables.admits, hhint]
  | some hint =>
    have explained := hexplained g (by rw [hhint]; rfl)
    unfold Tables.HintExplained at explained
    unfold Tables.accepts at h
    cases hshape : c.tables.shape g <;> rw [hshape] at h explained <;> dsimp only at h explained
    case string => exact eq_of_beq h ▸ explained _
    case multiString => exact explained _ (by simpa using h) _
    case typed => exact explained _ _ h
    all_goals first | exact explained.elim | cases h

/-- A terminal grammar accepts single tokens. -/
theorem accepts_terminal {g : GrammarId} (hg : (c.tables.instruction g).kind.isTerminal = true)
    (n : Nat) : c.Accepts I (c.matchGrammar (n + 1)) g fun v => c.tables.accepts g v = true where
  takes ts limit i v hv hcode := by
    rw [matchGrammar_succ, matchLevel]
    unfold matchOne
    obtain ⟨k, hrun⟩ := exists_matchShape_of_terminal hg ts hv hcode
    rw [hrun]
    refine Meets.bind (Q := Match.TakesIf (c.tables.accepts g v = true) i) (.pure ?_)
      fun m hm => .pure (hm.wrap? _)
    by_cases haccepts : c.tables.accepts g v = true
    · rw [if_pos haccepts]
      have spans : (Match.mk i (i + 1) k [] []).Reaches i (i + 1) := ⟨Nat.lt_succ_self i, rfl, rfl⟩
      exact ⟨⟨fun _ => haccepts, fun _ => spans.isMatch⟩, fun _ => spans⟩
    · rw [if_neg haccepts]
      exact .empty haccepts i
  hinted _ _ h := admits_of_accepts hexplained h

/-- A reference accepts what the grammar accepts that it names. -/
theorem accepts_reference (hmemo : c.memoize = false) {id target : GrammarId} {name : String}
    (hshape : c.tables.shape id = .ref name (some target) none) {n : Nat} {A : TokenView → Prop}
    (h : c.Accepts I (c.matchGrammar n) target A) : c.Accepts I (c.matchGrammar (n + 1)) id A where
  takes ts limit i v hv hcode := by
    rw [matchGrammar_succ, matchLevel]
    unfold matchOne matchShape
    rw [hshape]
    refine Meets.bind (Q := Match.TakesIf (A v) i) ?_ fun m hm => .pure (hm.wrap? _)
    unfold matchReference
    dsimp only
    rw [hmemo]
    exact Meets.bind (Q := (· = false)) (.pure rfl) fun excluded hexcluded => by
      rw [hexcluded, if_neg Bool.false_ne_true]
      exact h.takes _ hv hcode
  hinted hv hcode hA := by
    have admitted := h.hinted hv hcode hA
    cases hhint : c.tables.hint? id with
    | none => simp [Tables.admits, hhint]
    | some hint =>
      have explained := hexplained id (by rw [hhint]; rfl)
      unfold Tables.HintExplained at explained
      rw [hshape] at explained
      exact (explained target rfl).admits _ _ admitted

end Terminals

/-! ## 4. How a list stands -/

section Listing

variable (A D : TokenView → Prop) (start : Nat)

/-- How a delimited list stands: what it has taken, and the delimiter behind it, which waits for an
element. -/
inductive Listing (s : DelimitedState) :
    List (Nat × TokenView) → Option (Nat × TokenView) → Prop where
  | fresh (matched : s.matched = .empty start) (pending : s.pending = none)
    (count : s.delimiters = 0) (wants : s.wantsDelimiter = false) : Listing s [] none
  | element {w : List (Nat × TokenView)} {x : Nat × TokenView}
    (listed : Alternates (A ∘ Prod.snd) (D ∘ Prod.snd) s.delimiters (w ++ [x]))
    (matched : s.matched.Reaches start (x.1 + 1)) (pending : s.pending = none)
    (wants : s.wantsDelimiter = true) : Listing s (w ++ [x]) none
  | delimiter {w : List (Nat × TokenView)} {x y : Nat × TokenView} {m : Match}
    (listed : Alternates (A ∘ Prod.snd) (D ∘ Prod.snd) s.delimiters (w ++ [x]))
    (matched : s.matched.Reaches start (x.1 + 1)) (pending : s.pending = some m)
    (waits : m.Reaches y.1 (y.1 + 1)) (behind : start ≤ y.1) (delimits : D y.2)
    (wants : s.wantsDelimiter = false) : Listing s (w ++ [x]) (some y)

end Listing

namespace Listing

variable {A D : TokenView → Prop} {start i : Nat} {s : DelimitedState} {m : Match} {v : TokenView}
  {w : List (Nat × TokenView)} {y : Option (Nat × TokenView)}

theorem moved (h : Listing A D start s w y) (i : Nat) :
    Listing A D start { s with place := i } w y := by
  cases h with
  | fresh matched pending count wants => exact .fresh matched pending count wants
  | element listed matched pending wants => exact .element listed matched pending wants
  | delimiter listed matched pending waits behind delimits wants =>
    exact .delimiter listed matched pending waits behind delimits wants

/-- Where a delimiter is wanted, none waits. -/
theorem eq_none_of_wants (h : Listing A D start s w y) (hw : s.wantsDelimiter = true) :
    y = none := by
  cases h with
  | delimiter _ _ _ _ _ _ wants =>
    rw [hw] at wants
    cases wants
  | _ => rfl

/-- A delimiter only waits behind an element. -/
theorem ne_nil_of_some {y : Nat × TokenView} (h : Listing A D start s w (some y)) : w ≠ [] := by
  cases h with
  | delimiter => simp

theorem withDelimiter (h : Listing A D start s w none) (hw : s.wantsDelimiter = true)
    (hm : m.Reaches i (i + 1)) (hi : start ≤ i) (hv : D v) :
    Listing A D start (s.withDelimiter m) w (some (i, v)) := by
  cases h with
  | fresh _ _ _ wants =>
    rw [hw] at wants
    cases wants
  | element listed matched => exact .delimiter listed matched rfl hm hi hv rfl

/-- With an element, the delimiter before it counts. -/
theorem withPart (h : Listing A D start s w y) (hw : s.wantsDelimiter = false)
    (hm : m.Reaches i (i + 1)) (hi : start ≤ i) (hfirst : w = [] → i = start) (hv : A v) :
    Listing A D start (s.withPart m) (w ++ y.toList ++ [(i, v)]) none := by
  cases h with
  | fresh matched pending count =>
    refine .element (w := []) ?_ ?_ rfl rfl
    · have first : Alternates (A ∘ Prod.snd) (D ∘ Prod.snd) 0 [(i, v)] := .one hv
      simpa [DelimitedState.withPart, pending, count] using first
    · obtain rfl := hfirst rfl
      simpa [DelimitedState.withPart, pending, matched, Match.append_of_not_isMatch] using hm
  | element _ _ _ wants =>
    rw [hw] at wants
    cases wants
  | @delimiter w x y m' listed matched pending waits behind delimits =>
    refine .element ?_ ?_ rfl rfl
    · have := listed.more (y := y) (x := (i, v)) delimits hv
      simpa [DelimitedState.withPart, pending] using this
    · simp only [DelimitedState.withPart, pending]
      have := matched.append waits.isMatch waits.stop_eq (by omega)
      exact this.append hm.isMatch hm.stop_eq (by show start < i + 1; omega)

end Listing

/-- A list that goes on no further: behind an element comes no delimiter, and else no element. -/
structure Ended (A D : TokenView → Prop) (start : Nat) (xs : List (Nat × TokenView))
    (s : DelimitedState) (w : List (Nat × TokenView)) (y : Option (Nat × TokenView)) : Prop where
  standing : Listing A D start s w y
  stuck : ∃ rest, xs = w ++ y.toList ++ rest ∧
    (s.wantsDelimiter = true → ∀ x ∈ rest.head?, ¬ D x.2) ∧
    (s.wantsDelimiter = false → ∀ x ∈ rest.head?, ¬ A x.2)

/-! ## 5. Going on -/

/-- A list that stands before the code that is left. -/
structure Underway (c : MatchContext) (A D : TokenView → Prop) (limit start : Nat)
    (xs : List (Nat × TokenView)) (s : DelimitedState) (w : List (Nat × TokenView))
    (y : Option (Nat × TokenView)) : Prop where
  standing : Listing A D start s w y
  le_place : start ≤ s.place
  fresh : w = [] → s.place = start
  left : xs = w ++ y.toList ++ c.codeFrom limit s.place

namespace Underway

variable {A D : TokenView → Prop} {limit start : Nat} {s : DelimitedState} {m : Match}
  {v : TokenView} {xs w : List (Nat × TokenView)} {y : Option (Nat × TokenView)}

/-- Blanks are passed over. There is code at the start, so there are none before the list. -/
theorem skip (h : c.Underway A D limit start xs s w y) (hstart : c.isCodeAt start = true) :
    c.Underway A D limit start xs { s with place := c.skipToCode s.place limit } w y where
  standing := h.standing.moved _
  le_place := Nat.le_trans h.le_place (le_skipToCode s.place limit)
  fresh hw := by
    show c.skipToCode s.place limit = start
    rw [h.fresh hw, skipToCode_of_isCodeAt limit hstart]
  left := h.left.trans (by rw [codeFrom_skipToCode])

/-- Blanks may be passed over wherever the list stands. -/
theorem skip_eq (h : c.Underway A D limit start xs s w y) (hstart : c.isCodeAt start = true)
    {allowGaps : Bool} (hgaps : allowGaps = true) :
    (if (allowGaps && decide (start < s.place)) = true then c.skipToCode s.place limit
      else s.place) = c.skipToCode s.place limit := by
  by_cases hmoved : start < s.place
  · simp [hgaps, hmoved]
  · obtain rfl : start = s.place := Nat.le_antisymm h.le_place (by omega)
    simp [skipToCode_of_isCodeAt limit hstart]

/-- A list that has taken all code has ended. -/
theorem ended (h : c.Underway A D limit start xs s w y) (hend : limit ≤ s.place) :
    Ended A D start xs s w y where
  standing := h.standing
  stuck := ⟨[], by rw [h.left, codeFrom_of_le hend], by simp, by simp⟩

/-- A list that is not followed by what it wants has ended. -/
theorem stuck (h : c.Underway A D limit start xs s w y) (hv : c.token? limit s.place = some v)
    (hcode : v.isCode = true) (noDelimiter : s.wantsDelimiter = true → ¬ D v)
    (noElement : s.wantsDelimiter = false → ¬ A v) : Ended A D start xs s w y where
  standing := h.standing
  stuck := by
    refine ⟨_, h.left, fun hw => ?_, fun hw => ?_⟩ <;>
      rw [codeFrom_of_token? hv hcode, List.head?_cons] <;> rintro x ⟨⟩
    · exact noDelimiter hw
    · exact noElement hw

theorem withDelimiter (h : c.Underway A D limit start xs s w none) (hw : s.wantsDelimiter = true)
    (hv : c.token? limit s.place = some v) (hcode : v.isCode = true)
    (hm : m.Reaches s.place (s.place + 1)) (hD : D v) :
    c.Underway A D limit start xs (s.withDelimiter m) w (some (s.place, v)) := by
  have next := h.standing.withDelimiter hw hm h.le_place hD
  have hplace : (s.withDelimiter m).place = s.place + 1 := hm.stop_eq
  refine ⟨next, ?_, fun hnil => absurd hnil next.ne_nil_of_some, ?_⟩
  · rw [hplace]
    exact Nat.le_succ_of_le h.le_place
  · rw [h.left, codeFrom_of_token? hv hcode, hplace]
    simp

theorem withPart (h : c.Underway A D limit start xs s w y) (hw : s.wantsDelimiter = false)
    (hv : c.token? limit s.place = some v) (hcode : v.isCode = true)
    (hm : m.Reaches s.place (s.place + 1)) (hA : A v) :
    c.Underway A D limit start xs (s.withPart m) (w ++ y.toList ++ [(s.place, v)]) none := by
  have hplace : (s.withPart m).place = s.place + 1 := hm.stop_eq
  refine ⟨h.standing.withPart hw hm h.le_place h.fresh hA, ?_, fun hnil => by simp at hnil, ?_⟩
  · rw [hplace]
    exact Nat.le_succ_of_le h.le_place
  · rw [h.left, codeFrom_of_token? hv hcode, hplace]
    simp

end Underway

section Lists

variable {below below2 : Matcher} {A D : TokenView → Prop} {d e : GrammarId}
  (hbelow : ∀ ts limit place g, Meets I (below ts limit place g) fun _ => True)
  (hd : c.Accepts I below2 d D) (he : c.Accepts I below2 e A)

include hbelow hd he

/-- A delimited list goes on until it ends, and it is not ended by anything else. -/
theorem meets_delimitedFrom_ended {ts : List GrammarId} {limit start : Nat} {spec : DelimitedSpec}
    (hdelimiter : spec.delimiter = d) (hparts : spec.parts = [e]) (hgaps : spec.allowGaps = true)
    (hoptional : spec.optionalDelimiter = false)
    (hquiet : ∀ t ∈ spec.terminators, ∀ place, place < limit →
      Meets I (below2 ts limit place t) fun m => m.isMatch = false)
    (hsolid : ∀ p v, c.token? limit p = some v → v.isCode = true → v.isAllBlank = false)
    (hstart : c.isCodeAt start = true) (fuel : Nat) {s : DelimitedState}
    {xs w : List (Nat × TokenView)} {y : Option (Nat × TokenView)}
    (h : c.Underway A D limit start xs s w y) (hfuel : limit < fuel + s.place) :
    Meets I (c.delimitedFrom below below2 ts limit start spec fuel s) fun s' =>
      ∃ w' y', Ended A D start xs s' w' y' := by
  induction fuel generalizing s w y with
  | zero => exact .pure ⟨w, y, h.ended (by omega)⟩
  | succ fuel ih =>
    unfold delimitedFrom
    rw [h.skip_eq hstart hgaps]
    dsimp only
    have onwards := le_skipToCode (c := c) s.place limit
    replace h := h.skip hstart
    by_cases hend : limit ≤ c.skipToCode s.place limit
    · rw [if_pos (by simp [hend])]
      exact .pure ⟨w, y, h.ended hend⟩
    have hcode : c.isCodeAt (c.skipToCode s.place limit) = true := isCodeAt_skipToCode (by omega)
    rw [if_neg (by simp [hend, hgaps])]
    generalize c.skipToCode s.place limit = i at *
    have hlt : i < limit := by omega
    obtain ⟨v, hv, hvcode⟩ := exists_token?_of_isCodeAt hcode hlt
    refine (meets_longest_of (Q := (·.isMatch = false)) (hbelow ts limit) spec.terminators
      (fun _ t ht => hquiet t ht i hlt) (Match.isMatch_empty i)).bind fun ending hending => ?_
    rw [hending, if_neg Bool.false_ne_true]
    by_cases hwants : s.wantsDelimiter = true
    · obtain rfl := h.standing.eq_none_of_wants hwants
      rw [if_pos hwants, hdelimiter]
      refine (hd.longest ts hv hvcode (hsolid i v hv hvcode)).bind fun found hfound => ?_
      refine .ite (fun hmatch => ?_) fun hnone => ?_
      · have spans := hfound.spans hmatch
        have next := h.withDelimiter hwants hv hvcode spans (hfound.isMatch_iff.1 hmatch)
        refine ih next ?_
        show limit < fuel + found.1.stop
        rw [spans.stop_eq]
        omega
      · rw [if_neg (by simp [hoptional])]
        exact .pure ⟨w, none, h.stuck hv hvcode (fun _ hD => hnone (hfound.isMatch_iff.2 hD))
          fun hno => absurd (hwants.symm.trans hno) (by simp)⟩
    · rw [if_neg hwants, hparts]
      have hno : s.wantsDelimiter = false := by simpa using hwants
      refine (he.longest (pushTerminators false [spec.delimiter] ts) hv hvcode
        (hsolid i v hv hvcode)).bind fun found hfound => ?_
      refine .ite (fun hmatch => ?_) fun hnone => ?_
      · have spans := hfound.spans hmatch
        have next := h.withPart hno hv hvcode spans (hfound.isMatch_iff.1 hmatch)
        refine ih next ?_
        show limit < fuel + found.1.stop
        rw [spans.stop_eq]
        omega
      · exact .pure ⟨w, y, h.stuck hv hvcode (fun hyes => absurd hyes hwants)
          fun _ hA => hnone (hfound.isMatch_iff.2 hA)⟩

end Lists

/-! ## 6. What a list matches -/

/-- Of tokens a match takes the longest list, and a delimiter behind it if that is allowed, provided
that enough delimiters are among them. -/
structure MatchesList (A D : TokenView → Prop) (least : Nat) (trailing : Bool) (start : Nat)
    (xs : List (Nat × TokenView)) (m : Match) : Prop where
  isMatch_iff : m.isMatch = true ↔
    ∃ w, Alternates (A ∘ Prod.snd) (D ∘ Prod.snd) least w ∧ w <+: xs
  reaches : m.isMatch = true → m.start = start ∧ start < m.stop ∧
    ∃ w, IsLongestList (A ∘ Prod.snd) (D ∘ Prod.snd) xs w ∧
      ((∃ y, xs[w.length]? = some y ∧ D y.2 ∧ trailing = true ∧ m.stop = y.1 + 1) ∨
        (∀ y, xs[w.length]? = some y → D y.2 → trailing = false) ∧
          ∃ x, w.getLast? = some x ∧ m.stop = x.1 + 1)

section Outcome

variable {A D : TokenView → Prop} {start least : Nat} {xs w : List (Nat × TokenView)}
  {y : Option (Nat × TokenView)} {s : DelimitedState} {trailing : Bool} {m : Match}

theorem MatchesList.wrap? (h : MatchesList A D least trailing start xs m) (k : Option MatchClass) :
    MatchesList A D least trailing start xs (m.wrap? k) := by
  by_cases hm : m.isMatch = true
  · obtain ⟨hstart, hlt, longest⟩ := h.reaches hm
    have spans := (Match.Reaches.mk hlt hstart rfl).wrap? k
    refine ⟨⟨fun _ => h.isMatch_iff.1 hm, fun _ => spans.isMatch⟩, fun _ => ?_⟩
    rw [spans.stop_eq]
    exact ⟨spans.start_eq, hlt, longest⟩
  · rwa [Match.wrap?_of_not_isMatch (by simpa using hm)]

/-- The match of a delimited list that has ended. -/
def finishDelimited (least start : Nat) (trailing : Bool) (s : DelimitedState) : Match :=
  if s.delimiters < least then .empty start
  else if trailing && !s.wantsDelimiter then s.withPending
  else s.matched

/-- A list that has begun matches as far as it is the longest, if it has delimiters enough. -/
theorem MatchesList.of_longest
    (h : Alternates (A ∘ Prod.snd) (D ∘ Prod.snd) s.delimiters w)
    (longest : IsLongestList (A ∘ Prod.snd) (D ∘ Prod.snd) xs w)
    (hm : (if trailing && !s.wantsDelimiter then s.withPending else s.matched) = m)
    (hlt : start < m.stop) (hstart : m.start = start)
    (hstop : (∃ y, xs[w.length]? = some y ∧ D y.2 ∧ trailing = true ∧ m.stop = y.1 + 1) ∨
        (∀ y, xs[w.length]? = some y → D y.2 → trailing = false) ∧
          ∃ x, w.getLast? = some x ∧ m.stop = x.1 + 1) :
    MatchesList A D least trailing start xs (finishDelimited least start trailing s) := by
  unfold finishDelimited
  by_cases hfew : s.delimiters < least
  · rw [if_pos hfew]
    have none : ¬ ∃ w, Alternates (A ∘ Prod.snd) (D ∘ Prod.snd) least w ∧ w <+: xs := by
      rintro ⟨w', h', begins⟩
      have := longest.longest least w' h' begins
      rw [h.length_eq, h'.length_eq] at this
      omega
    exact ⟨by simpa using none, by simp⟩
  · rw [if_neg hfew, hm]
    obtain ⟨w', shorter, within⟩ := h.exists_shorter (k := least) (by omega)
    exact ⟨⟨fun _ => ⟨w', shorter, within.trans longest.begins⟩,
        fun _ => Match.isMatch_of_lt (hstart ▸ hlt)⟩, fun _ => ⟨hstart, hlt, w, longest, hstop⟩⟩

/-- What a list that has ended matches. -/
theorem Ended.matchesList (h : Ended A D start xs s w y) :
    MatchesList A D least trailing start xs (finishDelimited least start trailing s) := by
  obtain ⟨standing, rest, split, noDelimiter, noElement⟩ := h
  cases standing with
  | fresh matched pending count wants =>
    have stuck : ∀ x ∈ rest.head?, ¬ (A ∘ Prod.snd) x := noElement wants
    have none : ¬ ∃ w, Alternates (A ∘ Prod.snd) (D ∘ Prod.snd) least w ∧ w <+: xs := by
      rintro ⟨w', h', begins⟩
      rw [split] at begins
      exact not_alternates_of_head stuck h' begins
    have unmatched : (finishDelimited least start trailing s).isMatch = false := by
      unfold finishDelimited DelimitedState.withPending
      rw [pending, matched]
      split <;> [skip; split] <;> exact Match.isMatch_empty start
    exact ⟨by rw [unmatched]; simpa using none, by simp [unmatched]⟩
  | @element w x listed matched pending wants =>
    have stuck : ∀ x ∈ rest.head?, ¬ (D ∘ Prod.snd) x := noDelimiter wants
    have longest := IsLongestList.of_element listed stuck
    rw [Option.toList_none, List.append_nil] at split
    rw [← split] at longest
    refine .of_longest listed longest (m := s.matched) (by simp [wants]) matched.lt_stop
      matched.start_eq (.inr ⟨fun y hy hD => ?_, x, by simp, matched.stop_eq⟩)
    rw [split, List.getElem?_append_right (Nat.le_refl _), Nat.sub_self,
      ← List.head?_eq_getElem?] at hy
    exact absurd hD (noDelimiter wants y hy)
  | @delimiter w x y m listed matched pending waits behind delimits wants =>
    have stuck : ∀ x ∈ rest.head?, ¬ (A ∘ Prod.snd) x := noElement wants
    have longest := IsLongestList.of_delimiter listed y stuck
    rw [Option.toList_some] at split
    rw [← split] at longest
    have next : xs[(w ++ [x]).length]? = some y := by
      rw [split, List.append_assoc, List.getElem?_append_right (Nat.le_refl _), Nat.sub_self]
      rfl
    cases trailing with
    | false =>
      refine .of_longest listed longest (m := s.matched) (by simp) matched.lt_stop
        matched.start_eq (.inr ⟨fun _ _ _ => rfl, x, by simp, matched.stop_eq⟩)
    | true =>
      have spans := matched.append waits.isMatch waits.stop_eq (by omega)
      refine .of_longest listed longest (m := s.matched.append m)
        (by simp [wants, DelimitedState.withPending, pending]) spans.lt_stop spans.start_eq
        (.inl ⟨y, next, delimits, rfl, spans.stop_eq⟩)

end Outcome

/-- A delimited list of such grammars, which no terminator ends, matches its language. -/
theorem meets_matchDelimited_matchesList {below below2 : Matcher} {A D : TokenView → Prop}
    {d e id : GrammarId}
    (hbelow : ∀ ts limit place g, Meets I (below ts limit place g) fun _ => True)
    (hd : c.Accepts I below2 d D) (he : c.Accepts I below2 e A) {ts : List GrammarId}
    {limit i : Nat} (least : Nat) (hparts : c.tables.parts id = [e])
    (hgaps : (c.tables.instruction id).flags.allowGaps = true)
    (hoptional : (c.tables.instruction id).flags.optionalDelimiter = false)
    (hown : c.tables.terminatorsOf id = [])
    (hquiet : ∀ t ∈ ts, c.resolve t ≠ c.resolve d → ∀ place, place < limit →
      Meets I (below2 ts limit place t) fun m => m.isMatch = false)
    (hsolid : ∀ p v, c.token? limit p = some v → v.isCode = true → v.isAllBlank = false)
    (hstart : c.isCodeAt i = true) :
    Meets I (c.matchDelimited below below2 ts limit i id d least)
      (MatchesList A D least (c.tables.instruction id).flags.allowTrailing i
        (c.codeFrom limit i)) := by
  unfold matchDelimited
  refine (meets_delimitedFrom_ended hbelow hd he rfl hparts hgaps hoptional ?_ hsolid hstart
    (2 * limit + 2) ⟨.fresh rfl rfl rfl rfl, Nat.le_refl i, fun _ => rfl, rfl⟩
    (by dsimp only; omega)).bind fun s hs => ?_
  · intro t ht
    rw [hown, List.nil_append, List.mem_filter, decide_eq_true_eq] at ht
    exact hquiet t ht.1 ht.2
  · obtain ⟨w, y, ended⟩ := hs
    have matches_ : MatchesList A D least (c.tables.instruction id).flags.allowTrailing i
      (c.codeFrom limit i) _ := ended.matchesList
    unfold finishDelimited at matches_
    refine .ite (fun hfew => ?_) fun henough => .ite (fun htrailing => ?_) fun hlast => ?_
    · rw [if_pos hfew] at matches_
      exact .pure matches_
    · rw [if_neg henough, if_pos htrailing] at matches_
      exact .pure matches_
    · rw [if_neg henough, if_neg hlast] at matches_
      exact .pure matches_

/-! ## 7. Lists with a memo -/

theorem resolve_unmemoized (c : MatchContext) (id : GrammarId) :
    c.unmemoized.resolve id = c.resolve id := by
  have follow (n : Nat) (id : GrammarId) :
      resolve.follow c.unmemoized n id = resolve.follow c n id := by
    induction n generalizing id with
    | zero => rfl
    | succ n ih =>
      unfold resolve.follow
      rw [show c.unmemoized.tables = c.tables from rfl]
      split
      · exact ih _
      · rfl
  exact follow _ id

/-- At its level a delimited list matches as a list, whatever segment is made of it. -/
theorem meets_matchGrammar_of_delimited {n : Nat} {ts : List GrammarId} {limit i : Nat}
    {id d : GrammarId} {least : Nat} {A D : TokenView → Prop} {trailing : Bool}
    {xs : List (Nat × TokenView)} (hshape : c.tables.shape id = .delimited (some d) least)
    (h : Meets I
      (c.matchDelimited (c.matchGrammar n) (c.matchGrammar (n - 1)) ts limit i id d least)
      (MatchesList A D least trailing i xs)) :
    Meets I (c.matchGrammar (n + 1) ts limit i id) (MatchesList A D least trailing i xs) := by
  rw [matchGrammar_succ, matchLevel]
  unfold matchOne matchShape
  rw [hshape]
  exact h.bind fun m hm => .pure (hm.wrap? _)

/-- A delimited list of a grammar of single tokens, with a delimiter that is such a grammar as well,
matches its language: it matches where the code begins with as many elements as are wanted, with
delimiters between them, and it takes all that come, and a delimiter behind them where that is
allowed. Terminators around it that are the delimiter itself are no concern, and the others are not
to match. Tokens may be elements and delimiters at once. -/
theorem matchDelimited_language {n : Nat} {ts : List GrammarId} {limit i : Nat}
    {id d e : GrammarId} {least : Nat} {A D : TokenView → Prop} {s : MatchState} {m : Match}
    (hshape : c.tables.shape id = .delimited (some d) least) (hparts : c.tables.parts id = [e])
    (hgaps : (c.tables.instruction id).flags.allowGaps = true)
    (hoptional : (c.tables.instruction id).flags.optionalDelimiter = false)
    (hown : c.tables.terminatorsOf id = [])
    (he : c.unmemoized.Accepts (fun _ => True) (c.unmemoized.matchGrammar (n - 1)) e A)
    (hd : c.unmemoized.Accepts (fun _ => True) (c.unmemoized.matchGrammar (n - 1)) d D)
    (hquiet : ∀ t ∈ ts, c.resolve t ≠ c.resolve d → ∀ place < limit, ∀ s,
      ((c.unmemoized.matchGrammar (n - 1) ts limit place t).run s).1.isMatch = false)
    (hsolid : ∀ p v, c.token? limit p = some v → v.isCode = true → v.isAllBlank = false)
    (hcode : c.isCodeAt i = true) (hs : c.Earlier s)
    (hn : ¬ c.unmemoized.Trips (n + 1) ts limit i id {})
    (hm : ((c.matchGrammar (n + 1) ts limit i id).run s).1 = m) :
    MatchesList A D least (c.tables.instruction id).flags.allowTrailing i (c.codeFrom limit i)
      m := by
  have quiet : ∀ t ∈ ts, c.unmemoized.resolve t ≠ c.unmemoized.resolve d → ∀ place, place < limit →
      Meets (fun _ => True) (c.unmemoized.matchGrammar (n - 1) ts limit place t)
        fun m => m.isMatch = false := by
    intro t ht hne place hplace s _
    rw [resolve_unmemoized, resolve_unmemoized] at hne
    exact ⟨hquiet t ht hne place hplace s, trivial⟩
  have below (ts : List GrammarId) (limit place : Nat) (g : GrammarId) :
      Meets (fun _ => True) (c.unmemoized.matchGrammar n ts limit place g) fun _ => True :=
    fun _ _ => ⟨trivial, trivial⟩
  have listed := meets_matchDelimited_matchesList (c := c.unmemoized) below hd he least hparts hgaps
    hoptional hown quiet hsolid hcode
  rw [run_unmemoized_of_sincere hs.sincere hn] at hm
  rw [← hm]
  exact (meets_matchGrammar_of_delimited (c := c.unmemoized) hshape listed {} trivial).1

/-- A list of a keyword, at least two of them, with commas between them and maybe one at the end. -/
def listBook : GrammarBook where
  root := "Root"
  definitions := [
    .grammar "Root" (((Grammar.delimited [.keyword "a"]).atLeastDelimiters 1).allowTrailing),
    .grammar "CommaSegment" (.string "," "comma")]

/-- Two elements, a delimiter behind them, and a token that is no element. -/
def listContext : MatchContext :=
  (Parser.ofBook listBook).context (Parser.wordTokens 0 0 ["a", ",", "a", ",", "b"])

/-- The grammar of the keyword. -/
def listElement : GrammarId := (listContext.tables.parts listContext.tables.root).headD default

/-- The grammar of the comma, to which the delimiter of the list refers. -/
def listComma : GrammarId := (listContext.tables.lookup? "CommaSegment").getD default

/-- The list takes both elements and the delimiter behind them. -/
theorem matchDelimited_language_trailing :
    MatchesList (listContext.tables.accepts listElement · = true)
        (listContext.tables.accepts listComma · = true) 1 true 0
        (listContext.codeFrom listContext.size 0) listContext.rootMatch ∧
      listContext.rootMatch.isMatch = true ∧ listContext.rootMatch.stop = 4 := by
  let c := listContext
  let d : GrammarId := ⟨c.tables.parameter c.tables.root 0⟩
  have compiled : listBook.compile.isOk = true := by decide +kernel
  have explained : ∀ id, (c.tables.hint? id).isSome = true → c.tables.HintExplained id :=
    fun id => GrammarBook.hintExplained_of_compile (Parser.compile_eq_ofBook compiled)
  have list : (c.tables.instruction c.tables.root).kind = .delimited ∧
      c.tables.parameter c.tables.root 0 ≠ GrammarId.absent ∧
      c.tables.parameter c.tables.root 1 = 1 := by decide +kernel
  have hshape : c.tables.shape c.tables.root = .delimited (some d) 1 :=
    list.2.2 ▸ Tables.shape_of_delimited list.1 list.2.1
  have reference : (c.tables.instruction d).kind = .ref ∧
      c.tables.parameter d 1 ≠ GrammarId.absent ∧
      (⟨c.tables.parameter d 1⟩ : GrammarId) = listComma ∧ c.tables.excludeIn d 2 = none := by
    decide +kernel
  have hreference : c.tables.shape d =
      .ref (c.tables.string (c.tables.parameter d 0)) (some listComma) none := by
    rw [Tables.shape_of_reference reference.1 reference.2.1, reference.2.2.1, reference.2.2.2]
  have element := accepts_terminal (c := c.unmemoized) (I := fun _ => True) explained
    (g := listElement) (by decide +kernel) 6
  have comma := accepts_terminal (c := c.unmemoized) (I := fun _ => True) explained
    (g := listComma) (by decide +kernel) 5
  have delimiter := accepts_reference (c := c.unmemoized) explained rfl hreference comma
  have solid : ∀ v ∈ listContext.tokens, v.isAllBlank = false := by decide +kernel
  have trailing : (c.tables.instruction c.tables.root).flags.allowTrailing = true := by
    decide +kernel
  have within : ¬ c.unmemoized.Trips 9 [] c.size 0 c.tables.root {} := by decide +kernel
  have listed := matchDelimited_language (c := c) (n := 8) hshape (by decide +kernel)
    (by decide +kernel) (by decide +kernel) (by decide +kernel) element delimiter (by simp)
    (fun p v hv _ => solid v (Array.mem_of_getElem? (token?_eq_some c.size p hv).2))
    (by decide +kernel) .fresh within (run_root within)
  rw [trailing] at listed
  exact ⟨listed, by decide +kernel, by decide +kernel⟩

end MatchContext

end QueryLint
