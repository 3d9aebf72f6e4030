import Mathlib.Data.List.Forall2
import QueryLint.Match.Scan
import QueryLint.Proofs.Match.Tidy

/-!
QueryLint.Proofs.Match.Alongside — two matchings side by side.

The same tokens can be matched in two ways: with the memo and without it, with one limit of depth
and with another, or with grammars that make more segments than those of the dialect. Other tokens
may be matched like them, if no grammar can tell them apart. Whether that makes a difference is a
question about two runs. They are followed step by step: as long as both have found alike matches
they try the same grammars at the same places, and so what they find in the end is alike.

Either run may also lose its way, for instance where it hits the limit of depth. It never finds it
again, and nothing is said of what it finds from there on.

* `Alongside` — two steps that keep side by side.
* `Likeness` — what makes matches alike, as far as matching can tell them apart.
* `MatchContext.Abreast` — tokens that grammars cannot tell from those of a context.
* `MatchContext.varied` — the same context with other tokens, other segments and another use of the
  memo.
* `alongside_longest`, `alongside_nextMatch`, … — the scans keep side by side if the matchers do.
-/

namespace QueryLint

variable {α β : Type}

/-! ## 1. Steps side by side -/

/-- What there is to say of two runs: when either has lost its way, and how their states go
together as long as none has. -/
structure Bond where
  lost : MatchState → Prop
  lost' : MatchState → Prop
  alike : MatchState → MatchState → Prop

/-- Two steps keep side by side: from states that go together they end in such states, with results
that go together, unless one of them loses its way. Steps do not find a way that was lost. -/
structure Alongside (b : Bond) (Q : α → α → Prop) (x y : Matching α) : Prop where
  lost : ∀ s, b.lost s → b.lost (x.run s).2
  lost' : ∀ t, b.lost' t → b.lost' (y.run t).2
  agree : ∀ s t, b.alike s t → b.lost (x.run s).2 ∨ b.lost' (y.run t).2 ∨
    (Q (x.run s).1 (y.run t).1 ∧ b.alike (x.run s).2 (y.run t).2)

namespace Alongside

variable {b : Bond} {P : α → α → Prop} {Q : β → β → Prop}

theorem pure {u v : α} (h : P u v) : Alongside b P (Pure.pure u) (Pure.pure v) where
  lost _ hs := hs
  lost' _ ht := ht
  agree _ _ hst := .inr (.inr ⟨h, hst⟩)

/-- Steps that go on from results that go together. -/
theorem bind {x y : Matching α} {f g : α → Matching β} (hx : Alongside b P x y)
    (hP : ∀ u, P u u) (hf : ∀ u v, P u v → Alongside b Q (f u) (g v)) :
    Alongside b Q (x >>= f) (y >>= g) where
  lost s hs := (hf _ _ (hP _)).lost _ (hx.lost s hs)
  lost' t ht := (hf _ _ (hP _)).lost' _ (hx.lost' t ht)
  agree s t hst := by
    rcases hx.agree s t hst with hlost | hlost | ⟨huv, hst'⟩
    · exact .inl ((hf _ _ (hP _)).lost _ hlost)
    · exact .inr (.inl ((hf _ _ (hP _)).lost' _ hlost))
    · exact (hf _ _ huv).agree _ _ hst'

/-- Steps that go on from equal results. -/
theorem bindEq {x y : Matching α} {f g : α → Matching β} (hx : Alongside b Eq x y)
    (hf : ∀ u, Alongside b Q (f u) (g u)) : Alongside b Q (x >>= f) (y >>= g) :=
  hx.bind (fun _ => rfl) fun u _ huv => huv ▸ hf u

/-- Steps that only make something of results that go together. -/
theorem map {x y : Matching α} {f g : α → β} (hx : Alongside b P x y)
    (hf : ∀ u v, P u v → Q (f u) (g v)) :
    Alongside b Q (x >>= fun u => Pure.pure (f u)) (y >>= fun v => Pure.pure (g v)) where
  lost s hs := hx.lost s hs
  lost' t ht := hx.lost' t ht
  agree s t hst := by
    rcases hx.agree s t hst with hlost | hlost | ⟨huv, hst'⟩
    · exact .inl hlost
    · exact .inr (.inl hlost)
    · exact .inr (.inr ⟨hf _ _ huv, hst'⟩)

theorem mono {x y : Matching α} {P' : α → α → Prop} (hx : Alongside b P x y)
    (h : ∀ u v, P u v → P' u v) : Alongside b P' x y where
  lost := hx.lost
  lost' := hx.lost'
  agree s t hst := (hx.agree s t hst).imp_right (.imp_right fun ⟨huv, hst'⟩ => ⟨h _ _ huv, hst'⟩)

/-- Two runs that take the same turn. -/
theorem ite {p q : Prop} [Decidable p] [Decidable q] {x y x' y' : Matching α} (hpq : p ↔ q)
    (h : p → Alongside b P x y) (h' : ¬ p → Alongside b P x' y') :
    Alongside b P (if p then x else x') (if q then y else y') := by
  by_cases hp : p
  · rw [if_pos hp, if_pos (hpq.1 hp)]
    exact h hp
  · rw [if_neg hp, if_neg (mt hpq.2 hp)]
    exact h' hp

end Alongside

/-! ## 2. Alike matches -/

/-- What makes matches, and lists of matches, alike, if it is given which classes of them are. They
start and stop at the same places, match or do not match together, put the same markers around, and
what is made of them is alike again. -/
structure Likeness (alike : MatchClass → MatchClass → Prop) (like : Match → Match → Prop)
    (likeAll : List Match → List Match → Prop) : Prop where
  class_refl : ∀ k, alike k k
  refl : ∀ m, like m m
  start_eq : ∀ {m m'}, like m m' → m.start = m'.start
  stop_eq : ∀ {m m'}, like m m' → m.stop = m'.stop
  isMatch_eq : ∀ {m m'}, like m m' → m.isMatch = m'.isMatch
  outerInserts_eq : ∀ {m m'}, like m m' → m.outerInserts = m'.outerInserts
  outerChildren : ∀ {m m'}, like m m' → likeAll m.outerChildren m'.outerChildren
  wrap : ∀ {m m' k k'}, alike k k' → like m m' → like (m.wrap k) (m'.wrap k')
  build : ∀ {cs cs' k k'} (i j : Nat) (is : List (Nat × MarkerKind)), Option.Rel alike k k' →
    likeAll cs cs' → like (.mk i j k is cs) (.mk i j k' is cs')
  nil : likeAll [] []
  single : ∀ {m m'}, like m m' → likeAll [m] [m']
  append : ∀ {cs cs' ds ds'}, likeAll cs cs' → likeAll ds ds' → likeAll (cs ++ ds) (cs' ++ ds')

/-- Equality makes matches alike. -/
theorem Likeness.ofEq : Likeness Eq Eq Eq where
  class_refl _ := rfl
  refl _ := rfl
  start_eq h := h ▸ rfl
  stop_eq h := h ▸ rfl
  isMatch_eq h := h ▸ rfl
  outerInserts_eq h := h ▸ rfl
  outerChildren h := h ▸ rfl
  wrap hk h := hk ▸ h ▸ rfl
  build _ _ _ hk h := by
    cases hk with
    | none => rw [h]
    | some hk => rw [hk, h]
  nil := rfl
  single h := h ▸ rfl
  append h h' := h ▸ h' ▸ rfl

theorem option_rel_refl {Q : α → α → Prop} (h : ∀ a, Q a a) : ∀ o : Option α, Option.Rel Q o o
  | none => .none
  | some a => .some (h a)

theorem exists_of_rel_some {Q : α → β → Prop} {a : α} {o : Option β} (h : Option.Rel Q (some a) o) :
    ∃ b, o = some b ∧ Q a b := by
  cases h with
  | some h => exact ⟨_, rfl, h⟩

theorem eq_none_of_rel_none {Q : α → β → Prop} {o : Option β} (h : Option.Rel Q none o) :
    o = none := by
  cases h
  rfl

/-- A match with something beside it: the matches are alike, and what is beside them is the same. -/
def Beside (like : Match → Match → Prop) (r r' : Match × β) : Prop := like r.1 r'.1 ∧ r.2 = r'.2

/-- Matches that differ in what is inside them only. -/
structure Twin (likeAll : List Match → List Match → Prop) (m m' : Match) : Prop where
  start_eq : m.start = m'.start
  stop_eq : m.stop = m'.stop
  class_eq : m.class? = m'.class?
  inserts_eq : m.inserts = m'.inserts
  children : likeAll m.children m'.children

/-- Matches that are put into nothing and put no markers in. -/
inductive Loose (likeAll : List Match → List Match → Prop) : Match → Match → Prop where
  | mk {cs cs' : List Match} (i j : Nat) (h : likeAll cs cs') :
    Loose likeAll (.mk i j none [] cs) (.mk i j none [] cs')

namespace Likeness

variable {alike : MatchClass → MatchClass → Prop} {like : Match → Match → Prop}
  {likeAll : List Match → List Match → Prop} (hl : Likeness alike like likeAll)
  {m m' n n' : Match}

include hl

/-- Matches of one class, with alike matches inside. -/
theorem within {cs cs' : List Match} (i j : Nat) (k : Option MatchClass)
    (is : List (Nat × MarkerKind)) (h : likeAll cs cs') :
    like (.mk i j k is cs) (.mk i j k is cs') :=
  hl.build i j is (option_rel_refl hl.class_refl k) h

theorem isEmpty_eq (h : like m m') : m.isEmpty = m'.isEmpty := by
  rw [Match.isEmpty, Match.isEmpty, hl.start_eq h, hl.stop_eq h]

theorem isLongerThan_eq (h : like m m') (h' : like n n') :
    m.isLongerThan n = m'.isLongerThan n' := by
  rw [Match.isLongerThan, Match.isLongerThan, Match.length, Match.length, Match.length,
    Match.length, hl.start_eq h, hl.stop_eq h, hl.start_eq h', hl.stop_eq h']

theorem joined (h : like m m') (h' : like n n') : like (m.append n) (m'.append n') := by
  unfold Match.append
  rw [← hl.isMatch_eq h, ← hl.isMatch_eq h']
  split
  · exact h'
  · split
    · exact h
    · rw [← hl.start_eq h, ← hl.stop_eq h', ← hl.outerInserts_eq h, ← hl.outerInserts_eq h']
      exact hl.within _ _ _ _ (hl.append (hl.outerChildren h) (hl.outerChildren h'))

theorem ofTwin (h : Twin likeAll m m') : like m m' := by
  obtain ⟨a, b, k, is, cs⟩ := m
  obtain ⟨a', b', k', is', cs'⟩ := m'
  obtain ⟨rfl, rfl, rfl, rfl, h⟩ := h
  exact hl.within _ _ _ _ h

theorem ofLoose (h : Loose likeAll m m') : like m m' := by
  cases h with
  | mk i j h => exact hl.within i j none [] h

theorem ofForall₂ {cs cs' : List Match} (h : List.Forall₂ like cs cs') : likeAll cs cs' := by
  induction h with
  | nil => exact hl.nil
  | cons h _ ih => exact hl.append (hl.single h) ih

theorem reflAll (cs : List Match) : likeAll cs cs :=
  hl.ofForall₂ (List.forall₂_same.2 fun m _ => hl.refl m)

theorem beside (r : Match × β) : Beside like r r := ⟨hl.refl r.1, rfl⟩

end Likeness

/-- A pair of brackets put into a segment is alike if what is inside is. -/
theorem Twin.wrapBracketed {likeAll : List Match → List Match → Prop} {i j : Nat}
    {is : List (Nat × MarkerKind)} {cs cs' : List Match}
    (his : is ≠ []) (h : likeAll cs cs') :
    Twin likeAll ((Match.mk i j none is cs).wrap .bracketed)
      ((Match.mk i j none is cs').wrap .bracketed) := by
  have hwrap (cs : List Match) :
      (Match.mk i j none is cs).wrap .bracketed = .mk i j (some .bracketed) is cs := by
    simp [Match.wrap, Match.isMatch, Match.inserts, Match.class?, Match.start, Match.stop,
      Match.children, his]
  rw [hwrap, hwrap]
  exact ⟨rfl, rfl, rfl, rfl, h⟩


/-! ## 3. Varied contexts -/

/-- Tokens that patterns `ps` and all else that grammars ask cannot tell apart. Their texts may
differ where that makes matches of alike classes. -/
structure TokenView.Abreast (alike : MatchClass → MatchClass → Prop) (ps : Array TablePattern)
    (v w : TokenView) : Prop where
  upper_eq : w.upper = v.upper
  firstWord_eq : w.firstWord = v.firstWord
  isAllBlank_eq : w.isAllBlank = v.isAllBlank
  isCode_eq : w.isCode = v.isCode
  isMarker_eq : w.isMarker = v.isMarker
  types_eq : w.segment.classTypes = v.segment.classTypes
  isEmpty_eq : w.segment.raw.isEmpty = v.segment.raw.isEmpty
  isMatch_eq : ∀ p ∈ ps, p.pattern.isMatch w.segment.raw = p.pattern.isMatch v.segment.raw
  token : ∀ (type : String) (f : String → String), alike (.token type (some (f v.segment.raw)))
    (.token type (some (f w.segment.raw)))

namespace TokenView.Abreast

variable {alike : MatchClass → MatchClass → Prop} {ps : Array TablePattern} {v w : TokenView}

theorem refl (h : ∀ k, alike k k) (v : TokenView) : v.Abreast alike ps v where
  upper_eq := rfl
  firstWord_eq := rfl
  isAllBlank_eq := rfl
  isCode_eq := rfl
  isMarker_eq := rfl
  types_eq := rfl
  isEmpty_eq := rfl
  isMatch_eq _ _ := rfl
  token _ _ := h _

theorem isType_eq (h : v.Abreast alike ps w) (type : String) :
    w.segment.isType type = v.segment.isType type := by
  rw [Segment.isType, Segment.isType, h.types_eq]

end TokenView.Abreast

namespace MatchContext

/-- The same context with other tokens, other types of the segments that grammars make, and another
use of the memo. -/
def varied (c : MatchContext) (tokens : Array TokenView) (types : Array Nat) (memoize : Bool) :
    MatchContext :=
  { c with
    tables := { c.tables with segmentTypes := types }
    tokens := tokens
    memoize := memoize }

/-- How messages show the token at a place of a list of tokens. -/
abbrev shown (tokens : Array TokenView) (i : Nat) : String :=
  ((tokens[i]?).map (·.segment.display)).getD ""

/-- Tokens that grammars cannot tell from those of a context. What messages say of them may differ
where that makes matches of alike classes. -/
structure Abreast (c : MatchContext) (alike : MatchClass → MatchClass → Prop)
    (tokens : Array TokenView) : Prop where
  token : ∀ i : Nat, Option.Rel (TokenView.Abreast alike c.tables.patterns) c.tokens[i]? tokens[i]?
  unparsable : ∀ (f : String → String → String) (i j : Nat),
    alike (.unparsable (f (c.displayAt i) (c.displayAt j)))
      (.unparsable (f (shown tokens i) (shown tokens j)))

variable {c : MatchContext} {alike : MatchClass → MatchClass → Prop} {tokens : Array TokenView}
  {types : Array Nat} {memoize : Bool}

/-- The tokens of the context itself. -/
theorem Abreast.refl (h : ∀ k, alike k k) : c.Abreast alike c.tokens where
  token _ := option_rel_refl (TokenView.Abreast.refl h) _
  unparsable _ _ _ := h _

@[simp] theorem tokens_varied : (c.varied tokens types memoize).tokens = tokens := rfl

@[simp] theorem isWordLike_varied (g : GrammarId) :
    (c.varied tokens types memoize).isWordLike g = c.isWordLike g := rfl

@[simp] theorem bracketPairs_varied :
    (c.varied tokens types memoize).tables.bracketPairs = c.tables.bracketPairs := rfl

@[simp] theorem hint?_varied (g : GrammarId) :
    (c.varied tokens types memoize).tables.hint? g = c.tables.hint? g := rfl

section
variable (ht : c.Abreast alike tokens)
include ht

theorem isCodeAt_varied (i : Nat) :
    (c.varied tokens types memoize).isCodeAt i = c.isCodeAt i := by
  have token := ht.token i
  unfold isCodeAt
  rw [tokens_varied]
  generalize c.tokens[i]? = v, tokens[i]? = w at token
  cases token with
  | none => rfl
  | some h => exact h.isCode_eq

theorem skipToCode_varied (i limit : Nat) :
    (c.varied tokens types memoize).skipToCode i limit = c.skipToCode i limit := by
  fun_induction c.skipToCode i limit with
  | case1 i hi hcode => rw [skipToCode, dif_pos hi, isCodeAt_varied ht, if_pos hcode]
  | case2 i hi hcode ih => rw [skipToCode, dif_pos hi, isCodeAt_varied ht, if_neg hcode, ih]
  | case3 i hi => rw [skipToCode, dif_neg hi]

theorem trimToCode_varied (stop least : Nat) :
    (c.varied tokens types memoize).trimToCode stop least = c.trimToCode stop least := by
  fun_induction c.trimToCode stop least with
  | case1 stop hi hcode => rw [trimToCode, dif_pos hi, isCodeAt_varied ht, if_pos hcode]
  | case2 stop hi hcode ih => rw [trimToCode, dif_pos hi, isCodeAt_varied ht, if_neg hcode, ih]
  | case3 stop hi => rw [trimToCode, dif_neg hi]

theorem nextSolid?_varied (limit i : Nat) :
    Option.Rel (TokenView.Abreast alike c.tables.patterns) (c.nextSolid? limit i)
      ((c.varied tokens types memoize).nextSolid? limit i) := by
  fun_induction c.nextSolid? limit i with
  | case1 i hi v hv hblank ih =>
    obtain ⟨w, hw, h⟩ := exists_of_rel_some (hv ▸ ht.token i)
    rw [nextSolid?.eq_def (c.varied tokens types memoize), dif_pos hi, tokens_varied, hw]
    simpa [h.isAllBlank_eq, hblank] using ih
  | case2 i hi v hv hblank =>
    obtain ⟨w, hw, h⟩ := exists_of_rel_some (hv ▸ ht.token i)
    rw [nextSolid?, dif_pos hi, tokens_varied, hw]
    simpa [h.isAllBlank_eq, hblank] using h
  | case3 i hi hv =>
    have none := eq_none_of_rel_none (hv ▸ ht.token i)
    rw [nextSolid?, dif_pos hi, tokens_varied, none]
    exact .none
  | case4 i hi =>
    rw [nextSolid?, dif_neg hi]
    exact .none

theorem prune_varied (limit i : Nat) (options : List GrammarId) :
    (c.varied tokens types memoize).prune limit i options = c.prune limit i options := by
  have solid : Option.Rel _ (c.nextSolid? limit i)
      ((c.varied tokens types memoize).nextSolid? limit i) := nextSolid?_varied ht limit i
  unfold prune
  generalize c.nextSolid? limit i = v,
    (c.varied tokens types memoize).nextSolid? limit i = w at solid
  cases solid with
  | none => rfl
  | some h =>
    dsimp only
    rw [h.upper_eq, h.types_eq]
    rfl

theorem blankBefore_varied (start i : Nat) :
    (c.varied tokens types memoize).blankBefore start i = c.blankBefore start i := by
  induction i with
  | zero => rfl
  | succ i ih =>
    have token := ht.token i
    simp only [blankBefore, tokens_varied, ih]
    generalize c.tokens[i]? = v, tokens[i]? = w at token
    cases token with
    | none => rfl
    | some h => simp only [h.isMarker_eq, h.isType_eq]

end

end MatchContext

/-! ## 4. Tries at one place -/

/-- Two matchers that keep side by side. -/
def Paired (b : Bond) (like : Match → Match → Prop) (run run' : Matcher) : Prop :=
  ∀ ts limit i g, Alongside b like (run ts limit i g) (run' ts limit i g)

namespace MatchContext

variable {c : MatchContext} {tokens : Array TokenView} {types : Array Nat} {memoize : Bool}
  {b : Bond} {alike : MatchClass → MatchClass → Prop} {like : Match → Match → Prop}
  {likeAll : List Match → List Match → Prop} {run run' here here' below below' : Matcher}
  (hl : Likeness alike like likeAll) (ht : c.Abreast alike tokens)

include hl

theorem alongside_anyMatches (hrun : Paired b like run run') (ts : List GrammarId) (limit i : Nat)
    (gs : List GrammarId) :
    Alongside b Eq (anyMatches run ts limit i gs) (anyMatches run' ts limit i gs) := by
  induction gs with
  | nil => exact .pure rfl
  | cons g gs ih =>
    refine (hrun ts limit i g).bind hl.refl fun m m' hm => ?_
    exact .ite (by rw [hl.isMatch_eq hm]) (fun _ => .pure rfl) fun _ => ih

include ht

theorem alongside_longestFrom (hhere : Paired b like here here')
    (hbelow : Paired b like below below')
    (ts : List GrammarId) (limit i : Nat) (gs : List GrammarId)
    {best best' : Match × Option GrammarId} (hbest : Beside like best best') :
    Alongside b (Beside like) (c.longestFrom here below ts limit i best gs)
      ((c.varied tokens types memoize).longestFrom here' below' ts limit i best' gs) := by
  induction gs generalizing best best' with
  | nil => exact .pure hbest
  | cons g gs ih =>
    refine (hbelow ts limit i g).bind hl.refl fun m m' hm => ?_
    have found : Beside like (m, some g) (m', some g) := ⟨hm, rfl⟩
    refine .ite (by rw [hl.isMatch_eq hm, hl.stop_eq hm]) (fun _ => .pure found) fun _ => ?_
    refine .ite (by rw [hl.isLongerThan_eq hm hbest.1]) (fun _ => ih hbest) fun _ => ?_
    refine .ite .rfl (fun _ => .pure found) fun _ => ?_
    refine .ite .rfl (fun _ => ih found) fun _ => ?_
    rw [skipToCode_varied ht, ← hl.stop_eq hm]
    refine .ite .rfl (fun _ => .pure found) fun _ => ?_
    refine (alongside_anyMatches hl hhere ts limit _ ts).bindEq fun ended => ?_
    exact .ite .rfl (fun _ => .pure found) fun _ => ih found

/-- The longest matches are alike and of the same grammar. -/
theorem alongside_longest (hhere : Paired b like here here') (hbelow : Paired b like below below')
    (ts : List GrammarId) (limit i : Nat) (gs : List GrammarId) :
    Alongside b (Beside like) (c.longest here below ts limit i gs)
      ((c.varied tokens types memoize).longest here' below' ts limit i gs) := by
  have nothing := hl.beside (Match.empty i, (none : Option GrammarId))
  unfold longest
  rw [prune_varied ht]
  exact .ite .rfl (fun _ => .pure nothing) fun _ =>
    alongside_longestFrom hl ht hhere hbelow ts limit i _ nothing

/-! ## 5. The next match -/

omit hl ht in
theorem worthTrying_eq {ps : Array TablePattern} {v w : TokenView} (h : v.Abreast alike ps w)
    (t : Target) : t.worthTrying w = t.worthTrying v := by
  have isType_eq : w.segment.isType = v.segment.isType := funext h.isType_eq
  unfold Target.worthTrying
  rw [h.firstWord_eq, isType_eq, h.isCode_eq]

omit ht in
theorem alongside_firstMatch (hrun : Paired b like run run') (ts : List GrammarId) (limit i : Nat)
    {ps : Array TablePattern} {v w : TokenView} (hv : v.Abreast alike ps w) (n : Nat)
    (targets : List Target) :
    Alongside b (Option.Rel (Beside like)) (firstMatch run ts limit i v n targets)
      (firstMatch run' ts limit i w n targets) := by
  induction targets generalizing n with
  | nil => exact .pure .none
  | cons t targets ih =>
    unfold firstMatch
    refine .ite (by rw [worthTrying_eq hv]) (fun _ => ?_) fun _ => ih (n + 1)
    refine (hrun ts limit i t.grammar).bind hl.refl fun m m' hm => ?_
    exact .ite (by rw [hl.isMatch_eq hm]) (fun _ => .pure (.some ⟨hm, rfl⟩)) fun _ => ih (n + 1)

theorem alongside_matchWithin (hrun : Paired b like run run') (ts : List GrammarId) (limit : Nat)
    (targets : List Target) (n i : Nat) :
    Alongside b (Option.Rel (Beside like)) (c.matchWithin run ts limit targets n i)
      ((c.varied tokens types memoize).matchWithin run' ts limit targets n i) := by
  induction n generalizing i with
  | zero => exact .pure .none
  | succ n ih =>
    have token := ht.token i
    unfold matchWithin
    rw [tokens_varied]
    generalize c.tokens[i]? = v, tokens[i]? = w at token
    cases token with
    | none => exact .pure .none
    | @some v w h =>
      refine .ite (by rw [h.isMarker_eq]) (fun _ => ih (i + 1)) fun _ => ?_
      refine (alongside_firstMatch hl hrun ts limit i h 0 targets).bind
        (option_rel_refl hl.beside) fun r r' hr => ?_
      cases hr with
      | none => exact ih (i + 1)
      | some h => exact .pure (.some h)

/-- The next matches are alike and of the same grammar. -/
theorem alongside_nextMatch (hrun : Paired b like run run') (ts : List GrammarId) (limit i : Nat)
    (gs : List GrammarId) :
    Alongside b (Option.Rel (Beside like)) (c.nextMatch run ts limit i gs)
      ((c.varied tokens types memoize).nextMatch run' ts limit i gs) :=
  alongside_matchWithin hl ht hrun ts limit _ _ i

/-! ## 6. Brackets -/

theorem alongside_closeBracketFrom (hrun : Paired b like run run') (ts : List GrammarId)
    (limit : Nat) (pairs : List BracketPair) (nested : Bool) (fuel kind start indentAt i : Nat)
    {inner inner' : List Match} (hinner : List.Forall₂ like inner inner') :
    Alongside b (Option.Rel (Twin likeAll))
      (c.closeBracketFrom run ts limit pairs nested fuel kind start indentAt i inner)
      ((c.varied tokens types memoize).closeBracketFrom run' ts limit pairs nested fuel kind start
        indentAt i inner') := by
  induction fuel generalizing kind start indentAt i inner inner' with
  | zero => exact .pure .none
  | succ fuel ih =>
    unfold closeBracketFrom
    refine (alongside_nextMatch hl ht hrun ts limit i _).bind (option_rel_refl hl.beside)
      fun r r' hr => ?_
    cases hr with
    | none => exact .pure .none
    | @some r r' h =>
      obtain ⟨m, which⟩ := r
      obtain ⟨m', which'⟩ := r'
      obtain ⟨hm, rfl⟩ := h
      dsimp only at hm ⊢
      refine .ite .rfl (fun _ => .ite .rfl (fun _ => .pure .none) fun _ => ?_) fun _ => ?_
      · have hall : likeAll (inner ++ [m]) (inner' ++ [m']) :=
          hl.append (hl.ofForall₂ hinner) (hl.single hm)
        refine .pure (.some ?_)
        rw [← hl.start_eq hm, ← hl.stop_eq hm]
        split
        · exact .wrapBracketed (by simp) hall
        · exact ⟨rfl, rfl, rfl, rfl, hall⟩
      · rw [← hl.start_eq hm, ← hl.stop_eq hm]
        refine (ih which m.start m.stop m.stop (.cons hm .nil)).bind
          (option_rel_refl fun m => ⟨rfl, rfl, rfl, rfl, hl.reflAll m.children⟩) fun r r' hr => ?_
        cases hr with
        | none => exact .pure .none
        | @some pair pair' hpair =>
          have hlike := hl.ofTwin hpair
          dsimp only
          rw [← hl.stop_eq hlike]
          refine ih kind start indentAt pair.stop ?_
          split
          · exact List.rel_append hinner (.cons hlike .nil)
          · exact hinner

/-- Pairs of brackets are closed at the same places and differ in what is inside them only. -/
theorem alongside_closeBracket (hrun : Paired b like run run') (ts : List GrammarId)
    (limit : Nat) (pairs : List BracketPair) (nested : Bool) (kind : Nat)
    {opening opening' : Match} (ho : like opening opening') :
    Alongside b (Option.Rel (Twin likeAll))
      (c.closeBracket run ts limit pairs nested kind opening)
      ((c.varied tokens types memoize).closeBracket run' ts limit pairs nested kind opening') := by
  unfold closeBracket
  rw [← hl.start_eq ho, ← hl.stop_eq ho]
  exact alongside_closeBracketFrom hl ht hrun ts limit pairs nested _ kind _ _ _ (.cons ho .nil)

/-- What two searches outside brackets found. -/
structure FoundAlike (like : Match → Match → Prop) (f f' : Found) : Prop where
  place_eq : f.place = f'.place
  hit : Option.Rel (Beside like) f.hit f'.hit
  skipped : List.Forall₂ like f.skipped f'.skipped

omit ht in
theorem foundAlike_refl (f : Found) : FoundAlike like f f :=
  ⟨rfl, option_rel_refl hl.beside f.hit, List.forall₂_same.2 fun m _ => hl.refl m⟩

theorem alongside_outsideFrom (hrun : Paired b like run run') (ts : List GrammarId)
    (limit start : Nat) (options : List GrammarId) (fuel i : Nat) {skipped skipped' : List Match}
    (hskipped : List.Forall₂ like skipped skipped') :
    Alongside b (FoundAlike like) (c.outsideFrom run ts limit start options fuel i skipped)
      ((c.varied tokens types memoize).outsideFrom run' ts limit start options fuel i
        skipped') := by
  induction fuel generalizing i skipped skipped' with
  | zero => exact .pure (foundAlike_refl hl _)
  | succ fuel ih =>
    unfold outsideFrom
    refine (alongside_nextMatch hl ht hrun ts limit i _).bind (option_rel_refl hl.beside)
      fun r r' hr => ?_
    cases hr with
    | none => exact .pure ⟨rfl, .none, hskipped⟩
    | @some r r' h =>
      obtain ⟨m, which⟩ := r
      obtain ⟨m', which'⟩ := r'
      obtain ⟨hm, rfl⟩ := h
      refine .ite .rfl (fun _ => .pure ⟨rfl, .some ⟨hm, rfl⟩, hskipped⟩) fun _ => ?_
      refine .ite .rfl (fun _ => .pure (foundAlike_refl hl _)) fun _ => ?_
      refine (alongside_closeBracket hl ht hrun ts limit _ true _ hm).bind
        (option_rel_refl fun m => ⟨rfl, rfl, rfl, rfl, hl.reflAll m.children⟩) fun r r' hr => ?_
      cases hr with
      | none => exact .pure (foundAlike_refl hl _)
      | @some pair pair' hpair =>
        have hlike := hl.ofTwin hpair
        dsimp only
        rw [← hl.stop_eq hlike]
        exact ih pair.stop (List.rel_append hskipped (.cons hlike .nil))

/-- Searches outside brackets find alike matches. -/
theorem alongside_nextOutsideBrackets (hrun : Paired b like run run') (ts : List GrammarId)
    (limit i : Nat) (options : List GrammarId) :
    Alongside b (FoundAlike like) (c.nextOutsideBrackets run ts limit i options)
      ((c.varied tokens types memoize).nextOutsideBrackets run' ts limit i options) :=
  alongside_outsideFrom hl ht hrun ts limit i options _ i .nil

/-! ## 7. Terminators -/

theorem alongside_greedyFrom (hrun : Paired b like run run') (ts : List GrammarId) (limit i : Nat)
    (options : List GrammarId) (including nested : Bool) (fuel at_ : Nat)
    {inner inner' : List Match} (hinner : List.Forall₂ like inner inner') :
    Alongside b (Loose likeAll)
      (c.greedyFrom run ts limit i options including nested fuel at_ inner)
      ((c.varied tokens types memoize).greedyFrom run' ts limit i options including nested fuel at_
        inner') := by
  induction fuel generalizing at_ inner inner' with
  | zero => exact .pure (.mk i limit (hl.ofForall₂ hinner))
  | succ fuel ih =>
    unfold greedyFrom
    refine (alongside_nextOutsideBrackets hl ht hrun ts limit at_ options).bind (foundAlike_refl hl)
      fun found found' hfound => ?_
    have hinner' : List.Forall₂ like (if nested then inner ++ found.skipped else inner)
        (if nested then inner' ++ found'.skipped else inner') := by
      split
      · exact List.rel_append hinner hfound.skipped
      · exact hinner
    obtain ⟨place, hit, skipped⟩ := found
    obtain ⟨place', hit', skipped'⟩ := found'
    obtain ⟨-, hhit, -⟩ := hfound
    dsimp only at hhit hinner' ⊢
    cases hhit with
    | none => exact .pure (.mk i limit (hl.ofForall₂ hinner'))
    | @some r r' h =>
      obtain ⟨m, which⟩ := r
      obtain ⟨m', which'⟩ := r'
      obtain ⟨hm, rfl⟩ := h
      dsimp only at hm ⊢
      rw [isWordLike_varied, blankBefore_varied ht, trimToCode_varied ht, ← hl.start_eq hm,
        ← hl.stop_eq hm]
      refine .ite .rfl (fun _ => ih m.stop hinner') fun _ => ?_
      refine .ite .rfl (fun _ => .pure (.mk i m.stop (hl.ofForall₂ hinner'))) fun _ => ?_
      refine .pure (.mk i _ (hl.ofForall₂ (List.rel_filter (fun x x' hx => ?_) hinner')))
      simp only [hl.stop_eq hx]

/-- What is taken up to a terminator differs in what is inside it only. -/
theorem alongside_greedy (hrun : Paired b like run run') (ts : List GrammarId) (limit i : Nat)
    (options : List GrammarId) (including nested : Bool) :
    Alongside b (Loose likeAll) (c.greedy run ts limit i options including nested)
      ((c.varied tokens types memoize).greedy run' ts limit i options including nested) :=
  alongside_greedyFrom hl ht hrun ts limit i options including nested _ i .nil

/-- Greedy grammars stop at the same places. -/
theorem alongside_trimToTerminator (hrun : Paired b like run run') (ts : List GrammarId)
    (limit i : Nat) (terminators : List GrammarId) :
    Alongside b Eq (c.trimToTerminator run ts limit i terminators)
      ((c.varied tokens types memoize).trimToTerminator run' ts limit i terminators) := by
  unfold trimToTerminator
  rw [prune_varied ht]
  refine .ite .rfl (fun _ => .pure rfl) fun _ => ?_
  refine (alongside_anyMatches hl hrun ts limit i _).bindEq fun found => ?_
  refine .ite .rfl (fun _ => .pure rfl) fun _ => ?_
  refine (alongside_nextOutsideBrackets hl ht hrun ts limit i terminators).bind (foundAlike_refl hl)
    fun found found' hfound => ?_
  obtain ⟨place, hit, skipped⟩ := found
  obtain ⟨place', hit', skipped'⟩ := found'
  obtain ⟨-, hhit, -⟩ := hfound
  dsimp only at hhit ⊢
  cases hhit with
  | none => exact .pure rfl
  | @some r r' h =>
    refine .pure ?_
    rw [trimToCode_varied ht, hl.start_eq h.1]

end MatchContext

end QueryLint
