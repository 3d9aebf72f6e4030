import Mathlib.Data.List.Forall2
import Mathlib.Order.Basic
import QueryLint.Dialect.Ansi.Lexicon
import QueryLint.Proofs.Template.Rendered
import QueryLint.Proofs.Token.Tiling

/-!
QueryLint.Proofs.Token.Unlexable — text that no rule takes.

Reading a text looks for a match at some places only: at its start, where a match ends, and behind a
character at which no rule takes anything. From these places it is told which characters are read
by no rule, without the run that the reader gathers. A run is opened late and closed by whatever
comes next, and what comes of it are the maximal runs of such characters, each as one lexeme.

Markup may cut the lexeme of a run into several tokens. Errors are told of tokens, one of each.

* `LexRule.Taken`, `LexRule.Untaken` — how much the rules take at a place.
* `Looks`, `Unread` — where a match is looked for, and where none is found.
* `jump` — no match is looked for inside of a match.
* `located_scanAfter` — the lexemes of a reader with a run.
* `unlexable_runs` — what is unlexable, and the errors of it.
-/

namespace QueryLint

open Text Segment

/-! ## 1. What the rules take at a place -/

namespace LexRule

variable {rules : List LexRule} {cs : List Char}

/-- The rules for the tokens that a rule makes. -/
def tokenRules (r : LexRule) : List TokenRule := r.token :: (r.divider.toList ++ r.trimmer.toList)

/-- The rules take so much at the start of a text: one of them does, and none takes more. -/
def Taken (rules : List LexRule) (cs : List Char) (n : Nat) : Prop :=
  (∃ r ∈ rules, r.token.matchLength? cs = some n) ∧
    ∀ r ∈ rules, ∀ m, r.token.matchLength? cs = some m → m ≤ n

/-- No rule takes anything at the start of a text. -/
def Untaken (rules : List LexRule) (cs : List Char) : Prop :=
  ∀ r ∈ rules, r.token.matchLength? cs = none

theorem Taken.unique {n m : Nat} (hn : Taken rules cs n) (hm : Taken rules cs m) : n = m := by
  obtain ⟨⟨r, hr, hrn⟩, hmost⟩ := hn
  obtain ⟨⟨q, hq, hqm⟩, hmost'⟩ := hm
  exact Nat.le_antisymm (hmost' r hr n hrn) (hmost q hq m hqm)

theorem Taken.pos {n : Nat} (h : Taken rules cs n) : 0 < n := by
  obtain ⟨⟨r, _, hrn⟩, -⟩ := h
  exact TokenRule.matchLength?_pos hrn

theorem Untaken.not_taken (h : Untaken rules cs) (n : Nat) : ¬ Taken rules cs n := by
  rintro ⟨⟨r, hr, hrn⟩, -⟩
  rw [h r hr] at hrn
  cases hrn

/-- Of the rules seen so far, this one takes most, and it takes so much. -/
def IsBest (cs : List Char) (seen : List LexRule) : Option (Nat × LexRule) → Prop
  | none => Untaken seen cs
  | some (n, r) => r ∈ seen ∧ r.token.matchLength? cs = some n ∧
      ∀ q ∈ seen, ∀ m, q.token.matchLength? cs = some m → m ≤ n

theorem IsBest.foldl {best : Option (Nat × LexRule)} {seen : List LexRule}
    (h : IsBest cs seen best) (rest : List LexRule) :
    IsBest cs (seen ++ rest) (rest.foldl (fun best r =>
      match r.token.matchLength? cs, best with
      | none, _ => best
      | some n, none => some (n, r)
      | some n, some (m, _) => if m < n then some (n, r) else best) best) := by
  induction rest generalizing seen best with
  | nil => rwa [List.append_nil]
  | cons r rest ih =>
    rw [List.foldl_cons, List.append_cons]
    refine ih ?_
    cases hr : r.token.matchLength? cs with
    | none =>
      cases best with
      | none => simpa [IsBest, Untaken, or_imp, forall_and, hr] using h
      | some b => simpa [IsBest, or_imp, forall_and, hr] using ⟨.inl h.1, h.2⟩
    | some n =>
      cases best with
      | none =>
        refine ⟨by simp, hr, fun q hq m hm => ?_⟩
        rcases List.mem_append.1 hq with hq | hq
        · rw [h q hq] at hm
          cases hm
        · rw [List.mem_singleton.1 hq, hr] at hm
          exact Nat.le_of_eq (Option.some.inj hm).symm
      | some b =>
        obtain ⟨m, p⟩ := b
        obtain ⟨hp, hpm, hmost⟩ := h
        dsimp only
        split
        · next hlt =>
          refine ⟨by simp, hr, fun q hq k hk => ?_⟩
          rcases List.mem_append.1 hq with hq | hq
          · exact Nat.le_trans (hmost q hq k hk) (Nat.le_of_lt hlt)
          · rw [List.mem_singleton.1 hq, hr] at hk
            exact Nat.le_of_eq (Option.some.inj hk).symm
        · next hge =>
          refine ⟨List.mem_append_left _ hp, hpm, fun q hq k hk => ?_⟩
          rcases List.mem_append.1 hq with hq | hq
          · exact hmost q hq k hk
          · rw [List.mem_singleton.1 hq, hr] at hk
            exact Option.some.inj hk ▸ Nat.le_of_not_lt hge

theorem isBest_longest? (cs : List Char) (rules : List LexRule) :
    IsBest cs rules (longest? cs rules) := by
  have start : IsBest cs [] none := fun _ h => nomatch h
  exact start.foldl rules

theorem taken_of_longest? {n : Nat} {r : LexRule} (h : longest? cs rules = some (n, r)) :
    r ∈ rules ∧ Taken rules cs n := by
  obtain ⟨hr, hrn, hmost⟩ := h ▸ isBest_longest? cs rules
  exact ⟨hr, ⟨r, hr, hrn⟩, hmost⟩

/-- Where the rule that takes most takes nothing, no rule takes anything. -/
theorem untaken_of_longest? (h : ∀ n r, longest? cs rules ≠ some (n + 1, r)) :
    Untaken rules cs := by
  have best := isBest_longest? cs rules
  match hlongest : longest? cs rules with
  | none => rwa [hlongest] at best
  | some (0, r) => exact absurd (taken_of_longest? hlongest).2.pos (Nat.lt_irrefl 0)
  | some (n + 1, r) => exact absurd hlongest (h n r)

/-! ### The tokens of a match -/

/-- What a rule finds is made into tokens of the rule, its divider and its trimmer only. -/
theorem exists_tokenRule_trim {r : LexRule} {cs : List Char} :
    ∀ l ∈ r.trim cs, ∃ t ∈ r.tokenRules, l = t.lexeme l.text := by
  intro l hl
  unfold trim at hl
  split at hl
  · rw [List.mem_singleton.1 hl]
    exact ⟨r.token, List.mem_cons_self .., rfl⟩
  · next t ht =>
    have trimmer : t ∈ r.tokenRules := by simp [tokenRules, ht]
    dsimp only at hl
    split at hl
    · rw [List.mem_singleton.1 hl]
      exact ⟨t, trimmer, rfl⟩
    · rcases List.mem_append.1 hl with hl | hl
      · split at hl
        · cases hl
        · exact ⟨t, trimmer, by rw [List.mem_singleton.1 hl]; rfl⟩
      · rcases List.mem_cons.1 hl with rfl | hl
        · exact ⟨r.token, List.mem_cons_self .., rfl⟩
        · split at hl
          · exact ⟨t, trimmer, by rw [List.mem_singleton.1 hl]; rfl⟩
          · cases hl

theorem exists_tokenRule_divide {r : LexRule} {cs : List Char} :
    ∀ l ∈ r.divide cs, ∃ t ∈ r.tokenRules, l = t.lexeme l.text := by
  unfold divide
  split
  · intro l hl
    rw [List.mem_singleton.1 hl]
    exact ⟨r.token, List.mem_cons_self .., rfl⟩
  · next d hd =>
    have divider : d ∈ r.tokenRules := by simp [tokenRules, hd]
    fun_induction divideBy r d cs with
    | case1 => simp
    | case2 c cs start n found ih =>
      intro l hl
      rcases List.mem_append.1 hl with hl | hl
      · split at hl
        · cases hl
        · exact exists_tokenRule_trim l hl
      · rcases List.mem_cons.1 hl with rfl | hl
        · exact ⟨d, divider, rfl⟩
        · exact ih l hl
    | case3 c cs missed => exact exists_tokenRule_trim

end LexRule

/-! ## 2. Places -/

open LexRule

variable {rules : List LexRule} {text : List Char} {a b i j k n : Nat}

/-- The places at which reading a text looks for a match: the start, the end of a match, and behind
a character at which there is none. -/
inductive Looks (rules : List LexRule) (text : List Char) : Nat → Prop where
  | start : Looks rules text 0
  | behind {i n : Nat} (before : Looks rules text i) (taken : Taken rules (text.drop i) n) :
      Looks rules text (i + n)
  | next {i : Nat} (before : Looks rules text i) (untaken : Untaken rules (text.drop i)) :
      Looks rules text (i + 1)

/-- A character of a text that is outside of all matches, and at which no rule takes anything. -/
structure Unread (rules : List LexRule) (text : List Char) (i : Nat) : Prop where
  looks : Looks rules text i
  inside : i < text.length
  untaken : Untaken rules (text.drop i)

/-- A run of places with a property, which goes on neither before nor behind. -/
structure IsMaximalRun (P : Nat → Prop) (i j : Nat) : Prop where
  solid : i < j
  all : ∀ k, i ≤ k → k < j → P k
  before : ∀ k, k + 1 = i → ¬ P k
  behind : ¬ P j

/-- No match is looked for inside of a match. -/
theorem jump (hi : Looks rules text i) (taken : Taken rules (text.drop i) n)
    (hk : Looks rules text k) (hlt : i < k) : i + n ≤ k := by
  induction k using Nat.strongRecOn generalizing i n with
  | _ k ih =>
    cases hk with
    | start => omega
    | @behind i' n' before taken' =>
      rcases Nat.lt_trichotomy i' i with hless | rfl | hmore
      · -- the other match would end inside of this one
        have := ih i hlt before taken' hi hless
        omega
      · exact Nat.le_of_eq (congrArg _ (taken.unique taken'))
      · have := ih i' (Nat.lt_add_of_pos_right taken'.pos) hi taken before hmore
        omega
    | @next i' before untaken =>
      rcases Nat.lt_trichotomy i' i with hless | rfl | hmore
      · omega
      · exact absurd taken (untaken.not_taken n)
      · have := ih i' (Nat.lt_succ_self i') hi taken before hmore
        omega

/-- No character of a match is unread. -/
theorem not_unread_of_taken (hi : Looks rules text i) (taken : Taken rules (text.drop i) n)
    (hle : i ≤ k) (hlt : k < i + n) : ¬ Unread rules text k := by
  intro unread
  rcases Nat.eq_or_lt_of_le hle with rfl | hmore
  · exact unread.untaken.not_taken n taken
  · have := jump hi taken unread.looks hmore
    omega

namespace IsMaximalRun

variable {P : Nat → Prop}

/-- A maximal run that starts in a stretch is that stretch, if it does not go on behind. -/
theorem eq_of_stretch (h : IsMaximalRun P i j) (all : ∀ k, a ≤ k → k < b → P k)
    (behind : ¬ P b) (hai : a ≤ i) (hib : i < b) : i = a ∧ j = b := by
  have start : i = a := by
    by_contra hne
    exact h.before (i - 1) (by omega) (all (i - 1) (by omega) (by omega))
  refine ⟨start, Nat.le_antisymm ?_ ?_⟩
  · by_contra hmore
    exact behind (h.all b (by omega) (by omega))
  · by_contra hless
    exact h.behind (all j (by have := h.solid; omega) (by omega))

end IsMaximalRun

/-! ## 3. Lexemes -/

/-- Among lexemes that start at a place there is an unlexable one from a place to another. -/
def Located (ls : List Lexeme) (start i j : Nat) : Prop :=
  ∃ before l after, ls = before ++ l :: after ∧ l.type = unlexable ∧
    i = start + (textOf before).length ∧ j = i + l.text.length

theorem located_append {ls ms : List Lexeme} : Located (ls ++ ms) a i j ↔
    Located ls a i j ∨ Located ms (a + (textOf ls).length) i j := by
  constructor
  · rintro ⟨before, l, after, heq, hl, rfl, rfl⟩
    rcases List.append_eq_append_iff.1 heq with ⟨more, rfl, hms⟩ | ⟨more, rfl, hls⟩
    · exact .inr ⟨more, l, after, hms, hl, by simp [Nat.add_assoc], rfl⟩
    · cases more with
      | nil =>
        rw [List.nil_append] at hls
        exact .inr ⟨[], l, after, hls.symm, hl, by simp, rfl⟩
      | cons x more =>
        obtain ⟨rfl, -⟩ := List.cons.inj hls
        exact .inl ⟨before, l, more, rfl, hl, rfl, rfl⟩
  · rintro (⟨before, l, after, rfl, hl, rfl, rfl⟩ | ⟨before, l, after, rfl, hl, rfl, rfl⟩)
    · exact ⟨before, l, after ++ ms, by simp, hl, rfl, rfl⟩
    · exact ⟨ls ++ before, l, after, by simp, hl, by simp [Nat.add_assoc], rfl⟩

theorem located_runLexeme {run : List Char} :
    Located (runLexeme run) a i j ↔ run ≠ [] ∧ i = a ∧ j = a + run.length := by
  unfold runLexeme
  cases run with
  | nil => simp [Located]
  | cons c run =>
    constructor
    · rintro ⟨before, l, after, heq, -, rfl, rfl⟩
      cases before with
      | nil =>
        obtain ⟨rfl, -⟩ := List.cons.inj heq
        simp
      | cons x before => simp at heq
    · rintro ⟨-, rfl, rfl⟩
      exact ⟨[], _, [], rfl, rfl, rfl, rfl⟩

theorem not_located {ls : List Lexeme} (h : ∀ l ∈ ls, l.type ≠ unlexable) :
    ¬ Located ls a i j := by
  rintro ⟨before, l, after, rfl, hl, -⟩
  exact h l (by simp) hl

/-- A reader has a run that starts at a place, and more text to read: all characters of the run are
unread, the one before it is not, and behind it a match is looked for. -/
structure Reading (rules : List LexRule) (text : List Char) (a : Nat) (run rest : List Char) :
    Prop where
  rest_eq : text.drop (a + run.length) = rest
  looks : Looks rules text (a + run.length)
  unread : ∀ k, a ≤ k → k < a + run.length → Unread rules text k
  before : ∀ k, k + 1 = a → ¬ Unread rules text k

namespace Reading

variable {run rest : List Char} {c : Char}

/-- The run ends where the next character is not of its kind, and is then maximal. -/
theorem isMaximalRun_iff (h : Reading rules text a run rest)
    (stop : ¬ Unread rules text (a + run.length)) :
    (IsMaximalRun (Unread rules text) i j ∧ a ≤ i ∧ i < a + run.length) ↔
      run ≠ [] ∧ i = a ∧ j = a + run.length := by
  rw [← List.length_pos_iff]
  constructor
  · rintro ⟨maximal, hai, hib⟩
    exact ⟨by omega, maximal.eq_of_stretch h.unread stop hai hib⟩
  · rintro ⟨solid, rfl, rfl⟩
    exact ⟨⟨by omega, h.unread, h.before, stop⟩, Nat.le_refl _, by omega⟩

/-- A character at which no rule takes anything goes on with the run. -/
theorem go (h : Reading rules text a run (c :: rest)) (untaken : Untaken rules (c :: rest)) :
    Reading rules text a (run ++ [c]) rest := by
  have width : a + (run ++ [c]).length = a + run.length + 1 := by
    rw [List.length_append]
    rfl
  have here : Unread rules text (a + run.length) := by
    refine ⟨h.looks, ?_, h.rest_eq.symm ▸ untaken⟩
    by_contra outside
    have := h.rest_eq
    rw [List.drop_of_length_le (by omega)] at this
    cases this
  refine ⟨?_, ?_, fun k hak hkb => ?_, h.before⟩ <;> rw [width] at *
  · rw [← List.drop_drop, h.rest_eq]
    rfl
  · exact .next h.looks here.untaken
  · rcases Nat.lt_succ_iff_lt_or_eq.1 hkb with hless | rfl
    · exact h.unread k hak hless
    · exact here

/-- Behind a match the next run starts. -/
theorem pass (h : Reading rules text a run (c :: rest)) (taken : Taken rules (c :: rest) (n + 1)) :
    Reading rules text (a + run.length + (n + 1)) [] (rest.drop n) := by
  have taken' : Taken rules (text.drop (a + run.length)) (n + 1) := h.rest_eq.symm ▸ taken
  refine ⟨?_, Looks.behind (n := n + 1) h.looks taken', fun k hak hkb => ?_, fun k hk => ?_⟩
  · rw [List.length_nil, Nat.add_zero, ← List.drop_drop, h.rest_eq, List.drop_succ_cons]
  · rw [List.length_nil] at hkb
    omega
  · exact not_unread_of_taken h.looks taken' (by omega) (by omega)

end Reading

/-- The unlexable lexemes of a reader are the maximal runs from its own run on. -/
theorem located_scanAfter {run rest : List Char}
    (types : ∀ r ∈ rules, ∀ t ∈ r.tokenRules, t.type ≠ unlexable)
    (h : Reading rules text a run rest) : Located (scanAfter rules run rest) a i j ↔
      IsMaximalRun (Unread rules text) i j ∧ a ≤ i := by
  fun_induction scanAfter rules run rest generalizing a with
  | case1 run =>
    have stop : ¬ Unread rules text (a + run.length) := by
      intro unread
      have := List.drop_eq_nil_iff.1 h.rest_eq
      exact absurd unread.inside (by omega)
    rw [located_runLexeme, ← h.isMaximalRun_iff stop]
    constructor
    · rintro ⟨maximal, hai, -⟩
      exact ⟨maximal, hai⟩
    · rintro ⟨maximal, hai⟩
      have := (maximal.all i (Nat.le_refl i) maximal.solid).inside
      have := List.drop_eq_nil_iff.1 h.rest_eq
      exact ⟨maximal, hai, by omega⟩
  | case2 run c rest n r longest ih =>
    obtain ⟨hr, taken⟩ := taken_of_longest? longest
    have taken' : Taken rules (text.drop (a + run.length)) (n + 1) := h.rest_eq.symm ▸ taken
    have stop := not_unread_of_taken h.looks taken' (Nat.le_refl _) (Nat.lt_add_of_pos_right taken.pos)
    have matched : ¬ Located (r.divide (c :: rest.take n)) (a + run.length) i j :=
      not_located fun l hl => by
        obtain ⟨t, ht, heq⟩ := exists_tokenRule_divide l hl
        rw [heq]
        exact types r hr t ht
    have behind : Located (scanAfter rules [] (rest.drop n))
        (a + run.length + (min n rest.length + 1)) i j ↔
          IsMaximalRun (Unread rules text) i j ∧ a + run.length + (n + 1) ≤ i := by
      rcases Nat.le_total n rest.length with fits | beyond
      · rw [Nat.min_eq_left fits]
        exact ih (h.pass taken)
      · rw [List.drop_of_length_le beyond, scanAfter]
        refine iff_of_false (not_located (by simp [runLexeme])) ?_
        rintro ⟨maximal, hle⟩
        have := (maximal.all i (Nat.le_refl i) maximal.solid).inside
        have := congrArg List.length h.rest_eq
        rw [List.length_drop, List.length_cons] at this
        omega
    rw [located_append, located_append, located_runLexeme, textOf_append, text_runLexeme,
      text_divide, List.length_append, List.length_cons, List.length_take, or_iff_left matched,
      ← Nat.add_assoc, behind, ← h.isMaximalRun_iff stop]
    constructor
    · rintro (⟨maximal, hai, -⟩ | ⟨maximal, hle⟩)
      · exact ⟨maximal, hai⟩
      · exact ⟨maximal, by omega⟩
    · rintro ⟨maximal, hai⟩
      by_cases hib : i < a + run.length
      · exact .inl ⟨maximal, hai, hib⟩
      · refine .inr ⟨maximal, ?_⟩
        by_contra hless
        exact not_unread_of_taken h.looks taken' (by omega) (by omega)
          (maximal.all i (Nat.le_refl i) maximal.solid)
  | case3 run c rest missed ih =>
    exact ih (h.go (untaken_of_longest? missed))

/-! ## 4. Errors -/

namespace Segment

/-- The tokens that no rule reads. -/
def unlexableTokens (ss : List Segment) : List Segment :=
  (textTokens ss).filter (·.type == unlexable)

theorem unlexableTokens_append (ss ts : List Segment) :
    unlexableTokens (ss ++ ts) = unlexableTokens ss ++ unlexableTokens ts := by
  simp [unlexableTokens]

theorem unlexableTokens_of_markers {ss : List Segment} (h : ∀ s ∈ ss, s.isMarker = true) :
    unlexableTokens ss = [] := by
  rw [unlexableTokens, textTokens_eq_nil h]
  rfl

end Segment

/-- The error of a token: it shows the text of the token, and is where the token is. -/
def LexError.IsOf (e : LexError) (t : Segment) : Prop :=
  ∃ p, t.position = some p ∧ e.source = p.source ∧ e.place = p.place ∧
    e.message = "Unable to lex characters: " ++ quoted t.raw

variable {f : TemplatedFile} {s : Nat}

/-- A piece makes an error for its token if no rule reads that. -/
theorem meets_segments_errors (f : TemplatedFile) (x : Piece) :
    Meets (s ≤ ·) (x.segments f) fun ss =>
      List.Forall₂ LexError.IsOf (x.error? f).toList (unlexableTokens ss) := by
  cases x with
  | markup p =>
    refine (meets_markup_isMarker f p).mono fun ss hss => ?_
    rw [unlexableTokens_of_markers hss]
    exact .nil
  | text start l =>
    refine meets_freshId.bind fun id _ => .pure ?_
    unfold Piece.error?
    by_cases htype : l.type = unlexable
    · simp only [htype, if_true]
      refine .cons ⟨_, rfl, rfl, rfl, ?_⟩ .nil
      rw [Segment.raw]
      rfl
    · have other : (l.type == unlexable) = false := by simpa using htype
      simp [htype, unlexableTokens, textTokens, isMarker, marker?, Segment.kind, Segment.info,
        Segment.type]

theorem meets_mapM_segments_errors (f : TemplatedFile) (pieces : List Piece) :
    Meets (s ≤ ·) (pieces.mapM (·.segments f)) fun woven =>
      List.Forall₂ LexError.IsOf (pieces.filterMap (·.error? f)) (unlexableTokens woven.flatten) := by
  induction pieces with
  | nil => exact .pure .nil
  | cons x pieces ih =>
    rw [List.mapM_cons]
    refine (meets_segments_errors f x).bind fun ss hss => ih.bind fun later hlater => .pure ?_
    rw [List.flatten_cons, unlexableTokens_append, List.filterMap_cons]
    have both := List.rel_append hss hlater
    cases herror : x.error? f <;> simpa [herror] using both

/-- There is an error for each token that no rule reads. -/
theorem meets_lex_errors (rules : List LexRule) (blocks : BlocksIndent) (f : TemplatedFile) :
    Meets (s ≤ ·) (lex rules blocks f) fun l =>
      List.Forall₂ LexError.IsOf l.errors (unlexableTokens l.segments) := by
  unfold lex
  refine (meets_mapM_segments_errors f _).bind fun woven hwoven => meets_freshId.bind fun id _ =>
    .pure ?_
  dsimp only
  rw [unlexableTokens, textTokens_indentBlocks, ← unlexableTokens, unlexableTokens_append,
    @unlexableTokens_of_markers [_] (by simp [isMarker, marker?, Segment.kind, Segment.info]),
    List.append_nil]
  exact hwoven

/-- The unlexable lexemes of a text are the maximal runs of characters outside of all matches at
which no rule takes anything, so no two of them stand side by side. Markup may cut them; each token
of the type that comes of them has its error, in order, and there are no other errors. -/
theorem unlexable_runs (types : ∀ r ∈ rules, ∀ t ∈ r.tokenRules, t.type ≠ unlexable)
    (blocks : BlocksIndent) (f : TemplatedFile) (n : Nat) :
    let lexemes := scan rules f.templated.toList
    let lexed := ((lex rules blocks f).run n).1
    (∀ i j, Located lexemes 0 i j ↔ IsMaximalRun (Unread rules f.templated.toList) i j) ∧
      (∀ before l m after, lexemes = before ++ l :: m :: after →
        l.type = unlexable → m.type ≠ unlexable) ∧
      List.Forall₂ LexError.IsOf lexed.errors (unlexableTokens lexed.segments) := by
  intro lexemes lexed
  have start : Reading rules f.templated.toList 0 [] f.templated.toList :=
    ⟨rfl, .start, fun k _ hk => absurd hk (Nat.not_lt_zero k), fun k hk => by omega⟩
  have runs (i j : Nat) : Located lexemes 0 i j ↔
      IsMaximalRun (Unread rules f.templated.toList) i j := by
    have located := located_scanAfter (i := i) (j := j) types start
    rwa [and_iff_left (Nat.zero_le i)] at located
  refine ⟨runs, fun before l m after split hl hm => ?_,
    (meets_lex_errors rules blocks f n (Nat.le_refl n)).1⟩
  -- the second run would start where the first one may not go on
  have first := (runs _ _).1 ⟨before, l, m :: after, split, hl, rfl, rfl⟩
  have second := (runs _ _).1 ⟨before ++ [l], m, after, by simp [split], hm, rfl, rfl⟩
  rw [textOf_append, textOf_cons, textOf_nil, List.append_nil, List.length_append,
    ← Nat.add_assoc] at second
  exact first.behind (second.all _ (Nat.le_refl _) second.solid)

/-- Letters around a comment of the template, a sign, and another letter. -/
def lettersAround : String := "a{# c #}b=d"

/-- The file of the template. -/
def lettersAroundFile : TemplatedFile := rendered [] lettersAround

theorem scan_lettersAroundFile :
    ((Templater.placeholder []).process lettersAround "").isOk = true ∧
      scan Ansi.symbolRules lettersAroundFile.templated.toList =
        [⟨['a', 'b'], unlexable, .ofCode⟩, ⟨['='], "equals", .ofCode⟩,
          ⟨['d'], unlexable, .ofCode⟩] ∧
      ((lex Ansi.symbolRules .enabled lettersAroundFile).run 0).1.errors.map
        (fun e => (e.source.start, e.source.stop)) = [(0, 1), (8, 9), (10, 11)] := by
  decide +kernel

/-- Rules that only know signs leave the first two letters to one run, which ends before the sign.
The comment cuts it, so there are two errors for it, and another one for the last letter. -/
theorem unlexable_runs_around :
    (∀ r ∈ Ansi.symbolRules, ∀ t ∈ r.tokenRules, t.type ≠ unlexable) ∧
      (Templater.placeholder []).process lettersAround "" = .ok lettersAroundFile ∧
      IsMaximalRun (Unread Ansi.symbolRules lettersAroundFile.templated.toList) 0 2 ∧
      ((lex Ansi.symbolRules .enabled lettersAroundFile).run 0).1.errors.map
        (fun e => (e.source.start, e.source.stop)) = [(0, 1), (8, 9), (10, 11)] ∧
      List.Forall₂ LexError.IsOf
        ((lex Ansi.symbolRules .enabled lettersAroundFile).run 0).1.errors
        (unlexableTokens ((lex Ansi.symbolRules .enabled lettersAroundFile).run 0).1.segments) := by
  have types : ∀ r ∈ Ansi.symbolRules, ∀ t ∈ r.tokenRules, t.type ≠ unlexable := by decide
  obtain ⟨hok, hscan, herrors⟩ := scan_lettersAroundFile
  obtain ⟨runs, -, errors⟩ := unlexable_runs types .enabled lettersAroundFile 0
  exact ⟨types, process_eq_rendered hok,
    (runs 0 2).1 ⟨[], _, _, hscan, rfl, rfl, rfl⟩, herrors, errors⟩

end QueryLint
