import QueryLint.Proofs.Match.AlongsideGrammar
import QueryLint.Proofs.Match.Scan
import QueryLint.Proofs.Parse

/-!
QueryLint.Proofs.Match.Transparent — the memo changes no match.

A match of a reference is kept under the place it starts from, the limit, the grammar and the
terminators around it. Not under the number of levels that were left: a grammar that was too deep
inside others is kept as not matching, and is found as not matching later, where there are levels
enough. So the memo is transparent as far as the limit of depth is not reached.

To say so, the limit has to leave a trace. `guarded` is `matchGrammar` with a note where a grammar
is too deep inside others. Three facts about it carry the result.

* `guarded_eq_of_not_tripped` — without the memo, the number of levels makes no difference to a
  match that does not reach the limit.
* `Sincere` — a memo that holds, of all matches that do not reach the limit, the right ones. What
  does not reach the limit keeps it so.
* `memo_transparent` — with a memo that earlier matches left, a grammar matches as without one.
-/

namespace QueryLint

/-! ## 1. The limit of depth -/

/-- The note that a grammar is too deep inside others. -/
def depthNote : ParseNote := ⟨"parse depth limit reached, abandoning branch", none⟩

/-- Matches nothing and says why. -/
def Matcher.trip : Matcher := fun _ _ i _ => do
  Matching.note depthNote.message depthNote.position
  return .empty i

/-- A grammar was too deep inside others. -/
def MatchState.Tripped (s : MatchState) : Prop := depthNote ∈ s.notes

instance (s : MatchState) : Decidable s.Tripped := inferInstanceAs (Decidable (_ ∈ _))

namespace MatchContext

/-- Match a grammar with so many levels left, and with another matcher beyond them. -/
def matchOver (c : MatchContext) (beyond : Matcher) : Nat → Matcher
  | 0 => beyond
  | 1 => c.matchLevel beyond beyond
  | n + 2 => c.matchLevel (matchOver c beyond (n + 1)) (matchOver c beyond n)

/-- Match a grammar with so many levels left, and keep a note where they are not enough. -/
def guarded (c : MatchContext) : Nat → Matcher := c.matchOver .trip

/-- The same context without the memo. -/
def unmemoized (c : MatchContext) : MatchContext := { c with memoize := false }

/-- Matching a grammar with so many levels left reaches the limit, from a memo on. -/
def Trips (c : MatchContext) (n : Nat) (ts : List GrammarId) (limit i : Nat) (g : GrammarId)
    (s : MatchState) : Prop :=
  ((c.guarded n ts limit i g).run { memo := s.memo }).2.Tripped

instance (c : MatchContext) (n : Nat) (ts : List GrammarId) (limit i : Nat) (g : GrammarId)
    (s : MatchState) : Decidable (c.Trips n ts limit i g s) :=
  inferInstanceAs (Decidable (MatchState.Tripped _))

/-- The states that earlier matches of a list of tokens leave, of any grammars, from any places and
up to any limits, none of which reaches the limit of depth. -/
inductive Earlier (c : MatchContext) : MatchState → Prop where
  | fresh : Earlier c {}
  | after {s : MatchState} (h : Earlier c s) (n : Nat) (ts : List GrammarId) (limit i : Nat)
    (g : GrammarId) (hn : ¬ c.Trips n ts limit i g s) :
    Earlier c ((c.matchGrammar n ts limit i g).run s).2

variable {c : MatchContext} {types : Array Nat}

theorem matchOver_succ (beyond : Matcher) (n : Nat) :
    c.matchOver beyond (n + 1) =
      c.matchLevel (c.matchOver beyond n) (c.matchOver beyond (n - 1)) := by
  cases n <;> rfl

/-- Grammars that are too deep inside others match nothing. -/
theorem matchOver_refuse (n : Nat) : c.matchOver .refuse n = c.matchGrammar n := by
  induction n using Nat.strongRecOn with
  | ind n ih =>
    match n with
    | 0 => rfl
    | 1 => rfl
    | n + 2 =>
      rw [matchOver, ih (n + 1) (by omega), ih n (by omega)]
      rfl

/-! ## 2. Levels side by side -/

section Levels

variable {b : Bond} {alike : MatchClass → MatchClass → Prop} {like : Match → Match → Prop}
  {likeAll : List Match → List Match → Prop} {beyond beyond' : Matcher} {d : MatchContext}
  (hd : d = c.varied d.tokens types d.memoize) (hl : Likeness alike like likeAll)
  (ht : c.Abreast alike d.tokens) (hsegments : c.SegmentsAlike types like likeAll)
  (hnote : NotesPaired b c.tokens d.tokens) (hbeyond : Paired b like beyond beyond')

include hd hl ht hsegments hnote hbeyond

/-- All levels keep side by side if what is beyond them does. -/
theorem paired_matchOver
    (hmemo : ∀ n, Paired b like (c.matchOver beyond n) (d.matchOver beyond' n) →
      MemoPaired b like c.memoize d.memoize (c.matchOver beyond n) (d.matchOver beyond' n))
    (n : Nat) : Paired b like (c.matchOver beyond n) (d.matchOver beyond' n) := by
  induction n using Nat.strongRecOn with
  | ind n ih =>
    cases n with
    | zero => exact hbeyond
    | succ n =>
      rw [matchOver_succ, matchOver_succ]
      have hbelow := ih n (Nat.lt_succ_self n)
      have hbelow2 := ih (n - 1) (by omega)
      have hlevel := paired_matchLevel hl ht hsegments hbelow hbelow2 hnote (hmemo n hbelow)
      rwa [← hd] at hlevel

/-- Different levels keep side by side if whatever is beyond them loses its way. -/
theorem paired_levels
    (hmemo : ∀ n k, Paired b like (c.matchOver beyond n) (d.matchOver beyond' k) →
      MemoPaired b like c.memoize d.memoize (c.matchOver beyond n) (d.matchOver beyond' k))
    (hlost : ∀ ts limit i g s, b.lost ((beyond ts limit i g).run s).2)
    (hlost' : ∀ ts limit i g t, b.lost' ((beyond' ts limit i g).run t).2) (n k : Nat) :
    Paired b like (c.matchOver beyond n) (d.matchOver beyond' k) := by
  have hsame := paired_matchOver hd hl ht hsegments hnote hbeyond fun n => hmemo n n
  induction n using Nat.strongRecOn generalizing k with
  | ind n ih =>
    intro ts limit i g
    match n, k with
    | 0, k => exact ⟨(hbeyond ts limit i g).lost, (hsame k ts limit i g).lost', fun s t _ =>
        .inl (hlost ts limit i g s)⟩
    | n + 1, 0 => exact ⟨(hsame (n + 1) ts limit i g).lost, (hbeyond ts limit i g).lost',
        fun s t _ => .inr (.inl (hlost' ts limit i g t))⟩
    | n + 1, k + 1 =>
      rw [matchOver_succ, matchOver_succ]
      have hbelow := ih n (Nat.lt_succ_self n) k
      have hbelow2 := ih (n - 1) (by omega) (k - 1)
      have hlevel := paired_matchLevel hl ht hsegments hbelow hbelow2 hnote (hmemo n k hbelow)
      rw [← hd] at hlevel
      exact hlevel ts limit i g

end Levels

/-! ## 3. What the limit says of two runs -/

/-- Runs are lost when they reach the limit, each as far as that matters; until then their states go
together. -/
def depthBond (p q : Prop) (alike : MatchState → MatchState → Prop) : Bond where
  lost s := p ∧ s.Tripped
  lost' t := q ∧ t.Tripped
  alike := alike

section DepthBond

variable {p q : Prop} {alike : MatchState → MatchState → Prop}

/-- States that go together still do so with the same note kept in both. -/
def KeepsNotes (alike : MatchState → MatchState → Prop) : Prop :=
  ∀ s t notes, alike s t →
    alike { s with notes := s.notes ++ notes } { t with notes := t.notes ++ notes }

theorem tripped_append {s : MatchState} (h : s.Tripped) (notes : List ParseNote) :
    MatchState.Tripped { s with notes := s.notes ++ notes } :=
  List.mem_append_left notes h

theorem alongside_note (hkeep : KeepsNotes alike) (message : String)
    (position : Option Position) :
    Alongside (depthBond p q alike) Eq (Matching.note message position)
      (Matching.note message position) where
  lost _ hs := ⟨hs.1, tripped_append hs.2 _⟩
  lost' _ ht := ⟨ht.1, tripped_append ht.2 _⟩
  agree _ _ hst := .inr (.inr ⟨rfl, hkeep _ _ _ hst⟩)

theorem notesPaired_self (hkeep : KeepsNotes alike) (tokens : Array TokenView) :
    NotesPaired (depthBond p q alike) tokens tokens :=
  fun _ => alongside_note hkeep _ _

theorem paired_trip (hkeep : KeepsNotes alike) :
    Paired (depthBond p q alike) Eq .trip .trip := fun _ _ _ _ =>
  (alongside_note hkeep _ _).bindEq fun _ => .pure rfl

theorem tripped_trip (ts : List GrammarId) (limit i : Nat) (g : GrammarId) (s : MatchState) :
    ((Matcher.trip ts limit i g).run s).2.Tripped :=
  List.mem_append_right s.notes (List.mem_singleton.2 rfl)

theorem abreast_self : c.Abreast Eq c.tokens := .refl fun _ => rfl

theorem segmentsAlike_self : c.SegmentsAlike c.tables.segmentTypes Eq Eq :=
  fun _ _ _ h _ => h ▸ rfl

/-- A look at the memo loses nothing, and a match that is worked out and kept loses as much as the
work. -/
theorem tripped_memoized {on : Bool} {key : MemoKey} {work : Matching Match}
    (hwork : ∀ s, s.Tripped → (work.run s).2.Tripped) {s : MatchState} (hs : s.Tripped) :
    ((Matching.memoized on key work).run s).2.Tripped := by
  cases on with
  | false => exact hwork s hs
  | true =>
    cases hm : s.memo[key]? with
    | some m =>
      rw [Matching.run_memoized_of_some hm]
      exact hs
    | none =>
      rw [Matching.run_memoized_of_none hm]
      exact hwork s hs

/-- What two matchers find for references keeps side by side if alike memos hold alike matches and
stay alike when alike matches are put into them. -/
theorem memoPaired_of_alike {like : Match → Match → Prop} {run run' : Matcher} (on : Bool)
    (hrun : Paired (depthBond p q alike) like run run')
    (hlookup : ∀ s t, alike s t → ∀ key : MemoKey, Option.Rel like s.memo[key]? t.memo[key]?)
    (hinsert : ∀ ts limit i g s t, alike s t →
      let r := (run ts limit i g).run s
      let r' := (run' ts limit i g).run t
      ¬ (p ∧ r.2.Tripped) → like r.1 r'.1 → alike r.2 r'.2 →
        alike { r.2 with memo := r.2.memo.insert ⟨i, limit, g, ts⟩ r.1 }
          { r'.2 with memo := r'.2.memo.insert ⟨i, limit, g, ts⟩ r'.1 }) :
    MemoPaired (depthBond p q alike) like on on run run' := by
  intro ts limit i g
  have hwork := hrun ts limit i g
  refine ⟨fun s hs => ⟨hs.1, ?_⟩, fun s hs => ⟨hs.1, ?_⟩, fun s t hst => ?_⟩
  · exact tripped_memoized (fun s h => (hwork.lost s ⟨hs.1, h⟩).2) hs.2
  · exact tripped_memoized (fun s h => (hwork.lost' s ⟨hs.1, h⟩).2) hs.2
  cases on with
  | false => exact hwork.agree s t hst
  | true =>
    have hfound := hlookup _ _ hst ⟨i, limit, g, ts⟩
    cases hm : s.memo[(⟨i, limit, g, ts⟩ : MemoKey)]? with
    | some m =>
      obtain ⟨m', hm', hlike⟩ :
          ∃ m', t.memo[(⟨i, limit, g, ts⟩ : MemoKey)]? = some m' ∧ like m m' := by
        rw [hm] at hfound
        cases h : t.memo[(⟨i, limit, g, ts⟩ : MemoKey)]? with
        | none => rw [h] at hfound; cases hfound
        | some m' => rw [h] at hfound; cases hfound with | some hlike => exact ⟨m', rfl, hlike⟩
      rw [Matching.run_memoized_of_some hm, Matching.run_memoized_of_some hm']
      exact .inr (.inr ⟨hlike, hst⟩)
    | none =>
      have hm' : t.memo[(⟨i, limit, g, ts⟩ : MemoKey)]? = none := by
        rw [hm] at hfound
        cases h : t.memo[(⟨i, limit, g, ts⟩ : MemoKey)]? with
        | none => rfl
        | some m' => rw [h] at hfound; cases hfound
      rw [Matching.run_memoized_of_none hm, Matching.run_memoized_of_none hm']
      by_cases hlost : p ∧ ((run ts limit i g).run s).2.Tripped
      · exact .inl hlost
      rcases hwork.agree s t hst with h | h | ⟨hlike, halike⟩
      · exact absurd h hlost
      · exact .inr (.inl h)
      · exact .inr (.inr ⟨hlike, hinsert ts limit i g s t hst hlost hlike halike⟩)

end DepthBond

/-- Without the memo, the number of levels makes no difference to matches that do not reach the
limit. -/
theorem guarded_eq_of_not_tripped (n k : Nat) {ts : List GrammarId} {limit i : Nat}
    {g : GrammarId} {s t : MatchState}
    (hn : ¬ ((c.unmemoized.guarded n ts limit i g).run s).2.Tripped)
    (hk : ¬ ((c.unmemoized.guarded k ts limit i g).run t).2.Tripped) :
    ((c.unmemoized.guarded n ts limit i g).run s).1 =
      ((c.unmemoized.guarded k ts limit i g).run t).1 := by
  have hlevels : Paired (depthBond True True fun _ _ => True) Eq (c.unmemoized.guarded n)
      (c.unmemoized.guarded k) :=
    paired_levels (c := c.unmemoized) (d := c.unmemoized) rfl .ofEq abreast_self segmentsAlike_self
      (notesPaired_self (fun _ _ _ h => h) _) (paired_trip fun _ _ _ h => h) (fun _ _ h => h)
      (fun ts limit i g s => ⟨trivial, tripped_trip ts limit i g s⟩)
      (fun ts limit i g s => ⟨trivial, tripped_trip ts limit i g s⟩) n k
  rcases (hlevels ts limit i g).agree s t trivial with hlost | hlost | ⟨heq, -⟩
  · exact absurd hlost.2 hn
  · exact absurd hlost.2 hk
  · exact heq

/-! ## 4. Sincere memos -/

/-- A memo holds, of all matches that do not reach the limit, the ones that are found without it. -/
def Sincere (c : MatchContext) (memo : Std.HashMap MemoKey Match) : Prop :=
  ∀ (key : MemoKey) m, memo[key]? = some m → ∀ n t,
    ¬ ((c.unmemoized.guarded n key.terminators key.limit key.start key.grammar).run t).2.Tripped →
    ((c.unmemoized.guarded n key.terminators key.limit key.start key.grammar).run t).1 = m

theorem Sincere.empty : c.Sincere {} := fun key m h => by simp at h

theorem Sincere.insert {memo : Std.HashMap MemoKey Match} (h : c.Sincere memo)
    {ts : List GrammarId} {limit i : Nat} {g : GrammarId} {m : Match}
    (hm : ∀ n t, ¬ ((c.unmemoized.guarded n ts limit i g).run t).2.Tripped →
      ((c.unmemoized.guarded n ts limit i g).run t).1 = m) :
    c.Sincere (memo.insert ⟨i, limit, g, ts⟩ m) :=
  forall_memo_insert h hm

/-- A run with a sincere memo beside one without a memo, which reaches the limit if the first does. -/
def BesideSincere (c : MatchContext) (s t : MatchState) : Prop :=
  c.Sincere s.memo ∧ (s.Tripped → t.Tripped)

/-- The run without a memo is lost when it reaches the limit, the other one if that matters. -/
def sincereBond (c : MatchContext) (p : Prop) : Bond := depthBond p True c.BesideSincere

theorem keepsNotes_besideSincere : KeepsNotes c.BesideSincere := by
  intro s t notes h
  refine ⟨h.1, fun hs => ?_⟩
  rcases List.mem_append.1 hs with hs | hs
  · exact List.mem_append_left notes (h.2 hs)
  · exact List.mem_append_right t.notes hs

/-- What is found for a reference in a sincere memo is what is found without it, and keeping what is
found leaves it sincere. -/
theorem memoPaired_sincere {p : Prop} {n k : Nat}
    (h : Paired (c.sincereBond p) Eq (c.guarded n) (c.unmemoized.guarded k)) :
    MemoPaired (c.sincereBond p) Eq c.memoize false (c.guarded n) (c.unmemoized.guarded k) := by
  intro ts limit i g
  have hwork := h ts limit i g
  refine ⟨fun s hs => ⟨hs.1, ?_⟩, hwork.lost', fun s t hst => ?_⟩
  · exact tripped_memoized (fun s h => (hwork.lost s ⟨hs.1, h⟩).2) hs.2
  cases hon : c.memoize with
  | false => exact hwork.agree s t hst
  | true =>
    by_cases hright : ((c.unmemoized.guarded k ts limit i g).run t).2.Tripped
    · exact .inr (.inl ⟨trivial, hright⟩)
    cases hm : s.memo[(⟨i, limit, g, ts⟩ : MemoKey)]? with
    | some m =>
      rw [Matching.run_memoized_of_some hm]
      have htripped (hs : s.Tripped) := (hwork.lost' t ⟨trivial, hst.2 hs⟩).2
      exact .inr (.inr ⟨(hst.1 _ m hm k t hright).symm, hst.1, htripped⟩)
    | none =>
      rw [Matching.run_memoized_of_none hm]
      rcases hwork.agree s t hst with hlost | hlost | ⟨heq, hsincere, htripped⟩
      · exact .inl hlost
      · exact absurd hlost.2 hright
      · refine .inr (.inr ⟨heq, hsincere.insert fun n' t' hn' => ?_, htripped⟩)
        rw [heq]
        exact guarded_eq_of_not_tripped n' k hn' hright

/-- With a sincere memo, a match that does not reach the limit without one does not reach it, and is
the same. -/
theorem run_of_sincere {s t : MatchState} (hs : c.BesideSincere s t) {n : Nat}
    {ts : List GrammarId} {limit i : Nat} {g : GrammarId}
    (ht : ¬ ((c.unmemoized.guarded n ts limit i g).run t).2.Tripped) :
    ((c.guarded n ts limit i g).run s).1 = ((c.unmemoized.guarded n ts limit i g).run t).1 ∧
      ¬ ((c.guarded n ts limit i g).run s).2.Tripped := by
  have hpaired : Paired (c.sincereBond False) Eq (c.guarded n) (c.unmemoized.guarded n) :=
    paired_matchOver (c := c) (d := c.unmemoized) rfl .ofEq abreast_self segmentsAlike_self
      (notesPaired_self keepsNotes_besideSincere _) (paired_trip keepsNotes_besideSincere)
      (fun _ => memoPaired_sincere) n
  rcases (hpaired ts limit i g).agree s t hs with hlost | hlost | ⟨heq, -, htripped⟩
  · exact absurd hlost.1 id
  · exact absurd hlost.2 ht
  · exact ⟨heq, fun h => ht (htripped h)⟩

/-- With a sincere memo and without one, matches that do not reach the limit are the same, however
many levels are left on either side. -/
theorem run_eq_of_not_tripped {s t : MatchState} (hs : c.Sincere s.memo) {n k : Nat}
    {ts : List GrammarId} {limit i : Nat} {g : GrammarId}
    (hn : ¬ ((c.guarded n ts limit i g).run s).2.Tripped)
    (hk : ¬ ((c.unmemoized.guarded k ts limit i g).run t).2.Tripped) :
    ((c.unmemoized.guarded k ts limit i g).run t).1 = ((c.guarded n ts limit i g).run s).1 := by
  have hlevels : Paired (c.sincereBond True) Eq (c.guarded n) (c.unmemoized.guarded k) :=
    paired_levels (c := c) (d := c.unmemoized) rfl .ofEq abreast_self segmentsAlike_self
      (notesPaired_self keepsNotes_besideSincere _) (paired_trip keepsNotes_besideSincere)
      (fun _ _ => memoPaired_sincere)
      (fun ts limit i g s => ⟨trivial, tripped_trip ts limit i g s⟩)
      (fun ts limit i g s => ⟨trivial, tripped_trip ts limit i g s⟩) n k
  have hrun := hlevels ts limit i g
  have hstart : ¬ s.Tripped := fun h => hn (hrun.lost s ⟨trivial, h⟩).2
  rcases hrun.agree s t ⟨hs, fun h => absurd h hstart⟩ with hlost | hlost | ⟨heq, -⟩
  · exact absurd hlost.2 hn
  · exact absurd hlost.2 hk
  · exact heq.symm

/-- A match that does not reach the limit leaves a sincere memo sincere. -/
theorem sincere_guarded {s : MatchState} (hs : c.Sincere s.memo) {n : Nat} {ts : List GrammarId}
    {limit i : Nat} {g : GrammarId} (hn : ¬ ((c.guarded n ts limit i g).run s).2.Tripped) :
    c.Sincere ((c.guarded n ts limit i g).run s).2.memo := by
  let b : Bond := depthBond True True fun s t => s.memo = t.memo ∧ c.Sincere s.memo
  have hpaired : Paired b Eq (c.guarded n) (c.guarded n) := by
    refine paired_matchOver (c := c) (d := c) rfl .ofEq abreast_self segmentsAlike_self
      (notesPaired_self (fun _ _ _ h => h) _) (paired_trip fun _ _ _ h => h)
      (fun n hn => memoPaired_of_alike _ hn ?_ ?_) n
    · rintro s t ⟨hmemo, -⟩ key
      rw [hmemo]
      exact option_rel_refl (fun _ => rfl) _
    · rintro ts limit i g s t ⟨-, hs⟩ r r' hlost heq ⟨hmemo, hsincere⟩
      refine ⟨?_, hsincere.insert fun k t hk =>
        run_eq_of_not_tripped hs (fun h => hlost ⟨trivial, h⟩) hk⟩
      dsimp only
      rw [hmemo, heq]
  rcases (hpaired ts limit i g).agree s s ⟨rfl, hs⟩ with hlost | hlost | ⟨-, -, hsincere⟩
  · exact absurd hlost.2 hn
  · exact absurd hlost.2 hn
  · exact hsincere

/-! ## 5. With and without notes of depth -/

/-- The note of depth changes no match and nothing that is kept. -/
theorem run_guarded (n : Nat) (ts : List GrammarId) (limit i : Nat) (g : GrammarId)
    {s t : MatchState} (hst : s.memo = t.memo) :
    ((c.matchGrammar n ts limit i g).run s).1 = ((c.guarded n ts limit i g).run t).1 ∧
      ((c.matchGrammar n ts limit i g).run s).2.memo =
        ((c.guarded n ts limit i g).run t).2.memo := by
  let b : Bond := depthBond False False fun s t => s.memo = t.memo
  have hbeyond : Paired b Eq .refuse .trip := fun _ _ _ _ =>
    ⟨fun _ h => h.1.elim, fun _ h => h.1.elim, fun _ _ h => .inr (.inr ⟨rfl, h⟩)⟩
  have hpaired : Paired b Eq (c.matchOver .refuse n) (c.guarded n) := by
    refine paired_matchOver (c := c) (d := c) rfl .ofEq abreast_self segmentsAlike_self
      (notesPaired_self (fun _ _ _ h => h) _) hbeyond (fun n hn => memoPaired_of_alike _ hn ?_ ?_) n
    · intro s t hmemo key
      rw [hmemo]
      exact option_rel_refl (fun _ => rfl) _
    · intro ts limit i g s t _ r r' _ heq hmemo
      dsimp only at hmemo ⊢
      rw [hmemo, heq]
  rw [← matchOver_refuse]
  rcases (hpaired ts limit i g).agree s t hst with hlost | hlost | h
  · exact hlost.1.elim
  · exact hlost.1.elim
  · exact h

/-! ## 6. The memo is transparent -/

/-- Earlier matches leave a sincere memo. -/
theorem Earlier.sincere {s : MatchState} (h : c.Earlier s) : c.Sincere s.memo := by
  induction h with
  | fresh => exact .empty
  | @after s h n ts limit i g hn ih =>
    rw [(run_guarded n ts limit i g (s := s) (t := { memo := s.memo }) rfl).2]
    exact sincere_guarded (s := { memo := s.memo }) ih hn

/-- With a memo that earlier matches left, a grammar does not reach the limit if it does not without
a memo. -/
theorem Earlier.not_trips {s : MatchState} (h : c.Earlier s) {n : Nat} {ts : List GrammarId}
    {limit i : Nat} {g : GrammarId} (hn : ¬ c.unmemoized.Trips n ts limit i g {}) :
    ¬ c.Trips n ts limit i g s :=
  (run_of_sincere (s := { memo := s.memo }) ⟨h.sincere, fun h => by cases h⟩ hn).2

/-- With a sincere memo a grammar matches as without one, if that does not reach the limit. -/
theorem run_unmemoized_of_sincere {s : MatchState} (hs : c.Sincere s.memo) {n : Nat}
    {ts : List GrammarId} {limit i : Nat} {g : GrammarId}
    (hn : ¬ c.unmemoized.Trips n ts limit i g {}) :
    ((c.matchGrammar n ts limit i g).run s).1 =
      ((c.unmemoized.matchGrammar n ts limit i g).run {}).1 := by
  have hwith := (run_guarded (c := c) n ts limit i g (s := s) (t := { memo := s.memo }) rfl).1
  have hwithout := (run_guarded (c := c.unmemoized) n ts limit i g (s := {}) (t := {}) rfl).1
  rw [hwith, hwithout]
  exact (run_of_sincere (s := { memo := s.memo }) ⟨hs, fun h => by cases h⟩ hn).1

/-- With whatever memo earlier matches of the tokens left, a grammar matches as it does without a
memo, if neither those nor the match without a memo reach the limit of depth. -/
theorem memo_transparent {s : MatchState} (hs : c.Earlier s) {n : Nat} {ts : List GrammarId}
    {limit i : Nat} {g : GrammarId} (hn : ¬ c.unmemoized.Trips n ts limit i g {}) :
    ((c.matchGrammar n ts limit i g).run s).1 =
      ((c.unmemoized.matchGrammar n ts limit i g).run {}).1 :=
  run_unmemoized_of_sincere hs.sincere hn

/-- What the root grammar makes of all tokens, worked out without a memo. The levels are for books in
which no grammar is nine deep in others; that the limit is not reached is shown for each of them. -/
def rootMatch (c : MatchContext) : Match :=
  ((c.unmemoized.matchGrammar 9 [] c.size 0 c.tables.root).run {}).1

/-- With a memo the root grammar makes the same of all tokens, if that does not reach the limit. -/
theorem run_root (hn : ¬ c.unmemoized.Trips 9 [] c.size 0 c.tables.root {}) :
    ((c.matchGrammar 9 [] c.size 0 c.tables.root).run {}).1 = c.rootMatch :=
  run_unmemoized_of_sincere .empty hn

/-- Two grammars that refer to the same one, the first of them by way of another. -/
def sharedBook : GrammarBook where
  root := "Long"
  definitions := [
    .grammar "Word" (.keyword "a"),
    .grammar "Middle" (.ref "Word"),
    .grammar "Long" (.ref "Middle"),
    .grammar "Short" (.ref "Word")]

/-- One word and the grammars for it. -/
def sharedContext : MatchContext :=
  (Parser.ofBook sharedBook).context (Parser.wordTokens 0 0 ["a"])

/-- The grammar of a name in that context. -/
def sharedGrammar (name : String) : GrammarId :=
  (sharedContext.tables.lookup? name).getD default

/-- Where there are levels enough for both grammars, the second finds what the first has kept. -/
theorem memo_transparent_shared :
    sharedContext.Earlier
        ((sharedContext.matchGrammar 3 [] 1 0 (sharedGrammar "Long")).run {}).2 ∧
      ¬ sharedContext.unmemoized.Trips 2 [] 1 0 (sharedGrammar "Short") {} ∧
      ((sharedContext.matchGrammar 2 [] 1 0 (sharedGrammar "Short")).run
          ((sharedContext.matchGrammar 3 [] 1 0 (sharedGrammar "Long")).run {}).2).1 =
        ((sharedContext.unmemoized.matchGrammar 2 [] 1 0 (sharedGrammar "Short")).run {}).1 := by
  have hlong : ¬ sharedContext.unmemoized.Trips 3 [] 1 0 (sharedGrammar "Long") {} := by
    decide +kernel
  have hshort : ¬ sharedContext.unmemoized.Trips 2 [] 1 0 (sharedGrammar "Short") {} := by
    decide +kernel
  have hearlier : sharedContext.Earlier
      ((sharedContext.matchGrammar 3 [] 1 0 (sharedGrammar "Long")).run {}).2 :=
    .after .fresh 3 [] 1 0 _ (Earlier.fresh.not_trips hlong)
  exact ⟨hearlier, hshort, memo_transparent hearlier hshort⟩

/-- A reference that excludes nothing and brings no terminators. -/
def IsPlainReference (c : MatchContext) (g target : GrammarId) : Prop :=
  (c.tables.instruction g).kind = .ref ∧
    GrammarId.ofSlot? (c.tables.parameter g 1) = some target ∧
    c.tables.excludeIn g 2 = none ∧ c.tables.terminatorsOf g = [] ∧
    (c.tables.instruction g).flags.resetTerminators = false ∧ c.tables.segmentType? g = none

instance (c : MatchContext) (g target : GrammarId) : Decidable (c.IsPlainReference g target) :=
  inferInstanceAs (Decidable (_ ∧ _))

/-- Such a reference finds what is in the memo, or what its target matches a level deeper. -/
theorem run_plainReference {g target : GrammarId} (h : c.IsPlainReference g target) (n : Nat)
    (ts : List GrammarId) (limit i : Nat) (s : MatchState) :
    (c.matchGrammar (n + 1) ts limit i g).run s =
      (Matching.memoized c.memoize ⟨i, limit, target, ts⟩
        (c.matchGrammar n ts limit i target)).run s := by
  obtain ⟨hkind, htarget, hexclude, hterminators, hreset, hsegment⟩ := h
  rw [matchGrammar_succ]
  simp [matchLevel, matchOne, matchShape, Tables.shape, hkind, htarget, hexclude, matchReference,
    matchesExcluded, hterminators, hreset, hsegment, pushTerminators, Match.wrap?]

/-- What a chain of two such references keeps where there are levels for these two only: that the
grammar at its end does not match. -/
theorem memo_of_chain {g middle target : GrammarId} (hg : c.IsPlainReference g middle)
    (hmiddle : c.IsPlainReference middle target) (hne : middle ≠ target)
    (hmemo : c.memoize = true) (ts : List GrammarId) (limit i : Nat) :
    ((c.matchGrammar 2 ts limit i g).run {}).2.memo[(⟨i, limit, target, ts⟩ : MemoKey)]? =
      some (.empty i) := by
  have hkey : (⟨i, limit, middle, ts⟩ : MemoKey) ≠ ⟨i, limit, target, ts⟩ := by simp [hne]
  rw [run_plainReference hg, hmemo, Matching.run_memoized_of_none (by simp),
    run_plainReference hmiddle, hmemo, Matching.run_memoized_of_none (by simp)]
  dsimp only
  rw [Std.HashMap.getElem?_insert, if_neg (by simpa using hkey), Std.HashMap.getElem?_insert_self]
  rfl

/-- With two levels the first grammar reaches the limit, and what it keeps hides from the second what
it finds without the memo, within the limit. -/
theorem memo_hides_match_shared :
    sharedBook.compile = .ok sharedContext.tables ∧
      ¬ sharedContext.unmemoized.Trips 2 [] 1 0 (sharedGrammar "Short") {} ∧
      ((sharedContext.unmemoized.matchGrammar 2 [] 1 0 (sharedGrammar "Short")).run {}).1.isMatch =
        true ∧
      ((sharedContext.matchGrammar 2 [] 1 0 (sharedGrammar "Short")).run
        ((sharedContext.matchGrammar 2 [] 1 0 (sharedGrammar "Long")).run {}).2).1.isMatch =
        false := by
  have compiled : sharedBook.compile.isOk = true := by decide +kernel
  have hlong : sharedContext.IsPlainReference (sharedGrammar "Long") (sharedGrammar "Middle") := by
    decide +kernel
  have hmiddle :
      sharedContext.IsPlainReference (sharedGrammar "Middle") (sharedGrammar "Word") := by
    decide +kernel
  have hshort : sharedContext.IsPlainReference (sharedGrammar "Short") (sharedGrammar "Word") := by
    decide +kernel
  have hne : sharedGrammar "Middle" ≠ sharedGrammar "Word" := by decide +kernel
  refine ⟨Parser.compile_eq_ofBook compiled, by decide +kernel, by decide +kernel, ?_⟩
  have hkept := memo_of_chain hlong hmiddle hne rfl [] 1 0
  rw [run_plainReference hshort, show sharedContext.memoize = true from rfl,
    Matching.run_memoized_of_some hkept]
  rfl

end MatchContext

end QueryLint
