import QueryLint.Proofs.Match.Repeat

/-!
QueryLint.Proofs.Match.Grammar — every match is sound.

The matchers of all levels promise the same, so the promise goes up level by level. What the memo
holds was matched before, from a state that can be reached, at a level that made the same promise.

* `MatchContext.Reachable` — the states that matching can be in.
* `MatchContext.matchGrammar_induction` — what goes up from two levels to the next holds of all.
* `MatchContext.ExactBrackets` — closing brackets are declared, and are one token each.
* `MatchContext.sound_matchGrammar` — the matchers of all levels are sound.
* `Tables.IsPrompt` — no greedy repetition needs two parts or more.
-/

namespace QueryLint

open Matching

/-- No greedy repetition needs two parts or more. -/
def Tables.IsPrompt (t : Tables) : Prop :=
  ∀ id, (t.instruction id).kind = .anyNumberOf → (t.instruction id).mode = .greedy →
    (t.instruction id).least ≤ 1

theorem Tables.instruction_of_size_le {t : Tables} {id : GrammarId} (h : t.size ≤ id.index) :
    t.instruction id = default := by
  rw [Tables.instruction, Array.getD_eq_getD_getElem?, Array.getElem?_eq_none h]
  rfl

/-- What stands beyond the tables is no grammar. -/
theorem Tables.lt_size_of_kind {t : Tables} {id : GrammarId}
    (h : (t.instruction id).kind ≠ .missing) : id.index < t.size := by
  refine Nat.lt_of_not_le fun hle => h ?_
  rw [Tables.instruction_of_size_le hle]
  rfl

/-- What holds of all grammars in the tables, and of what is none, holds of all. -/
theorem Tables.forall_id {t : Tables} {P : GrammarId → Prop} (known : ∀ n < t.size, P ⟨n⟩)
    (missing : ∀ id, (t.instruction id).kind = .missing → P id) (id : GrammarId) : P id := by
  by_cases hkind : (t.instruction id).kind = .missing
  · exact missing id hkind
  · exact known id.index (lt_size_of_kind hkind)

namespace MatchContext

variable {c : MatchContext} {apart prompt : Prop} {I : MatchState → Prop}

/-! ## 1. States -/

/-- The states that matching can be in: nothing is in the memo but matches that were made. -/
inductive Reachable (c : MatchContext) : MatchState → Prop where
  | initial : Reachable c {}
  | note {s : MatchState} (notes : List ParseNote) (h : Reachable c s) :
    Reachable c { s with notes := notes }
  | keep {s s' : MatchState} {m : Match} {n limit i : Nat} {ts : List GrammarId} {g : GrammarId}
    (h : Reachable c s) (run : (c.matchGrammar n ts limit i g).run s = (m, s'))
    (h' : Reachable c s') : Reachable c { s' with memo := s'.memo.insert ⟨i, limit, g, ts⟩ m }

/-- Whatever the level, the terminators and the place, a grammar takes one token if it matches. -/
def TakesOneToken (c : MatchContext) (g : GrammarId) : Prop :=
  ∀ n ts limit i s, c.Reachable s → ((c.matchGrammar n ts limit i g).run s).1.IsOne

/-- The brackets of every bracketed grammar are declared, and what closes a declared pair of
brackets is a reference that takes one token. -/
structure ExactBrackets (c : MatchContext) : Prop where
  declared : ∀ id opening closing persists,
    c.tables.shape id = .bracketed (some (opening, closing, persists)) →
    ∃ p ∈ c.tables.bracketPairs, c.resolve p.opening = c.resolve opening
  closing_ref : ∀ p ∈ c.tables.bracketPairs, (c.tables.instruction p.closing).kind = .ref
  closing_one : ∀ p ∈ c.tables.bracketPairs, c.TakesOneToken p.closing

/-- What a memo promises of each match in it, it promises with one more match of which it holds. -/
theorem forall_memo_insert {Q : MemoKey → Match → Prop} {memo : Std.HashMap MemoKey Match}
    (h : ∀ key m, memo[key]? = some m → Q key m) {key : MemoKey} {m : Match} (hm : Q key m) :
    ∀ key' m', (memo.insert key m)[key']? = some m' → Q key' m' := by
  intro key' m' hfound
  rw [Std.HashMap.getElem?_insert] at hfound
  split at hfound
  · next hkey =>
    cases hfound
    cases eq_of_beq hkey
    exact hm
  · exact h key' m' hfound

/-- The states that matching can be in, with what their memo promises. -/
structure Invariant (c : MatchContext) (apart prompt : Prop) (s : MatchState) : Prop where
  reachable : c.Reachable s
  memo : ∀ (key : MemoKey) m, s.memo[key]? = some m → key.start ≤ key.limit ∨ m.isMatch = true →
    Claims c apart prompt key.limit key.start m

namespace Invariant

variable {s s' : MatchState} {m : Match}

theorem initial : Invariant c apart prompt {} :=
  ⟨.initial, fun key m h => by simp at h⟩

theorem note (h : Invariant c apart prompt s) (notes : List ParseNote) :
    Invariant c apart prompt { s with notes := notes } :=
  ⟨.note notes h.reachable, h.memo⟩

/-- A sound match that was made may be kept. -/
theorem keep {n limit i : Nat} {ts : List GrammarId} {g : GrammarId}
    (h : Invariant c apart prompt s) (run : (c.matchGrammar n ts limit i g).run s = (m, s'))
    (h' : Invariant c apart prompt s')
    (hm : i ≤ limit ∨ m.isMatch = true → Claims c apart prompt limit i m) :
    Invariant c apart prompt { s' with memo := s'.memo.insert ⟨i, limit, g, ts⟩ m } :=
  ⟨.keep h.reachable run h'.reachable, forall_memo_insert h'.memo hm⟩

end Invariant

/-! ## 2. References and brackets -/

theorem matchGrammar_succ (n : Nat) :
    c.matchGrammar (n + 1) = c.matchLevel (c.matchGrammar n) (c.matchGrammar (n - 1)) := by
  cases n <;> rfl

variable (c) in
/-- The matcher that looks for brackets on a level with so many levels below it. -/
def searching (n : Nat) : Matcher :=
  c.matchOne .refuse (c.matchGrammar n) (c.matchGrammar (n - 1))

/-- What holds of refusing everything, of the search for brackets above two levels and of the level
that searches so, holds of all levels. -/
theorem matchGrammar_induction {J : Matcher → Prop} (refuse : J .refuse)
    (searching : ∀ n, J (c.matchGrammar n) → J (c.matchGrammar (n - 1)) → J (c.searching n))
    (level : ∀ n, J (c.searching n) → J (c.matchGrammar n) → J (c.matchGrammar (n - 1)) →
      J (c.matchOne (c.searching n) (c.matchGrammar n) (c.matchGrammar (n - 1)))) (n : Nat) :
    J (c.matchGrammar n) := by
  induction n using Nat.strongRecOn with
  | ind n ih =>
    cases n with
    | zero => exact refuse
    | succ n =>
      have below := ih n (Nat.lt_succ_self n)
      have below2 := ih (n - 1) (by omega)
      rw [matchGrammar_succ]
      exact level n (searching n below below2) below below2

theorem sound_refuse : Sound c apart prompt I .refuse :=
  fun _ _ i _ => .pure fun _ => .empty i

theorem closesByOne_refuse (pairs : List BracketPair) :
    ClosesByOne apart I .refuse pairs :=
  fun _ _ _ _ _ i => .pure (.empty i)

/-- A matcher takes one token for closing brackets if it does so for the same grammars of other
pairs. -/
theorem ClosesByOne.of_closings {run : Matcher} {pairs others : List BracketPair}
    (h : ClosesByOne apart I run pairs)
    (hothers : apart → ∀ q ∈ others, ∃ p ∈ pairs, p.closing = q.closing) :
    ClosesByOne apart I run others := by
  intro hapart q hq
  obtain ⟨p, hp, hclosing⟩ := hothers hapart q hq
  rw [← hclosing]
  exact h hapart p hp

/-- The pairs as a bracketed grammar sees them are the declared ones if its own is. -/
theorem declared_of_mem_pairsFor {opening closing : GrammarId} {persists : Bool}
    (h : ∃ p ∈ c.tables.bracketPairs, c.resolve p.opening = c.resolve opening) {q : BracketPair}
    (hq : q ∈ (c.pairsFor opening closing persists).1) :
    ∃ p ∈ c.tables.bracketPairs, p.opening = q.opening ∧ p.closing = q.closing := by
  unfold pairsFor at hq
  dsimp only at hq
  split at hq
  · next n _ =>
    obtain ⟨k, hk, rfl⟩ := List.getElem_of_mem hq
    rw [List.length_modify] at hk
    refine ⟨c.tables.bracketPairs[k], List.getElem_mem hk, ?_⟩
    rw [List.getElem_modify]
    split <;> exact ⟨rfl, rfl⟩
  · next hnone =>
    obtain ⟨p, hp, hresolve⟩ := h
    have := List.findIdx?_eq_none_iff.1 hnone p hp
    simp [hresolve] at this

theorem closing_of_mem_pairsFor {opening closing : GrammarId} {persists : Bool}
    (h : ∃ p ∈ c.tables.bracketPairs, c.resolve p.opening = c.resolve opening) {q : BracketPair}
    (hq : q ∈ (c.pairsFor opening closing persists).1) :
    ∃ p ∈ c.tables.bracketPairs, p.closing = q.closing :=
  have ⟨p, hp, _, same⟩ := declared_of_mem_pairsFor h hq
  ⟨p, hp, same⟩

/-- A reference is matched on the level below, so a matcher of its own level that must not look for
brackets does the same. -/
theorem matchOne_of_ref {here below below2 : Matcher} {g : GrammarId}
    (h : (c.tables.instruction g).kind = .ref) (here' : Matcher) (ts : List GrammarId)
    (limit i : Nat) :
    c.matchOne here below below2 ts limit i g = c.matchOne here' below below2 ts limit i g := by
  have hshape : ∃ name target x, c.tables.shape g = .ref name target x := by
    simp [Tables.shape, h]
  obtain ⟨name, target, x, hshape⟩ := hshape
  unfold matchOne matchShape
  rw [hshape]
  cases target <;> rfl

theorem kind_of_shape_anyNumberOf {t : Tables} {id : GrammarId} {most perPart : Option Nat}
    {x : Option GrammarId} (h : t.shape id = .anyNumberOf most perPart x) :
    (t.instruction id).kind = .anyNumberOf := by
  unfold Tables.shape at h
  dsimp only at h
  split at h <;> first | assumption | cases h

section Levels

/-- What a level promises of closing brackets, in states that matching can be in. -/
theorem closesByOne_matchGrammar {n : Nat} (hI : ∀ s, I s → c.Reachable s)
    (hn : Sound c apart prompt I (c.matchGrammar n)) (hapart : apart → c.ExactBrackets) :
    ClosesByOne apart I (c.matchGrammar n) c.tables.bracketPairs := by
  intro h p hp ts limit i s hs
  exact ⟨(hapart h).closing_one p hp n ts limit i s (hI s hs), (hn ts limit i p.closing s hs).2⟩

/-- The search for brackets stays on its level, where closing brackets are matched as they are by
the whole level. -/
theorem closesByOne_searching {n : Nat} (hI : ∀ s, I s → c.Reachable s)
    (hhere : Sound c apart prompt I (c.searching n)) (hapart : apart → c.ExactBrackets) :
    ClosesByOne apart I (c.searching n) c.tables.bracketPairs := by
  intro h p hp ts limit i s hs
  have one := (hapart h).closing_one p hp (n + 1) ts limit i s (hI s hs)
  rw [matchGrammar_succ, matchLevel, matchOne_of_ref ((hapart h).closing_ref p hp) .refuse] at one
  exact ⟨one, (hhere ts limit i p.closing s hs).2⟩

theorem meets_matchReference {n : Nat}
    (hn : Sound c apart prompt (Invariant c apart prompt) (c.matchGrammar n))
    (ts : List GrammarId) (limit i : Nat) (id target : GrammarId) (exclude : Option GrammarId) :
    Meets (Invariant c apart prompt)
      (c.matchReference (c.matchGrammar n) ts limit i id target exclude) fun m =>
        i ≤ limit ∨ m.isMatch = true → Claims c apart prompt limit i m := by
  unfold matchReference
  dsimp only
  refine (meets_matchesExcluded hn _ limit i exclude).bind fun excluded _ => ?_
  split
  · exact .pure fun _ => .empty i
  · refine meets_memoized (hn _ limit i target) ?_ ?_
    · intro s m hs hm
      exact hs.memo _ m hm
    · intro s hs
      obtain ⟨hm, hs'⟩ := hn (pushTerminators (c.tables.instruction id).flags.resetTerminators
        (c.tables.terminatorsOf id) ts) limit i target s hs
      exact hs.keep rfl hs' hm

theorem meets_matchAnything {below : Matcher} (hbelow : Sound c apart prompt I below)
    (hone : ClosesByOne apart I below c.tables.bracketPairs) (ts : List GrammarId) (limit i : Nat)
    (id : GrammarId) :
    Meets I (c.matchAnything below ts limit i id) fun m =>
      i ≤ limit ∨ m.isMatch = true → Claims c apart prompt limit i m := by
  unfold matchAnything
  dsimp only
  split
  · exact .pure fun _ => .of_start_eq (.plain none (Nat.le_max_right _ _)) rfl (Nat.le_refl _)
  · exact meets_greedy hbelow hone ts limit i _ false true

theorem meets_matchBracketed {here below below2 : Matcher} (hhere : Sound c apart prompt I here)
    (hbelow : Sound c apart prompt I below) (hbelow2 : Sound c apart prompt I below2)
    (hhereOne : ClosesByOne apart I here c.tables.bracketPairs)
    (hbelow2One : ClosesByOne apart I below2 c.tables.bracketPairs) (ts : List GrammarId)
    (limit i : Nat) (id opening closing : GrammarId) (persists : Bool)
    (hdeclared : apart → ∃ p ∈ c.tables.bracketPairs, c.resolve p.opening = c.resolve opening) :
    Meets I (c.matchBracketed here below below2 ts limit i id opening closing persists)
      (Claims c apart prompt limit i) := by
  unfold matchBracketed
  refine (hbelow ts limit i opening).bind fun first hfirst => ?_
  split
  · exact .pure (.empty i)
  next hmatch =>
  have hfirst := hfirst (.inr (by simpa using hmatch))
  have hone : ClosesByOne apart I here (c.pairsFor opening closing persists).1 :=
    hhereOne.of_closings fun hapart _ hq => closing_of_mem_pairsFor (hdeclared hapart) hq
  dsimp only
  refine (meets_closeBracket hhere hone ts limit false _ hfirst.tidy).bind fun r hr => ?_
  rcases r with _ | pair
  · exact .pure (.empty i)
  obtain ⟨k, between, last, rfl, closed, hbetween⟩ := hr pair rfl
  obtain rfl := hbetween rfl
  exact meets_matchContent hbelow2 hbelow2One limit i id closing k hfirst closed

/-! ## 3. Tokens and markers -/

section Tokens

variable (limit i : Nat)

theorem token?_eq_some {v : TokenView} (h : c.token? limit i = some v) :
    i < limit ∧ c.tokens[i]? = some v := by
  unfold token? at h
  split at h
  · exact ⟨by assumption, h⟩
  · cases h

theorem Claims.single (h : i < limit) (k : Option MatchClass) :
    Claims c apart prompt limit i (.mk i (i + 1) k [] []) :=
  .of_start_eq (.plain k (Nat.le_succ i)) rfl (by rw [Match.stop_mk]; omega)

theorem Claims.matchCode (type : String) (test : TokenView → Bool) :
    Claims c apart prompt limit i (c.matchCode limit i type test) := by
  unfold MatchContext.matchCode
  split
  · next h =>
    split
    · exact .single limit i (token?_eq_some limit i h).1 _
    · exact .empty i
  · exact .empty i

theorem Claims.matchTyped (id : GrammarId) (template type : String) :
    Claims c apart prompt limit i (c.matchTyped limit i id template type) := by
  unfold MatchContext.matchTyped
  split
  · next h =>
    split
    · exact .single limit i (token?_eq_some limit i h).1 _
    · exact .empty i
  · exact .empty i

theorem Claims.matchPattern (text anti : Option TablePattern) (type : String) :
    Claims c apart prompt limit i (c.matchPattern limit i text anti type) := by
  unfold MatchContext.matchPattern
  split
  · exact .empty i
  · exact .matchCode limit i _ _

theorem Claims.anyToken :
    Claims c apart prompt limit i
      (if (c.token? limit i).any (·.isCode) then .range i (i + 1) else .empty i) := by
  split
  · next h =>
    cases hv : c.token? limit i with
    | none => simp [hv] at h
    | some v => exact .single limit i (token?_eq_some limit i hv).1 _
  · exact .empty i

theorem Claims.marker (id : GrammarId) :
    Claims c apart prompt limit i
      (((c.enabledMarker? id).map (Match.marker i)).getD (.empty i)) := by
  cases c.enabledMarker? id with
  | none => exact .empty i
  | some k => exact .of_start_eq (.marker i k) rfl (Nat.le_max_right _ _)

end Tokens

/-! ## 4. All levels -/

section Level

variable {here below below2 : Matcher} (hhere : Sound c apart prompt I here)
  (hhereOne : ClosesByOne apart I here c.tables.bracketPairs)
  (hbelow : Sound c apart prompt I below)
  (hbelowOne : ClosesByOne apart I below c.tables.bracketPairs)
  (hbelow2 : Sound c apart prompt I below2)
  (hbelow2One : ClosesByOne apart I below2 c.tables.bracketPairs)
  (hnote : ∀ s notes, I s → I { s with notes := notes })
  (href : ∀ ts limit i id target exclude,
    Meets I (c.matchReference below ts limit i id target exclude) fun m =>
      i ≤ limit ∨ m.isMatch = true → Claims c apart prompt limit i m)
  (hapart : apart → c.ExactBrackets) (hprompt : prompt → c.tables.IsPrompt)

include hhere hhereOne hbelow hbelowOne hbelow2 hbelow2One hnote href hapart hprompt

theorem meets_matchShape (ts : List GrammarId) (limit i : Nat) (id : GrammarId) :
    Meets I (c.matchShape here below below2 ts limit i id)
      fun m => i ≤ limit ∨ m.isMatch = true → Claims c apart prompt limit i m := by
  have sound {x : Matching Match} (h : Meets I x (Claims c apart prompt limit i)) :
      Meets I x fun m => i ≤ limit ∨ m.isMatch = true → Claims c apart prompt limit i m :=
    h.mono fun _ hm _ => hm
  have nothing : Meets I (return Match.empty i) fun m =>
      i ≤ limit ∨ m.isMatch = true → Claims c apart prompt limit i m := sound (.pure (.empty i))
  unfold matchShape
  split
  · exact href ts limit i id _ _
  · exact nothing
  · exact sound ((meets_matchSequence hbelow hbelowOne ts limit i _).mono fun _ hm => hm.claims)
  · exact sound (meets_matchAnyNumberOf hbelow hbelow2 hbelowOne ts limit i id _ _
      fun _ _ => Nat.le_refl 1)
  · next hshape =>
    exact sound (meets_matchAnyNumberOf hbelow hbelow2 hbelowOne ts limit i id _ _
      fun hp hmode => hprompt hp id (kind_of_shape_anyNumberOf hshape) hmode)
  · exact sound (meets_matchDelimited hbelow hbelow2 hnote ts limit i id _ _)
  · exact nothing
  · next hshape =>
    exact sound (meets_matchBracketed hhere hbelow hbelow2 hhereOne hbelow2One ts limit i id _ _ _
      fun h => (hapart h).declared id _ _ _ hshape)
  · exact nothing
  · exact sound (.pure (.matchCode limit i _ _))
  · exact sound (.pure (.matchCode limit i _ _))
  · exact sound (.pure (.matchTyped limit i id _ _))
  · exact sound (.pure (.matchPattern limit i _ _ _))
  · exact sound (.pure (.anyToken limit i))
  · exact meets_matchAnything hbelow hbelowOne ts limit i id
  · exact sound (.pure (.marker limit i id))
  · exact nothing
  · exact nothing

theorem sound_matchOne : Sound c apart prompt I (c.matchOne here below below2) := by
  intro ts limit i id
  refine (meets_matchShape hhere hhereOne hbelow hbelowOne hbelow2 hbelow2One hnote href hapart
    hprompt ts limit i id).bind fun m hm => .pure fun h => ?_
  by_cases hmatch : m.isMatch = true
  · exact (hm (.inr hmatch)).wrap? _
  · rcases h with h | h
    · exact (hm (.inl h)).wrap? _
    · rw [Match.wrap?_of_not_isMatch (by simpa using hmatch)] at h
      exact absurd h hmatch

end Level

/-- Looking for brackets is sound if the levels below are. -/
theorem sound_searching_of_below {n : Nat} (hapart : apart → c.ExactBrackets)
    (hprompt : prompt → c.tables.IsPrompt)
    (hbelow : Sound c apart prompt (Invariant c apart prompt) (c.matchGrammar n))
    (hbelow2 : Sound c apart prompt (Invariant c apart prompt) (c.matchGrammar (n - 1))) :
    Sound c apart prompt (Invariant c apart prompt) (c.searching n) :=
  sound_matchOne sound_refuse (closesByOne_refuse _) hbelow
    (closesByOne_matchGrammar (fun _ hs => hs.reachable) hbelow hapart) hbelow2
    (closesByOne_matchGrammar (fun _ hs => hs.reachable) hbelow2 hapart)
    (fun _ notes h => h.note notes) (meets_matchReference hbelow) hapart hprompt

/-- The matchers of all levels are sound: apart from one another where brackets are exact, and
prompt where no greedy repetition needs two parts. -/
theorem sound_matchGrammar (hapart : apart → c.ExactBrackets)
    (hprompt : prompt → c.tables.IsPrompt) (n : Nat) :
    Sound c apart prompt (Invariant c apart prompt) (c.matchGrammar n) := by
  have reachable (s : MatchState) (hs : Invariant c apart prompt s) : c.Reachable s := hs.reachable
  refine matchGrammar_induction sound_refuse
    (fun _ below below2 => sound_searching_of_below hapart hprompt below below2)
    (fun _ here below below2 => ?_) n
  exact sound_matchOne here (closesByOne_searching reachable here hapart) below
    (closesByOne_matchGrammar reachable below hapart) below2
    (closesByOne_matchGrammar reachable below2 hapart) (fun _ notes h => h.note notes)
    (meets_matchReference below) hapart hprompt

theorem sound_searching (hapart : apart → c.ExactBrackets) (hprompt : prompt → c.tables.IsPrompt)
    (n : Nat) : Sound c apart prompt (Invariant c apart prompt) (c.searching n) :=
  sound_searching_of_below hapart hprompt (sound_matchGrammar hapart hprompt n)
    (sound_matchGrammar hapart hprompt (n - 1))

end Levels

end MatchContext

end QueryLint
