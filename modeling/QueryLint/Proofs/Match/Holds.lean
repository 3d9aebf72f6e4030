import Mathlib.Data.List.Pairwise
import QueryLint.Proofs.Match.AlongsideGrammar
import QueryLint.Proofs.Match.Scan

/-!
QueryLint.Proofs.Match.Holds — which matches account for a token.

A token may stand in a match just so, between the matches inside it. A match accounts for it if a
terminal takes it, if a grammar for any code takes it as it is, or if it could not be placed. These
are kinds of matches, and what is asked is whether a match of such a kind holds the token. Putting
matches together and into others loses no match that is put into something, so it does not change
the answer.

* `Match.holds` — a match of a kind, inside a match, holds a token.
* `Tables.settles` — the kinds of matches that account for a token.
* `MatchContext.Covers` — the code between two places is accounted for by some matches.
-/
namespace QueryLint

/-! ## 1. Tokens inside matches -/

namespace Match

mutual

/-- A match of a kind holds a token: the match itself, or one inside it. -/
def holds (P : Match → Bool) (k : Nat) : Match → Bool
  | mk a b c is cs => (decide (a ≤ k) && decide (k < b) && P (mk a b c is cs)) || anyHolds P k cs

/-- One of several matches, or one inside them, is of a kind and holds a token. -/
def anyHolds (P : Match → Bool) (k : Nat) : List Match → Bool
  | [] => false
  | m :: rest => m.holds P k || anyHolds P k rest

end

/-- A token stands between brackets and in no match inside them. -/
def bares (k : Nat) (m : Match) : Bool :=
  m.class? == some .bracketed && m.children.all fun x => decide (k < x.start) || decide (x.stop ≤ k)

/-- What could not be placed. -/
def isUnparsable (m : Match) : Bool :=
  match m.class? with
  | some (.unparsable _) => true
  | _ => false

variable {P Q : Match → Bool} {k : Nat} {apart : Prop}

@[simp] theorem anyHolds_nil : anyHolds P k [] = false := rfl

@[simp] theorem anyHolds_cons (m : Match) (ms : List Match) :
    anyHolds P k (m :: ms) = (m.holds P k || anyHolds P k ms) := rfl

@[simp] theorem anyHolds_append (xs ys : List Match) :
    anyHolds P k (xs ++ ys) = (anyHolds P k xs || anyHolds P k ys) := by
  induction xs with
  | nil => rfl
  | cons x xs ih => simp [ih, Bool.or_assoc]

theorem anyHolds_iff {ms : List Match} :
    anyHolds P k ms = true ↔ ∃ m ∈ ms, m.holds P k = true := by
  induction ms with
  | nil => simp
  | cons m ms ih => simp [ih]

theorem holds_iff {a b : Nat} {c : Option MatchClass} {is : List (Nat × MarkerKind)}
    {cs : List Match} :
    (mk a b c is cs).holds P k = true ↔
      (a ≤ k ∧ k < b) ∧ P (mk a b c is cs) = true ∨ anyHolds P k cs = true := by
  rw [holds]
  simp

mutual

/-- If whatever is of a kind is of one of two others, a match of one of these holds the token. -/
theorem holds_or_holds {R : Match → Bool} (h : ∀ m, P m = true → Q m = true ∨ R m = true) :
    ∀ m : Match, m.holds P k = true → m.holds Q k = true ∨ m.holds R k = true
  | mk a b c is cs => by
    intro hm
    rcases holds_iff.1 hm with ⟨hk, hself⟩ | hcs
    · exact (h _ hself).imp (fun hQ => holds_iff.2 (.inl ⟨hk, hQ⟩))
        fun hR => holds_iff.2 (.inl ⟨hk, hR⟩)
    · exact (anyHolds_or_anyHolds h cs hcs).imp (fun hQ => holds_iff.2 (.inr hQ))
        fun hR => holds_iff.2 (.inr hR)

theorem anyHolds_or_anyHolds {R : Match → Bool}
    (h : ∀ m, P m = true → Q m = true ∨ R m = true) :
    ∀ ms : List Match, anyHolds P k ms = true →
      anyHolds Q k ms = true ∨ anyHolds R k ms = true
  | [], hnone => by cases hnone
  | m :: ms, hms => by
    simp only [anyHolds_cons, Bool.or_eq_true] at hms ⊢
    rcases hms with hm | hms
    · exact (holds_or_holds h m hm).imp .inl .inl
    · exact (anyHolds_or_anyHolds h ms hms).imp .inr .inr

end

/-- A match of a kind holds its own tokens. -/
theorem holds_self {m : Match} (ha : m.start ≤ k) (hb : k < m.stop) (h : P m = true) :
    m.holds P k = true := by
  obtain ⟨a, b, c, is, cs⟩ := m
  exact holds_iff.2 (.inl ⟨⟨ha, hb⟩, h⟩)

theorem holds_of_children {m : Match} (h : anyHolds P k m.children = true) :
    m.holds P k = true := by
  obtain ⟨a, b, c, is, cs⟩ := m
  exact holds_iff.2 (.inr h)

/-- What a tidy match holds lies between its ends. -/
theorem Tidy.bounds_of_holds {m : Match} (hm : m.Tidy apart) (h : m.holds P k = true) :
    m.start ≤ k ∧ k < m.stop := by
  induction hm with
  | @mk a b c is cs le inserts bounds children pairwise ih =>
    rcases holds_iff.1 h with ⟨hk, -⟩ | hcs
    · exact hk
    · obtain ⟨x, hx, hxk⟩ := anyHolds_iff.1 hcs
      have hbounds := bounds x hx
      have hinside := ih x hx hxk
      simp only [start_mk, stop_mk]
      omega

/-- Of matches that claim different tokens, the one over a token holds it if any does. -/
theorem Inside.holds_of_anyHolds {a b : Nat} {m : Match} {ms : List Match}
    (h : Inside True a b ms) (hm : m ∈ ms) (hstart : m.start ≤ k) (hstop : k < m.stop)
    (hheld : anyHolds P k ms = true) : m.holds P k = true := by
  obtain ⟨x, hx, hxk⟩ := anyHolds_iff.1 hheld
  have hbounds := (h.tidy x hx).bounds_of_holds hxk
  by_cases hsame : x = m
  · rw [← hsame]
    exact hxk
  · have symmetric : Std.Symm Apart := ⟨fun _ _ h => h.symm⟩
    have hapart : x.Apart m := (h.pairwise trivial).forall hx hm hsame
    rcases hapart with hbefore | hafter <;> omega

theorem Tidy.isMatch_of_holds {m : Match} (hm : m.Tidy apart) (h : m.holds P k = true) :
    m.isMatch = true := by
  have := hm.bounds_of_holds h
  exact isMatch_of_lt (by omega)

section Classes

variable (hP : ∀ m, P m = true → m.class?.isSome = true)

include hP

/-- What a match holds is held by the matches it adds to others. -/
theorem anyHolds_outerChildren {m : Match} (h : m.holds P k = true) :
    anyHolds P k m.outerChildren = true := by
  obtain ⟨a, b, c, is, cs⟩ := m
  cases c with
  | none =>
    rcases holds_iff.1 h with ⟨-, hself⟩ | hcs
    · cases hP _ hself
    · exact hcs
  | some c => simpa [outerChildren, class?] using h

/-- Putting a match into something loses none of the tokens it holds. -/
theorem holds_wrap {m : Match} (h : m.holds P k = true) (c : MatchClass) :
    (m.wrap c).holds P k = true := by
  unfold wrap
  split
  · exact h
  split
  · next hnone =>
    obtain ⟨a, b, c', is, cs⟩ := m
    rcases holds_iff.1 h with ⟨-, hself⟩ | hcs
    · have hsome := hP _ hself
      rw [Option.isNone_iff_eq_none.1 hnone] at hsome
      cases hsome
    · exact holds_of_children hcs
  · exact holds_of_children (by simpa [children] using h)

theorem holds_wrap? {m : Match} (h : m.holds P k = true) (c : Option MatchClass) :
    (m.wrap? c).holds P k = true := by
  cases c with
  | none => exact h
  | some c => exact holds_wrap hP h c

/-- Neither do two matches lose a token when they become one. -/
theorem holds_append {x y : Match} (hx : x.Tidy apart) (hy : y.Tidy apart)
    (h : x.holds P k = true ∨ y.holds P k = true) : (x.append y).holds P k = true := by
  by_cases hmx : x.isMatch = true
  · by_cases hmy : y.isMatch = true
    · rw [append_of_isMatch hmx hmy]
      refine holds_of_children ?_
      rw [children, anyHolds_append, Bool.or_eq_true]
      exact h.imp (anyHolds_outerChildren hP) (anyHolds_outerChildren hP)
    · rw [append_of_right_not_isMatch hmx (by simpa using hmy)]
      exact h.resolve_right fun hk => hmy (hy.isMatch_of_holds hk)
  · rw [append_of_not_isMatch y (by simpa using hmx)]
    exact h.resolve_left fun hk => hmx (hx.isMatch_of_holds hk)

end Classes

end Match

/-! ## 2. What accounts for a token -/

namespace Tables

variable (t : Tables)

/-- A match that takes code: by a terminal, or as it is. -/
def isClaim (m : Match) : Bool :=
  match m.class? with
  | some (.token _ _) => true
  | some (.node _ g) => t.takesAsIs g
  | _ => false

/-- A grammar in brackets of which code may be left over, and nothing is made of it. -/
def isLax (id : GrammarId) : Bool :=
  (t.instruction id).kind == .bracketed && (t.instruction id).flags.allowGaps &&
    (t.instruction id).mode != .strict

/-- A match that accounts for a token: it takes it, or says that it could not be placed. Between
the brackets of lax grammars it may also just stand. -/
def settles (lax : Bool) (k : Nat) (m : Match) : Bool :=
  t.isClaim m || m.isUnparsable || lax && m.bares k

variable {t} {lax : Bool} {k : Nat}

/-- Only what is put into something accounts for a token. -/
theorem isSome_class?_of_settles {m : Match} (h : t.settles lax k m = true) :
    m.class?.isSome = true := by
  cases hc : m.class? with
  | none => simp [settles, isClaim, Match.isUnparsable, Match.bares, hc] at h
  | some c => rfl

/-- A token that is accounted for was taken, or it could not be placed, or it just stands between
brackets. -/
theorem holds_of_settles {m : Match} (h : m.holds (t.settles lax k) k = true) :
    m.holds t.isClaim k = true ∨ m.holds Match.isUnparsable k = true ∨
      lax = true ∧ m.holds (Match.bares k) k = true := by
  have parts : m.holds t.isClaim k = true ∨
      m.holds (fun x => x.isUnparsable || lax && x.bares k) k = true :=
    Match.holds_or_holds (fun x hx => by simpa [settles, or_assoc] using hx) m h
  refine parts.imp_right fun hrest => ?_
  cases lax with
  | false => exact .inl (by simpa using hrest)
  | true =>
    exact (Match.holds_or_holds (fun x hx => by simpa using hx) m hrest).imp_right
      fun hbare => ⟨rfl, hbare⟩

end Tables

namespace MatchContext

variable {c : MatchContext} {lax : Bool}

/-- The code between two places is accounted for by some matches. -/
def Covers (c : MatchContext) (lax : Bool) (a b : Nat) (ms : List Match) : Prop :=
  ∀ k, a ≤ k → k < b → c.isCodeAt k = true →
    Match.anyHolds (c.tables.settles lax k) k ms = true

namespace Covers

variable {a b d : Nat} {m x y : Match} {ms ns : List Match}

theorem of_le (h : b ≤ a) : c.Covers lax a b ms := by
  intro k ha hb
  omega

theorem mono (h : c.Covers lax a b ms) (hb : d ≤ b) : c.Covers lax a d ms :=
  fun k ha hk => h k ha (by omega)

theorem append (h : c.Covers lax a b ms) (h' : c.Covers lax b d ns) :
    c.Covers lax a d (ms ++ ns) := by
  intro k ha hk hcode
  rw [Match.anyHolds_append, Bool.or_eq_true]
  by_cases hb : k < b
  · exact .inl (h k ha hb hcode)
  · exact .inr (h' k (by omega) hk hcode)

/-- Blanks that are passed over are no code. -/
theorem skip (h : c.Covers lax a b ms) (limit : Nat) :
    c.Covers lax a (c.skipToCode b limit) ms := by
  intro k ha hk hcode
  by_cases hb : k < b
  · exact h k ha hb hcode
  · have := not_isCodeAt_of_lt_skipToCode (by omega) hk
    rw [hcode] at this
    cases this

/-- Neither is there code where a range was cut. -/
theorem trimmed {least : Nat} (h : c.Covers lax a (c.trimToCode b least) ms) :
    c.Covers lax a b ms := by
  intro k ha hk hcode
  by_cases hb : k < c.trimToCode b least
  · exact h k ha hb hcode
  · have := not_isCodeAt_of_trimToCode_le (Nat.le_of_not_lt hb) hk
    rw [hcode] at this
    cases this

theorem subset (h : c.Covers lax a b ms) (hsub : ∀ m ∈ ms, m ∈ ns) : c.Covers lax a b ns := by
  intro k ha hk hcode
  obtain ⟨m, hm, held⟩ := Match.anyHolds_iff.1 (h k ha hk hcode)
  exact Match.anyHolds_iff.2 ⟨m, hsub m hm, held⟩

/-- A match that could not be placed accounts for its tokens. -/
theorem unparsable (a b : Nat) (expected : String) :
    c.Covers lax a b [.unparsable a b expected] := by
  intro k ha hb _
  rw [Match.anyHolds_cons, Match.holds_self ha hb]
  · rfl
  · simp [Tables.settles, Match.isUnparsable, Match.unparsable, Match.class?]

/-- What is inside a match counts for it. -/
theorem within (h : c.Covers lax a b ms) {i j : Nat} {k : Option MatchClass}
    {is : List (Nat × MarkerKind)} : c.Covers lax a b [.mk i j k is ms] := by
  intro n ha hb hcode
  rw [Match.anyHolds_cons, Match.holds_of_children (h n ha hb hcode)]
  rfl

theorem outerChildren (h : c.Covers lax a b [m]) : c.Covers lax a b m.outerChildren := by
  intro k ha hb hcode
  have held := h k ha hb hcode
  rw [Match.anyHolds_cons, Match.anyHolds_nil, Bool.or_false] at held
  exact Match.anyHolds_outerChildren (fun _ => Tables.isSome_class?_of_settles) held

theorem wrap? (h : c.Covers lax a b [m]) (k : Option MatchClass) :
    c.Covers lax a b [m.wrap? k] := by
  intro n ha hb hcode
  have held := h n ha hb hcode
  rw [Match.anyHolds_cons, Match.anyHolds_nil, Bool.or_false] at held ⊢
  exact Match.holds_wrap? (fun _ => Tables.isSome_class?_of_settles) held k

/-- One match after another, put together. -/
theorem joined (hx : c.Covers lax a b [x]) (hy : c.Covers lax b d [y]) (hxt : x.Tidy True)
    (hyt : y.Tidy True) : c.Covers lax a d [x.append y] := by
  intro k ha hk hcode
  have held := (hx.append hy) k ha hk hcode
  simp only [List.cons_append, List.nil_append, Match.anyHolds_cons, Match.anyHolds_nil,
    Bool.or_false, Bool.or_eq_true] at held ⊢
  exact Match.holds_append (fun _ => Tables.isSome_class?_of_settles) hxt hyt held

end Covers

end MatchContext

end QueryLint
