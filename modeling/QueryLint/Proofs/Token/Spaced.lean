import QueryLint.Proofs.Pattern.Leftmost
import QueryLint.Proofs.Token.Divided
import QueryLint.Proofs.Token.Unlexable

/-!
QueryLint.Proofs.Token.Spaced — white space between lexemes.

White space is never read in two pieces that stand side by side. A match that ends in white space
is not followed by more of it, and no match starts with it where the text ahead does not. So it is
enough to know the matches of single rules and what stands behind them.

* `TokenRule.matchLength?_eq_none_of_opens` — a rule takes nothing where it cannot start.
* `TokenRule.getLast?_take_of_form` — the last character of what a rule takes.
* `forall_mem_scan` — what holds of matches, and of what no rule reads, holds of all lexemes.
* `Spaced` — lexemes of which no two that follow each other are white space.
* `LexRule.KeepsSpaces` — a rule whose matches are followed by no more white space.
* `spaced_scan` — the lexemes of a text are spaced if the rules are such.
-/

namespace QueryLint

/-! ## 1. What a rule takes -/

namespace TokenRule

variable {r : TokenRule} {c : Char} {cs : List Char} {n : Nat}

/-- What the rule takes may start with the character, as far as that can be seen at once. -/
def opens (c : Char) (r : TokenRule) : Bool :=
  match r.form with
  | .literal text => text.head? == some c
  | .pattern held _ => !held.isAnchored || held.opens c

/-- A rule takes nothing where the character ahead is none that it may start with. -/
theorem matchLength?_eq_none_of_opens (h : r.opens c = false) (cs : List Char) :
    r.matchLength? (c :: cs) = none := by
  unfold matchLength?
  unfold opens at h
  cases hform : r.form with
  | literal text =>
    rw [hform] at h
    cases text with
    | nil => simp [Text.startsWith, Option.filter]
    | cons d text =>
      have other : d ≠ c := by simpa using h
      simp [Text.startsWith, other]
  | pattern held free =>
    rw [hform] at h
    dsimp only at h ⊢
    rw [Bool.or_eq_false_iff, Bool.not_eq_false'] at h
    rw [Pattern.find?, if_pos h.1, Pattern.matchAt?, Pattern.ends_eq_nil_of_opens h.2 rfl]
    rfl

/-- What a rule takes ends with a character of the set that stands last in its pattern. -/
theorem getLast?_take_of_form {p free : Pattern} {s : CharSet}
    (form : r.form = .pattern (.seq (.anchor .textStart) (.seq p (.set s))) free)
    (h : r.matchLength? cs = some n) :
    ∃ c, (cs.take n).getLast? = some c ∧ s.contains c = true := by
  unfold matchLength? at h
  rw [form] at h
  obtain ⟨⟨i, j⟩, hm, rfl⟩ := Option.map_eq_some_iff.1 (Option.filter_eq_some_iff.1 h).1
  obtain ⟨e, he, hm⟩ := Option.bind_eq_some_iff.1 (show _ = some (i, j) from hm)
  obtain ⟨-, rfl⟩ := Prod.mk.inj (Option.some.inj hm)
  have member := List.mem_of_head? he
  have place := Pattern.forall_mem_ends (fun _ _ _ hrest hk => hk.advance hrest) _
    (Cursor.isIn_start cs) e member
  obtain ⟨_, -, member⟩ := Pattern.mem_ends_seq member
  obtain ⟨_, -, member⟩ := Pattern.mem_ends_seq member
  obtain ⟨c, hc, hs⟩ := Pattern.before_of_mem_ends_set member
  exact ⟨c, place.before.symm.trans hc, hs⟩

end TokenRule

open Text LexRule

variable {rules : List LexRule} {run cs rest : List Char} {ls ms : List Lexeme}

/-! ## 2. All lexemes of a text -/

/-- What holds of the lexemes of every match, and of a run of characters at which no rule takes
anything, holds of all lexemes of a text. -/
theorem forall_mem_scanAfter {P : Lexeme → Prop} {Q : Char → Prop}
    (matched : ∀ r ∈ rules, ∀ c cs n, r.token.matchLength? (c :: cs) = some (n + 1) →
      ∀ l ∈ r.divide (c :: cs.take n), P l)
    (unread : ∀ c cs, Untaken rules (c :: cs) → Q c)
    (runs : ∀ run, (∀ c ∈ run, Q c) → P ⟨run, unlexable, .ofCode⟩)
    (hrun : ∀ c ∈ run, Q c) : ∀ l ∈ scanAfter rules run cs, P l := by
  have ofRun (run : List Char) (hrun : ∀ c ∈ run, Q c) : ∀ l ∈ runLexeme run, P l := by
    unfold runLexeme
    split
    · simp
    · exact List.forall_mem_singleton.2 (runs run hrun)
  fun_induction scanAfter rules run cs with
  | case1 run => exact ofRun run hrun
  | case2 run c cs n r longest ih =>
    obtain ⟨hr, hn, -⟩ := longest ▸ isBest_longest? (c :: cs) rules
    exact List.forall_mem_append.2 ⟨List.forall_mem_append.2
      ⟨ofRun run hrun, matched r hr c cs n hn⟩, ih (by simp)⟩
  | case3 run c cs missed ih =>
    exact ih (List.forall_mem_append.2 ⟨hrun,
      List.forall_mem_singleton.2 (unread c cs (untaken_of_longest? missed))⟩)

theorem forall_mem_scan {P : Lexeme → Prop} {Q : Char → Prop}
    (matched : ∀ r ∈ rules, ∀ c cs n, r.token.matchLength? (c :: cs) = some (n + 1) →
      ∀ l ∈ r.divide (c :: cs.take n), P l)
    (unread : ∀ c cs, Untaken rules (c :: cs) → Q c)
    (runs : ∀ run, (∀ c ∈ run, Q c) → P ⟨run, unlexable, .ofCode⟩) : ∀ l ∈ scan rules cs, P l :=
  forall_mem_scanAfter matched unread runs (by simp)

/-! ## 3. White space -/

/-- Lexemes with a text each, of which no two that follow each other are white space, and with such
text behind them that it does not go on with their white space. Line ends have a line feed. -/
structure Spaced (ls : List Lexeme) (rest : List Char) : Prop where
  solid : ∀ l ∈ ls, l.text ≠ []
  blank : ∀ l ∈ ls, l.type = "whitespace" → ∀ c ∈ l.text, isLineBlank c
  lineEnd : ∀ l ∈ ls, l.type = "newline" → '\n' ∈ l.text
  apart : ls.IsChain fun l m => l.type = "whitespace" → m.type ≠ "whitespace"
  last : ∀ l ∈ ls.getLast?, l.type = "whitespace" → ∀ c ∈ rest.head?, isLineBlank c = false

theorem spaced_nil (rest : List Char) : Spaced [] rest :=
  ⟨by simp, by simp, by simp, List.isChain_nil, by simp⟩

/-- A lexeme that is neither white space nor a line end. -/
theorem spaced_singleton {l : Lexeme} (solid : l.text ≠ []) (hblank : l.type ≠ "whitespace")
    (hline : l.type ≠ "newline") (rest : List Char) : Spaced [l] rest where
  solid := List.forall_mem_singleton.2 solid
  blank := List.forall_mem_singleton.2 (absurd · hblank)
  lineEnd := List.forall_mem_singleton.2 (absurd · hline)
  apart := List.isChain_singleton l
  last m hm h := by
    obtain rfl := Option.some.inj hm
    exact absurd h hblank

namespace Spaced

theorem append (h : Spaced ls (textOf ms ++ rest)) (h' : Spaced ms rest) :
    Spaced (ls ++ ms) rest where
  solid := List.forall_mem_append.2 ⟨h.solid, h'.solid⟩
  blank := List.forall_mem_append.2 ⟨h.blank, h'.blank⟩
  lineEnd := List.forall_mem_append.2 ⟨h.lineEnd, h'.lineEnd⟩
  apart := by
    refine List.isChain_append.2 ⟨h.apart, h'.apart, fun l hl m hm hblank hmore => ?_⟩
    obtain ⟨ms, rfl⟩ := List.head?_eq_some_iff.1 hm
    obtain ⟨c, text, heq⟩ := List.exists_cons_of_ne_nil (h'.solid m (by simp))
    have ahead := h.last l hl hblank c (by simp [heq])
    rw [h'.blank m (by simp) hmore c (by simp [heq])] at ahead
    cases ahead
  last l hl hblank := by
    rw [List.getLast?_append] at hl
    cases hms : ms.getLast? with
    | none =>
      obtain rfl := List.getLast?_eq_none_iff.1 hms
      exact h.last l hl hblank
    | some m =>
      rw [hms, Option.some_or] at hl
      exact h'.last l (hms.trans hl) hblank

end Spaced

/-- Every match of the rule is divided into lexemes that are spaced, with what follows the match. -/
def LexRule.KeepsSpaces (r : LexRule) : Prop :=
  ∀ c cs n, r.token.matchLength? (c :: cs) = some (n + 1) →
    Spaced (r.divide (c :: cs.take n)) (cs.drop n)

theorem spaced_runLexeme (run rest : List Char) : Spaced (runLexeme run) rest := by
  unfold runLexeme
  split
  · exact spaced_nil rest
  · next hsolid =>
    refine spaced_singleton (by simpa using hsolid) ?_ ?_ rest
    · show unlexable ≠ "whitespace"
      decide
    · show unlexable ≠ "newline"
      decide

theorem spaced_scanAfter (h : ∀ r ∈ rules, r.KeepsSpaces) (run cs : List Char) :
    Spaced (scanAfter rules run cs) [] := by
  fun_induction scanAfter rules run cs with
  | case1 run => exact spaced_runLexeme run []
  | case2 run c cs n r longest ih =>
    obtain ⟨hr, hn, -⟩ := longest ▸ isBest_longest? (c :: cs) rules
    have matched := h r hr c cs n hn
    have behind : textOf (scanAfter rules [] (cs.drop n)) ++ [] = cs.drop n := by
      rw [text_scanAfter, List.nil_append, List.append_nil]
    exact .append (behind.symm ▸ (spaced_runLexeme run _).append matched) ih
  | case3 run c cs missed ih => exact ih

/-- The lexemes of a text are spaced if every match is. -/
theorem spaced_scan (h : ∀ r ∈ rules, r.KeepsSpaces) (cs : List Char) :
    Spaced (scan rules cs) [] :=
  spaced_scanAfter h [] cs

/-! ## 4. Rules that keep white space together -/

namespace LexRule

variable {r : LexRule} {t : TokenRule}

/-- A rule that makes neither white space nor line ends, and does not divide what it takes. -/
theorem keepsSpaces_of_solid (divider : r.divider = none) (hblank : r.token.type ≠ "whitespace")
    (hline : r.token.type ≠ "newline") : r.KeepsSpaces := by
  intro c cs n _
  rw [divide, divider]
  exact spaced_singleton (List.cons_ne_nil c _) hblank hline _

/-- A rule that takes the run of white space ahead. -/
theorem keepsSpaces_run (type : t.type = "whitespace") (reads : t.Reads (run? isLineBlank)) :
    ({ token := t } : LexRule).KeepsSpaces := by
  intro c cs n hn
  obtain ⟨hlength, -⟩ := run?_eq_some.1 ((reads.here (c :: cs)).symm.trans hn)
  have front : c :: cs.take n = (c :: cs).takeWhile isLineBlank := by
    rw [← List.take_succ_cons, ← hlength]
    exact (List.prefix_iff_eq_take.1 (List.takeWhile_prefix _)).symm
  have back : cs.drop n = (c :: cs).dropWhile isLineBlank := by
    rw [← List.drop_succ_cons (a := c)]
    conv_lhs => rw [← @List.takeWhile_append_dropWhile _ isLineBlank (c :: cs)]
    exact List.drop_left' hlength
  show Spaced [t.lexeme (c :: cs.take n)] (cs.drop n)
  refine ⟨?_, ?_, ?_, List.isChain_singleton _, fun l _ _ d hd => ?_⟩
  · exact List.forall_mem_singleton.2 (List.cons_ne_nil c _)
  · rw [List.forall_mem_singleton]
    intro _ d hd
    exact List.mem_takeWhile_imp (front ▸ hd)
  · exact List.forall_mem_singleton.2 fun hline => absurd (type.symm.trans hline) (by decide)
  · obtain ⟨more, hmore⟩ := List.head?_eq_some_iff.1 hd
    have stop := List.head_dropWhile_not isLineBlank (l := c :: cs) (by simp [← back, hmore])
    simpa [← back, hmore] using stop

/-- A rule that takes the line end ahead. -/
theorem keepsSpaces_lineEnd (type : t.type = "newline") (reads : t.Reads lineBreak?) :
    ({ token := t } : LexRule).KeepsSpaces := by
  intro c cs n hn
  have text := lineBreak?_eq_some ((reads.here (c :: cs)).symm.trans hn)
  rw [List.take_succ_cons] at text
  have line (l : Lexeme) (hl : l ∈ [t.lexeme (c :: cs.take n)]) : l.type ≠ "whitespace" := by
    rw [List.mem_singleton.1 hl]
    exact fun hblank => absurd (type.symm.trans hblank) (by decide)
  show Spaced [t.lexeme (c :: cs.take n)] (cs.drop n)
  refine ⟨?_, fun l hl hblank => absurd hblank (line l hl), ?_, List.isChain_singleton _,
    fun l hl hblank => absurd hblank (line l (List.mem_of_getLast? hl))⟩
  · exact List.forall_mem_singleton.2 (List.cons_ne_nil c _)
  · rw [List.forall_mem_singleton]
    intro _
    show '\n' ∈ c :: cs.take n
    rcases text with text | text <;> simp [text]

/-- A rule whose matches are divided cleanly and end with something else than white space. -/
theorem keepsSpaces_of_dividesCleanly (clean : ∀ cs, DividesCleanly cs (r.divide cs))
    (last : ∀ cs n, r.token.matchLength? cs = some n →
      ∃ c, (cs.take n).getLast? = some c ∧ isLineBlank c = false) : r.KeepsSpaces := by
  intro c cs n hn
  obtain ⟨d, hd, hsolid⟩ := last (c :: cs) (n + 1) hn
  have clean := clean (c :: cs.take n)
  rw [List.take_succ_cons] at hd
  generalize r.divide (c :: cs.take n) = ls at clean
  have blank (l : Lexeme) (hl : l ∈ ls) (hblank : l.type = "whitespace") :
      l.text ≠ [] ∧ ∀ c ∈ l.text, isLineBlank c := by
    obtain ⟨before, after, split⟩ := List.append_of_mem hl
    obtain ⟨ne_nil, all, -⟩ := clean.blank before l after split hblank
    exact ⟨ne_nil, all⟩
  have lineEnd (l : Lexeme) (hl : l ∈ ls) (hline : l.type = "newline") : '\n' ∈ l.text := by
    obtain ⟨before, after, split⟩ := List.append_of_mem hl
    rcases clean.lineEnd before l after split hline with text | ⟨text, -⟩ <;> simp [text]
  refine ⟨fun l hl => ?_, fun l hl hblank => (blank l hl hblank).2, lineEnd, ?_,
    fun l hl hblank => ?_⟩
  · rcases clean.types l hl with hcomment | hblank | hline
    · exact (clean.comment l hl hcomment).ne_nil
    · exact (blank l hl hblank).1
    · exact List.ne_nil_of_mem (lineEnd l hl hline)
  · exact List.isChain_iff_forall_rel_of_append_cons_cons.2
      fun l m before after split hblank hmore => clean.apart before l m after split ⟨hblank, hmore⟩
  · obtain ⟨before, rfl⟩ := List.getLast?_eq_some_iff.1 hl
    obtain ⟨ne_nil, all⟩ := blank l (by simp) hblank
    rw [← clean.tiles, textOf_append, textOf_cons, textOf_nil, List.append_nil,
      List.getLast?_append_of_ne_nil _ ne_nil] at hd
    rw [all d (List.mem_of_getLast? hd)] at hsolid
    cases hsolid

end LexRule

end QueryLint
