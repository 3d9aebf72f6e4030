import QueryLint.Token.Rule

/-!
QueryLint.Token.Lexeme — cutting text into the texts of tokens.

At every place the rule that takes most wins, and of those that take the same the first. What no
rule takes is gathered into runs, one lexeme each. A match may then be divided into finer
lexemes.

* `scan` — the lexemes of a text.
* `LexRule.divide` — the lexemes of one match.

`text_scan` says that the texts of the lexemes, one after the other, are the text.
-/

namespace QueryLint

/-- A piece of text with the kind of token it makes. -/
structure Lexeme where
  text : List Char
  type : String
  flags : TokenFlags
  deriving DecidableEq, Repr

/-- The type of what no rule takes. -/
def unlexable : String := "unlexable"

namespace TokenRule

/-- The lexeme a rule makes of a text. -/
def lexeme (r : TokenRule) (text : List Char) : Lexeme := ⟨text, r.type, r.flags⟩

/-- Number of characters before the match of a rule that reaches the end of a text, matches being
taken one after the other; the whole length if none reaches it. -/
def tailStart (r : TokenRule) (cs : List Char) : Nat :=
  match r.search? cs with
  | some (start, n + 1) =>
    if _h : start + n + 1 < cs.length then start + n + 1 + r.tailStart (cs.drop (start + n + 1))
    else start
  | _ => cs.length
termination_by cs.length
decreasing_by simp only [List.length_drop]; omega

end TokenRule

namespace LexRule

/-- The lexemes of a piece between two that the divider took. -/
def trim (r : LexRule) (cs : List Char) : List Lexeme :=
  match r.trimmer with
  | none => [r.token.lexeme cs]
  | some t =>
    let lead := (t.matchLength? cs).getD 0
    if lead = cs.length then [t.lexeme cs]
    else
      let body := cs.drop lead
      let tail := t.tailStart body
      (if lead = 0 then [] else [t.lexeme (cs.take lead)]) ++
        r.token.lexeme (body.take tail) ::
        (if tail < body.length then [t.lexeme (body.drop tail)] else [])

/-- The lexemes of a match that a divider divides. -/
def divideBy (r : LexRule) (d : TokenRule) : List Char → List Lexeme
  | [] => []
  | c :: cs =>
    match d.search? (c :: cs) with
    | some (start, n + 1) =>
      (if start = 0 then [] else r.trim ((c :: cs).take start)) ++
        d.lexeme (((c :: cs).drop start).take (n + 1)) :: r.divideBy d (cs.drop (start + n))
    | _ => r.trim (c :: cs)
termination_by cs => cs.length
decreasing_by simp only [List.length_drop, List.length_cons]; omega

/-- The lexemes of a match. -/
def divide (r : LexRule) (cs : List Char) : List Lexeme :=
  match r.divider with
  | none => [r.token.lexeme cs]
  | some d => r.divideBy d cs

/-- The rule that takes most at the start of a text, the first of several, and how much that is. -/
def longest? (cs : List Char) (rules : List LexRule) : Option (Nat × LexRule) :=
  rules.foldl (fun best r =>
    match r.token.matchLength? cs, best with
    | none, _ => best
    | some n, none => some (n, r)
    | some n, some (m, _) => if m < n then some (n, r) else best) none

end LexRule

/-- The lexeme of a run that no rule takes, if there is one. -/
def runLexeme (run : List Char) : List Lexeme :=
  if run.isEmpty then [] else [⟨run, unlexable, .ofCode⟩]

/-- The lexemes of a text after a run that no rule takes. -/
def scanAfter (rules : List LexRule) (run : List Char) : List Char → List Lexeme
  | [] => runLexeme run
  | c :: cs =>
    match LexRule.longest? (c :: cs) rules with
    | some (n + 1, r) =>
      runLexeme run ++ r.divide (c :: cs.take n) ++ scanAfter rules [] (cs.drop n)
    | _ => scanAfter rules (run ++ [c]) cs
termination_by cs => cs.length
decreasing_by all_goals simp only [List.length_drop, List.length_cons]; omega

/-- The lexemes of a text. -/
def scan (rules : List LexRule) (cs : List Char) : List Lexeme := scanAfter rules [] cs

/-! ## Nothing is lost -/

/-- The text of several lexemes. -/
def textOf (ls : List Lexeme) : List Char := ls.flatMap (·.text)

@[simp] theorem textOf_nil : textOf [] = [] := rfl

@[simp] theorem textOf_cons (l : Lexeme) (ls : List Lexeme) :
    textOf (l :: ls) = l.text ++ textOf ls := rfl

@[simp] theorem textOf_append (xs ys : List Lexeme) :
    textOf (xs ++ ys) = textOf xs ++ textOf ys := by
  simp [textOf]

@[simp] theorem text_lexeme (r : TokenRule) (cs : List Char) : (r.lexeme cs).text = cs := rfl

@[simp] theorem text_runLexeme (run : List Char) : textOf (runLexeme run) = run := by
  cases run <;> simp [runLexeme]

theorem text_trim (r : LexRule) (cs : List Char) : textOf (r.trim cs) = cs := by
  unfold LexRule.trim
  split
  · simp
  · next t _ =>
    simp only
    generalize (t.matchLength? cs).getD 0 = lead
    generalize t.tailStart (cs.drop lead) = tail
    have hlead : textOf (if lead = 0 then [] else [t.lexeme (cs.take lead)]) = cs.take lead := by
      split <;> simp_all
    have htail : textOf (if tail < (cs.drop lead).length then [t.lexeme ((cs.drop lead).drop tail)]
        else []) = (cs.drop lead).drop tail := by
      split
      · simp
      · rw [List.drop_of_length_le (by omega)]; rfl
    split
    · simp
    · rw [textOf_append, textOf_cons, hlead, htail, text_lexeme, List.take_append_drop,
        List.take_append_drop]

theorem text_divideBy (r : LexRule) (d : TokenRule) (cs : List Char) :
    textOf (r.divideBy d cs) = cs := by
  fun_induction LexRule.divideBy r d cs with
  | case1 => rfl
  | case2 c cs start n _ ih =>
    have h : textOf (if start = 0 then [] else r.trim ((c :: cs).take start)) =
        (c :: cs).take start := by
      split
      · next h => subst h; rfl
      · exact text_trim r _
    rw [textOf_append, textOf_cons, ih, text_lexeme, h, ← List.drop_drop]
    have : List.drop n (List.drop start cs) = List.drop (n + 1) (List.drop start (c :: cs)) := by
      rw [List.drop_drop, List.drop_drop, ← Nat.add_assoc, List.drop_succ_cons]
    rw [this, List.take_append_drop, List.take_append_drop]
  | case3 c cs _ => exact text_trim r _

theorem text_divide (r : LexRule) (cs : List Char) : textOf (r.divide cs) = cs := by
  unfold LexRule.divide
  split
  · simp
  · exact text_divideBy ..

theorem text_scanAfter (rules : List LexRule) (run cs : List Char) :
    textOf (scanAfter rules run cs) = run ++ cs := by
  fun_induction scanAfter rules run cs with
  | case1 => simp
  | case2 run c cs n r _ ih => simp [text_divide, ih]
  | case3 run c cs _ ih => simp [ih]

/-- The texts of the lexemes, one after the other, are the text. -/
theorem text_scan (rules : List LexRule) (cs : List Char) : textOf (scan rules cs) = cs :=
  text_scanAfter rules [] cs

end QueryLint
