import Mathlib.Data.List.Chain
import Mathlib.Data.List.DropRight
import QueryLint.Dialect.Ansi.Lexicon
import QueryLint.Proofs.Pattern.Leftmost
import QueryLint.Token.Lexeme

/-!
QueryLint.Proofs.Token.Divided — how a block comment is divided at line ends and trimmed.

Three loops take part. One goes from line end to line end, and for each piece in between another
looks for the last white space of the piece, from match to match. What comes of them is told by
the lexemes alone: a piece of comment has something at both ends, line ends stand by themselves,
and where two lexemes meet there is white space on one side at most. So the white space between two
pieces is all in one lexeme.

* `TokenRule.Reads` — a rule whose matches the text ahead tells.
* `TokenRule.tailStart_eq` — where the white space starts that a text ends in.
* `AreParts` — lexemes of a division, and `DividesCleanly`, what is promised of them.
* `LexRule.DividesAtLines.areParts_divideBy` — what dividing and trimming come to.
* `Ansi.blockComment_dividesCleanly` — block comments are divided cleanly.
-/

namespace QueryLint

open Text

/-! ## 1. Rules that the text ahead decides -/

/-- What a rule takes at a place depends on the text ahead only, and a search finds the first
place where it takes something. -/
structure TokenRule.Reads (r : TokenRule) (len : List Char → Option Nat) : Prop where
  here (cs : List Char) : r.matchLength? cs = len cs
  found {cs : List Char} {i n : Nat} (h : r.search? cs = some (i, n)) :
    len (cs.drop i) = some n ∧ ∀ j < i, len (cs.drop j) = none
  missed {cs : List Char} (h : r.search? cs = none) {j : Nat} (hj : j ≤ cs.length) :
    len (cs.drop j) = none

/-- A rule for a pattern whose preferred match the text ahead tells. -/
theorem Pattern.Takes.reads {p : Pattern} {len : List Char → Option Nat} (h : p.Takes len)
    (pos : ∀ cs n, len cs = some n → 0 < n) {r : TokenRule}
    (form : r.form = .pattern (seq (anchor .textStart) p) p) : r.Reads len where
  here cs := by
    simp only [TokenRule.matchLength?, form, h.find?_held]
    cases hlen : len cs with
    | none => rfl
    | some n => simp [Option.filter, pos cs n hlen]
  found {cs i n} found := by
    simp only [TokenRule.search?, form] at found
    obtain ⟨⟨start, stop⟩, hm, hin⟩ :=
      Option.map_eq_some_iff.1 (Option.filter_eq_some_iff.1 found).1
    obtain ⟨rfl, rfl⟩ : start = i ∧ stop - start = n := by simpa using hin
    exact h.findNonEmpty?_eq_some pos hm
  missed {cs} missed j hj := by
    refine h.findNonEmpty?_eq_none pos ?_ hj
    simp only [TokenRule.search?, form] at missed
    rw [Option.eq_none_iff_forall_ne_some]
    rintro ⟨start, stop⟩ hm
    obtain ⟨taken, -⟩ := h.findNonEmpty?_eq_some pos hm
    have := pos _ _ taken
    simp [hm, Option.filter, this] at missed

/-- A search that does not find anything that takes text finds nothing. -/
theorem TokenRule.search?_eq_none {r : TokenRule} {cs : List Char}
    (h : ∀ i n, r.search? cs = some (i, n + 1) → False) : r.search? cs = none := by
  cases hm : r.search? cs with
  | none => rfl
  | some m =>
    obtain ⟨i, _ | n⟩ := m
    · exact absurd (search?_pos hm) (Nat.lt_irrefl 0)
    · exact (h i n hm).elim

/-- What holds of the character ahead at each of the places before a cut holds of all before it. -/
theorem forall_mem_take {Q : Char → Prop} {cs : List Char} {i : Nat}
    (h : ∀ j < i, ∀ c ∈ (cs.drop j).head?, Q c) : ∀ c ∈ cs.take i, Q c := by
  intro c hc
  obtain ⟨j, hj, rfl⟩ := List.mem_take_iff_getElem.1 hc
  refine h j (by omega) _ ?_
  rw [List.head?_drop, List.getElem?_eq_getElem (by omega), Option.mem_some_iff]

namespace TokenRule.Reads

variable {r : TokenRule} {len : List Char → Option Nat} (h : r.Reads len) {Q : Char → Prop}
  (ahead : ∀ cs, len cs = none → ∀ c ∈ cs.head?, Q c)
include h ahead

/-- Before the first match there are only characters at which none starts. -/
theorem of_mem_take {cs : List Char} {i n : Nat} (hm : r.search? cs = some (i, n)) :
    ∀ c ∈ cs.take i, Q c :=
  forall_mem_take fun j hj => ahead _ ((h.found hm).2 j hj)

/-- In a text without a match there are only characters at which none starts. -/
theorem of_mem {cs : List Char} (hm : r.search? cs = none) : ∀ c ∈ cs, Q c := by
  rw [← cs.take_length]
  exact forall_mem_take fun j hj => ahead _ (h.missed hm (Nat.le_of_lt (by simpa using hj)))

end TokenRule.Reads

/-! ## 2. The white space that a text ends in -/

theorem rdropWhile_append_of_not {p : Char → Bool} {cs ds : List Char} (h : ¬∀ c ∈ ds, p c) :
    (cs ++ ds).rdropWhile p = cs ++ ds.rdropWhile p := by
  have kept : (ds.reverse.dropWhile p).isEmpty = false := by
    rw [Bool.eq_false_iff, ne_eq, List.isEmpty_iff, List.dropWhile_eq_nil_iff]
    simpa using h
  rw [List.rdropWhile, List.reverse_append, List.dropWhile_append, kept]
  simp [List.rdropWhile]

theorem rdropWhile_append_of_forall {p : Char → Bool} {cs ds : List Char} (h : ∀ c ∈ ds, p c) :
    (cs ++ ds).rdropWhile p = cs.rdropWhile p := by
  rw [List.rdropWhile, List.reverse_append,
    List.dropWhile_append_of_pos fun c hc => h c (List.mem_reverse.1 hc), List.rdropWhile]

theorem rdropWhile_eq_self_of_forall_not {p : Char → Bool} {cs : List Char}
    (h : ∀ c ∈ cs, p c = false) : cs.rdropWhile p = cs :=
  List.rdropWhile_eq_self_iff.2 fun ne => by simp [h _ (List.getLast_mem ne)]

section
variable {t : TokenRule} {p : Char → Bool} (ht : t.Reads (run? p))
include ht

/-- The loop over the matches of a text comes to the white space the text ends in: a match that
does not reach the end stands before a character that is none. -/
theorem TokenRule.tailStart_eq (cs : List Char) : t.tailStart cs = (cs.rdropWhile p).length := by
  have ahead : ∀ cs, run? p cs = none → ∀ c ∈ cs.head?, p c = false := fun _ => run?_eq_none.1
  fun_induction TokenRule.tailStart t cs with
  | case1 cs i n hm inside ih =>
    obtain ⟨run, -⟩ := run?_eq_some.1 (ht.found hm).1
    have rest : cs.drop (i + n + 1) = (cs.drop i).dropWhile p := by
      have parts := @List.takeWhile_append_dropWhile _ p (cs.drop i)
      rw [Nat.add_assoc, ← List.drop_drop, ← parts, List.drop_left' run, parts]
    have stops : ¬∀ c ∈ cs.drop (i + n + 1), p c := by
      intro all
      rw [rest] at all
      have nothing := List.dropWhile_eq_nil_iff.2 all
      rw [List.dropWhile_idempotent, ← rest, List.drop_eq_nil_iff] at nothing
      omega
    rw [ih]
    conv_rhs => rw [← List.take_append_drop (i + n + 1) cs, rdropWhile_append_of_not stops]
    rw [List.length_append, List.length_take, Nat.min_eq_left (Nat.le_of_lt inside)]
  | case2 cs i n hm outside =>
    obtain ⟨run, -⟩ := run?_eq_some.1 (ht.found hm).1
    have start := (List.takeWhile_prefix p : (cs.drop i).takeWhile p <+: cs.drop i)
    have whole := start.length_le
    rw [List.length_drop, run] at whole
    have all := List.takeWhile_eq_self_iff.1
      (start.eq_of_length (by rw [run, List.length_drop]; omega))
    conv_rhs => rw [← List.take_append_drop i cs, rdropWhile_append_of_forall all,
      rdropWhile_eq_self_of_forall_not (ht.of_mem_take ahead hm)]
    rw [List.length_take, Nat.min_eq_left (by omega)]
  | case3 cs none =>
    have missed := TokenRule.search?_eq_none none
    rw [rdropWhile_eq_self_of_forall_not (ht.of_mem ahead missed)]

end

/-! ## 3. Line ends -/

/-- How much a line end takes. -/
def lineBreak? : List Char → Option Nat
  | '\r' :: '\n' :: _ => some 2
  | '\n' :: _ => some 1
  | _ => none

/-- A carriage return with a line feed behind it, or else a line feed. -/
theorem lineBreak?_eq (cs : List Char) : lineBreak? cs =
    (after? (· == '\r') (after? (· == '\n') fun _ => some 0) cs).or
      (after? (· == '\n') (fun _ => some 0) cs) := by
  unfold lineBreak?
  split
  · rfl
  · rfl
  · next both feed =>
    cases cs with
    | nil => rfl
    | cons c cs =>
      have noFeed : c ≠ '\n' := fun hc => feed cs (hc ▸ rfl)
      cases cs with
      | nil => simp [after?, noFeed]
      | cons d cs =>
        by_cases hc : c = '\r'
        · have alone : d ≠ '\n' := fun hd => both cs (hc ▸ hd ▸ rfl)
          simp [after?, noFeed, alone]
        · simp [after?, noFeed, hc]

theorem lineBreak?_eq_some {cs : List Char} {n : Nat} (h : lineBreak? cs = some n) :
    cs.take n = ['\r', '\n'] ∨ cs.take n = ['\n'] := by
  unfold lineBreak? at h
  split at h <;> cases h <;> simp

theorem lineBreak?_pos (cs : List Char) (n : Nat) (h : lineBreak? cs = some n) : 0 < n := by
  unfold lineBreak? at h
  split at h <;> cases h <;> decide

/-- Where no line end starts there is no line feed. -/
theorem lineBreak?_eq_none {cs : List Char} (h : lineBreak? cs = none) :
    ∀ c ∈ cs.head?, c ≠ '\n' := by
  rintro c hc rfl
  cases cs with
  | nil => cases hc
  | cons d cs =>
    obtain rfl : d = '\n' := by simpa using hc
    simp [lineBreak?] at h

/-! ## 4. The lexemes of a division -/

/-- White space within a line. -/
def isLineBlank (c : Char) : Bool := isBlank c && c != '\r' && c != '\n'

/-- Text of a comment with something at both of its ends, all in one line. -/
structure IsTrimmed (cs : List Char) : Prop where
  ne_nil : cs ≠ []
  oneLine : '\n' ∉ cs
  head : ∀ c ∈ cs.head?, isLineBlank c = false
  last : ∀ c ∈ cs.getLast?, isLineBlank c = false

/-- A lexeme of a division, by its type. -/
inductive Lexeme.IsPart (l : Lexeme) : Prop where
  | comment (type : l.type = "comment") (text : IsTrimmed l.text)
  | blank (type : l.type = "whitespace") (ne_nil : l.text ≠ []) (all : ∀ c ∈ l.text, isLineBlank c)
  | lineEnd (type : l.type = "newline") (text : l.text = ['\r', '\n'] ∨ l.text = ['\n'])

namespace Lexeme.IsPart

variable {l : Lexeme}

theorem ne_nil (h : l.IsPart) : l.text ≠ [] := by
  cases h with
  | comment _ text => exact text.ne_nil
  | blank _ ne_nil _ => exact ne_nil
  | lineEnd _ text => rcases text with text | text <;> simp [text]

/-- Only white space has white space at an end. -/
theorem ends (h : l.IsPart) (htype : l.type ≠ "whitespace") :
    (∀ c ∈ l.text.head?, isLineBlank c = false) ∧ ∀ c ∈ l.text.getLast?, isLineBlank c = false := by
  cases h with
  | comment _ text => exact ⟨text.head, text.last⟩
  | blank type _ _ => exact absurd type htype
  | lineEnd _ text => rcases text with text | text <;> simp [text, isLineBlank]

end Lexeme.IsPart

/-- Two lexemes that may follow each other: white space is in one of them at most, and a line end is
not cut in two. -/
structure Lexeme.Parted (l m : Lexeme) : Prop where
  blanks : ¬(l.type = "whitespace" ∧ m.type = "whitespace")
  lineEnd : m.type = "newline" → m.text = ['\n'] → l.text.getLast? ≠ some '\r'

/-- Lexemes of a division, one after the other. -/
structure AreParts (ls : List Lexeme) : Prop where
  parts : ∀ l ∈ ls, l.IsPart
  parted : ls.IsChain Lexeme.Parted

/-- A comment may be next to white space. -/
theorem Lexeme.Parted.of_comment {l m : Lexeme} (h : l.type = "comment" ∨ m.type = "comment")
    (hm : m.type ≠ "newline") : l.Parted m where
  blanks blank := by
    rcases h with h | h
    · exact absurd (h.symm.trans blank.1) (by decide)
    · exact absurd (h.symm.trans blank.2) (by decide)
  lineEnd htype := absurd htype hm

theorem areParts_nil : AreParts [] := ⟨by simp, List.isChain_nil⟩

theorem areParts_singleton {l : Lexeme} (h : l.IsPart) : AreParts [l] :=
  ⟨by simpa using h, List.isChain_singleton l⟩

theorem AreParts.append {ls ms : List Lexeme} (h : AreParts ls) (h' : AreParts ms)
    (parted : ∀ l ∈ ls.getLast?, ∀ m ∈ ms.head?, l.Parted m) : AreParts (ls ++ ms) where
  parts := List.forall_mem_append.2 ⟨h.parts, h'.parts⟩
  parted := List.isChain_append.2 ⟨h.parted, h'.parted, parted⟩

/-- The text of parts ends as the last of them does. -/
theorem AreParts.getLast?_textOf {ls : List Lexeme} (h : AreParts ls) :
    (textOf ls).getLast? = ls.getLast?.bind (·.text.getLast?) := by
  rcases List.eq_nil_or_concat ls with rfl | ⟨front, l, rfl⟩
  · rfl
  · have ne_nil := (h.parts l (by simp)).ne_nil
    simp [List.getLast?_append, List.getLast?_eq_some_getLast ne_nil]

theorem AreParts.head?_textOf {ls : List Lexeme} (h : AreParts ls) :
    (textOf ls).head? = ls.head?.bind (·.text.head?) := by
  cases ls with
  | nil => rfl
  | cons l ls =>
    have ne_nil := (h.parts l (by simp)).ne_nil
    simp [List.head?_append, List.head?_eq_some_head ne_nil]

/-! ## 5. Trimming and dividing -/

/-- A rule for comments that are divided at line ends and trimmed of white space. -/
structure LexRule.DividesAtLines (r : LexRule) (t d : TokenRule) : Prop where
  type : r.token.type = "comment"
  trimmer : r.trimmer = some t
  trimmer_type : t.type = "whitespace"
  trims : t.Reads (run? isLineBlank)
  divider : r.divider = some d
  divider_type : d.type = "newline"
  divides : d.Reads lineBreak?

/-- A text that holds something, without the white space at both ends. -/
theorem isTrimmed_core {cs : List Char} (line : '\n' ∉ cs) (solid : ¬∀ c ∈ cs, isLineBlank c) :
    IsTrimmed ((cs.dropWhile isLineBlank).rdropWhile isLineBlank) := by
  have body : cs.dropWhile isLineBlank ≠ [] := by simpa using solid
  have first := List.head_dropWhile_not isLineBlank body
  have within := (List.dropWhile_sublist isLineBlank : (cs.dropWhile isLineBlank).Sublist cs)
  generalize cs.dropWhile isLineBlank = rest at body first within
  have start := List.rdropWhile_prefix isLineBlank rest
  have core : rest.rdropWhile isLineBlank ≠ [] := by
    intro nothing
    rw [List.rdropWhile_eq_nil_iff.1 nothing _ (List.head_mem body)] at first
    cases first
  constructor
  · exact core
  · intro mem
    exact line (within.subset (start.subset mem))
  · intro c hc
    rw [List.head?_eq_some_head core, Option.mem_some_iff, start.head core] at hc
    rw [← hc, first]
  · intro c hc
    rw [List.getLast?_eq_some_getLast core, Option.mem_some_iff] at hc
    rw [← hc]
    simpa using List.rdropWhile_last_not isLineBlank rest core

/-- The lexeme of what is trimmed off, if there is anything. -/
def TokenRule.trimmed (t : TokenRule) (cs : List Char) : List Lexeme :=
  if cs = [] then [] else [t.lexeme cs]

theorem TokenRule.type_of_mem_trimmed {t : TokenRule} {cs : List Char} {l : Lexeme}
    (hl : l ∈ t.trimmed cs) : l.type = t.type := by
  unfold trimmed at hl
  split at hl
  · cases hl
  · rw [List.mem_singleton.1 hl]
    rfl

namespace LexRule.DividesAtLines

variable {r : LexRule} {t d : TokenRule} (h : r.DividesAtLines t d)
include h

/-- What is trimmed off, on both sides of what is left. -/
theorem trim_eq {cs : List Char} (solid : ¬∀ c ∈ cs, isLineBlank c) :
    r.trim cs =
      t.trimmed (cs.takeWhile isLineBlank) ++
      r.token.lexeme ((cs.dropWhile isLineBlank).rdropWhile isLineBlank) ::
      t.trimmed ((cs.dropWhile isLineBlank).rtakeWhile isLineBlank) := by
  have front := @List.takeWhile_append_dropWhile _ isLineBlank cs
  have lead : ¬(cs.takeWhile isLineBlank).length = cs.length := by
    intro whole
    exact solid (List.takeWhile_eq_self_iff.1 ((List.takeWhile_prefix _).eq_of_length whole))
  have take : cs.take (cs.takeWhile isLineBlank).length = cs.takeWhile isLineBlank := by
    conv_lhs => arg 2; rw [← front]
    exact List.take_left' rfl
  have drop : cs.drop (cs.takeWhile isLineBlank).length = cs.dropWhile isLineBlank := by
    conv_lhs => arg 2; rw [← front]
    exact List.drop_left' rfl
  unfold trim TokenRule.trimmed
  simp only [h.trimmer, h.trims.here, getD_run?, TokenRule.tailStart_eq h.trims, if_neg lead, take,
    drop, List.length_eq_zero_iff]
  generalize cs.dropWhile isLineBlank = body
  have back := @List.rdropWhile_append_rtakeWhile _ isLineBlank body
  have take : body.take (body.rdropWhile isLineBlank).length = body.rdropWhile isLineBlank := by
    conv_lhs => arg 2; rw [← back]
    exact List.take_left' rfl
  have drop : body.drop (body.rdropWhile isLineBlank).length = body.rtakeWhile isLineBlank := by
    conv_lhs => arg 2; rw [← back]
    exact List.drop_left' rfl
  have shorter : (body.rdropWhile isLineBlank).length < body.length ↔
      ¬body.rtakeWhile isLineBlank = [] := by
    rw [← List.length_eq_zero_iff]
    have := congrArg List.length back
    rw [List.length_append] at this
    omega
  simp only [take, drop, shorter, ite_not]

/-- White space that is trimmed off, if there is any. -/
theorem areParts_blank {cs : List Char} (all : ∀ c ∈ cs, isLineBlank c) :
    AreParts (t.trimmed cs) := by
  unfold TokenRule.trimmed
  split
  · exact areParts_nil
  · next ne_nil => exact areParts_singleton (.blank h.trimmer_type ne_nil all)

/-- A piece of one line comes to white space, or to a comment with white space around it. -/
theorem areParts_trim {cs : List Char} (hcs : cs ≠ []) (line : '\n' ∉ cs) :
    AreParts (r.trim cs) := by
  by_cases solid : ∀ c ∈ cs, isLineBlank c
  · have lead := congrArg List.length (List.takeWhile_eq_self_iff.2 solid)
    have whole : r.trim cs = t.trimmed cs := by
      simp [trim, TokenRule.trimmed, h.trimmer, h.trims.here, getD_run?, lead, hcs]
    rw [whole]
    exact h.areParts_blank solid
  · have front := h.areParts_blank fun c (hc : c ∈ cs.takeWhile isLineBlank) =>
      List.mem_takeWhile_imp hc
    have core : AreParts
        [r.token.lexeme ((cs.dropWhile isLineBlank).rdropWhile isLineBlank)] :=
      areParts_singleton (.comment h.type (isTrimmed_core line solid))
    have back := h.areParts_blank fun c
      (hc : c ∈ (cs.dropWhile isLineBlank).rtakeWhile isLineBlank) => List.mem_rtakeWhile_imp hc
    rw [h.trim_eq solid]
    refine front.append (core.append back ?_) ?_
    · intro l hl m hm
      have blank : m.type = "whitespace" :=
        (TokenRule.type_of_mem_trimmed (List.mem_of_head? hm)).trans h.trimmer_type
      obtain rfl := Option.some.inj hl
      exact .of_comment (.inl h.type) (by simp [blank])
    · intro l _ m hm
      obtain rfl := Option.some.inj hm
      refine .of_comment (.inr h.type) fun newline => ?_
      exact absurd (h.type.symm.trans newline) (by decide)

/-- A line feed behind a carriage return is not a line end of its own: the search would have
stopped at the carriage return. -/
theorem getLast?_take_ne {cs : List Char} {i n : Nat} (hm : d.search? cs = some (i, n))
    (feed : (cs.drop i).take n = ['\n']) : (cs.take i).getLast? ≠ some '\r' := by
  intro hreturn
  cases i with
  | zero => simp at hreturn
  | succ i =>
    have inside : i < cs.length := by
      by_contra outside
      rw [List.drop_of_length_le (by omega)] at feed
      simp at feed
    have last : cs[i] = '\r' := by
      rw [List.take_succ_eq_append_getElem inside, List.getLast?_concat] at hreturn
      exact Option.some.inj hreturn
    have earlier := (h.divides.found hm).2 i (Nat.lt_succ_self i)
    rw [List.drop_eq_getElem_cons inside, last] at earlier
    cases hdrop : cs.drop (i + 1) with
    | nil => simp [hdrop] at feed
    | cons c rest =>
      obtain rfl : c = '\n' := by
        rw [hdrop] at feed
        cases n with
        | zero => simp at feed
        | succ n => simpa using congrArg List.head? feed
      rw [hdrop] at earlier
      cases earlier

/-- The lexemes of a text: those of the pieces, with line ends in between. -/
theorem areParts_divideBy (cs : List Char) : AreParts (r.divideBy d cs) := by
  have ahead : ∀ cs, lineBreak? cs = none → ∀ c ∈ cs.head?, c ≠ '\n' :=
    fun _ => lineBreak?_eq_none
  fun_induction LexRule.divideBy r d cs with
  | case1 => exact areParts_nil
  | case2 c cs i n hm ih =>
    have piece : AreParts (if i = 0 then [] else r.trim ((c :: cs).take i)) := by
      split
      · exact areParts_nil
      · next hi =>
        refine h.areParts_trim (by simpa using hi) fun mem => ?_
        exact h.divides.of_mem_take ahead hm _ mem rfl
    have text : textOf (if i = 0 then [] else r.trim ((c :: cs).take i)) = (c :: cs).take i := by
      split
      · next hi => simp [hi]
      · exact text_trim r _
    have lineEnd := lineBreak?_eq_some (h.divides.found hm).1
    have newline : AreParts [d.lexeme (((c :: cs).drop i).take (n + 1))] :=
      areParts_singleton (.lineEnd h.divider_type lineEnd)
    refine piece.append (newline.append ih ?_) ?_
    · intro l hl m _
      obtain rfl := Option.some.inj hl
      constructor
      · intro blank
        exact absurd (h.divider_type.symm.trans blank.1) (by decide)
      · intro _ _
        rcases lineEnd with lineEnd | lineEnd <;> simp [lineEnd]
    · intro l hl m hm'
      obtain rfl := Option.some.inj hm'
      constructor
      · intro blank
        exact absurd (h.divider_type.symm.trans blank.2) (by decide)
      · intro _ feed
        have last := piece.getLast?_textOf
        rw [text, hl, Option.bind_some] at last
        rw [← last]
        exact h.getLast?_take_ne hm feed
  | case3 c cs none =>
    have missed := TokenRule.search?_eq_none none
    exact h.areParts_trim (List.cons_ne_nil c cs) fun mem => h.divides.of_mem ahead missed _ mem rfl

end LexRule.DividesAtLines

/-! ## 6. What is promised of a division -/

/-- The lexemes that a text is divided into. -/
structure DividesCleanly (cs : List Char) (ls : List Lexeme) : Prop where
  /-- Their texts, one after the other, are the text. -/
  tiles : textOf ls = cs
  types : ∀ l ∈ ls, l.type = "comment" ∨ l.type = "whitespace" ∨ l.type = "newline"
  comment : ∀ l ∈ ls, l.type = "comment" → IsTrimmed l.text
  /-- White space is a whole run of it. -/
  blank : ∀ before l after, ls = before ++ l :: after → l.type = "whitespace" →
    l.text ≠ [] ∧ (∀ c ∈ l.text, isLineBlank c) ∧
      (∀ c ∈ (textOf before).getLast?, isLineBlank c = false) ∧
      ∀ c ∈ (textOf after).head?, isLineBlank c = false
  /-- A line end is one as a whole. -/
  lineEnd : ∀ before l after, ls = before ++ l :: after → l.type = "newline" →
    l.text = ['\r', '\n'] ∨ l.text = ['\n'] ∧ (textOf before).getLast? ≠ some '\r'
  apart : ∀ before l m after, ls = before ++ l :: m :: after →
    ¬(l.type = "whitespace" ∧ m.type = "whitespace")

namespace AreParts

/-- Parts cut at one of them. -/
theorem cut {before after : List Lexeme} {l : Lexeme} (h : AreParts (before ++ l :: after)) :
    AreParts before ∧ l.IsPart ∧ AreParts after ∧
      (∀ m ∈ before.getLast?, m.Parted l) ∧ ∀ m ∈ after.head?, l.Parted m := by
  obtain ⟨front, rest⟩ := List.forall_mem_append.1 h.parts
  obtain ⟨own, back⟩ := List.forall_mem_cons.1 rest
  obtain ⟨frontParted, restParted, seam⟩ := List.isChain_append.1 h.parted
  obtain ⟨next, backParted⟩ := List.isChain_cons.1 restParted
  exact ⟨⟨front, frontParted⟩, own, ⟨back, backParted⟩, fun m hm => seam m hm l rfl, next⟩

/-- Parts divide their text cleanly: what stands next to white space has something there. -/
theorem dividesCleanly {ls : List Lexeme} (h : AreParts ls) : DividesCleanly (textOf ls) ls where
  tiles := rfl
  types l hl := by
    cases h.parts l hl with
    | comment type _ => exact .inl type
    | blank type _ _ => exact .inr (.inl type)
    | lineEnd type _ => exact .inr (.inr type)
  comment l hl htype := by
    cases h.parts l hl with
    | comment _ text => exact text
    | blank type _ _ => exact absurd (htype.symm.trans type) (by decide)
    | lineEnd type _ => exact absurd (htype.symm.trans type) (by decide)
  blank before l after split htype := by
    subst split
    obtain ⟨front, own, back, last, next⟩ := h.cut
    have text : l.text ≠ [] ∧ ∀ c ∈ l.text, isLineBlank c := by
      cases own with
      | comment type _ => exact absurd (htype.symm.trans type) (by decide)
      | blank _ ne_nil all => exact ⟨ne_nil, all⟩
      | lineEnd type _ => exact absurd (htype.symm.trans type) (by decide)
    refine ⟨text.1, text.2, fun c hc => ?_, fun c hc => ?_⟩
    · rw [front.getLast?_textOf] at hc
      obtain ⟨m, hm, hc⟩ := Option.bind_eq_some_iff.1 hc
      have solid : m.type ≠ "whitespace" := fun hblank => (last m hm).blanks ⟨hblank, htype⟩
      exact ((front.parts m (List.mem_of_getLast? hm)).ends solid).2 c hc
    · rw [back.head?_textOf] at hc
      obtain ⟨m, hm, hc⟩ := Option.bind_eq_some_iff.1 hc
      have solid : m.type ≠ "whitespace" := fun hblank => (next m hm).blanks ⟨htype, hblank⟩
      exact ((back.parts m (List.mem_of_head? hm)).ends solid).1 c hc
  lineEnd before l after split htype := by
    subst split
    obtain ⟨front, own, -, last, -⟩ := h.cut
    have text : l.text = ['\r', '\n'] ∨ l.text = ['\n'] := by
      cases own with
      | comment type _ => exact absurd (htype.symm.trans type) (by decide)
      | blank type _ _ => exact absurd (htype.symm.trans type) (by decide)
      | lineEnd _ text => exact text
    refine text.imp_right fun feed => ⟨feed, ?_⟩
    rw [front.getLast?_textOf]
    intro hreturn
    obtain ⟨m, hm, hc⟩ := Option.bind_eq_some_iff.1 hreturn
    exact (last m hm).lineEnd htype feed hc
  apart before l m after split := by
    subst split
    obtain ⟨-, -, -, -, next⟩ := h.cut
    exact (next m rfl).blanks

end AreParts

/-- A rule that divides at line ends and trims divides every text cleanly. -/
theorem LexRule.DividesAtLines.dividesCleanly {r : LexRule} {t d : TokenRule}
    (h : r.DividesAtLines t d) (cs : List Char) : DividesCleanly cs (r.divide cs) := by
  have parts := (h.areParts_divideBy cs).dividesCleanly
  rw [text_divideBy] at parts
  rwa [LexRule.divide, h.divider]

/-! ## 7. Block comments -/

namespace Ansi

open Pattern

/-- The set of white space within a line, as its pattern names it. -/
def lineBlanks : CharSet :=
  .compl (.union (.union (.union (.ranges []) (.compl (.named .blank))) (.ranges [(13, 13)]))
    (.ranges [(10, 10)]))

/-- A line end, as its pattern names it. -/
def lineEnd : Pattern :=
  .alt (.seq (.set (.ranges [(13, 13)])) (.set (.ranges [(10, 10)]))) (.set (.ranges [(10, 10)]))

theorem blankRule_eq : blankRule = .ok ⟨"whitespace",
    .pattern (seq (anchor .textStart) (plus true (set lineBlanks))) (plus true (set lineBlanks)),
    "whitespace", .ofBlank⟩ := rfl

theorem newlineRule_eq : newlineRule = .ok ⟨"newline",
    .pattern (seq (anchor .textStart) lineEnd) lineEnd, "newline", .ofBlank⟩ := rfl

theorem contains_ranges_singleton (c d : Char) :
    (CharSet.ranges [(d.toNat, d.toNat)]).contains c = (c == d) := by
  have same : d.toNat ≤ c.toNat ∧ c.toNat ≤ d.toNat ↔ c = d := by
    rw [← Char.toNat_inj]
    omega
  rw [Bool.eq_iff_iff, beq_iff_eq, ← same]
  simp [CharSet.contains, inRanges]

theorem contains_lineBlanks : lineBlanks.contains = isLineBlank := by
  funext c
  have creturn := contains_ranges_singleton c '\r'
  have feed := contains_ranges_singleton c '\n'
  simp only [Char.reduceToNat] at creturn feed
  have nothing : (CharSet.ranges []).contains c = false := rfl
  have blank : (CharSet.named .blank).contains c = isBlank c := rfl
  simp only [lineBlanks, isLineBlank, CharSet.contains.eq_7, CharSet.contains.eq_3, creturn, feed,
    nothing, blank, bne]
  cases isBlank c <;> cases c == '\r' <;> cases c == '\n' <;> rfl

theorem takes_lineEnd : lineEnd.Takes lineBreak? := by
  have creturn : (CharSet.ranges [(13, 13)]).contains = (· == '\r') :=
    funext (contains_ranges_singleton · '\r')
  have feed : (CharSet.ranges [(10, 10)]).contains = (· == '\n') :=
    funext (contains_ranges_singleton · '\n')
  have takes := ((takes_set (.ranges [(10, 10)])).behind (.ranges [(13, 13)])).alt
    (takes_set (.ranges [(10, 10)]))
  rw [creturn, feed] at takes
  rwa [← funext lineBreak?_eq] at takes

/-- The rule for white space takes the run of it that is ahead. -/
theorem reads_blankRule {t : TokenRule} (h : blankRule = .ok t) :
    t.type = "whitespace" ∧ t.Reads (run? isLineBlank) := by
  obtain rfl := Except.ok.inj (blankRule_eq.symm.trans h)
  refine ⟨rfl, ?_⟩
  rw [← contains_lineBlanks]
  exact (takes_run lineBlanks).reads (fun _ _ hrun => (run?_eq_some.1 hrun).2) rfl

/-- The rule for line ends takes the one that is ahead. -/
theorem reads_newlineRule {d : TokenRule} (h : newlineRule = .ok d) :
    d.type = "newline" ∧ d.Reads lineBreak? := by
  obtain rfl := Except.ok.inj (newlineRule_eq.symm.trans h)
  exact ⟨rfl, takes_lineEnd.reads lineBreak?_pos rfl⟩

/-- The rule for block comments divides them at line ends and trims them of white space. What it
takes ends with a slash. -/
theorem exists_blockCommentRule :
    ∃ r t d p free, blockCommentRule = .ok r ∧ r.DividesAtLines t d ∧
      r.token.form = .pattern (seq (anchor .textStart) (seq p (set (.ranges [(47, 47)])))) free := by
  obtain ⟨c, p, free, hc, htype, hform⟩ : ∃ c p free, TokenRule.ofPattern "block_comment"
      r"/\*(?s:.)*?\*/" "comment" .ofComment = .ok c ∧ c.type = "comment" ∧
        c.form = .pattern (seq (anchor .textStart) (seq p (set (.ranges [(47, 47)])))) free :=
    ⟨_, _, _, rfl, rfl, rfl⟩
  obtain ⟨d, hd⟩ : ∃ d, newlineRule = .ok d := ⟨_, newlineRule_eq⟩
  obtain ⟨t, ht⟩ : ∃ t, blankRule = .ok t := ⟨_, blankRule_eq⟩
  obtain ⟨divider_type, divides⟩ := reads_newlineRule hd
  obtain ⟨trimmer_type, trims⟩ := reads_blankRule ht
  have rule : LexRule.DividesAtLines ⟨c, some d, some t⟩ t d :=
    ⟨htype, rfl, trimmer_type, trims, rfl, divider_type, divides⟩
  exact ⟨⟨c, some d, some t⟩, t, d, p, free, by rw [blockCommentRule, hc, hd, ht]; rfl, rule, hform⟩

/-- The rule for block comments divides every text cleanly, so also those that it takes: into
pieces of comment in one line each, runs of white space, and line ends. -/
theorem blockComment_dividesCleanly :
    ∃ r, blockCommentRule = .ok r ∧ ∀ cs, DividesCleanly cs (r.divide cs) := by
  obtain ⟨r, t, d, p, free, hr, rule, -⟩ := exists_blockCommentRule
  exact ⟨r, hr, rule.dividesCleanly⟩

/-- A comment with an empty line in it, and a line of white space. -/
example : ((blockCommentRule.toOption.map (·.divide "/* a \n\r\n  \n */".toList)).getD []).map
    (fun l => (l.type, String.ofList l.text)) =
      [("comment", "/* a"), ("whitespace", " "), ("newline", "\n"), ("newline", "\r\n"),
        ("whitespace", "  "), ("newline", "\n"), ("whitespace", " "), ("comment", "*/")] := by
  decide +kernel

end Ansi

end QueryLint
