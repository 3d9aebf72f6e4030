import Mathlib.Data.List.TakeWhile
import QueryLint.Lint.Noqa
import QueryLint.Proofs.Place

/-!
QueryLint.Proofs.Lint.Directives — what the directives of a file silence.

The mask reads the comments of a file from the first to the last, sorts the directives by their
lines and goes through them as far as the line of a violation. Here the same is told without the
sorting and without the reader: how a directive is written is said of its text alone, a notice is
what a comment says at its place in the file, and which of two notices comes later is told by their
lines and, within a line, by their places.

* `Directive.Strips`, `Directive.Peels`, `Directive.Lists`, `Directive.Reads` — how a directive is
  written.
* `Notice`, `Segment.Notes` — what a comment of a tree asks for, and where it stands.
* `Directive.parse_iff` — comments that are read as directives.
* `Notice.pairwise_mergeSort` — sorting by lines keeps the order within a line.
* `IgnoreMask.silences_iff` — what directives decide that come by line.
* `IgnoreMask.masks_ofTree_iff` — which violations are silenced.
-/

namespace QueryLint

/-! ## 1. How a directive is written -/

namespace Directive

/-- A text is another one with blanks around it; that one neither begins nor ends with a blank. -/
structure Strips (cs inner : List Char) : Prop where
  around : ∃ front back, cs = front ++ inner ++ back ∧ ∀ c ∈ front ++ back, Text.isBlank c = true
  first : ∀ c ∈ inner.head?, Text.isBlank c = false
  last : ∀ c ∈ inner.getLast?, Text.isBlank c = false

/-- That is seen of the blanks, and of the ends of the text. -/
theorem Strips.of_check {cs inner : List Char} (front back : List Char)
    (hcs : cs = front ++ inner ++ back)
    (h : ((front ++ back).all Text.isBlank && inner.head?.all (!Text.isBlank ·) &&
      inner.getLast?.all (!Text.isBlank ·)) = true) : Strips cs inner := by
  rw [Bool.and_eq_true, Bool.and_eq_true, List.all_eq_true, Option.all_eq_true,
    Option.all_eq_true] at h
  obtain ⟨⟨blank, first⟩, last⟩ := h
  exact ⟨⟨front, back, hcs, blank⟩, fun c hc => by simpa using first c hc,
    fun c hc => by simpa using last c hc⟩

/-- A text is some copies of a part and then a rest, which does not begin with that part. -/
def Peels (part cs rest : List Char) : Prop :=
  (∃ k, cs = (List.replicate k part).flatten ++ rest) ∧ ¬ part <+: rest

/-- A text is a rest, which does not end with some part, and then some copies of that part. -/
def PeelsEnd (part cs rest : List Char) : Prop :=
  (∃ k, cs = rest ++ (List.replicate k part).flatten) ∧ ¬ part <:+ rest

/-- A comment says something: blanks, dashes, number signs and the signs of a block comment stand
around it, in this order. -/
def Bares (comment : String) (said : List Char) : Prop :=
  ∃ inner noDashes noSigns noOpening noClosing, Strips comment.toList inner ∧
    Peels "--".toList inner noDashes ∧ Peels "#".toList noDashes noSigns ∧
    Peels "/*".toList noSigns noOpening ∧ PeelsEnd "*/".toList noOpening noClosing ∧
    Strips noClosing said

/-- Pieces of a list name codes: one of blanks names none, and any other one names what stands
between the blanks around it, in upper case. -/
inductive Names : List (List Char) → List String → Prop where
  | nil : Names [] []
  | blank {piece : List Char} {pieces : List (List Char)} {codes : List String}
      (empty : Strips piece []) (rest : Names pieces codes) : Names (piece :: pieces) codes
  | code {piece word : List Char} {pieces : List (List Char)} {codes : List String}
      (said : Strips piece word) (nonempty : word ≠ []) (rest : Names pieces codes) :
      Names (piece :: pieces) (Text.upper (String.ofList word) :: codes)

/-- A text lists codes: there are commas between the pieces that name them, and in none of these. -/
def Lists (text : List Char) (codes : List String) : Prop :=
  ∃ first rest, text = first ++ rest.flatMap (',' :: ·) ∧ (∀ piece ∈ first :: rest, ',' ∉ piece) ∧
    Names (first :: rest) codes

/-- What stands behind the word `noqa`, without blanks at either end, asks for a scope and lists
codes: nothing, codes behind a colon, or codes behind a word for a range and an equals sign. -/
inductive Reads : List Char → DirectiveScope → List String → Prop where
  | bare : Reads [] .line []
  | here {text : List Char} {listed : List String} (noSign : '=' ∉ text)
      (lists : Lists text listed) (some_code : listed ≠ []) : Reads (':' :: text) .line listed
  | disable {word text : List Char} {listed : List String} (noSign : '=' ∉ word)
      (said : Strips word "disable".toList) (lists : Lists text listed) (some_code : listed ≠ []) :
      Reads (':' :: (word ++ '=' :: text)) .disable listed
  | enable {word text : List Char} {listed : List String} (noSign : '=' ∉ word)
      (said : Strips word "enable".toList) (lists : Lists text listed) (some_code : listed ≠ []) :
      Reads (':' :: (word ++ '=' :: text)) .enable listed

end Directive

/-! ## 2. Notices -/

/-- What a comment asks for. -/
structure Notice where
  /-- The place of the comment among the leaves of its tree. -/
  index : Nat
  line : Nat
  scope : DirectiveScope
  /-- The codes it lists, in upper case; none if it has no list. -/
  listed : List String
  deriving DecidableEq, Repr

namespace Notice

/-- It is about a code: it lists the code, or no codes, or all. -/
def Covers (n : Notice) (code : String) : Prop :=
  code ∈ n.listed ∨ n.listed = [] ∨ "ALL" ∈ n.listed

/-- It is about the line of a violation alone, and about its code. -/
def MeetsInLine (n : Notice) (v : Violation) : Prop :=
  n.scope = .line ∧ n.line = v.place.line ∧ n.Covers v.code

/-- It is about a range that the line of a violation may be in, and about its code. -/
def MeetsInRange (n : Notice) (v : Violation) : Prop :=
  n.scope ≠ .line ∧ n.line ≤ v.place.line ∧ n.Covers v.code

/-- It comes before another one: in an earlier line, or earlier in its line. -/
def Before (n m : Notice) : Prop := n.line < m.line ∨ n.line = m.line ∧ n.index < m.index

/-- The directive with what the notice asks for. -/
def directive (n : Notice) : Directive :=
  { line := n.line
    codes := if n.listed = [] ∨ "ALL" ∈ n.listed then none else some n.listed
    scope := n.scope }

@[simp] theorem directive_line (n : Notice) : n.directive.line = n.line := rfl

@[simp] theorem directive_scope (n : Notice) : n.directive.scope = n.scope := rfl

@[simp] theorem directive_covers (n : Notice) (code : String) :
    n.directive.covers code = true ↔ n.Covers code := by
  by_cases hall : n.listed = [] ∨ "ALL" ∈ n.listed
  · simp [directive, Directive.covers, Covers, hall]
  · simp [directive, Directive.covers, Covers, hall]

end Notice

/-- The line of a leaf; the first one if it has no position. -/
def Segment.lineOf (s : Segment) : Nat := (s.position.map (·.place.line)).getD 1

/-- A leaf says what a notice asks for: it is a comment in the line of the notice that starts with
`noqa` and goes on like a directive. -/
def Segment.Says (s : Segment) (n : Notice) : Prop :=
  s.isComment = true ∧ n.line = s.lineOf ∧
    ∃ rest told, Directive.Bares s.raw ("noqa".toList ++ rest) ∧ Directive.Strips rest told ∧
      Directive.Reads told n.scope n.listed

/-- A notice is on a tree: a leaf at its place says it. -/
def Segment.Notes (tree : Segment) (n : Notice) : Prop :=
  ∃ leaf, tree.leaves[n.index]? = some leaf ∧ leaf.Says n

/-! ## 3. What the reader takes a comment for -/

namespace Directive

theorem startsWith_iff {part cs : List Char} : Text.startsWith part cs = true ↔ part <+: cs := by
  induction part generalizing cs with
  | nil => simp [Text.startsWith]
  | cons p part ih =>
    cases cs with
    | nil => simp [Text.startsWith]
    | cons c cs => simp [Text.startsWith, ih, List.cons_prefix_cons]

theorem after?_eq_some_iff {part cs rest : List Char} :
    after? part cs = some rest ↔ cs = part ++ rest := by
  unfold after?
  split
  · next h =>
    obtain ⟨rest', rfl⟩ := startsWith_iff.1 h
    simp [eq_comm]
  · next h =>
    rw [startsWith_iff] at h
    simp only [false_iff, reduceCtorEq]
    rintro rfl
    exact h (List.prefix_append part rest)

/-- What is dropped are the characters of a class at the start. -/
theorem dropWhile_eq_iff {p : Char → Bool} {cs rest : List Char} :
    cs.dropWhile p = rest ↔
      (∃ front, cs = front ++ rest ∧ ∀ c ∈ front, p c = true) ∧ ∀ c ∈ rest.head?, p c = false := by
  constructor
  · rintro rfl
    refine ⟨⟨cs.takeWhile p, List.takeWhile_append_dropWhile.symm,
      fun c hc => List.mem_takeWhile_imp hc⟩, ?_⟩
    intro c hc
    have head := List.head?_dropWhile_not p cs
    rw [Option.mem_def.1 hc] at head
    simpa using head
  · rintro ⟨⟨front, rfl, dropped⟩, head⟩
    rw [List.dropWhile_append_of_pos dropped]
    cases rest with
    | nil => rfl
    | cons c rest => rw [List.dropWhile_cons_of_neg (by simp [head c rfl])]

/-- What is trimmed off are the blanks around a text. -/
theorem trimmed_eq_iff {cs inner : List Char} : trimmed cs = inner ↔ Strips cs inner := by
  rw [trimmed, Text.trimEnd, Text.trimStart, List.reverse_eq_iff, dropWhile_eq_iff]
  simp only [List.head?_reverse]
  constructor
  · rintro ⟨⟨back, hback, blank⟩, last⟩
    generalize hrest : cs.dropWhile Text.isBlank = rest at hback
    obtain ⟨⟨front, rfl, blank'⟩, first⟩ := dropWhile_eq_iff.1 hrest
    obtain rfl : rest = inner ++ back.reverse := by
      simpa using congrArg List.reverse hback
    refine ⟨⟨front, back.reverse, by simp, ?_⟩, ?_, last⟩
    · intro c hc
      rcases List.mem_append.1 hc with hc | hc
      · exact blank' c hc
      · exact blank c (List.mem_reverse.1 hc)
    · intro c hc
      exact first c (by simp [Option.mem_def.1 hc])
  · rintro ⟨⟨front, back, rfl, blank⟩, first, last⟩
    have inFront : ∀ c ∈ front, Text.isBlank c = true :=
      fun c hc => blank c (List.mem_append_left back hc)
    have inBack : ∀ c ∈ back, Text.isBlank c = true :=
      fun c hc => blank c (List.mem_append_right front hc)
    rw [List.append_assoc, List.dropWhile_append_of_pos inFront]
    cases inner with
    | nil => exact ⟨⟨[], by simpa using inBack, by simp⟩, last⟩
    | cons c inner =>
      rw [List.cons_append, List.dropWhile_cons_of_neg (by simp [first c rfl])]
      exact ⟨⟨back.reverse, by simp, by simpa using inBack⟩, last⟩

/-- Copies of a part that are dropped stand before the rest. -/
theorem dropCopies_eq_iff {part cs rest : List Char} (hpart : part ≠ []) :
    Text.dropCopies part cs = rest ↔ Peels part cs rest := by
  constructor
  · rintro rfl
    fun_induction Text.dropCopies part cs with
    | case1 cs h ih =>
      obtain ⟨⟨k, hk⟩, stops⟩ := ih
      obtain ⟨cs', rfl⟩ := startsWith_iff.1 h.2.2
      refine ⟨⟨k + 1, ?_⟩, stops⟩
      rw [List.drop_left] at hk ⊢
      rw [List.replicate_succ, List.flatten_cons, List.append_assoc, ← hk]
    | case2 cs h =>
      refine ⟨⟨0, rfl⟩, ?_⟩
      rintro ⟨cs', rfl⟩
      have hlength := List.length_pos_iff.2 hpart
      exact h ⟨hlength, by simp; omega, startsWith_iff.2 (List.prefix_append part cs')⟩
  · rintro ⟨⟨k, rfl⟩, stops⟩
    induction k with
    | zero =>
      rw [Text.dropCopies, dif_neg fun h => stops (startsWith_iff.1 h.2.2)]
      rfl
    | succ k ih =>
      have hlength := List.length_pos_iff.2 hpart
      rw [Text.dropCopies, List.replicate_succ, List.flatten_cons, List.append_assoc,
        dif_pos ⟨hlength, by simp; omega, startsWith_iff.2 (List.prefix_append part _)⟩,
        List.drop_left, ih]

/-- Copies of a part at the end are copies at the start of the text from its end. -/
theorem peelsEnd_iff {part cs rest : List Char} :
    PeelsEnd part cs rest ↔ Peels part.reverse cs.reverse rest.reverse := by
  have turned (k : Nat) : cs.reverse = (List.replicate k part.reverse).flatten ++ rest.reverse ↔
      cs = rest ++ (List.replicate k part).flatten := by
    rw [← @List.reverse_inj _ cs, List.reverse_append, List.reverse_flatten,
      List.map_replicate, List.reverse_replicate]
  simp only [Peels, PeelsEnd, turned, List.reverse_prefix]

/-- What a comment says stands between the signs that make it a comment. -/
theorem body_eq_iff {comment : String} {said : List Char} :
    body comment = said ↔ Bares comment said := by
  have ended (cs rest : List Char) : (Text.dropCopies "/*".toList cs.reverse).reverse = rest ↔
      PeelsEnd "*/".toList cs rest := by
    rw [List.reverse_eq_iff, dropCopies_eq_iff (by decide), peelsEnd_iff]
    rfl
  have peeled {part : List Char} (hpart : part ≠ []) (cs rest : List Char) :
      Peels part cs rest ↔ Text.dropCopies part cs = rest := (dropCopies_eq_iff hpart).symm
  have dashes : "--".toList ≠ [] := by decide
  have sign : "#".toList ≠ [] := by decide
  have opening : "/*".toList ≠ [] := by decide
  simp only [Bares, ← trimmed_eq_iff, ← ended, peeled dashes, peeled sign, peeled opening,
    exists_and_left, exists_eq_left']
  rfl

/-- A text is split at its commas. -/
theorem splitOn_eq_iff {text first : List Char} {rest : List (List Char)} :
    Text.splitOn (· == ',') text = first :: rest ↔
      text = first ++ rest.flatMap (',' :: ·) ∧ ∀ piece ∈ first :: rest, ',' ∉ piece := by
  induction text generalizing first rest with
  | nil =>
    cases rest with
    | nil => simp +contextual [Text.splitOn, eq_comm]
    | cons => simp [Text.splitOn]
  | cons c text ih =>
    rw [Text.splitOn]
    by_cases hc : c = ','
    · subst hc
      cases rest with
      | nil =>
        have more := Text.splitOn_ne_nil (· == ',') text
        have comma (h : ',' :: text = first) : ',' ∈ first := h ▸ List.mem_cons_self
        simpa [more] using comma
      | cons second rest =>
        cases first with
        | nil => simp [ih]
        | cons a first => simp +contextual [eq_comm]
    · obtain ⟨first', rest', hpieces⟩ :=
        List.exists_cons_of_ne_nil (Text.splitOn_ne_nil (· == ',') text)
      have other : ',' ≠ c := fun h => hc h.symm
      cases first with
      | nil => cases rest <;> simp [hc, hpieces]
      | cons a first =>
        have later := @ih first rest
        rw [hpieces, List.cons.injEq, List.forall_mem_cons] at later
        rw [List.forall_mem_cons]
        simp only [hc, hpieces, beq_iff_eq, if_false, List.cons.injEq, and_assoc, later,
          List.cons_append, List.mem_cons, not_or]
        constructor
        · rintro ⟨rfl, htext, inFirst, inRest⟩
          exact ⟨rfl, htext, other, inFirst, inRest⟩
        · rintro ⟨rfl, htext, -, inFirst, inRest⟩
          exact ⟨rfl, htext, inFirst, inRest⟩

/-- Pieces name the codes that are made of them. -/
theorem names_iff {pieces : List (List Char)} {codes : List String} :
    ((pieces.map trimmed).filter (!·.isEmpty)).map (fun word => Text.upper (String.ofList word)) =
      codes ↔ Names pieces codes := by
  constructor
  · rintro rfl
    induction pieces with
    | nil => exact .nil
    | cons piece pieces ih =>
      have said : Strips piece (trimmed piece) := trimmed_eq_iff.1 rfl
      cases hword : trimmed piece with
      | nil =>
        rw [hword] at said
        simpa [hword] using Names.blank said ih
      | cons c word =>
        rw [hword] at said
        simpa [hword] using Names.code said (List.cons_ne_nil c word) ih
  · intro h
    induction h with
    | nil => rfl
    | blank empty _ ih => simpa [trimmed_eq_iff.2 empty] using ih
    | code said nonempty _ ih => simpa [trimmed_eq_iff.2 said, nonempty] using ih

/-- The codes that are read are those that are listed. -/
theorem codeList_eq_iff {text : List Char} {codes : List String} :
    codeList text = codes ↔ Lists text codes := by
  simp only [Lists, ← and_assoc, ← splitOn_eq_iff, ← names_iff]
  obtain ⟨first, rest, hpieces⟩ := List.exists_cons_of_ne_nil (Text.splitOn_ne_nil (· == ',') text)
  rw [codeList, hpieces]
  constructor
  · intro h
    exact ⟨first, rest, rfl, h⟩
  · rintro ⟨first', rest', same, h⟩
    rwa [same]

/-- A text is split at its first equals sign. -/
theorem split_at_sign {word : List Char} (noSign : '=' ∉ word) (text : List Char) :
    (word ++ '=' :: text).dropWhile (· != '=') = '=' :: text ∧
      (word ++ '=' :: text).takeWhile (· != '=') = word := by
  have other : ∀ c ∈ word, (c != '=') = true := by
    intro c hc
    have hne : c ≠ '=' := fun h => noSign (h ▸ hc)
    simpa using hne
  constructor
  · rw [List.dropWhile_append_of_pos other]
    rfl
  · rw [List.takeWhile_append_of_pos other]
    simp

/-- A text without an equals sign is all before the first one. -/
theorem dropWhile_sign_eq_nil {text : List Char} :
    text.dropWhile (· != '=') = [] ↔ '=' ∉ text := by
  rw [List.dropWhile_eq_nil_iff]
  constructor
  · intro h hmem
    simpa using h _ hmem
  · intro h c hc
    have hne : c ≠ '=' := fun heq => h (heq ▸ hc)
    simpa using hne

/-- The scope and the list that stand behind a colon are the ones that are read. -/
theorem reads_colon_iff {spec : List Char} {scope : DirectiveScope} {listed : List String} :
    Reads (':' :: spec) scope listed ↔
      ∃ text, scopeAndCodes spec = .ok (scope, text) ∧ codeList text = listed ∧ listed ≠ [] := by
  constructor
  · intro h
    cases h with
    | here noSign lists some_code =>
      refine ⟨spec, ?_, codeList_eq_iff.2 lists, some_code⟩
      rw [scopeAndCodes, dropWhile_sign_eq_nil.2 noSign]
    | disable noSign said lists some_code =>
      rename_i word text
      obtain ⟨dropped, taken⟩ := split_at_sign noSign text
      refine ⟨text, ?_, codeList_eq_iff.2 lists, some_code⟩
      rw [scopeAndCodes, dropped, taken, trimmed_eq_iff.2 said]
      rfl
    | enable noSign said lists some_code =>
      rename_i word text
      obtain ⟨dropped, taken⟩ := split_at_sign noSign text
      refine ⟨text, ?_, codeList_eq_iff.2 lists, some_code⟩
      rw [scopeAndCodes, dropped, taken, trimmed_eq_iff.2 said]
      rfl
  · rintro ⟨text, hread, hlisted, some_code⟩
    have lists : Lists text listed := codeList_eq_iff.1 hlisted
    unfold scopeAndCodes at hread
    split at hread
    case h_1 gone =>
      cases hread
      exact .here (dropWhile_sign_eq_nil.1 gone) lists some_code
    case h_2 sign rest found =>
      have split_spec := List.takeWhile_append_dropWhile (p := (· != '=')) (l := spec)
      have is_sign : sign = '=' := by
        have head := List.head?_dropWhile_not (· != '=') spec
        simpa [found] using head
      have noSign : '=' ∉ spec.takeWhile (· != '=') := by
        intro hmem
        simpa using List.mem_takeWhile_imp hmem
      rw [found, is_sign] at split_spec
      rw [← split_spec]
      split at hread
      case h_1 said =>
        cases hread
        exact .disable noSign (trimmed_eq_iff.1 (by simpa using congrArg String.toList said)) lists
          some_code
      case h_2 said =>
        cases hread
        exact .enable noSign (trimmed_eq_iff.1 (by simpa using congrArg String.toList said)) lists
          some_code
      case h_3 => cases hread

/-- What is read has one scope and one list. -/
theorem Reads.unique {cs : List Char} {scope scope' : DirectiveScope} {listed listed' : List String}
    (h : Reads cs scope listed) (h' : Reads cs scope' listed') :
    scope = scope' ∧ listed = listed' := by
  cases cs with
  | nil =>
    cases h
    cases h'
    exact ⟨rfl, rfl⟩
  | cons c spec =>
    obtain rfl : c = ':' := by cases h <;> rfl
    obtain ⟨text, hread, rfl, -⟩ := reads_colon_iff.1 h
    obtain ⟨text', hread', rfl, -⟩ := reads_colon_iff.1 h'
    rw [hread] at hread'
    cases hread'
    exact ⟨rfl, rfl⟩

/-- What stands behind a colon is taken for the directive that it is written as. -/
theorem ofSpec_iff {spec : List Char} {line i : Nat} {d : Directive} :
    ofSpec line spec = .ok d ↔ ∃ scope listed, Reads (':' :: spec) scope listed ∧
      d = Notice.directive ⟨i, line, scope, listed⟩ := by
  simp only [reads_colon_iff]
  cases hread : scopeAndCodes spec with
  | error e => simp [ofSpec, hread, bind, Except.bind]
  | ok read =>
    obtain ⟨scope, text⟩ := read
    cases hcodes : codeList text with
    | nil => simp [ofSpec, hread, hcodes, bind, Except.bind]
    | cons code codes =>
      simp only [ofSpec, hread, hcodes, bind, Except.bind, pure, Except.pure, Except.ok.injEq]
      constructor
      · rintro rfl
        exact ⟨scope, _, ⟨text, rfl, hcodes, by simp⟩, by simp [Notice.directive]⟩
      · rintro ⟨scope', listed, ⟨text', same, rfl, -⟩, rfl⟩
        cases same
        simp [hcodes, Notice.directive]

/-- A comment is taken for the directive that it is written as, and for none otherwise. -/
theorem parse_iff {comment : String} {line i : Nat} {d : Directive} :
    parse comment line = .ok (some d) ↔
      ∃ rest told, Bares comment ("noqa".toList ++ rest) ∧ Strips rest told ∧
        ∃ scope listed, Reads told scope listed ∧
          d = Notice.directive ⟨i, line, scope, listed⟩ := by
  simp only [← body_eq_iff, ← after?_eq_some_iff, ← trimmed_eq_iff, exists_and_left,
    exists_eq_left']
  unfold parse
  cases after? "noqa".toList (body comment) with
  | none => simp
  | some rest =>
    simp only [Option.some.injEq, exists_eq_left']
    split
    case h_1 hrest =>
      rw [hrest]
      constructor
      · intro h
        cases h
        exact ⟨.line, [], .bare, rfl⟩
      · rintro ⟨scope, listed, hreads, rfl⟩
        cases hreads
        rfl
    case h_2 spec hrest =>
      rw [hrest, ← ofSpec_iff]
      cases ofSpec line spec <;> simp [Except.map]
    case h_3 noColon nonempty =>
      constructor
      · intro h
        cases h
      · rintro ⟨scope, listed, hreads, -⟩
        cases hcs : trimmed rest with
        | nil => exact absurd hcs noColon
        | cons c spec =>
          rw [hcs] at hreads
          obtain rfl : c = ':' := by cases hreads <;> rfl
          exact absurd hcs (nonempty spec)

end Directive

/-! ## 4. The directives in the order of the file -/

/-- The directive that a leaf is taken for. -/
def Segment.directive? (s : Segment) : Option Directive :=
  if s.isComment then (Directive.parse s.raw s.lineOf).toOption.join else none

/-- A leaf is taken for a directive exactly if it says what the directive asks for. -/
theorem Segment.directive?_eq_some_iff {s : Segment} {d : Directive} (i : Nat) :
    s.directive? = some d ↔ ∃ n : Notice, n.index = i ∧ s.Says n ∧ d = n.directive := by
  have joined : s.directive? = some d ↔
      s.isComment = true ∧ Directive.parse s.raw s.lineOf = .ok (some d) := by
    unfold directive?
    cases s.isComment with
    | false => simp
    | true => cases Directive.parse s.raw s.lineOf <;> simp [Except.toOption]
  rw [joined, Directive.parse_iff (i := i)]
  constructor
  · rintro ⟨comment, rest, told, hbares, hstrips, scope, listed, hreads, rfl⟩
    exact ⟨⟨i, s.lineOf, scope, listed⟩, rfl, ⟨comment, rfl, rest, told, hbares, hstrips, hreads⟩,
      rfl⟩
  · rintro ⟨n, rfl, ⟨comment, hline, rest, told, hbares, hstrips, hreads⟩, rfl⟩
    exact ⟨comment, rest, told, hbares, hstrips, n.scope, n.listed, hreads, by rw [← hline]⟩

/-- A leaf says one thing. -/
theorem Segment.Says.unique {s : Segment} {n m : Notice} (hn : s.Says n) (hm : s.Says m)
    (index : n.index = m.index) : n = m := by
  obtain ⟨-, line, rest, told, hbares, hstrips, hreads⟩ := hn
  obtain ⟨-, line', rest', told', hbares', hstrips', hreads'⟩ := hm
  obtain rfl : rest = rest' :=
    List.append_cancel_left ((Directive.body_eq_iff.2 hbares).symm.trans
      (Directive.body_eq_iff.2 hbares'))
  obtain rfl : told = told' :=
    (Directive.trimmed_eq_iff.2 hstrips).symm.trans (Directive.trimmed_eq_iff.2 hstrips')
  obtain ⟨scope, listed⟩ := hreads.unique hreads'
  cases n
  cases m
  simp_all

/-- The leaves of a list say some notices, which come in the order of the list. -/
theorem exists_notices (leaves : List Segment) (k : Nat) :
    ∃ ns : List Notice, ns.map Notice.directive = leaves.filterMap Segment.directive? ∧
      ns.Pairwise (·.index < ·.index) ∧
      ∀ n : Notice, n ∈ ns ↔ ∃ j leaf, leaves[j]? = some leaf ∧ n.index = k + j ∧ leaf.Says n := by
  induction leaves generalizing k with
  | nil => exact ⟨[], rfl, .nil, by simp⟩
  | cons s leaves ih =>
    obtain ⟨ns, directives, sorted, mem⟩ := ih (k + 1)
    -- a notice on the list is on its first leaf or on a later one
    have later (n : Notice) : (∃ j leaf, (s :: leaves)[j]? = some leaf ∧ n.index = k + j ∧
        leaf.Says n) ↔ (n.index = k ∧ s.Says n) ∨ n ∈ ns := by
      rw [mem]
      constructor
      · rintro ⟨j, leaf, hleaf, index, told⟩
        cases j with
        | zero =>
          cases hleaf
          exact .inl ⟨index, told⟩
        | succ j => exact .inr ⟨j, leaf, hleaf, by omega, told⟩
      · rintro (⟨index, told⟩ | ⟨j, leaf, hleaf, index, told⟩)
        · exact ⟨0, s, rfl, index, told⟩
        · exact ⟨j + 1, leaf, hleaf, by omega, told⟩
    cases hs : s.directive? with
    | none =>
      refine ⟨ns, by rw [List.filterMap_cons_none hs, directives], sorted, ?_⟩
      intro n
      rw [later]
      constructor
      · exact .inr
      · rintro (⟨index, told⟩ | hn)
        · have said := (Segment.directive?_eq_some_iff k).2 ⟨n, index, told, rfl⟩
          rw [hs] at said
          cases said
        · exact hn
    | some d =>
      obtain ⟨first, index, told, rfl⟩ := (Segment.directive?_eq_some_iff k).1 hs
      refine ⟨first :: ns, by rw [List.filterMap_cons_some hs, List.map_cons, directives], ?_, ?_⟩
      · rw [List.pairwise_cons]
        refine ⟨?_, sorted⟩
        intro n hn
        obtain ⟨j, -, -, index', -⟩ := (mem n).1 hn
        omega
      · intro n
        rw [later, List.mem_cons]
        constructor
        · rintro (rfl | hn)
          · exact .inl ⟨index, told⟩
          · exact .inr hn
        · rintro (⟨index', told'⟩ | hn)
          · exact .inl (told'.unique told (by omega))
          · exact .inr hn

/-! ## 5. The directives by line -/

namespace Notice

variable {ns : List Notice}

/-- Notices of one line come in the order of the file in which they are on. -/
theorem filter_mergeSort (ns : List Notice) (line : Nat) :
    (ns.mergeSort fun a b => a.line ≤ b.line).filter (·.line == line) =
      ns.filter (·.line == line) := by
  have sorted : (ns.filter (·.line == line)).Pairwise fun a b => decide (a.line ≤ b.line) := by
    apply List.pairwise_of_forall_mem_list
    intro a ha b hb
    simp only [List.mem_filter, beq_iff_eq] at ha hb
    simp [ha.2, hb.2]
  have kept : (ns.filter (·.line == line)).Sublist (ns.mergeSort fun a b => a.line ≤ b.line) :=
    List.sublist_mergeSort (by simpa using fun a b c => Nat.le_trans)
      (by simpa using fun a b => Nat.le_total _ _) sorted List.filter_sublist
  have filtered := kept.filter (·.line == line)
  rw [List.filter_filter] at filtered
  simp only [Bool.and_self] at filtered
  exact (filtered.eq_of_length ((List.mergeSort_perm ns _).filter _).length_eq.symm).symm

/-- Sorted by lines, notices that come in the order of the file are sorted by lines and, within a
line, by their places. -/
theorem pairwise_mergeSort (h : ns.Pairwise (·.index < ·.index)) :
    (ns.mergeSort fun a b => a.line ≤ b.line).Pairwise Before := by
  rw [List.pairwise_iff_forall_sublist]
  intro a b hab
  have byLine : (ns.mergeSort fun a b => a.line ≤ b.line).Pairwise
      fun a b => decide (a.line ≤ b.line) = true :=
    List.pairwise_mergeSort (by simpa using fun a b c => Nat.le_trans)
      (by simpa using fun a b => Nat.le_total _ _) ns
  have line : a.line ≤ b.line := by
    simpa using List.pairwise_iff_forall_sublist.1 byLine hab
  rcases Nat.lt_or_eq_of_le line with earlier | same
  · exact .inl earlier
  · refine .inr ⟨same, ?_⟩
    have both := hab.filter (·.line == b.line)
    rw [filter_mergeSort] at both
    simp only [List.filter_cons, same, beq_self_eq_true, if_true, List.filter_nil] at both
    exact List.pairwise_iff_forall_sublist.1 h (both.trans List.filter_sublist)

theorem Before.asymm {n m : Notice} (h : n.Before m) : ¬ m.Before n := by
  unfold Before at *
  omega

/-- The last one of some notices for a range about a violation silences it. -/
def LastDisables (ns : List Notice) (v : Violation) : Prop :=
  ∃ n ∈ ns, n.MeetsInRange v ∧ n.scope = .disable ∧
    ∀ m ∈ ns, m.MeetsInRange v → ¬ n.Before m

/-- It is the first one only if there is no other for a range. -/
theorem lastDisables_cons {n : Notice} {v : Violation} (first : ∀ m ∈ ns, n.Before m) :
    LastDisables (n :: ns) v ↔
      (n.MeetsInRange v ∧ n.scope = .disable ∧ ∀ m ∈ ns, ¬ m.MeetsInRange v) ∨
        LastDisables ns v := by
  constructor
  · rintro ⟨k, hk, meets, scope, later⟩
    obtain ⟨-, inRest⟩ := List.forall_mem_cons.1 later
    rcases List.mem_cons.1 hk with rfl | hk
    · exact .inl ⟨meets, scope, fun m hm hmeets => inRest m hm hmeets (first m hm)⟩
    · exact .inr ⟨k, hk, meets, scope, inRest⟩
  · rintro (⟨meets, scope, none_later⟩ | ⟨k, hk, meets, scope, later⟩)
    · refine ⟨n, List.mem_cons_self, meets, scope, List.forall_mem_cons.2 ⟨?_, ?_⟩⟩
      · exact fun _ hbefore => hbefore.asymm hbefore
      · exact fun m hm hmeets => absurd hmeets (none_later m hm)
    · refine ⟨k, List.mem_cons_of_mem n hk, meets, scope, List.forall_mem_cons.2 ⟨?_, later⟩⟩
      exact fun _ => (first k hk).asymm

end Notice

/-! ## 6. The mask -/

namespace IgnoreMask

open Notice

variable {ns : List Notice}

/-- What directives decide that come by line: a notice for the line of a violation silences it, and
otherwise the last one for a range does or does not. If there is none, it stays as it was. -/
theorem silences_iff (h : ns.Pairwise Before) (v : Violation) (silenced : Bool) :
    silences v.code v.place.line silenced (ns.map Notice.directive) = true ↔
      (∃ n ∈ ns, n.MeetsInLine v) ∨ LastDisables ns v ∨
        silenced = true ∧ ∀ n ∈ ns, ¬ n.MeetsInRange v := by
  induction ns generalizing silenced with
  | nil => simp [silences, LastDisables]
  | cons n ns ih =>
    obtain ⟨first, sorted⟩ := List.pairwise_cons.1 h
    rw [lastDisables_cons first, List.forall_mem_cons, List.map_cons, silences]
    simp only [List.mem_cons, exists_eq_or_imp]
    by_cases beyond : v.place.line < n.directive.line
    · rw [if_pos beyond]
      rw [directive_line] at beyond
      -- no notice is about the line, neither this one nor one in a later line
      have far {m : Notice} (hm : v.place.line < m.line) :
          ¬ m.MeetsInLine v ∧ ¬ m.MeetsInRange v :=
        ⟨fun meets => absurd meets.2.1 (by omega), fun meets => absurd meets.2.1 (by omega)⟩
      have later : ∀ m ∈ ns, v.place.line < m.line := by
        intro m hm
        have hbefore := first m hm
        unfold Before at hbefore
        omega
      constructor
      · intro was
        exact .inr (.inr ⟨was, (far beyond).2, fun m hm => (far (later m hm)).2⟩)
      · rintro ((meets | ⟨m, hm, meets⟩) | (⟨meets, -⟩ | ⟨m, hm, meets, -⟩) | ⟨was, -⟩)
        · exact absurd meets (far beyond).1
        · exact absurd meets (far (later m hm)).1
        · exact absurd meets (far beyond).2
        · exact absurd meets (far (later m hm)).2
        · exact was
    · rw [if_neg beyond]
      have reached : n.line ≤ v.place.line := Nat.le_of_not_lt beyond
      by_cases covers : n.Covers v.code
      · rw [if_neg (by simpa using covers)]
        cases scope : n.scope with
        | line => simp [ih sorted, MeetsInLine, MeetsInRange, scope, covers, or_assoc]
        | disable =>
          have meets : n.MeetsInRange v := ⟨by simp [scope], reached, covers⟩
          simp [ih sorted, MeetsInLine, scope, meets, or_comm]
        | enable =>
          have meets : n.MeetsInRange v := ⟨by simp [scope], reached, covers⟩
          simp [ih sorted, MeetsInLine, scope, meets]
      · have uncovered : n.directive.covers v.code = false :=
          Bool.eq_false_iff.2 (mt (directive_covers n v.code).1 covers)
        rw [if_pos (by rw [uncovered]; rfl)]
        simp [ih sorted, MeetsInLine, MeetsInRange, covers]

/-- The directives of notices are sorted with them. -/
theorem ofDirectives_map (ns : List Notice) :
    (ofDirectives (ns.map Notice.directive)).directives =
      (ns.mergeSort fun a b => a.line ≤ b.line).map Notice.directive := by
  rw [ofDirectives, List.map_mergeSort]
  intro a _ b _
  rfl

/-- What is masked by the directives of notices that come in the order of a file. -/
theorem masks_ofDirectives (h : ns.Pairwise (·.index < ·.index)) (v : Violation) :
    (ofDirectives (ns.map Notice.directive)).masks v = true ↔
      (∃ n ∈ ns, n.MeetsInLine v) ∨ LastDisables ns v := by
  rw [masks, masksCode, ofDirectives_map, silences_iff (pairwise_mergeSort h)]
  simp [LastDisables]

/-- A violation is silenced exactly if a directive for its line is about its code, or if directives
for ranges are about it in its line or above, and the last of them silences it. -/
theorem masks_ofTree_iff (tree : Segment) (v : Violation) :
    (ofTree tree).masks v = true ↔
      (∃ n, tree.Notes n ∧ n.MeetsInLine v) ∨
      ∃ n, tree.Notes n ∧ n.MeetsInRange v ∧ n.scope = .disable ∧
        ∀ m, tree.Notes m → m.MeetsInRange v → ¬ n.Before m := by
  obtain ⟨ns, directives, sorted, mem⟩ := exists_notices tree.leaves 0
  have noted (n : Notice) : n ∈ ns ↔ tree.Notes n := by
    rw [mem]
    constructor
    · rintro ⟨j, leaf, hleaf, index, told⟩
      exact ⟨leaf, by rw [index, Nat.zero_add, hleaf], told⟩
    · rintro ⟨leaf, hleaf, told⟩
      exact ⟨n.index, leaf, hleaf, by rw [Nat.zero_add], told⟩
  have read : ofTree tree = ofDirectives (ns.map Notice.directive) := by
    rw [directives, ofTree, comments, List.filterMap_map, List.filterMap_filter]
    rfl
  rw [read, masks_ofDirectives sorted, LastDisables]
  simp only [noted]

/-- A comment in a line. -/
def commentIn (line : Nat) (text : String) : Segment :=
  .mk ⟨.token text .ofComment none, "comment", ["comment"], 0,
    some (.ofSpans (.point 0) (.point 0) ⟨line, 1⟩ true), []⟩ []

/-- A range of lines that is to be silent for two codes, one of them written in lower case. -/
theorem says_disable : (commentIn 1 "-- noqa: disable = l010, ,L001").Says
    ⟨0, 1, .disable, ["L010", "L001"]⟩ := by
  refine ⟨rfl, rfl, ": disable = l010, ,L001".toList, ": disable = l010, ,L001".toList, ?_, ?_, ?_⟩
  · let said := " noqa: disable = l010, ,L001".toList
    exact ⟨"--".toList ++ said, said, said, said, said,
      .of_check [] [] rfl (by decide), ⟨⟨1, rfl⟩, by decide⟩,
      ⟨⟨0, rfl⟩, by decide⟩, ⟨⟨0, rfl⟩, by decide⟩, ⟨⟨0, rfl⟩, by decide⟩,
      .of_check [' '] [] rfl (by decide)⟩
  · exact .of_check [] [] rfl (by decide)
  · have first : Directive.Strips " l010".toList "l010".toList :=
      .of_check [' '] [] rfl (by decide)
    have second : Directive.Strips " ".toList [] :=
      .of_check [' '] [] rfl (by decide)
    have third : Directive.Strips "L001".toList "L001".toList :=
      .of_check [] [] rfl (by decide)
    have lists : Directive.Lists " l010, ,L001".toList ["L010", "L001"] :=
      ⟨_, [_, _], rfl, by decide,
        .code first (by decide) (.blank second (.code third (by decide) .nil))⟩
    have said : Directive.Strips " disable ".toList "disable".toList :=
      .of_check [' '] [' '] rfl (by decide)
    exact .disable (by decide) said lists (by decide)

/-- A line that is to be silent for all codes. -/
theorem says_line : (commentIn 3 "/* noqa */").Says ⟨1, 3, .line, []⟩ := by
  refine ⟨rfl, rfl, [], [], ?_, .of_check [] [] rfl (by decide), .bare⟩
  exact ⟨"/* noqa */".toList, "/* noqa */".toList, "/* noqa */".toList, " noqa */".toList,
    " noqa ".toList, .of_check [] [] rfl (by decide), ⟨⟨0, rfl⟩, by decide⟩,
    ⟨⟨0, rfl⟩, by decide⟩, ⟨⟨1, rfl⟩, by decide⟩, ⟨⟨1, rfl⟩, by decide⟩,
    .of_check [' '] [' '] rfl (by decide)⟩

/-- The end of all ranges. -/
theorem says_enable : (commentIn 5 "#noqa:enable=all  ").Says ⟨2, 5, .enable, ["ALL"]⟩ := by
  refine ⟨rfl, rfl, ":enable=all".toList, ":enable=all".toList, ?_, ?_, ?_⟩
  · exact ⟨"#noqa:enable=all".toList, "#noqa:enable=all".toList, "noqa:enable=all".toList,
      "noqa:enable=all".toList, "noqa:enable=all".toList,
      .of_check [] "  ".toList rfl (by decide), ⟨⟨0, rfl⟩, by decide⟩,
      ⟨⟨1, rfl⟩, by decide⟩, ⟨⟨0, rfl⟩, by decide⟩, ⟨⟨0, rfl⟩, by decide⟩,
      .of_check [] [] rfl (by decide)⟩
  · exact .of_check [] [] rfl (by decide)
  · have only : Directive.Strips "all".toList "all".toList :=
      .of_check [] [] rfl (by decide)
    have lists : Directive.Lists "all".toList ["ALL"] :=
      ⟨_, [], rfl, by decide, .code only (by decide) .nil⟩
    have said : Directive.Strips "enable".toList "enable".toList :=
      .of_check [] [] rfl (by decide)
    exact .enable (by decide) said lists (by decide)

/-- A file with these comments. -/
def commented : Segment :=
  .mk ⟨.file, "file", ["file"], 0, none, []⟩ [commentIn 1 "-- noqa: disable = l010, ,L001",
    commentIn 3 "/* noqa */", commentIn 5 "#noqa:enable=all  "]

theorem notes_commented {n : Notice} : commented.Notes n ↔
    n = ⟨0, 1, .disable, ["L010", "L001"]⟩ ∨ n = ⟨1, 3, .line, []⟩ ∨
      n = ⟨2, 5, .enable, ["ALL"]⟩ := by
  constructor
  · rintro ⟨leaf, hleaf, told⟩
    match hn : n.index, hleaf with
    | 0, hleaf =>
      cases hleaf
      exact .inl (told.unique says_disable hn)
    | 1, hleaf =>
      cases hleaf
      exact .inr (.inl (told.unique says_line hn))
    | 2, hleaf =>
      cases hleaf
      exact .inr (.inr (told.unique says_enable hn))
  · rintro (rfl | rfl | rfl)
    · exact ⟨_, rfl, says_disable⟩
    · exact ⟨_, rfl, says_line⟩
    · exact ⟨_, rfl, says_enable⟩

/-- A violation of a rule in a line. -/
def violationIn (code : String) (line : Nat) : Violation :=
  { code, description := "", place := ⟨line, 1⟩ }

/-- In the range two codes are silent, in the line within it all of them, and behind it none. -/
theorem masks_ofTree_iff_commented :
    ((ofTree commented).masks (violationIn "L010" 2) = true ∧
      (ofTree commented).masks (violationIn "L900" 2) = false) ∧
    ((ofTree commented).masks (violationIn "L900" 3) = true ∧
      (ofTree commented).masks (violationIn "L001" 4) = true) ∧
    (ofTree commented).masks (violationIn "L010" 5) = false := by
  simp only [← Bool.not_eq_true, masks_ofTree_iff, notes_commented]
  simp [or_and_right, exists_or, MeetsInLine, MeetsInRange, Covers, Before, violationIn]

end IgnoreMask

end QueryLint
