import QueryLint.Proofs.Grammar.Filed
import QueryLint.Proofs.Match.Transparent
import QueryLint.Proofs.Parse
import QueryLint.Proofs.Pattern.IgnoreCase

/-!
QueryLint.Proofs.Match.Recased — the case of letters does not matter to matching.

Grammars compare the text of a token in upper case, its first word in upper case, and its types. A
pattern sees the text itself, and does not tell cases apart if it is caseless. So tokens that differ
in the case of ASCII letters only cannot be told apart, and two runs over them keep side by side:
every grammar finds the same at the same places. The text of a token goes into two things that are
kept for the reader only, what the grammar expected where it could not place a token, and the
normalised text of a typed one. These are all that may differ.

* `Segment.Recased` — tokens that differ in the case of ASCII letters only.
* `Match.faded` — a match without what is kept for the reader only.
* `matchGrammar_recased` — every grammar matches such tokens alike.
-/

namespace QueryLint

/-! ## 1. Tokens -/

/-- Tokens that differ in the case of ASCII letters only, as far as grammars ask: they count as the
same types and are code, or markers, together. -/
structure Segment.Recased (s s' : Segment) : Prop where
  raw : Text.Recased s.raw s'.raw
  types_eq : s'.classTypes = s.classTypes
  isCode_eq : s'.isCode = s.isCode
  isMarker_eq : s'.isMarker = s.isMarker

/-! ## 2. Matches -/

/-- What tokens are put into, without the texts that are kept for the reader only. -/
def MatchClass.faded : MatchClass → MatchClass
  | node type grammar => node type grammar
  | token type normalized => token type (normalized.map fun _ => "")
  | bracketed => bracketed
  | unparsable _ => unparsable ""

namespace Match

mutual

/-- A match without the texts that are kept for the reader only. -/
def faded : Match → Match
  | mk a b k is cs => mk a b (k.map MatchClass.faded) is (fadedAll cs)

/-- Matches without the texts that are kept for the reader only. -/
def fadedAll : List Match → List Match
  | [] => []
  | m :: ms => m.faded :: fadedAll ms

end

theorem fadedAll_eq (ms : List Match) : fadedAll ms = ms.map faded := by
  induction ms with
  | nil => rfl
  | cons m ms ih => rw [fadedAll, ih, List.map_cons]

variable (m : Match)

@[simp] theorem start_faded : m.faded.start = m.start := by
  cases m
  rfl

@[simp] theorem stop_faded : m.faded.stop = m.stop := by
  cases m
  rfl

@[simp] theorem inserts_faded : m.faded.inserts = m.inserts := by
  cases m
  rfl

@[simp] theorem class?_faded : m.faded.class? = m.class?.map MatchClass.faded := by
  cases m
  rfl

@[simp] theorem children_faded : m.faded.children = m.children.map faded := by
  obtain ⟨a, b, k, is, cs⟩ := m
  exact fadedAll_eq cs

@[simp] theorem isMatch_faded : m.faded.isMatch = m.isMatch := by
  simp [isMatch, isEmpty]

@[simp] theorem outerInserts_faded : m.faded.outerInserts = m.outerInserts := by
  simp [outerInserts]

@[simp] theorem outerChildren_faded : m.faded.outerChildren = m.outerChildren.map faded := by
  unfold outerChildren
  rw [class?_faded, Option.isSome_map, children_faded]
  split <;> rfl

theorem faded_mk (a b : Nat) (k : Option MatchClass) (is : List (Nat × MarkerKind))
    (cs : List Match) :
    (mk a b k is cs).faded = mk a b (k.map MatchClass.faded) is (cs.map faded) := by
  rw [faded, fadedAll_eq]

theorem faded_wrap (k : MatchClass) : (m.wrap k).faded = m.faded.wrap k.faded := by
  unfold wrap
  rw [isMatch_faded, class?_faded, Option.isNone_map]
  split
  · rfl
  · split <;> simp [faded_mk]

theorem faded_wrap? (k : Option MatchClass) :
    (m.wrap? k).faded = m.faded.wrap? (k.map MatchClass.faded) := by
  cases k with
  | none => rfl
  | some k => exact faded_wrap m k

/-- Matches that differ in texts for the reader only are told apart as little as equal ones. -/
theorem likeness_faded : Likeness (fun k k' => k.faded = k'.faded) (fun m m' => m.faded = m'.faded)
    (fun cs cs' => cs.map faded = cs'.map faded) where
  class_refl _ := rfl
  refl _ := rfl
  start_eq h := by simpa using congrArg start h
  stop_eq h := by simpa using congrArg stop h
  isMatch_eq h := by simpa using congrArg isMatch h
  outerInserts_eq h := by simpa using congrArg outerInserts h
  outerChildren h := by simpa using congrArg outerChildren h
  wrap hk h := by rw [faded_wrap, faded_wrap, hk, h]
  build i j is hk h := by
    cases hk with
    | none => rw [faded_mk, faded_mk, h]
    | some hk => simp [faded_mk, h, hk]
  nil := rfl
  single h := by simpa using h
  append h h' := by rw [List.map_append, List.map_append, h, h']

end Match

/-! ## 3. Matching -/

/-- No pattern of the tables tells the case of ASCII letters. -/
def Tables.IgnoresCase (t : Tables) : Prop := ∀ p ∈ t.patterns, p.pattern.IgnoresCase

namespace MatchContext

variable {t : Tables} {ss ss' : List Segment}

theorem abreast_ofSegment (ht : t.IgnoresCase) {s s' : Segment} (h : s.Recased s') :
    TokenView.Abreast (fun k k' => k.faded = k'.faded) t.patterns (.ofSegment s)
      (.ofSegment s') where
  upper_eq := h.raw.upper_eq.symm
  firstWord_eq := congrArg Text.firstWord h.raw.upper_eq.symm
  isAllBlank_eq := h.raw.isAllBlank_eq.symm
  isCode_eq := h.isCode_eq
  isMarker_eq := h.isMarker_eq
  types_eq := h.types_eq
  isEmpty_eq := h.raw.isEmpty_eq.symm
  isMatch_eq p hp := (ht p hp _ _ h.raw).symm
  token _ _ := rfl

variable (t ss) in
/-- What matching looks at, with the memo or without. -/
def ofTokens (settings : List (String × String)) (memoize : Bool) : MatchContext :=
  { ofSegments t ss settings with memoize := memoize }

/-- Grammars cannot tell tokens that differ in the case of ASCII letters only. -/
theorem abreast_ofTokens (ht : t.IgnoresCase) (h : List.Forall₂ Segment.Recased ss ss')
    (settings : List (String × String)) (memoize : Bool) :
    (ofTokens t ss settings memoize).Abreast (fun k k' => k.faded = k'.faded)
      (ofTokens t ss' settings memoize).tokens where
  token i := by
    simp only [ofTokens, ofSegments, List.getElem?_toArray, List.getElem?_map]
    induction h generalizing i with
    | nil => simp
    | cons h _ ih =>
      cases i with
      | zero => exact .some (abreast_ofSegment ht h)
      | succ i => simpa using ih i
  unparsable _ _ _ := rfl

/-- What is kept in two memos: for the same keys, the same matches but for texts that are kept for
the reader only. -/
def MemosFaded (s s' : MatchState) : Prop :=
  ∀ key : MemoKey, Option.Rel (fun m m' => m.faded = m'.faded) s.memo[key]? s'.memo[key]?

theorem MemosFaded.initial : MemosFaded {} {} := fun key => by simp

/-- Notes are for the reader only. -/
theorem notesPaired_faded (tokens tokens' : Array TokenView) :
    NotesPaired (depthBond False False MemosFaded) tokens tokens' := fun _ =>
  ⟨fun _ hs => hs.1.elim, fun _ hs => hs.1.elim, fun _ _ hs => .inr (.inr ⟨rfl, hs⟩)⟩

/-- If no pattern tells the case of ASCII letters, every grammar matches tokens alike that differ in
the case of such letters only, from memos that hold alike matches on. -/
theorem matchGrammar_faded (ht : t.IgnoresCase) (hss : List.Forall₂ Segment.Recased ss ss')
    (settings : List (String × String)) (memoize : Bool) {s s' : MatchState}
    (hs : MemosFaded s s') (n : Nat) (ts : List GrammarId) (limit i : Nat) (g : GrammarId) :
    let r := ((ofTokens t ss settings memoize).matchGrammar n ts limit i g).run s
    let r' := ((ofTokens t ss' settings memoize).matchGrammar n ts limit i g).run s'
    r.1.faded = r'.1.faded ∧ MemosFaded r.2 r'.2 := by
  let c := ofTokens t ss settings memoize
  let d := ofTokens t ss' settings memoize
  let like : Match → Match → Prop := fun m m' => m.faded = m'.faded
  let b : Bond := depthBond False False MemosFaded
  have hbeyond : Paired b like .refuse .refuse := fun _ _ _ _ => .pure rfl
  have hsegments : c.SegmentsAlike t.segmentTypes like
      (fun cs cs' => cs.map Match.faded = cs'.map Match.faded) := by
    intro id m m' hm _
    have wrapped (k : Option MatchClass) : (m.wrap? k).faded = (m'.wrap? k).faded := by
      rw [Match.faded_wrap?, Match.faded_wrap?, show m.faded = m'.faded from hm]
    exact wrapped ((t.segmentType? id).map (.node · id))
  have hpaired : Paired b like (c.matchOver .refuse n) (d.matchOver .refuse n) := by
    refine paired_matchOver (c := c) (d := d) rfl Match.likeness_faded
      (abreast_ofTokens ht hss settings memoize) hsegments (notesPaired_faded _ _) hbeyond
      (fun n hn => memoPaired_of_alike _ hn ?_ ?_) n
    · exact fun s s' hs => hs
    · intro ts limit i g s s' _ r r' _ hlike hmemos key
      dsimp only
      rw [Std.HashMap.getElem?_insert, Std.HashMap.getElem?_insert]
      split
      · exact .some hlike
      · exact hmemos key
  rw [← matchOver_refuse, ← matchOver_refuse]
  rcases (hpaired ts limit i g).agree s s' hs with hlost | hlost | h
  · exact hlost.1.elim
  · exact hlost.1.elim
  · exact h

end MatchContext

/-! ## 4. Compiled tables -/

/-- Nowhere in the text of a pattern is it switched off that case is ignored. -/
def TablePattern.keepsCase (text : String) : Bool :=
  Pattern.Reader.keepsCase ("^(?:" ++ text ++ ")$").toList

/-- A pattern whose text does not switch it off ignores case, as it is read. -/
theorem TablePattern.ignoresCase_of_read {text : String} {p : TablePattern}
    (h : read? text = .ok p) (htext : keepsCase text = true) : p.pattern.IgnoresCase := by
  unfold read? at h
  split at h
  · next hread =>
    cases h
    have whole : (wholeText text).toList =
        "(?i)".toList ++ ("^(?:" ++ text ++ ")$").toList := by
      simp [wholeText, String.toList_append]
    exact (Pattern.isCaseless_of_read? whole htext hread).ignoresCase
  · cases h

/-- Tables of a book ignore case if their patterns do not switch it off, or ignore case as it is. -/
theorem GrammarBook.ignoresCase_of_compile {b : GrammarBook} {t : Tables} (hb : b.compile = .ok t)
    (hpatterns : ∀ p ∈ t.patterns,
      TablePattern.keepsCase p.text = true ∨ p.pattern.IgnoresCase) : t.IgnoresCase := by
  intro p hp
  obtain ⟨-, _, _, _, _, _, _, -, -, hfinish⟩ := run_of_compile hb
  rcases hpatterns p hp with htext | hp
  · exact TablePattern.ignoresCase_of_read ((filed_of_run hfinish).read p hp) htext
  · exact hp

namespace MatchContext

/-- With the tables of a book whose patterns do not switch it off that case is ignored, every
grammar matches tokens alike that differ in the case of ASCII letters only: the matches span the
same tokens, with the same markers and children, and differ in texts at most that are kept for the
reader only; and the memos go on holding alike matches. -/
theorem matchGrammar_recased {b : GrammarBook} {t : Tables} (hb : b.compile = .ok t)
    (hpatterns : ∀ p ∈ t.patterns, TablePattern.keepsCase p.text = true ∨ p.pattern.IgnoresCase)
    {ss ss' : List Segment} (hss : List.Forall₂ Segment.Recased ss ss')
    (settings : List (String × String)) (memoize : Bool) {s s' : MatchState}
    (hs : MemosFaded s s') (n : Nat) (ts : List GrammarId) (limit i : Nat) (g : GrammarId) :
    let r := ((ofTokens t ss settings memoize).matchGrammar n ts limit i g).run s
    let r' := ((ofTokens t ss' settings memoize).matchGrammar n ts limit i g).run s'
    r.1.faded = r'.1.faded ∧ MemosFaded r.2 r'.2 := by
  have ignores : t.IgnoresCase := GrammarBook.ignoresCase_of_compile hb hpatterns
  exact matchGrammar_faded ignores hss settings memoize hs n ts limit i g

/-- A keyword and a name, which a pattern describes and a word is no example of. -/
def aliasBook : GrammarBook where
  root := "Alias"
  definitions := [
    .grammar "Alias" (.seq [.keyword "as", .ref "Name"]),
    .segment "Name" "name" ((Grammar.pattern "[a-z]{5}" "naked").anti "where")]

/-- The tables of that book. -/
def aliasTables : Tables := (Parser.ofBook aliasBook).dialect.tables

/-- An alias in two spellings is the same alias, and it is one. -/
theorem matchGrammar_recased_alias :
    let ss := Parser.wordTokens 0 0 ["as", "Total"]
    let ss' := Parser.wordTokens 0 0 ["AS", "tOTAL"]
    let found (ss : List Segment) (memoize : Bool) :=
      ((ofTokens aliasTables ss [] memoize).matchGrammar 4 [] 2 0 aliasTables.root).run {}
    aliasBook.compile = .ok aliasTables ∧
      (∀ p ∈ aliasTables.patterns, TablePattern.keepsCase p.text = true) ∧
      List.Forall₂ Segment.Recased ss ss' ∧ (found ss false).1.isMatch = true ∧
      (found ss true).1.faded = (found ss' true).1.faded ∧
      MemosFaded (found ss true).2 (found ss' true).2 := by
  have compiled : aliasBook.compile = .ok aliasTables :=
    Parser.compile_eq_ofBook (by decide +kernel)
  have kept : ∀ p ∈ aliasTables.patterns, TablePattern.keepsCase p.text = true := by
    decide +kernel
  have recased : List.Forall₂ Segment.Recased (Parser.wordTokens 0 0 ["as", "Total"])
      (Parser.wordTokens 0 0 ["AS", "tOTAL"]) :=
    .cons ⟨by decide, rfl, rfl, rfl⟩ (.cons ⟨by decide, rfl, rfl, rfl⟩ .nil)
  have alike := matchGrammar_recased compiled (fun p hp => .inl (kept p hp)) recased [] true
    .initial 4 [] 2 0 aliasTables.root
  exact ⟨compiled, kept, recased, by decide +kernel, alike⟩

end MatchContext

end QueryLint
