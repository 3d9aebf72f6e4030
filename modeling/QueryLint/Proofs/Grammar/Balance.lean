import Mathlib.Data.List.Sublists
import QueryLint.Proofs.Grammar.ReadBack
import QueryLint.Proofs.Match.Balance
import QueryLint.Proofs.Match.Even
import QueryLint.Proofs.Parse

/-!
QueryLint.Proofs.Grammar.Balance — indentation in a book of grammars.

That markers are balanced can be seen in the grammars as they are written: they stand in sequences
only, and those of a sequence come back to where they began. Some are put in on a condition on the
settings. Settings can meet any of the conditions in a sequence and miss the others, so all choices
of them are looked at; that two conditions may exclude each other is not made use of.

The markers in the tree of a file are those of its match: what is not matched is made unparsable, or
it is blank and stays as it is. So they are balanced in the file and in every node if the grammar of
the file is one of a set of even grammars, unless something in the tree is unparsable.

* `Grammar.isEven` — the markers in a grammar are balanced, whatever the settings.
* `GrammarBook.evenGrammars_of_compile` — the tables of a book of such grammars are even.
* `Parser.meets_parse_even` — the tree of a file is even.
* `Parser.balanced_of_isEven` — so it is with the tables of a book with balanced markers.
-/

namespace QueryLint

/-! ## 1. Grammars as they are written -/

/-- A marker with the condition that it is put in on. -/
abbrev MarkerPart := MarkerKind × Option (String × String)

/-- The markers that are put in when some conditions are met. -/
def enabledAmong (met : List (String × String)) (ms : List MarkerPart) : List MarkerKind :=
  (ms.filter fun m => m.2.all met.contains).map (·.1)

/-- Markers come back to where they began, whichever of their conditions are met. -/
def markersReturn (ms : List MarkerPart) : Bool :=
  (ms.filterMap (·.2)).sublists.all fun met => decide (Returns 0 (enabledAmong met ms))

namespace Grammar

/-- The marker that a grammar is. -/
def marker? : Grammar → Option MarkerPart
  | mk (.marker kind condition) _ _ _ _ _ => some (kind, condition)
  | _ => none

/-- A form whose parts are put one after the other, so that markers can stand among them. -/
def takesMarkers : GrammarForm → Bool
  | .sequence | .bracketed _ _ => true
  | _ => false

/-- A form that is no marker, and the markers among its parts are balanced. -/
def isEvenForm (parts : List Grammar) (form : GrammarForm) : Bool :=
  form.instructionKind != .marker &&
    (!takesMarkers form || markersReturn (parts.filterMap marker?))

mutual

/-- All markers in a grammar are balanced, whatever the settings. What ends it and what it excludes
is looked for and not put in. -/
def isEven : Grammar → Bool
  | mk form parts _ _ delimiter _ =>
    isEvenForm parts form && allEven (takesMarkers form) parts && isEvenOption delimiter

/-- The same for parts, of which some may be markers. -/
def allEven (markers : Bool) : List Grammar → Bool
  | [] => true
  | g :: rest => (markers && g.marker?.isSome || g.isEven) && allEven markers rest

/-- The same for a grammar that may be missing. -/
def isEvenOption : Option Grammar → Bool
  | none => true
  | some g => g.isEven

end

end Grammar

/-- All markers in a book are balanced, whatever the settings. -/
def GrammarBook.isEven (b : GrammarBook) : Bool := b.definitions.all (·.body.isEven)

/-! ## 2. Markers under the settings -/

/-- Markers that return whichever conditions are met do so under any settings. -/
theorem returns_of_markersReturn {ms : List MarkerPart} (h : markersReturn ms = true)
    (meets : String × String → Bool) :
    Returns 0 ((ms.filter fun m => m.2.all meets).map (·.1)) := by
  have met := List.all_eq_true.1 h ((ms.filterMap (·.2)).filter meets)
    (List.mem_sublists.2 List.filter_sublist)
  have same : ms.filter (fun m => m.2.all meets) =
      ms.filter fun m => m.2.all ((ms.filterMap (·.2)).filter meets).contains := by
    refine List.filter_congr fun m hm => ?_
    cases hcondition : m.2 with
    | none => rfl
    | some condition =>
      have hmem : condition ∈ ms.filterMap (·.2) := List.mem_filterMap.2 ⟨m, hm, hcondition⟩
      rw [Option.all_some, Option.all_some, Bool.eq_iff_iff, List.contains_iff_mem,
        List.mem_filter]
      simp [hmem]
  rw [same]
  exact of_decide_eq_true met

/-! ## 3. Tables of a book -/

namespace Tables

variable {b : GrammarBook} {t : Tables} {c : MatchContext}

/-- An instruction reads as a grammar with balanced markers, or as a reference. -/
def ReadsEven (t : Tables) (b : GrammarBook) (id : GrammarId) : Prop :=
  (∃ g : Grammar, g.isEven = true ∧ t.Reads b g id) ∨ ∃ name, t.ReadsReference b id name

theorem Reads.kind_eq_marker_iff {g : Grammar} {id : GrammarId} (h : t.Reads b g id) :
    (t.instruction id).kind = .marker ↔ g.marker?.isSome = true := by
  cases g with
  | mk form parts terminators exclude delimiter s =>
    unfold Reads at h
    rw [h.1.kind_eq]
    cases form <;> simp [GrammarForm.instructionKind, Grammar.marker?]

/-- A marker is put in if the settings meet its condition. -/
theorem Reads.enabledMarker?_eq (hc : c.tables = t) {g : Grammar} {id : GrammarId}
    (h : t.Reads b g id) {m : MarkerPart} (hm : g.marker? = some m) :
    c.enabledMarker? id =
      if m.2.all (fun kv => c.setting? kv.1 == some kv.2) then some m.1 else none := by
  cases g with
  | mk form parts terminators exclude delimiter s =>
    cases form with
    | marker kind condition =>
      cases hm
      unfold Reads at h
      have shape : t.shape id = .marker (some kind) condition := h.2.1
      unfold MatchContext.enabledMarker?
      rw [hc, shape]
      cases condition <;> simp
    | _ => cases hm

/-- The markers among the parts of a sequence are those of its grammar that the settings put in. -/
theorem ReadsAll.markersOf_eq (hc : c.tables = t) {gs : List Grammar} {ids : List GrammarId}
    (h : t.ReadsAll b gs ids) :
    c.markersOf ids = ((gs.filterMap Grammar.marker?).filter fun m =>
      m.2.all fun kv => c.setting? kv.1 == some kv.2).map (·.1) := by
  induction gs generalizing ids with
  | nil =>
    unfold ReadsAll at h
    rw [h]
    rfl
  | cons g gs ih =>
    unfold ReadsAll at h
    obtain ⟨id, more, rfl, -, hg, hmore⟩ := h
    have rest := ih hmore
    cases hm : g.marker? with
    | none =>
      have part : (c.tables.instruction id).kind ≠ .marker := by
        rw [hc, ne_eq, hg.kind_eq_marker_iff, hm]
        simp
      rw [MatchContext.markersOf_cons_part part, rest, List.filterMap_cons_none hm]
    | some m =>
      have marker : (c.tables.instruction id).kind = .marker := by
        rw [hc, hg.kind_eq_marker_iff, hm]
        rfl
      rw [MatchContext.markersOf_cons_marker marker, rest, hg.enabledMarker?_eq hc hm,
        List.filterMap_cons_some hm, List.filter_cons]
      split <;> rfl

/-- The parts of a grammar with balanced markers that are no markers are such grammars. -/
theorem ReadsAll.readsEven {markers : Bool} {gs : List Grammar} {ids : List GrammarId}
    (h : t.ReadsAll b gs ids) (heven : Grammar.allEven markers gs = true) :
    ∀ id ∈ ids, (markers = true → (t.instruction id).kind ≠ .marker) → t.ReadsEven b id := by
  induction gs generalizing ids with
  | nil =>
    unfold ReadsAll at h
    simp [h]
  | cons g gs ih =>
    unfold ReadsAll at h
    unfold Grammar.allEven at heven
    obtain ⟨id, more, rfl, -, hg, hmore⟩ := h
    rw [Bool.and_eq_true] at heven
    refine List.forall_mem_cons.2 ⟨fun hpart => .inl ⟨g, ?_, hg⟩, ih hmore heven.2⟩
    have own := heven.1
    rw [Bool.or_eq_true, Bool.and_eq_true] at own
    exact own.resolve_left fun ⟨hmarkers, hsome⟩ => hpart hmarkers (hg.kind_eq_marker_iff.2 hsome)

/-- The parts of a sequence with balanced markers. -/
theorem ReadsAll.evenParts (hc : c.tables = t) {gs : List Grammar} {ids : List GrammarId}
    (h : t.ReadsAll b gs ids) (hreturn : markersReturn (gs.filterMap Grammar.marker?) = true)
    (heven : Grammar.allEven true gs = true) : c.EvenParts (t.ReadsEven b) ids where
  parts id hid hpart := h.readsEven heven id hid fun _ => hc ▸ hpart
  markers := by
    rw [h.markersOf_eq hc]
    exact returns_of_markersReturn hreturn _

theorem ReadsOption.readsEven {g : Option Grammar} {id : GrammarId}
    (h : t.ReadsOption b g (some id)) (heven : Grammar.isEvenOption g = true) :
    t.ReadsEven b id := by
  cases g with
  | none =>
    unfold ReadsOption at h
    cases h
  | some g =>
    unfold ReadsOption at h
    unfold Grammar.isEvenOption at heven
    obtain ⟨id', hid, -, hg⟩ := h
    cases hid
    exact .inl ⟨g, heven, hg⟩

end Tables

namespace GrammarBook

open Tables

variable {b : GrammarBook} {t : Tables} {c : MatchContext}

/-- The brackets of compiled tables are references to the names in the book. -/
theorem readsReference_of_compile (hwhole : b.isWhole = true) (hb : b.weight < GrammarId.absent)
    (h : b.compile = .ok t) : ∀ p ∈ t.bracketPairs, ∃ q ∈ b.brackets,
      t.ReadsReference b p.opening q.opening ∧ t.ReadsReference b p.closing q.closing := by
  obtain ⟨-, d', hrun⟩ := run_compileSteps h
  obtain ⟨σ, d, pairs, root, laid, -, hfinish⟩ := laidOut_of_run hwhole hrun
  have filed := filed_of_run hfinish
  intro p hp
  rw [filed.finished.pairs_eq] at hp
  obtain ⟨q, hq, opening, closing⟩ := laid.pairs.inner p hp
  exact ⟨q, hq, filed.readsReference laid hb opening, filed.readsReference laid hb closing⟩

/-- The slot of a name in a book of grammars with balanced markers reads as one of them. -/
theorem readsEven_of_slot (hreads : b.ReadsBack t)
    (hfit : b.definitions.all (·.body.limitsFit) = true) (heven : b.isEven = true) {name : String}
    {n : Nat} (hn : b.slot? name = some n) : t.ReadsEven b ⟨n⟩ := by
  obtain ⟨x, hx, -⟩ := slot?_eq_some hn
  have mem := List.mem_of_getElem? hx
  exact .inl ⟨x.body, List.all_eq_true.1 heven x mem,
    hreads.body n x hx (List.all_eq_true.1 hfit x mem)⟩

/-- In the tables of a book with balanced markers, what reads as a grammar of the book names such
grammars and balanced markers, whatever the settings. -/
theorem namesEven_of_readsEven (hreads : b.ReadsBack t)
    (hfit : b.definitions.all (·.body.limitsFit) = true) (heven : b.isEven = true)
    (hc : c.tables = t) {id : GrammarId} (h : t.ReadsEven b id) :
    c.NamesEven (t.ReadsEven b) id := by
  unfold MatchContext.NamesEven
  rw [hc]
  rcases h with ⟨g, hg, hid⟩ | ⟨name, hid⟩
  · cases g with
    | mk form parts terminators exclude delimiter s =>
      unfold Grammar.isEven Grammar.isEvenForm at hg
      unfold Reads at hid
      simp only [Bool.and_eq_true, Bool.or_eq_true, Bool.not_eq_true'] at hg
      obtain ⟨⟨⟨hkind, hmarkers⟩, hparts⟩, hdelimiter⟩ := hg
      obtain ⟨-, shape, partsRead, -, -, delimiterRead⟩ := hid
      cases form with
      | ref name =>
        obtain ⟨n, hn, shape⟩ := shape
        rw [shape]
        exact readsEven_of_slot hreads hfit heven hn
      | sequence =>
        rw [show t.shape id = .sequence from shape]
        exact partsRead.evenParts hc (hmarkers.resolve_left (by simp [Grammar.takesMarkers])) hparts
      | oneOf =>
        rw [show t.shape id = .oneOf _ from shape]
        exact fun g hg => partsRead.readsEven hparts g hg (by simp [Grammar.takesMarkers])
      | anyNumberOf most perPart =>
        rw [show t.shape id = .anyNumberOf most perPart _ from shape]
        exact fun g hg => partsRead.readsEven hparts g hg (by simp [Grammar.takesMarkers])
      | delimited least =>
        have shape : t.shape id = .delimited (t.delimiter? id) least := shape
        have delimiterRead := delimiterRead rfl
        rw [shape]
        cases hd : t.delimiter? id with
        | none => trivial
        | some d =>
          rw [hd] at delimiterRead
          exact ⟨delimiterRead.readsEven hdelimiter,
            fun g hg => partsRead.readsEven hparts g hg (by simp [Grammar.takesMarkers])⟩
      | bracketed type persists =>
        obtain ⟨pair, opening, closing, -, shape, openingRead, closingRead⟩ := shape
        rw [shape]
        exact ⟨.inr ⟨_, openingRead⟩, .inr ⟨_, closingRead⟩,
          partsRead.evenParts hc (hmarkers.resolve_left (by simp [Grammar.takesMarkers])) hparts⟩
      | marker kind condition => simp [GrammarForm.instructionKind] at hkind
      | pattern text anti type =>
        obtain ⟨p, a, -, -, shape⟩ := shape
        rw [shape]
        trivial
      | string | multiString | typed | nothing | anything | token | missing =>
        rw [show t.shape id = _ from shape]
        trivial
  · obtain ⟨n, hn, shape⟩ := hid.shape
    rw [shape]
    exact readsEven_of_slot hreads hfit heven hn

/-- The grammars of a book with balanced markers are even in its tables, whatever the settings. -/
theorem evenGrammars_of_compile (hwhole : b.isWhole = true) (hb : b.weight < GrammarId.absent)
    (hfit : b.definitions.all (·.body.limitsFit) = true) (heven : b.isEven = true)
    (h : b.compile = .ok t) (hc : c.tables = t) : c.EvenGrammars (t.ReadsEven b) where
  names id hid :=
    namesEven_of_readsEven ((compile_reads b hwhole hb).2 t h) hfit heven hc hid
  brackets p hp := by
    rw [hc] at hp
    obtain ⟨q, -, opening, closing⟩ := readsReference_of_compile hwhole hb h p hp
    exact ⟨.inr ⟨_, opening⟩, .inr ⟨_, closing⟩⟩

/-- The root of such a book is one of these grammars. -/
theorem readsEven_root (hwhole : b.isWhole = true) (hb : b.weight < GrammarId.absent)
    (hfit : b.definitions.all (·.body.limitsFit) = true) (heven : b.isEven = true)
    (h : b.compile = .ok t) : t.ReadsEven b t.root := by
  obtain ⟨-, d', hrun⟩ := run_compileSteps h
  obtain ⟨σ, d, pairs, root, laid, hroot, hfinish⟩ := laidOut_of_run hwhole hrun
  rw [(filed_of_run hfinish).root_eq]
  exact readsEven_of_slot ((compile_reads b hwhole hb).2 t h) hfit heven hroot

end GrammarBook

end QueryLint

namespace QueryLint

open Segment (IsLexed)

namespace Parser

/-! ## 4. Parsed trees -/

variable {p : Parser} {tokens : List Segment} {n : Nat}

theorem follows_even (h : IsLexed n tokens) :
    Follows n tokens fun ss _ => Segment.Even n ss where
  tokens hts := .of_isLexed (h.sublist hts)
  append := .append
  unparsable _ _ _ := (Segment.meets_branch_nodeOver _ _ _).mono fun _ hs =>
    .inl hs.hasUnparsable_self

variable (p) in
/-- The tree of a file is even if its grammar is one of a set of even ones. -/
theorem meets_parse_even (h : IsLexed n tokens) {P : GrammarId → Prop}
    (hP : (p.context tokens).EvenGrammars P) (hroot : P p.dialect.root) :
    Meets (n ≤ ·) (p.parse tokens) fun r => Segment.Even n [r.tree] := by
  have claims : (p.context tokens).Claims False False (p.lastCode tokens) (p.firstCode tokens)
      (p.rootMatch tokens) := claims_rootMatch False.elim False.elim
  have even : (p.rootMatch tokens).Even :=
    ((MatchContext.even_matchGrammar hP (p.maxDepth + 1)).2 [] (p.lastCode tokens)
      (p.firstCode tokens) p.dialect.root hroot {} .initial).1
  exact meets_parse_of p tokens (D := fun s => Segment.Even n [s]) (follows_even h)
    (fun _ _ =>
      (Match.meets_apply_even (by simpa using h) claims.tidy even).mono fun _ hss => hss.1)
    fun ss hss => (Segment.meets_branch_nodeOver _ _ _).mono fun s hs => hs.even rfl hss

/-- If the markers in a book are balanced, those that parsing inserts are so in every node of every
tree without anything unparsable, whatever the settings. -/
theorem balanced_of_isEven {b : GrammarBook} (hwhole : b.isWhole = true)
    (hb : b.weight < GrammarId.absent) (hfit : b.definitions.all (·.body.limitsFit) = true)
    (heven : b.isEven = true) (hbook : b.compile = .ok p.dialect.tables) (hlex : IsLexed n tokens)
    (hclean : ∀ x ∈ ((p.parse tokens).run n).1.tree.nodes, x.isUnparsable = false) :
    ∀ x ∈ ((p.parse tokens).run n).1.tree.nodes, Balanced (Segment.steps n [x]) := by
  have grammars : (p.context tokens).EvenGrammars (p.dialect.tables.ReadsEven b) :=
    GrammarBook.evenGrammars_of_compile hwhole hb hfit heven hbook rfl
  have root := GrammarBook.readsEven_root hwhole hb hfit heven hbook
  have even : Segment.Even n [((p.parse tokens).run n).1.tree] :=
    (meets_parse_even p hlex grammars root n (Nat.le_refl n)).1
  have whole : Segment.nodesAll [((p.parse tokens).run n).1.tree] =
      ((p.parse tokens).run n).1.tree.nodes := by simp
  rw [Segment.Even, Segment.HasUnparsable, whole] at even
  refine (even.resolve_left ?_).2
  rintro ⟨x, hx, hun⟩
  rw [hclean x hx] at hun
  cases hun

/-- A word with an indented one after it, which may be left out. -/
def indentBook : GrammarBook where
  root := "Root"
  definitions := [
    .segment "Root" "root" (.seq [.keyword "a", .indent, (Grammar.keyword "b").optional,
      .conditional .implicitIndent "deep" "true", .conditional .dedent "deep" "true", .dedent])]

/-- Both markers are there, whether the word between them is or not. -/
example : indentBook.isEven = true ∧
    Segment.steps 2 [(((ofBook indentBook).parse (wordTokens 0 0 ["a", "b"])).run 2).1.tree] =
      [1, -1] ∧
    Segment.steps 1 [(((ofBook indentBook).parse (wordTokens 0 0 ["a"])).run 1).1.tree] =
      [1, -1] := by decide +kernel

end Parser

end QueryLint
