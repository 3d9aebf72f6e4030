import QueryLint.Proofs.Fix.Described
import QueryLint.Proofs.Segment.Renamed

/-!
QueryLint.Proofs.Parse.Whole — the tree of a file is all of its templated text.

A tree that reaches over the whole templated text and has that for its own text differs from it
nowhere, so it has no patches and its source is the source of the file. Parsing makes such a tree
wherever it takes up all tokens: they tile the templated text, and every other segment is a marker.

* `draws_lex` — the tokens of a file have identities that were drawn for them.
* `Parser.raw_parse` — the text of a parsed tree is the templated text.
* `Parser.fixString_parse` — its source is the source of the file.
-/

namespace QueryLint

open Segment

variable {n m : Nat} {lexed : Lexed}

/-! ## 1. Tokens of a file -/

namespace Segment

variable {ts us : List Segment}

theorem IsLexed.mono (h : IsLexed n ts) (hnm : n ≤ m) : IsLexed m ts :=
  { h with id_lt := fun t ht => Nat.lt_of_lt_of_le (h.id_lt t ht) hnm }

theorem isLexed_append (h : IsLexed n ts) (h' : IsLexed n us) : IsLexed n (ts ++ us) where
  isLeaf := List.forall_mem_append.2 ⟨h.isLeaf, h'.isLeaf⟩
  placed := List.forall_mem_append.2 ⟨h.placed, h'.placed⟩
  id_lt := List.forall_mem_append.2 ⟨h.id_lt, h'.id_lt⟩

theorem isLexed_flatten {tss : List (List Segment)} (h : ∀ ts ∈ tss, IsLexed n ts) :
    IsLexed n tss.flatten := by
  induction tss with
  | nil => exact ⟨by simp, by simp, by simp⟩
  | cons ts tss ih =>
    obtain ⟨hts, hrest⟩ := List.forall_mem_cons.1 h
    rw [List.flatten_cons]
    exact isLexed_append hts (ih hrest)

/-- What is changed about tokens but for their kind, their place and their identity. -/
theorem isLexed_map {change : Segment → Segment} (h : IsLexed n ts)
    (same : ∀ t, t.isLeaf = true → (change t).isLeaf = true ∧ (change t).position = t.position ∧
      (change t).id = t.id) : IsLexed n (ts.map change) := by
  constructor
  all_goals
    intro t ht
    obtain ⟨u, hu, rfl⟩ := List.mem_map.1 ht
    obtain ⟨leaf, position, id⟩ := same u (h.isLeaf u hu)
  · exact leaf
  · rw [position]
    exact h.placed u hu
  · rw [id]
    exact h.id_lt u hu

theorem isLexed_indentBlocks (h : IsLexed n ts) (b : Bool) : IsLexed n (indentBlocks ts b) := by
  cases b with
  | true => exact h
  | false =>
    refine isLexed_map h fun t ht => ?_
    split
    · unfold withIndentation
      split
      · exact ⟨rfl, rfl, rfl⟩
      · exact ⟨ht, rfl, rfl⟩
    · exact ⟨ht, rfl, rfl⟩

/-- A token or a marker that is made with a position. -/
theorem draws_leaf {k : SegmentKind} (type : String) (types : List String) (p : Position)
    (hk : k.isLeaf = true) :
    Draws n (fun m s => IsLexed m [s])
      (do return mk ⟨k, type, types, ← freshId, some p, []⟩ []) := by
  refine Draws.freshId.map fun m i _ hi => ⟨?_, ?_, ?_⟩
  all_goals rw [List.forall_mem_singleton]
  · exact hk
  · rfl
  · exact hi

end Segment

variable {f : TemplatedFile}

theorem draws_markup (s : RenderedSlice) : Draws n IsLexed (f.markup s) := by
  unfold TemplatedFile.markup
  refine (draws_leaf _ _ _ rfl).bind fun m whole _ hwhole => ?_
  split
  · exact (draws_leaf _ _ _ rfl).map fun k x hk hx => isLexed_append (hwhole.mono hk) hx
  · exact (draws_leaf _ _ _ rfl).map fun k x hk hx => isLexed_append hx (hwhole.mono hk)
  · exact .pure fun k hk => hwhole.mono hk

theorem draws_segments (x : Piece) : Draws n IsLexed (x.segments f) := by
  cases x with
  | markup s => exact draws_markup s
  | text start l => exact (draws_leaf _ _ _ rfl).map fun _ _ _ h => h

/-- The tokens of a file have positions, and identities that were drawn for them. -/
theorem draws_lex (rules : List LexRule) (blocks : BlocksIndent) (f : TemplatedFile) :
    Draws n (fun m l => IsLexed m l.segments) (lex rules blocks f) := by
  unfold lex
  refine (Draws.mapM _ (fun x _ m _ => draws_segments x) fun hm h => h.mono hm).bind
    fun m woven hm hwoven => ?_
  refine (draws_leaf _ _ _ rfl).map fun k last hk hlast => isLexed_indentBlocks ?_ _
  exact isLexed_append ((isLexed_flatten hwoven).mono hk) hlast

/-- The text of a file is that of its tokens without the markers. -/
theorem rawAll_textTokens (ss : List Segment) : rawAll (textTokens ss) = rawAll ss := by
  induction ss with
  | nil => rfl
  | cons s ss ih =>
    unfold textTokens at ih ⊢
    rw [List.filter_cons]
    cases hs : s.isMarker with
    | false => simp [rawAll, ih]
    | true =>
      have noText : s.raw = "" := raw_of_isInserted (n := 0) (by simp [isInserted, hs])
      simp [rawAll, ih, noText]

/-- What the tokenizer made of a file are tokens with identities that were drawn for them. -/
theorem isLexed_of_lex {rules : List LexRule} {blocks : BlocksIndent}
    (hlex : (lex rules blocks f).run n = (lexed, m)) : IsLexed m lexed.segments := by
  have drawn := (draws_lex rules blocks f n (Nat.le_refl n)).2
  rwa [hlex] at drawn

/-- Their text is the templated text. -/
theorem rawAll_of_lex {rules : List LexRule} {blocks : BlocksIndent}
    (hlex : (lex rules blocks f).run n = (lexed, m)) : rawAll lexed.segments = f.templated := by
  have text := (tiles_lex rules blocks f n).rawAll_eq
  rwa [rawAll_textTokens, hlex] at text

/-! ## 2. Trees of the whole text -/

/-- A tree that reaches over the whole templated text and has that for its text has no patches. -/
theorem patches_eq_nil {tree : Segment} {P : Position} (hplain : tree.IsPlain)
    (hP : tree.position = some P) (hstart : P.templated.start = 0)
    (hstop : P.templated.stop = f.length) (hraw : tree.raw = f.templated) :
    tree.patches f = [] := by
  have whole : P.templated.text? f.templated = some tree.raw := by
    rw [Span.text?, hstart, hstop, hraw]
    exact TemplatedFile.slice?_whole _
  cases tree with
  | mk i cs =>
    have position : i.position = some P := hP
    have fixes : (mk i cs).sourceFixes = [] := hplain
    rw [Segment.patches, position]
    simp [whole, fixes]

/-- A tree without patches has the source of its file. -/
theorem fixString_of_patches {tree : Segment} (h : tree.patches f = []) :
    fixedSource f tree = f.source ∧ fixString f tree = (f.source, false) := by
  have same : fixedSource f tree = f.source := by
    unfold fixedSource sourcePatches
    rw [h]
    simp [Patch.allSafe]
  refine ⟨same, ?_⟩
  unfold fixString
  simp [same]

namespace Parser

section
variable {p : Parser} {book : GrammarBook} (hbook : book.compile = .ok p.dialect.tables)
  (hprompt : p.dialect.tables.IsPrompt) (hclose : p.dialect.tables.ClosersTakeOneToken)
  (rules : List LexRule) (blocks : BlocksIndent) (f : TemplatedFile)
include hbook hprompt hclose

/-- The text of a parsed tree is the templated text. -/
theorem raw_parse (hlex : (lex rules blocks f).run n = (lexed, m)) :
    ((p.parse lexed.segments).run m).1.tree.raw = f.templated := by
  have isLexed := isLexed_of_lex hlex
  have text := rawAll_of_lex hlex
  have brackets := GrammarBook.exactBrackets_of_compile hbook hclose
    (rfl : (p.context lexed.segments).tables = p.dialect.tables)
  have kept := (meets_parse p lexed.segments isLexed brackets m (Nat.le_refl m)).1.keepsTokens
  have all : p.resumed lexed.segments = p.firstCode lexed.segments :=
    resumed_eq_firstCode_iff.2 fun _ => start_rootMatch hprompt
  rw [all, List.take_append_drop] at kept
  exact kept.raw.trans text

/-- The source of a parsed tree is the source of its file. -/
theorem fixString_parse (hlex : (lex rules blocks f).run n = (lexed, m)) :
    fixedSource f ((p.parse lexed.segments).run m).1.tree = f.source ∧
      fixString f ((p.parse lexed.segments).run m).1.tree = (f.source, false) := by
  have tokens : lexed.segments = ((lex rules blocks f).run n).1.segments := by rw [hlex]
  have all : p.resumed lexed.segments = p.firstCode lexed.segments :=
    resumed_eq_firstCode_iff.2 fun _ => start_rootMatch hprompt
  have raw := raw_parse hbook hprompt hclose rules blocks f hlex
  obtain ⟨P, hP, hstart, hstop⟩ := span_parse p rules blocks f n m tokens all
  have plain : ((p.parse lexed.segments).run m).1.tree.IsPlain := by
    rw [tokens]
    exact isPlain_parse p rules blocks f n m
  exact fixString_of_patches (patches_eq_nil plain hP hstart hstop raw)

end

end Parser

end QueryLint
