import QueryLint.Proofs.Segment.Balance
import QueryLint.Proofs.Template.Rendered
import QueryLint.Proofs.Token.Tiling

/-!
QueryLint.Proofs.Token.Balance — blocks of markup indent what is in them, and no more.

An opening tag makes one step of the indentation and its end takes it back. A template nests, and
rendering keeps the nesting: a part that is rendered comes with its tag and its end, whether the
parts between them are rendered once, again and again, or not at all. Rendered slices become
markers in their order, wherever the tags lie in the tokens around them. So the markers of a file
that came out of a template are balanced, and the tokenizer always lets its blocks indent.

* `SliceKind.steps` — the steps of the indentation that the markers of a slice make.
* `Segment.blockSteps` — the steps that the markers of markup among some segments make.
* `meets_lex_blockSteps` — they are those of the points of markup, in order.
* `Block.IsEven` — a part is rendered to balanced slices.
* `balanced_lex` — the markers of a template are balanced.
-/

namespace QueryLint

open Text Markup Block

variable {n : Nat} {f : TemplatedFile}

/-! ## 1. Markers of markup -/

/-- The steps of the indentation that the markers of a slice make. -/
def SliceKind.steps : SliceKind → List Int
  | .blockStart => [0, 1]
  | .blockEnd => [-1, 0]
  | .literal | .templated | .comment => [0]

namespace Segment

/-- The steps of the indentation that the markers of markup among some segments make. -/
def blockSteps (ss : List Segment) : List Int :=
  (ss.filter (·.isTemplateMarker)).map (·.indentation)

@[simp] theorem blockSteps_append (ss ts : List Segment) :
    blockSteps (ss ++ ts) = blockSteps ss ++ blockSteps ts := by
  simp [blockSteps]

theorem blockBalance_eq_sum (ss : List Segment) : blockBalance ss = (blockSteps ss).sum :=
  (List.sum_eq_foldl ..).symm

end Segment

open Segment

namespace Piece

/-- The markup of a piece, if it is markup. -/
def markup? : Piece → Option RenderedSlice
  | text _ _ => none
  | markup s => some s

@[simp] theorem filterMap_markup?_text (start : Nat) (l : Lexeme) (pieces : List Piece) :
    (text start l :: pieces).filterMap markup? = pieces.filterMap markup? := rfl

@[simp] theorem filterMap_markup?_markup (s : RenderedSlice) (pieces : List Piece) :
    (markup s :: pieces).filterMap markup? = s :: pieces.filterMap markup? := rfl

@[simp] theorem filterMap_markup?_ofLexeme (start : Nat) (l : Lexeme) :
    (ofLexeme start l).filterMap markup? = [] := by
  unfold ofLexeme
  split <;> rfl

@[simp] theorem filterMap_markup?_map (points : List RenderedSlice) :
    (points.map markup).filterMap markup? = points := by
  simp [List.filterMap_map, Function.comp_def, markup?]

/-- A lexeme is woven with the first of the points. -/
theorem filterMap_markup?_weaveLexeme (l : Lexeme) (start : Nat) (points : List RenderedSlice) :
    (weaveLexeme l start points).1.filterMap markup? ++ (weaveLexeme l start points).2 =
      points := by
  fun_induction weaveLexeme l start points with
  | case1 l start => simp
  | case2 l start p ps h => simp
  | case3 l start p ps hlt front back hsplit pieces left hleft ih =>
    rw [hleft] at ih
    simp only [List.filterMap_append, filterMap_markup?_ofLexeme, filterMap_markup?_markup,
      List.nil_append, List.cons_append, ih]

/-- Weaving brings in all points, in order. -/
theorem filterMap_markup?_weave (start : Nat) (points : List RenderedSlice) (ls : List Lexeme) :
    (weave start points ls).filterMap markup? = points := by
  induction ls generalizing start points with
  | nil => rw [weave, filterMap_markup?_map]
  | cons l ls ih => rw [weave, List.filterMap_append, ih, filterMap_markup?_weaveLexeme]

/-- The steps of the indentation that the segments of a piece make. -/
def steps : Piece → List Int
  | text _ _ => []
  | markup s => s.kind.steps

/-- Only markup makes steps. -/
theorem flatMap_steps (pieces : List Piece) :
    pieces.flatMap steps = (pieces.filterMap markup?).flatMap (·.kind.steps) := by
  induction pieces with
  | nil => rfl
  | cons x pieces ih => cases x <;> simp [steps, ih]

end Piece

/-- The markers of markup make the steps of its kind. -/
theorem meets_markup_blockSteps (f : TemplatedFile) (p : RenderedSlice) :
    Meets (n ≤ ·) (f.markup p) fun ss => blockSteps ss = p.kind.steps := by
  have marker (k : MarkerKind) (source : String) (block : SliceKind) (q : Option Position) :
      Meets (n ≤ ·) (Segment.templateMarker k source block q)
        (fun s => blockSteps [s] = [k.indentation]) :=
    meets_freshId.bind fun _ _ => .pure rfl
  unfold TemplatedFile.markup
  refine (marker _ _ _ _).bind fun whole hwhole => ?_
  cases p.kind with
  | blockStart =>
    refine (marker _ _ _ _).bind fun x hx => .pure ?_
    exact (blockSteps_append [whole] [x]).trans (by rw [hwhole, hx]; rfl)
  | blockEnd =>
    refine (marker _ _ _ _).bind fun x hx => .pure ?_
    exact (blockSteps_append [x] [whole]).trans (by rw [hwhole, hx]; rfl)
  | literal | templated | comment => exact .pure hwhole

theorem meets_segments_blockSteps (x : Piece) :
    Meets (n ≤ ·) (x.segments f) fun ss => blockSteps ss = x.steps := by
  cases x with
  | markup s => exact meets_markup_blockSteps f s
  | text start l =>
    exact (meets_freshId.bind fun _ _ => .pure rfl :
      Meets (n ≤ ·) (Segment.token _ _ _ _) fun s => blockSteps [s] = []).bind fun _ hs => .pure hs

theorem meets_mapM_segments_blockSteps (pieces : List Piece) :
    Meets (n ≤ ·) (pieces.mapM (·.segments f)) fun woven =>
      blockSteps woven.flatten = pieces.flatMap Piece.steps := by
  induction pieces with
  | nil => exact .pure rfl
  | cons x pieces ih =>
    rw [List.mapM_cons]
    refine (meets_segments_blockSteps x).bind fun ss hss => ih.bind fun later hlater => .pure ?_
    rw [List.flatten_cons, blockSteps_append, hss, hlater, List.flatMap_cons]

/-- The blocks of a file indent if its points are balanced, and then its markers make the steps of
its points, in order. -/
theorem meets_lex_blockSteps (rules : List LexRule)
    (h : (f.points.flatMap (·.kind.steps)).sum = 0) :
    Meets (n ≤ ·) (lex rules .enabled f) fun l =>
      l.blocksIndent = true ∧ blockSteps l.segments = f.points.flatMap (·.kind.steps) := by
  unfold lex
  refine (meets_mapM_segments_blockSteps _).bind fun woven hwoven =>
    (meets_freshId.bind fun _ _ => .pure rfl :
      Meets (n ≤ ·) f.endMarker fun s => blockSteps [s] = []).bind fun last hlast => .pure ?_
  have made : blockSteps (woven.flatten ++ [last]) = f.points.flatMap (·.kind.steps) := by
    rw [blockSteps_append, hwoven, hlast, List.append_nil, TemplatedFile.pieces,
      Piece.flatMap_steps, Piece.filterMap_markup?_weave]
  have holds : BlocksIndent.enabled.holds (woven.flatten ++ [last]) = true := by
    rw [BlocksIndent.holds, blockBalance_eq_sum, made, h]
    rfl
  exact ⟨holds, by rw [holds]; exact made⟩

/-- The tokens are the same whatever is asked of the blocks, but for the indentation. -/
theorem exists_run_lex (rules : List LexRule) (f : TemplatedFile) (n : Nat) :
    ∃ segments errors stop, ∀ blocks, (lex rules blocks f).run n =
      (⟨indentBlocks segments (blocks.holds segments), errors, blocks.holds segments⟩, stop) :=
  ⟨_, _, _, fun _ => rfl⟩

/-- Where the blocks indent, it does not matter whether they have to. -/
theorem run_lex_enabled {rules : List LexRule}
    (h : ((lex rules .enabled f).run n).1.blocksIndent = true) :
    (lex rules .enabled f).run n = (lex rules .force f).run n := by
  obtain ⟨segments, errors, stop, hrun⟩ := exists_run_lex rules f n
  rw [hrun] at h
  have same : BlocksIndent.enabled.holds segments = BlocksIndent.force.holds segments := h
  rw [hrun, hrun, same]

/-! ## 2. Rendered slices -/

namespace Block

/-- The steps of the indentation that rendered slices make from an offset on. -/
def stepsFrom (offset : Nat) (xs : List (RawSlice × String)) : List Int :=
  ((layOut offset xs).filter fun s => s.templated.isEmpty && !s.source.isEmpty).flatMap
    (·.kind.steps)

theorem stepsFrom_append (offset : Nat) (xs ys : List (RawSlice × String)) :
    stepsFrom offset (xs ++ ys) =
      stepsFrom offset xs ++ stepsFrom (offset + byteCount (textOf xs)) ys := by
  simp [stepsFrom, layOut_append]

/-- A slice that renders no text makes the steps of its kind, if it stands for something. -/
theorem stepsFrom_markup (offset : Nat) {s : RawSlice} (h : s.text ≠ "") :
    stepsFrom offset [(s, "")] = s.kind.steps := by
  have width : s.text.utf8ByteSize ≠ 0 := by simpa using h
  have solid : s.span.isEmpty = false := by
    rw [← Bool.not_eq_true, Span.isEmpty_iff]
    show s.start ≠ s.start + s.text.utf8ByteSize
    omega
  have point : (⟨offset, offset + "".utf8ByteSize, Nat.le_add_right _ _⟩ : Span).isEmpty = true :=
    (Span.isEmpty_iff _).2 rfl
  rw [stepsFrom, layOut, layOut, List.filter_cons_of_pos (by rw [point, solid]; rfl)]
  exact List.append_nil _

/-- Rendered slices that make balanced steps wherever they are laid out. -/
def EvenSlices (xs : List (RawSlice × String)) : Prop := ∀ offset, Balanced (stepsFrom offset xs)

/-- However it is rendered, a part is rendered to balanced slices. -/
def IsEven (b : Block) : Prop := ∀ scope, EvenSlices (render scope b)

namespace EvenSlices

variable {xs ys : List (RawSlice × String)}

theorem nil : EvenSlices [] := fun _ => .nil

theorem append (hx : EvenSlices xs) (hy : EvenSlices ys) : EvenSlices (xs ++ ys) := fun offset => by
  rw [stepsFrom_append]
  exact (hx offset).append (hy _)

theorem flatMap {α : Type} {items : List α} {g : α → List (RawSlice × String)}
    (h : ∀ item ∈ items, EvenSlices (g item)) : EvenSlices (items.flatMap g) := by
  induction items with
  | nil => exact nil
  | cons item items ih =>
    obtain ⟨first, rest⟩ := List.forall_mem_cons.1 h
    rw [List.flatMap_cons]
    exact first.append (ih rest)

/-- A slice that opens no block and ends none changes nothing. -/
theorem single {s : RawSlice} (hstart : s.kind ≠ .blockStart) (hend : s.kind ≠ .blockEnd)
    (text : String) : EvenSlices [(s, text)] := fun offset => by
  have none : s.kind.steps = [0] := by
    cases hkind : s.kind <;> simp_all [SliceKind.steps]
  rw [stepsFrom, layOut, layOut, List.filter_cons]
  split
  · show Balanced (s.kind.steps ++ [])
    rw [none]
    exact .zero
  · exact .nil

/-- A block that opens and ends is balanced if what is in it is. -/
theorem block (h : EvenSlices xs) {opening closing : RawSlice} (hopening : opening.text ≠ "")
    (hclosing : closing.text ≠ "") (hstart : opening.kind = .blockStart)
    (hend : closing.kind = .blockEnd) :
    EvenSlices ((opening, "") :: xs ++ [(closing, "")]) := fun offset => by
  rw [← List.singleton_append, stepsFrom_append, stepsFrom_append, stepsFrom_markup _ hopening,
    stepsFrom_markup _ hclosing, hstart, hend]
  have inside := h (offset + byteCount (textOf [(opening, "")]))
  have around := Balanced.zero.append (inside.indent.append .zero)
  simpa [SliceKind.steps] using around

theorem renderAll {bs : List Block} (h : ∀ b ∈ bs, b.IsEven) (scope : Scope) :
    EvenSlices (renderAll scope bs) := by
  induction bs with
  | nil => exact nil
  | cons b bs ih =>
    obtain ⟨first, rest⟩ := List.forall_mem_cons.1 h
    exact (first scope).append (ih rest)

end EvenSlices

/-- Nesting marks that have text makes parts that are rendered to balanced slices. -/
theorem keptByNesting_isEven :
    KeptByNesting (fun m => m.Agrees ∧ m.slice.text ≠ "") IsEven where
  leaf hm h scope := by
    obtain ⟨hstart, hend, text, hrender, -⟩ := render_leaf? hm.1 h scope
    rw [hrender]
    exact .single hstart hend text
  close ho hc hparts h scope := by
    obtain ⟨hstart, hend, scopes, hrender⟩ := render_close? ho.1 hc.1 h scope
    rw [hrender]
    refine .block (.flatMap fun inner _ => .renderAll (fun c hc => ?_) inner) ho.2 hc.2 hstart hend
    exact hparts c (List.mem_reverse.1 hc)

end Block

/-! ## 3. Files of templates -/

variable {values : List (String × String)} {source name : String}

theorem balanced_points (h : (Templater.placeholder values).process source name = .ok f) :
    Balanced (f.points.flatMap (·.kind.steps)) := by
  obtain ⟨ms, bs, hr⟩ := Templater.exists_renders h
  have even := keptByNesting_isEven.forall_of_ofMarks hr.agrees hr.nest_eq
  rw [TemplatedFile.points, hr.slices_eq]
  exact EvenSlices.renderAll even values 0

/-- The markers of the blocks of a template make the steps of the rendered tags in order, and are
balanced: no first few of them sum to less than zero, and all of them to zero. So the blocks indent
unless they are asked not to, as if they had to. -/
theorem balanced_lex (rules : List LexRule)
    (h : (Templater.placeholder values).process source name = .ok f) (n : Nat) :
    let lexed := ((lex rules .enabled f).run n).1
    blockSteps lexed.segments = f.points.flatMap (·.kind.steps) ∧
      Balanced (blockSteps lexed.segments) ∧ lexed.blocksIndent = true ∧
      (lex rules .enabled f).run n = (lex rules .force f).run n := by
  have balanced := balanced_points h
  obtain ⟨indent, steps⟩ := (meets_lex_blockSteps rules balanced.sum_eq n (Nat.le_refl n)).1
  exact ⟨steps, steps ▸ balanced, indent, run_lex_enabled indent⟩

/-- A loop over two items around a condition, which holds for the first of them. -/
def nestedSource : String :=
  "\x7b% for i in a, 0 %\x7d\x7b% if i %\x7dx\x7b% endif %\x7d\x7b% endfor %\x7d"

/-- The file of the template: both passes have their condition, one of them with its text. -/
def nestedFile : TemplatedFile := rendered [] nestedSource

theorem steps_nestedFile :
    ((Templater.placeholder []).process nestedSource "").isOk = true ∧
      nestedFile.points.flatMap (·.kind.steps) = [0, 1, 0, 1, -1, 0, 0, 1, -1, 0, -1, 0] := by
  decide +kernel

/-- The loop indents both passes, and the condition in each of them indents once more. -/
theorem balanced_lex_nested :
    (Templater.placeholder []).process nestedSource "" = .ok nestedFile ∧
      blockSteps ((lex [] .enabled nestedFile).run 0).1.segments =
        [0, 1, 0, 1, -1, 0, 0, 1, -1, 0, -1, 0] ∧
      ((lex [] .enabled nestedFile).run 0).1.blocksIndent = true := by
  have hfile := process_eq_rendered steps_nestedFile.1
  obtain ⟨steps, -, indent, -⟩ := balanced_lex [] hfile 0
  exact ⟨hfile, steps.trans steps_nestedFile.2, indent⟩

end QueryLint
