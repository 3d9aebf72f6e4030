import QueryLint.Proofs.Template.Rendered

/-!
QueryLint.Proofs.Template.Consistent — what the templater hands over.

A file is made only of slices that tile its texts, and the check that they do could refuse them. It
never refuses those of a template: the raw slices are cut from the source one after the other, and
the rendered slices are laid out one after the other. A template is refused for its tags alone, for
what one of them says or for the way they nest.

What the check does not ask is told here as well: which raw slice a rendered slice comes from, that
literal text is the same in both texts, that tags and comments take no room in the templated text,
and that the tags of the source nest.

* `RawSlice.Nested` — every opening tag has its own end.
* `Markup.nested_of_ofMarks` — marks that can be nested do nest.
* `TemplatedFile.IsConsistent` — a file whose slices are what they should be.
* `Templater.process_isConsistent` — the templater makes no other files.
-/

namespace QueryLint

open Text Markup Block

/-! ## 1. Tags that nest -/

namespace RawSlice

/-- An opening tag and the end for it. -/
structure Pairs (opening closing : RawSlice) : Prop where
  opens : opening.kind = .blockStart
  closes : closing.kind = .blockEnd
  words : ∃ word, opening.tag = some word ∧ closing.tag = some ("end" ++ word)

/-- Tags nest: every opening tag has its own end, and the tags between the two nest. -/
inductive Nested : List RawSlice → Prop where
  | nil : Nested []
  | leaf {s : RawSlice} {rest : List RawSlice} (hs : s.kind ≠ .blockStart)
      (he : s.kind ≠ .blockEnd) (h : Nested rest) : Nested (s :: rest)
  | block {opening closing : RawSlice} {body rest : List RawSlice} (h : Pairs opening closing)
      (hbody : Nested body) (hrest : Nested rest) :
      Nested (opening :: (body ++ closing :: rest))

/-- Slices that hold the ends of tags that are open, innermost first, and nest but for these. -/
inductive Ends : List RawSlice → List RawSlice → Prop where
  | nested {ss : List RawSlice} (h : Nested ss) : Ends [] ss
  | close {opening closing : RawSlice} {open_ body rest : List RawSlice}
      (h : Pairs opening closing) (hbody : Nested body) (hrest : Ends open_ rest) :
      Ends (opening :: open_) (body ++ closing :: rest)

namespace Ends

variable {s : RawSlice} {open_ ss : List RawSlice}

theorem leaf (hs : s.kind ≠ .blockStart) (he : s.kind ≠ .blockEnd) (h : Ends open_ ss) :
    Ends open_ (s :: ss) := by
  cases h with
  | nested h => exact .nested (.leaf hs he h)
  | close hpair hbody hrest => exact .close hpair (.leaf hs he hbody) hrest

/-- A tag is closed by the first end that is open behind it. -/
theorem opening (h : Ends (s :: open_) ss) : Ends open_ (s :: ss) := by
  cases h with
  | @close _ _ _ body rest hpair hbody hrest =>
    cases hrest with
    | nested hrest => exact .nested (.block hpair hbody hrest)
    | @close _ _ _ body' rest' hpair' hbody' hrest' =>
      have whole := Ends.close hpair' (.block hpair hbody hbody') hrest'
      rwa [List.cons_append, List.append_assoc, List.cons_append] at whole

end Ends

end RawSlice

open RawSlice

namespace Markup

/-- A tag and the end that closes it pair. -/
theorem pairs_of_close? {opening closing : Marked} {parts : List Block} {b : Block}
    (ho : opening.Agrees) (hc : closing.Agrees) (h : close? opening parts closing = some b) :
    Pairs opening.slice closing.slice := by
  unfold close? at h
  split at h
  · next hopening hclosing =>
    refine ⟨ho.kind_eq.trans ?_, hc.kind_eq.trans ?_, "if", ho.tag_eq.trans ?_, hc.tag_eq.trans ?_⟩
    all_goals simp [hopening, hclosing, Mark.kind, Mark.keyword?]
  · next hopening hclosing =>
    refine ⟨ho.kind_eq.trans ?_, hc.kind_eq.trans ?_, "for", ho.tag_eq.trans ?_, hc.tag_eq.trans ?_⟩
    all_goals simp [hopening, hclosing, Mark.kind, Mark.keyword?]
  · cases h

/-- Marks that can be nested hold the ends of the tags that wait. -/
theorem ends_of_nest {waiting : List Pending} {parts bs : List Block} {ms : List Marked}
    (hwaiting : ∀ w ∈ waiting, w.opening.Agrees) (hms : ∀ m ∈ ms, m.Agrees)
    (h : nest waiting parts ms = .ok bs) :
    Ends (waiting.map (·.opening.slice)) (ms.map (·.slice)) := by
  induction ms generalizing waiting parts with
  | nil =>
    cases waiting with
    | nil => exact .nested .nil
    | cons w ws => cases h
  | cons m ms ih =>
    obtain ⟨hm, hms⟩ := List.forall_mem_cons.1 hms
    rcases nest_cons_eq_ok h with ⟨b, hb, h⟩ | h | ⟨w, ws, b, rfl, hb, h⟩
    · obtain ⟨hstart, hend, -⟩ := render_leaf? hm hb []
      exact .leaf hstart hend (ih hwaiting hms h)
    · exact .opening (ih (List.forall_mem_cons.2 ⟨hm, hwaiting⟩) hms h)
    · obtain ⟨hw, hws⟩ := List.forall_mem_cons.1 hwaiting
      have closed := Ends.close (pairs_of_close? hw hm hb) .nil (ih hws hms h)
      rwa [List.nil_append] at closed

theorem nested_of_ofMarks {ms : List Marked} {bs : List Block} (hms : ∀ m ∈ ms, m.Agrees)
    (h : ofMarks ms = .ok bs) : Nested (ms.map (·.slice)) := by
  have ends : Ends [] (ms.map (·.slice)) :=
    ends_of_nest (show ∀ w ∈ ([] : List Pending), w.opening.Agrees by simp) hms h
  cases ends with
  | nested h => exact h

/-! ## 2. What a template is refused for -/

/-- If something fails, then not for slices that do not tile their text. -/
def BlamesNoSlices {α : Type} (x : Except TemplateError α) : Prop :=
  ∀ e, x ≠ .error (.invalidSlices e)

namespace BlamesNoSlices

variable {α β : Type}

theorem ok (a : α) : BlamesNoSlices (.ok a) := nofun

theorem bind {x : Except TemplateError α} {k : α → Except TemplateError β}
    (hx : BlamesNoSlices x) (hk : ∀ a, BlamesNoSlices (k a)) : BlamesNoSlices (x >>= k) := by
  cases x with
  | ok a => exact hk a
  | error e => exact fun e' h => hx e' (congrArg _ (Except.error.inj h))

theorem map {x : Except TemplateError α} {k : α → β} (hx : BlamesNoSlices x) :
    BlamesNoSlices (x >>= fun a => pure (k a)) := hx.bind fun a => ok (k a)

end BlamesNoSlices

theorem blamesNoSlices_readName (cs : List Char) (offset : Nat) :
    BlamesNoSlices (readName cs offset) := by
  unfold readName
  split
  · exact .ok _
  · exact nofun

theorem blamesNoSlices_readStatement (cs : List Char) (offset : Nat) :
    BlamesNoSlices (readStatement cs offset) := by
  have name (cs : List Char) := blamesNoSlices_readName cs offset
  unfold readStatement
  dsimp only
  split
  · split
    · exact (name _).map
    · exact nofun
  · exact (name _).map
  · exact nofun
  · exact .ok _
  · split
    · exact (name _).map
    · exact nofun
  · exact nofun
  · exact .ok _
  · exact nofun

theorem blamesNoSlices_read (shape : Shape) (cs : List Char) (offset : Nat) :
    BlamesNoSlices (Mark.read shape cs offset) := by
  cases shape with
  | text | comment => exact .ok _
  | expression => exact (blamesNoSlices_readName _ offset).map
  | statement =>
    rw [Mark.read]
    exact blamesNoSlices_readStatement _ offset

theorem blamesNoSlices_marksFrom (offset block : Nat) (ps : List (Shape × List Char)) :
    BlamesNoSlices (marksFrom offset block ps) := by
  induction ps generalizing offset block with
  | nil => exact .ok _
  | cons p ps ih =>
    rw [marksFrom]
    exact (blamesNoSlices_read p.1 p.2 offset).bind fun mark => (ih _ _).map

end Markup

theorem Block.blamesNoSlices_nest (waiting : List Pending) (parts : List Block)
    (ms : List Marked) : BlamesNoSlices (nest waiting parts ms) := by
  induction ms generalizing waiting parts with
  | nil =>
    cases waiting with
    | nil => exact .ok _
    | cons w ws =>
      intro e h
      cases h
  | cons m ms ih =>
    rw [nest]
    split
    case h_1 | h_2 | h_3 | h_4 | h_5 => exact ih _ _
    all_goals
      dsimp only
      split
      · intro e h
        cases h
      · split
        · exact ih _ _
        · intro e h
          cases h

/-! ## 3. Files of templates -/

/-- Spans one after the other between two offsets. -/
inductive Span.Tile : Nat → List Span → Nat → Prop where
  | nil (n : Nat) : Tile n [] n
  | cons {s : Span} {rest : List Span} {n : Nat} (h : Tile s.stop rest n) :
      Tile s.start (s :: rest) n

/-- What rendered slices are checked for: they tile the text. -/
theorem tile_of_renderedTiling? {length sourceLength offset : Nat} {ss : List RenderedSlice}
    (h : renderedTiling? length sourceLength offset ss = none) :
    Span.Tile offset (ss.map (·.templated)) length := by
  induction ss generalizing offset with
  | nil => exact renderedTiling?_nil_eq_none h ▸ .nil _
  | cons s ss ih =>
    obtain ⟨rfl, hrest⟩ := renderedTiling?_cons_eq_none h
    exact .cons (ih hrest)

namespace TemplatedFile

variable {f : TemplatedFile}

/-- A raw slice is the text of the source where it lies. -/
theorem text?_span_of_mem_raw {s : RawSlice} (hs : s ∈ f.raw) :
    s.span.text? f.source = some s.text := by
  obtain ⟨before, after, hraw⟩ := List.append_of_mem hs
  have tiles := f.raw_tiles
  have texts := f.toList_source
  rw [hraw] at tiles texts
  rw [List.flatMap_append, List.flatMap_cons, ← List.append_assoc] at texts
  refine slice?_eq_some_iff.2 ⟨before.flatMap (·.text.toList), _, texts, ?_, rfl⟩
  obtain ⟨n, hbefore, hlater⟩ := tiles.split
  obtain rfl := hlater.head
  have width {a b : Nat} {ss : List RawSlice} (h : RawSlice.Tile a ss b) :
      a + byteCount (ss.flatMap (·.text.toList)) = b := by
    induction h with
    | nil n => rfl
    | @cons s rest n _ ih =>
      rw [List.flatMap_cons, byteCount_append, byteCount_toList, ← Nat.add_assoc]
      exact ih
  exact (Nat.zero_add _).symm.trans (width hbefore)

/-- A file whose slices are what they should be. -/
structure IsConsistent (f : TemplatedFile) : Prop where
  /-- The raw slices, one after the other, are the source. -/
  source_eq : String.join (f.raw.map (·.text)) = f.source
  /-- A rendered slice has the kind and the place of one raw slice. -/
  origin : ∀ t ∈ f.slices, f.raw.countP (fun s => s.kind = t.kind ∧ s.span = t.source) = 1
  /-- Literal text is the same in the source and in the templated text. -/
  verbatim : ∀ t ∈ f.slices, t.kind = .literal → ∃ text,
    t.source.text? f.source = some text ∧ t.templated.text? f.templated = some text
  /-- Tags and comments render no text. -/
  silent : ∀ t ∈ f.slices, t.kind ≠ .literal → t.kind ≠ .templated →
    t.templated.start = t.templated.stop
  /-- The rendered slices, one after the other, are the templated text. -/
  tiles : Span.Tile 0 (f.slices.map (·.templated)) f.length
  /-- The tags of the source nest. -/
  nested : RawSlice.Nested f.raw

end TemplatedFile

namespace Templater

variable {values : List (String × String)} {source name : String} {f : TemplatedFile}
  {ms : List Marked} {bs : List Block}

/-- A slice with text lies at one place of the source, and no other slice lies there. -/
theorem Renders.countP_eq_one (h : Renders values source f ms bs) {s : RawSlice} (hs : s ∈ f.raw) :
    f.raw.countP (fun r => r.kind = s.kind ∧ r.span = s.span) = 1 := by
  have solid := h.start_lt_stop
  have sorted := f.raw_tiles.pairwise
  obtain ⟨before, after, hraw⟩ := List.append_of_mem hs
  rw [hraw] at solid sorted ⊢
  rw [List.pairwise_append, List.pairwise_cons] at sorted
  obtain ⟨-, ⟨hafter, -⟩, hbefore⟩ := sorted
  have own := solid s (by simp)
  have none_before : before.countP (fun r => r.kind = s.kind ∧ r.span = s.span) = 0 := by
    refine List.countP_eq_zero.2 fun r hr hsame => ?_
    have same : r.start = s.start := congrArg Span.start (of_decide_eq_true hsame).2
    have := hbefore r hr s (List.mem_cons_self ..)
    have := solid r (by simp [hr])
    omega
  have none_after : after.countP (fun r => r.kind = s.kind ∧ r.span = s.span) = 0 := by
    refine List.countP_eq_zero.2 fun r hr hsame => ?_
    have same : r.start = s.start := congrArg Span.start (of_decide_eq_true hsame).2
    have := hafter r hr
    omega
  rw [List.countP_append, List.countP_cons_of_pos (by simp), none_before, none_after]

/-- The text of a file can be cut where a rendered slice starts. -/
theorem Renders.isSome_dropBytes? (h : Renders values source f ms bs) {t : RenderedSlice}
    (ht : t ∈ f.slices) : (dropBytes? f.templated.toList t.templated.start).isSome := by
  rw [h.slices_eq] at ht
  obtain ⟨before, x, after, hout, -, -, hstart, -⟩ := exists_of_mem_layOut ht
  have templated := h.templated_eq
  rw [hout, textOf_append] at templated
  rw [dropBytes?_of_eq_append templated (by rw [hstart, Nat.zero_add])]
  rfl

/-- The file of a template is consistent. -/
theorem Renders.isConsistent (h : Renders values source f ms bs) : f.IsConsistent where
  source_eq := by
    apply String.ext
    rw [f.toList_source]
    generalize f.raw = raw
    induction raw with
    | nil => rfl
    | cons s raw ih => rw [List.map_cons, String.join_cons, String.toList_append, ih]; rfl
  origin t ht := by
    rw [h.slices_eq] at ht
    obtain ⟨before, x, after, hout, hkind, hsource, -⟩ := exists_of_mem_layOut ht
    rw [hkind, hsource]
    exact h.countP_eq_one (h.spec x (by simp [hout])).1
  verbatim t ht hliteral := by
    rw [h.slices_eq] at ht
    obtain ⟨before, x, after, hout, hkind, hsource, hstart, hstop⟩ := exists_of_mem_layOut ht
    obtain ⟨hraw, htext, -⟩ := h.spec x (by simp [hout])
    have text := htext (by rw [← hkind, hliteral]; rfl)
    refine ⟨x.1.text, hsource ▸ TemplatedFile.text?_span_of_mem_raw hraw, ?_⟩
    have templated := h.templated_eq
    rw [hout, textOf_append, textOf_cons, text, ← List.append_assoc] at templated
    refine slice?_eq_some_iff.2 ⟨textOf before, textOf after, templated, ?_, ?_⟩
    · rw [hstart, Nat.zero_add]
    · rw [hstop, text]
  silent t ht hliteral htemplated := by
    rw [h.slices_eq] at ht
    obtain ⟨before, x, after, hout, hkind, -, -, hstop⟩ := exists_of_mem_layOut ht
    have nothing := (h.spec x (by simp [hout])).2.2 (hkind ▸ hliteral) (hkind ▸ htemplated)
    rw [hstop, nothing]
    rfl
  tiles := tile_of_renderedTiling? f.slices_tile
  nested := by
    rw [h.raw_eq]
    exact nested_of_ofMarks (fun m hm => (h.agrees m hm).1) h.nest_eq

/-- A template is never refused for slices that do not tile their texts, and the file that it makes
is consistent. -/
theorem process_isConsistent (values : List (String × String)) (source name : String) :
    (∀ e, (placeholder values).process source name ≠ .error (.invalidSlices e)) ∧
      ∀ f, (placeholder values).process source name = .ok f →
        f.source = source ∧ f.IsConsistent := by
  refine ⟨?_, fun f hf => ?_⟩
  · have pieces_eq := flatMap_pieces source.toList
    cases hms : marks source with
    | error e =>
      have blame := blamesNoSlices_marksFrom 0 0 (pieces source.toList)
      rw [show marksFrom 0 0 (pieces source.toList) = .error e from hms] at blame
      rw [process, hms]
      exact fun e' h => blame e' (congrArg _ (Except.error.inj h))
    | ok ms =>
      cases hbs : ofMarks ms with
      | error e =>
        have blame := blamesNoSlices_nest [] [] ms
        rw [show nest [] [] ms = .error e from hbs] at blame
        rw [process, hms]
        simp only [bind, Except.bind, hbs]
        exact fun e' h => blame e' (congrArg _ (Except.error.inj h))
      | ok bs =>
        obtain ⟨f, hf, -⟩ : ∃ f, (placeholder values).process source name = .ok f ∧ _ :=
          exists_process pieces_eq hms hbs name
        rw [hf]
        intro e h
        cases h
  · obtain ⟨ms, bs, h⟩ := exists_renders hf
    exact ⟨h.source_eq, h.isConsistent⟩

/-- A loop with a condition, an expression and a comment in it. -/
def itemsSource : String :=
  "a\x7b% for i in x, y %\x7d\x7b% if i %\x7d,\x7b\x7b i \x7d\x7d\x7b% endif %\x7d\x7b# b #\x7d" ++
    "\x7b% endfor %\x7d"

/-- The loop is rendered to a consistent file. -/
theorem process_isConsistent_items :
    (placeholder [("x", "1")]).process itemsSource "" =
        .ok (rendered [("x", "1")] itemsSource) ∧
      (rendered [("x", "1")] itemsSource).templated = "a,x,y" ∧
      (rendered [("x", "1")] itemsSource).IsConsistent := by
  have made : (placeholder [("x", "1")]).process itemsSource "" =
      .ok (rendered [("x", "1")] itemsSource) := process_eq_rendered (by decide +kernel)
  refine ⟨made, by decide +kernel, ?_⟩
  exact ((process_isConsistent [("x", "1")] itemsSource "").2 _ made).2

end Templater

end QueryLint
