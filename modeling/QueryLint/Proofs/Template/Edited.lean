import QueryLint.Proofs.Template.Point
import QueryLint.Proofs.Template.Spelled

/-!
QueryLint.Proofs.Template.Edited — editing the source where the map says.

A template without loops is edited in its source, and rendered again. If the map from the templated
text to the source says where, and the new text opens no tag, then the new rendering is the old one
edited in the same place.

The map has to choose where slices meet: the source of the point may be the end of a literal or of
an expression, or either side of a tag or a comment there. It takes the first of these places in the
source. That is the end of the slice whose text ends there, so that the new text stands in the same
conditions as that slice; and they hold, since the slice was rendered. Only the start of the text
has no such slice, and there the map takes the start of the source.

* `TemplatedFile.exists_of_pointToSource?` — which slice the map takes for a point.
* `TemplatedFile.exists_spot` — where in the rendered slices the map takes a span.
* `Templater.exists_process_around` — other pieces in place of that of a rendered slice.
* `Templater.process_replace?` — the edited source is rendered to the edited text.
-/

namespace QueryLint

open Text Markup Block

/-! ## 1. Which slice the map takes -/

namespace TemplatedFile

variable {f : TemplatedFile}

/-- One slice comes before another in both texts. -/
def Before (s t : RenderedSlice) : Prop :=
  s.templated.stop ≤ t.templated.start ∧ s.source.stop ≤ t.source.start

/-- Slices come in the same order in both texts. -/
def InOrder (f : TemplatedFile) : Prop := f.slices.Pairwise Before

theorem inOrder_of_loopFree {values : List (String × String)} {source name : String}
    (h : (Templater.placeholder values).process source name = .ok f) (hloops : f.LoopFree) :
    f.InOrder :=
  ((pairwise_of_renderedTiling? f.slices_tile).and (ascending_of_loopFree h hloops)).imp id

theorem InOrder.eq_or_before (hf : f.InOrder) {s t : RenderedSlice} (hs : s ∈ f.slices)
    (ht : t ∈ f.slices) : s = t ∨ Before s t ∨ Before t s :=
  List.Pairwise.forall_of_forall_of_flip
    (R := fun s t : RenderedSlice => s = t ∨ Before s t ∨ Before t s) (fun _ _ => .inl rfl)
    (List.Pairwise.imp (fun h => .inr (.inl h)) hf) (List.Pairwise.imp (fun h => .inr (.inr h)) hf)
    hs ht

/-- A point behind the start of the text that has a source is in a literal slice, or where a slice
with text stops; then its source is there too. -/
theorem exists_of_pointToSource? (hf : f.InOrder) {p k : Nat} (h : f.pointToSource? p = .ok k)
    (hp : 0 < p) (hlength : p ≤ f.length) :
    ∃ t ∈ f.slices, t.templated.start < p ∧ p ≤ t.templated.stop ∧
      (t.kind.isLiteral = true ∧ k = t.source.start + p - t.templated.start ∨
        p = t.templated.stop ∧ k = t.source.stop) := by
  rcases pointToSource?_eq_ok_iff.1 h with
    ⟨⟨u, hu, hmeets⟩, hleast⟩ | ⟨t, ht, hliteral, hlow, hhigh, hk⟩
  · obtain ⟨t, ht, hstart, hstop⟩ := exists_of_renderedTiling? f.slices_tile hp hlength
    -- The slice whose end is taken is `t`, or one behind it.
    have behind : p = t.templated.stop ∧ t.source.stop ≤ k := by
      have := u.templated.start_le_stop
      have := u.source.start_le_stop
      unfold RenderedSlice.Meets at hmeets
      rcases hf.eq_or_before hu ht with rfl | hut | hut
      · omega
      · unfold Before at hut
        omega
      · unfold Before at hut
        omega
    have own := hleast t ht t.source.stop (.inr ⟨behind.1.symm, rfl⟩)
    exact ⟨t, ht, hstart, hstop, .inr ⟨behind.1, Nat.le_antisymm own behind.2⟩⟩
  · exact ⟨t, ht, hlow, Nat.le_of_lt hhigh, .inl ⟨hliteral, hk⟩⟩

/-- Where the map takes a span: it takes the start of the text to that of the source, a span in a
literal slice to the same place in the source of the slice, and the end of other text to the end of
its source. -/
theorem exists_spot (hf : f.InOrder) (hverbatim : f.Verbatim)
    (hstart : ∀ t ∈ f.slices.head?, t.source.start = 0) {r s : Span} (h : f.toSource? r = .ok s)
    (hkind : r.start = r.stop ∨
      ∃ t ∈ f.slices, t.kind.isLiteral = true ∧ t.templated.Contains r) :
    r = .point 0 ∧ s = .point 0 ∨
    ∃ t ∈ f.visible,
      t.kind.isLiteral = true ∧ t.templated.Contains r ∧
        s.start = t.source.start + (r.start - t.templated.start) ∧
        s.stop = t.source.start + (r.stop - t.templated.start) ∨
      r = .point t.templated.stop ∧ s = .point t.source.stop := by
  by_cases hr : r.start = r.stop
  · obtain ⟨p, q, hpq⟩ := r
    obtain rfl : p = q := hr
    unfold toSource? at h
    split at h
    · cases h
    · next hlength =>
      have hlength : p ≤ f.length := Nat.not_lt.1 hlength
      split at h
      · next hnone =>
        obtain rfl := Except.ok.inj h
        have tile := f.slices_tile
        rw [List.isEmpty_iff.1 hnone, renderedTiling?] at tile
        split at tile
        · have hp : p = 0 := by
            unfold length at hlength
            omega
          subst hp
          exact .inl ⟨rfl, rfl⟩
        · cases tile
      · next hsome =>
        rw [if_pos (by rw [Span.isEmpty_iff])] at h
        cases hpoint : f.pointToSource? p with
        | error e => rw [hpoint] at h; cases h
        | ok k =>
          rw [hpoint] at h
          obtain rfl := Except.ok.inj h
          rcases Nat.eq_zero_or_pos p with rfl | hp
          · refine .inl ⟨rfl, ?_⟩
            cases hslices : f.slices with
            | nil => rw [hslices] at hsome; exact absurd rfl hsome
            | cons t ts =>
              have tile := f.slices_tile
              rw [hslices] at tile
              have meets : t.Meets 0 0 :=
                .inl ⟨(renderedTiling?_cons_eq_none tile).1, hstart t (by rw [hslices]; rfl)⟩
              rcases pointToSource?_eq_ok_iff.1 hpoint with ⟨-, hleast⟩ | ⟨u, -, -, hlow, -⟩
              · rw [Nat.le_zero.1 (hleast t (by simp [hslices]) 0 meets)]
              · exact absurd hlow (Nat.not_lt_zero _)
          · obtain ⟨t, ht, hlow, hhigh, hcase⟩ := exists_of_pointToSource? hf hpoint hp hlength
            have visible : t ∈ f.visible := mem_visible.2 ⟨ht, by omega⟩
            rcases hcase with ⟨hliteral, rfl⟩ | ⟨hpt, rfl⟩
            · refine .inr ⟨t, visible, .inl ⟨hliteral, ⟨by dsimp only; omega, hhigh⟩, ?_, ?_⟩⟩
              · exact Nat.add_sub_assoc (Nat.le_of_lt hlow) _
              · exact Nat.add_sub_assoc (Nat.le_of_lt hlow) _
            · subst hpt
              exact .inr ⟨t, visible, .inr ⟨rfl, rfl⟩⟩
  · obtain ⟨t, ht, hliteral, hin⟩ := hkind.resolve_left hr
    have hlt : r.start < r.stop := by
      have := r.start_le_stop
      omega
    have := hin.1
    have := hin.2
    obtain ⟨s', hs', hsource⟩ := toSource?_of_isLiteral hverbatim hlt ht hliteral hin
    obtain rfl := Except.ok.inj (hs'.symm.trans h)
    exact .inr ⟨t, mem_visible.2 ⟨ht, by omega⟩,
      .inl ⟨hliteral, hin, hsource⟩⟩

end TemplatedFile

/-! ## 2. Other pieces in place of one -/

namespace Markup

variable {offset block : Nat} {ps : List (Shape × List Char)} {ms : List Marked}

/-- A piece of text is a literal slice. -/
theorem exists_literal_of_text (h : marksFrom offset block ps = .ok ms) {p : Shape × List Char}
    (hp : p ∈ ps) (htext : p.1 = .text) :
    ∃ m ∈ ms, m.slice.kind.isLiteral = true ∧ m.slice.text = String.ofList p.2 := by
  induction ps generalizing offset block ms with
  | nil => cases hp
  | cons q ps ih =>
    obtain ⟨m, _, later, rfl, hread, hagrees, hown, -, hlater⟩ := exists_of_marksFrom_cons h
    rcases List.mem_cons.1 hp with rfl | hp
    · rw [htext] at hread
      refine ⟨m, List.mem_cons_self .., ?_, hown⟩
      rw [hagrees.kind_eq, ← Except.ok.inj hread]
      rfl
    · obtain ⟨m', hm', hspec⟩ := ih hlater hp
      exact ⟨m', List.mem_cons_of_mem _ hm', hspec⟩

/-- If no literal slice has a brace, the source is cut into tags and text without braces. -/
theorem isClean_of_literal {source : String} (h : marks source = .ok ms)
    (hbraces : ∀ m ∈ ms, m.slice.kind.isLiteral = true → '\x7b' ∉ m.slice.text.toList) :
    ∀ p ∈ pieces source.toList, IsClean p := by
  intro p hp
  refine isClean_of_mem_pieces hp fun htext => ?_
  obtain ⟨m, hm, hliteral, hown⟩ := exists_literal_of_text h hp htext
  have := hbraces m hm hliteral
  rwa [hown, String.toList_ofList] at this

end Markup

namespace Templater

variable {values : List (String × String)} {source : String} {ms : List Marked}
  {out before after : List (RawSlice × String)} {x : RawSlice × String} {cs : List Char}

/-- The piece of a rendered slice with text can give way to other pieces that leave the conditions
around it as they are. -/
theorem exists_process_around (hms : marks source = .ok ms)
    (hout : emitAll values [] ms = some (before ++ x :: after, []))
    (hclean : ∀ p ∈ pieces source.toList, IsClean p) (hx : x.2 ≠ "") :
    ∃ front piece back around, source.toList = front ++ piece.2 ++ back ∧ IsClean piece ∧
      byteCount front = x.1.start ∧ x.1.text = String.ofList piece.2 ∧
      (x.1.kind.isLiteral = true → piece.1 = .text) ∧ around.all id = true ∧
      spellAll values around [piece] = some (x.2.toList, around) ∧
      ∀ mid text, (∀ p ∈ mid, IsClean p) → spellAll values around mid = some (text, around) →
        ∀ name, ∃ g, (placeholder values).process
          (String.ofList (front ++ mid.flatMap (·.2) ++ back)) name = .ok g ∧
            g.templated = String.ofList (textOf before ++ text ++ textOf after) := by
  obtain ⟨front, piece, back, around, hps, hall, hfront, hpiece, hback, hstart, htext, hliteral⟩ :=
    exists_piece (show marksFrom 0 0 (pieces source.toList) = .ok ms from hms) hout hx
  rw [hps, List.forall_mem_append, List.forall_mem_cons] at hclean
  obtain ⟨cleanFront, cleanPiece, cleanBack⟩ := hclean
  have source_eq : source.toList = front.flatMap (·.2) ++ piece.2 ++ back.flatMap (·.2) := by
    rw [← flatMap_pieces source.toList, hps, List.flatMap_append, List.flatMap_cons,
      List.append_assoc]
  refine ⟨front.flatMap (·.2), piece, back.flatMap (·.2), around, source_eq, cleanPiece,
    by rw [hstart, Nat.zero_add], htext, hliteral, hall, hpiece, fun mid text hmid hspell name => ?_⟩
  have clean : ∀ p ∈ front ++ mid ++ back, IsClean p := by
    simp only [List.forall_mem_append]
    exact ⟨⟨cleanFront, hmid⟩, cleanBack⟩
  have := exists_process_of_spellAll clean
    (spellAll_append (spellAll_append hfront hspell) hback) name
  rwa [List.flatMap_append, List.flatMap_append] at this

/-- The text of a literal slice can give way to other text. -/
theorem exists_process_reworded (hms : marks source = .ok ms)
    (hout : emitAll values [] ms = some (before ++ x :: after, []))
    (hclean : ∀ p ∈ pieces source.toList, IsClean p) (hx : x.2 ≠ "")
    (hliteral : x.1.kind.isLiteral = true) :
    ∃ front back, source.toList = front ++ x.2.toList ++ back ∧ byteCount front = x.1.start ∧
      '\x7b' ∉ x.2.toList ∧ ∀ cs, '\x7b' ∉ cs → ∀ name, ∃ g,
        (placeholder values).process (String.ofList (front ++ cs ++ back)) name = .ok g ∧
          g.templated = String.ofList (textOf before ++ cs ++ textOf after) := by
  obtain ⟨front, ⟨shape, ds⟩, back, around, hsource, cleanPiece, hstart, -, hshape, hall, hpiece,
    hprocess⟩ := exists_process_around hms hout hclean hx
  obtain rfl : shape = .text := hshape hliteral
  have spells (cs : List Char) : spellAll values around [(.text, cs)] = some (cs, around) :=
    spellAll_single (by rw [spellPiece_text, if_pos hall])
  have own : ds = x.2.toList := by
    rw [spells, Option.some.injEq, Prod.mk.injEq] at hpiece
    exact hpiece.1
  have noBrace : '\x7b' ∉ ds := by
    cases cleanPiece with
    | text h => exact h
    | tag opens closes => exact absurd opens tagShape?_ne_text
  refine ⟨front, back, own ▸ hsource, hstart, own ▸ noBrace, fun cs hcs name => ?_⟩
  · have := hprocess [(.text, cs)] cs (by simpa using IsClean.text hcs) (spells cs) name
    simpa using this

/-- Text can be put behind the piece of a rendered slice with text. -/
theorem exists_process_followed (hms : marks source = .ok ms)
    (hout : emitAll values [] ms = some (before ++ x :: after, []))
    (hclean : ∀ p ∈ pieces source.toList, IsClean p) (hx : x.2 ≠ "") :
    ∃ front back, source.toList = front ++ back ∧ byteCount front = x.1.stop ∧
      ∀ cs, '\x7b' ∉ cs → ∀ name, ∃ g,
        (placeholder values).process (String.ofList (front ++ cs ++ back)) name = .ok g ∧
          g.templated = String.ofList (textOf before ++ x.2.toList ++ cs ++ textOf after) := by
  obtain ⟨front, piece, back, around, hsource, cleanPiece, hstart, htext, -, hall, hpiece,
    hprocess⟩ := exists_process_around hms hout hclean hx
  refine ⟨front ++ piece.2, back, hsource, ?_, fun cs hcs name => ?_⟩
  · rw [byteCount_append, hstart, RawSlice.stop, htext, utf8ByteSize_ofList]
  · have own : spellAll values around [(.text, cs)] = some (cs, around) :=
      spellAll_single (by rw [spellPiece_text, if_pos hall])
    have spells : spellAll values around [piece, (.text, cs)] = some (x.2.toList ++ cs, around) :=
      spellAll_append hpiece own
    have clean : ∀ p ∈ [piece, (.text, cs)], IsClean p := by
      simp only [List.forall_mem_cons]
      exact ⟨cleanPiece, .text hcs, by simp⟩
    have := hprocess [piece, (.text, cs)] _ clean spells name
    simpa using this

/-- Text can be put in front of a template. -/
theorem exists_process_led (hms : marks source = .ok ms)
    (hout : emitAll values [] ms = some (out, []))
    (hclean : ∀ p ∈ pieces source.toList, IsClean p) (hcs : '\x7b' ∉ cs) (name : String) :
    ∃ g, (placeholder values).process (String.ofList (cs ++ source.toList)) name = .ok g ∧
      g.templated = String.ofList (cs ++ textOf out) := by
  have spelled := spellAll_of_emitAll (show marksFrom 0 0 (pieces source.toList) = .ok ms from hms)
    hout
  have own : spellAll values [] [(.text, cs)] = some (cs, []) :=
    spellAll_single (spellPiece_text [] cs)
  have := exists_process_of_spellAll
    (List.forall_mem_cons.2 ⟨IsClean.text hcs, hclean⟩)
    (spellAll_append own spelled) name
  rw [List.flatMap_cons, flatMap_pieces] at this
  simpa using this

/-! ## 3. Editing where the map says -/

/-- The first rendered slice is the first of the source. -/
theorem start_of_head? {name : String} {f : TemplatedFile}
    (hfile : (placeholder values).process source name = .ok f) (hloops : f.LoopFree) :
    ∀ t ∈ f.slices.head?, t.source.start = 0 := by
  intro t ht
  obtain ⟨ms, out, -, -, hraw, hout, hslices, -⟩ := TemplatedFile.exists_emitAll hfile hloops
  have tiles := f.raw_tiles
  have first := head?_emitAll hout
  rw [hslices] at ht
  rw [hraw] at tiles
  cases out with
  | nil => cases ht
  | cons x out =>
    cases ms with
    | nil => cases first
    | cons m ms =>
      obtain rfl := Option.some.inj ht
      rw [List.map_cons, List.map_cons, List.head?_cons, List.head?_cons, Option.some.injEq] at first
      exact (congrArg RawSlice.start first).trans tiles.head

/-- Editing the source of a template without loops where the map takes a point of its rendering, or
a span in one literal slice, edits the rendering in the same place. -/
theorem process_replace? {name : String} {f : TemplatedFile} {r s : Span} {text new : String}
    (hfile : (placeholder values).process source name = .ok f) (hloops : f.LoopFree)
    (hbraces : ∀ t ∈ f.raw, t.kind.isLiteral = true → '\x7b' ∉ t.text.toList)
    (hnew : '\x7b' ∉ new.toList) (hmap : f.toSource? r = .ok s)
    (hkind : r.start = r.stop ∨ ∃ t ∈ f.slices, t.kind.isLiteral = true ∧ t.templated.Contains r)
    (htext : r.text? f.templated = some text) :
    s.text? source = some text ∧
      ∃ edited g, replace? source s.start s.stop new = some edited ∧
        (placeholder values).process edited name = .ok g ∧
        replace? f.templated r.start r.stop new = some g.templated := by
  obtain ⟨ms, out, hms, -, hraw, hout, hslices, htemplated⟩ :=
    TemplatedFile.exists_emitAll hfile hloops
  have clean := isClean_of_literal hms fun m hm => hbraces m.slice (hraw ▸ List.mem_map_of_mem hm)
  have inOrder := TemplatedFile.inOrder_of_loopFree hfile hloops
  have verbatim : f.Verbatim :=
    fun t ht hliteral => TemplatedFile.length_source_of_isLiteral hfile ht hliteral
  obtain ⟨left, right, hcut, hleft, hstop⟩ := slice?_eq_some_iff.1 htext
  -- It is enough to find the text in the source, with the same text around it as in the rendering.
  have edits (front back : List Char) (hsource : source.toList = front ++ text.toList ++ back)
      (hfront : byteCount front = s.start) (hback : s.start + text.utf8ByteSize = s.stop)
      (hprocess : ∃ g, (placeholder values).process
        (String.ofList (front ++ new.toList ++ back)) name = .ok g ∧
          g.templated = String.ofList (left ++ new.toList ++ right)) :
      s.text? source = some text ∧
        ∃ edited g, replace? source s.start s.stop new = some edited ∧
          (placeholder values).process edited name = .ok g ∧
          replace? f.templated r.start r.stop new = some g.templated := by
    obtain ⟨g, hg, hrender⟩ := hprocess
    refine ⟨slice?_eq_some_iff.2 ⟨front, back, hsource, hfront, hback⟩, _, g,
      replace?_eq_some hsource hfront (by rw [byteCount_toList, hback]), hg, ?_⟩
    rw [hrender]
    exact replace?_eq_some hcut hleft (by rw [byteCount_toList, hstop])
  -- At a point there is no text to replace.
  have noText (hpoint : r.start = r.stop) : text.toList = [] :=
    byteCount_eq_zero_iff.1 (by rw [byteCount_toList]; omega)
  rcases TemplatedFile.exists_spot inOrder verbatim (start_of_head? hfile hloops) hmap hkind with
    ⟨rfl, rfl⟩ | ⟨t, ht, hspot⟩
  · have nothing := noText rfl
    obtain rfl : left = [] := byteCount_eq_zero_iff.1 hleft
    rw [nothing, htemplated] at hcut
    refine edits [] source.toList (by rw [nothing]; rfl) rfl hstop ?_
    obtain rfl : textOf out = right := hcut
    exact exists_process_led hms hout clean hnew name
  · obtain ⟨hmem, hsolid⟩ := TemplatedFile.mem_visible.1 ht
    obtain ⟨before, x, after, rfl, hk, hs, hlow, hhigh⟩ := exists_of_mem_layOut (hslices ▸ hmem)
    have solid : x.2 ≠ "" := by
      intro hx
      rw [hx] at hhigh
      simp at hhigh
      omega
    have width := byteCount_toList x.2
    rw [textOf_append, textOf_cons, ← List.append_assoc] at htemplated
    rcases hspot with ⟨hliteral, ⟨hin, hin'⟩, hstart, hend⟩ | ⟨rfl, rfl⟩
    · obtain ⟨front, back, hsource, hfront, hbrace, hprocess⟩ :=
        exists_process_reworded hms hout clean solid (hk ▸ hliteral)
      obtain ⟨c₁, c₂, hx, rfl, rfl⟩ := exists_append_of_within htemplated hcut (by omega)
        (by rw [byteCount_toList]; omega)
      rw [byteCount_append] at hleft
      rw [hx] at hsource hbrace
      simp only [List.mem_append, not_or] at hbrace
      have start : t.source.start = x.1.start := by rw [hs]; rfl
      refine edits (front ++ c₁) (c₂ ++ back) (by simp [hsource])
        (by rw [byteCount_append]; omega) (by omega) ?_
      have := hprocess (c₁ ++ new.toList ++ c₂) (by simp [hbrace, hnew]) name
      simpa using this
    · have nothing := noText rfl
      obtain ⟨front, back, hsource, hfront, hprocess⟩ :=
        exists_process_followed hms hout clean solid
      have stop : t.source.stop = x.1.stop := by rw [hs]; rfl
      rw [nothing, List.append_nil, htemplated] at hcut
      obtain ⟨rfl, rfl⟩ := append_inj_of_byteCount hcut
        (by rw [hleft, Span.start_point, byteCount_append, hhigh, hlow, width, Nat.zero_add])
      refine edits front back (by rw [nothing, hsource, List.append_nil])
        (by rw [hfront, Span.start_point, stop]) (by rw [← byteCount_toList, nothing]; rfl) ?_
      exact hprocess new.toList hnew name

/-- A condition that holds, with a letter and an expression in it, and a letter behind it. -/
def nestedSource : String := "\x7b% if a %\x7dx\x7b\x7b a \x7d\x7d\x7b% endif %\x7dy"

/-- The file of the template. -/
def nestedFile : TemplatedFile := rendered [("a", "b")] nestedSource

/-- Where the expression, the end of the condition and the last letter meet, the map points behind
the expression, and a letter put there is rendered there. -/
theorem process_replace?_nested :
    nestedFile.toSource? (.point 2) = .ok (.point 18) ∧
      ∃ edited g, replace? nestedSource 18 18 "z" = some edited ∧
        (placeholder [("a", "b")]).process edited "" = .ok g ∧
        replace? nestedFile.templated 2 2 "z" = some g.templated := by
  have file : (placeholder [("a", "b")]).process nestedSource "" = .ok nestedFile :=
    process_eq_rendered (by decide +kernel)
  have mapped : nestedFile.toSource? (.point 2) = .ok (.point 18) :=
    TemplatedFile.toSource?_eq_ok (by decide +kernel)
  have nothing : (Span.point 2).text? nestedFile.templated = some "" := by decide +kernel
  exact ⟨mapped, (process_replace? file (by decide +kernel) (by decide +kernel) (by decide) mapped
    (.inl rfl) nothing).2⟩

end Templater

end QueryLint
