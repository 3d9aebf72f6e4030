import QueryLint.Proofs.Template.Pieces
import QueryLint.Proofs.Template.Raw
import QueryLint.Template.Render
import QueryLint.Template.Slice

/-!
QueryLint.Proofs.Template.Rendered — what a template is rendered to.

A check goes along the rendered slices of a file and says where they first fail to tile its text. If
they do not fail, they follow each other between the ends of the text, and leave no place in it out.

The slices of a source are read one after the other, nested, and rendered. Every rendered slice
comes from a raw slice, and literal text is rendered as it is. Rendering never fails once the tags
nest: both lists of slices tile their texts by the way they are made.

* `bounds_of_renderedTiling?`, `source_le_of_renderedTiling?` — the slices lie in their texts.
* `pairwise_of_renderedTiling?` — they follow each other.
* `exists_of_renderedTiling?` — every place is in one of them.
* `Markup.exists_of_marksFrom_cons`, `Markup.exists_marksFrom_cons` — reading the first piece.
* `Markup.tile_marksFrom`, `Markup.rawTiling?_marksFrom` — marks tile the source.
* `Block.IsFaithful` — rendering takes raw slices, literal ones whole.
* `Block.KeptByNesting` — what holds of parts by the way they are nested.
* `Templater.exists_renders`, `Templater.exists_process` — when a template is rendered, and to what.
* `rendered` — the file of a template.
* `TemplatedFile.length_source_of_isLiteral` — literal text is as long as its source.
-/

namespace QueryLint

open Text

/-! ## 1. Rendered slices that tile a text -/

section Tiling

variable {length sourceLength offset : Nat} {s : RenderedSlice} {ss : List RenderedSlice}

theorem renderedTiling?_cons_eq_none (h : renderedTiling? length sourceLength offset (s :: ss) = none) :
    s.templated.start = offset ∧
      renderedTiling? length sourceLength s.templated.stop ss = none := by
  rw [renderedTiling?] at h
  split at h
  · cases h
  · next hstart =>
    split at h
    · cases h
    · exact ⟨Classical.not_not.1 hstart, h⟩

theorem renderedTiling?_nil_eq_none (h : renderedTiling? length sourceLength offset [] = none) :
    offset = length := by
  rw [renderedTiling?] at h
  split at h
  · assumption
  · cases h

/-- Slices that tile a text from an offset on lie between the offset and the end. -/
theorem bounds_of_renderedTiling? (h : renderedTiling? length sourceLength offset ss = none) :
    offset ≤ length ∧
      ∀ s ∈ ss, offset ≤ s.templated.start ∧ s.templated.stop ≤ length := by
  induction ss generalizing offset with
  | nil => exact ⟨Nat.le_of_eq (renderedTiling?_nil_eq_none h), by simp⟩
  | cons s ss ih =>
    obtain ⟨rfl, hrest⟩ := renderedTiling?_cons_eq_none h
    obtain ⟨hstop, hbounds⟩ := ih hrest
    have := s.templated.start_le_stop
    refine ⟨by omega, List.forall_mem_cons.2 ⟨⟨Nat.le_refl _, hstop⟩, fun t ht => ?_⟩⟩
    have := hbounds t ht
    omega

/-- Slices that tile a text have their sources in the source. -/
theorem source_le_of_renderedTiling? (h : renderedTiling? length sourceLength offset ss = none) :
    ∀ s ∈ ss, s.source.stop ≤ sourceLength := by
  induction ss generalizing offset with
  | nil => simp
  | cons s ss ih =>
    have hrest := ih (renderedTiling?_cons_eq_none h).2
    rw [renderedTiling?] at h
    split at h
    · cases h
    · split at h
      · cases h
      · next hsource => exact List.forall_mem_cons.2 ⟨Nat.not_lt.1 hsource, hrest⟩

/-- Some slice stops at the end of a text that slices tile. -/
theorem exists_stop_of_renderedTiling? (hss : ss ≠ [])
    (h : renderedTiling? length sourceLength offset ss = none) :
    ∃ s ∈ ss, s.templated.stop = length := by
  induction ss generalizing offset with
  | nil => exact absurd rfl hss
  | cons s ss ih =>
    obtain ⟨rfl, hrest⟩ := renderedTiling?_cons_eq_none h
    cases ss with
    | nil => exact ⟨s, List.mem_cons_self .., renderedTiling?_nil_eq_none hrest⟩
    | cons t ss =>
      obtain ⟨u, hu, hstop⟩ := ih (by simp) hrest
      exact ⟨u, List.mem_cons_of_mem _ hu, hstop⟩

/-- Slices that tile a text follow each other. -/
theorem pairwise_of_renderedTiling? (h : renderedTiling? length sourceLength offset ss = none) :
    ss.Pairwise (·.templated.stop ≤ ·.templated.start) := by
  induction ss generalizing offset with
  | nil => exact .nil
  | cons s ss ih =>
    obtain ⟨-, hrest⟩ := renderedTiling?_cons_eq_none h
    exact List.pairwise_cons.2
      ⟨fun t ht => ((bounds_of_renderedTiling? hrest).2 t ht).1, ih hrest⟩

/-- Every offset in a tiled text but its start is in a slice, or where it stops. -/
theorem exists_of_renderedTiling? {p : Nat}
    (h : renderedTiling? length sourceLength offset ss = none) (hoffset : offset < p)
    (hlength : p ≤ length) : ∃ s ∈ ss, s.templated.start < p ∧ p ≤ s.templated.stop := by
  induction ss generalizing offset with
  | nil =>
    have := renderedTiling?_nil_eq_none h
    omega
  | cons s ss ih =>
    obtain ⟨rfl, hrest⟩ := renderedTiling?_cons_eq_none h
    by_cases hp : p ≤ s.templated.stop
    · exact ⟨s, List.mem_cons_self .., hoffset, hp⟩
    · obtain ⟨t, ht, hin⟩ := ih hrest (by omega)
      exact ⟨t, List.mem_cons_of_mem _ ht, hin⟩

end Tiling

/-! ## 2. Marks -/

namespace Markup

/-- A raw slice is as its mark says. -/
structure Marked.Agrees (m : Marked) : Prop where
  kind_eq : m.slice.kind = m.mark.kind
  tag_eq : m.slice.tag = m.mark.keyword?

variable {offset block : Nat} {shape : Shape} {cs : List Char} {ps : List (Shape × List Char)}
  {ms : List Marked}

/-- Reading a list of pieces reads the first and then the others. -/
theorem exists_of_marksFrom_cons (h : marksFrom offset block ((shape, cs) :: ps) = .ok ms) :
    ∃ m next later, ms = m :: later ∧ Mark.read shape cs offset = .ok m.mark ∧ m.Agrees ∧
      m.slice.text = String.ofList cs ∧ m.slice.start = offset ∧
      marksFrom (offset + byteCount cs) next ps = .ok later := by
  rw [marksFrom] at h
  cases hread : Mark.read shape cs offset with
  | error e => rw [hread] at h; cases h
  | ok mark =>
    simp only [hread, bind, Except.bind] at h
    split at h
    · cases h
    · next later hlater =>
      rw [pure, Applicative.toPure, Monad.toApplicative] at h
      cases h
      exact ⟨_, _, later, rfl, rfl, ⟨rfl, rfl⟩, rfl, rfl, hlater⟩

/-- A piece that can be read is read first. -/
theorem exists_marksFrom_cons {mark : Mark} (hread : Mark.read shape cs offset = .ok mark)
    (block : Nat) (ps : List (Shape × List Char)) : ∃ m next, m.mark = mark ∧
      m.slice.text = String.ofList cs ∧
      ∀ later, marksFrom (offset + byteCount cs) next ps = .ok later →
        marksFrom offset block ((shape, cs) :: ps) = .ok (m :: later) := by
  let own := if mark.kind = .blockEnd then block + 1 else block
  refine ⟨⟨⟨String.ofList cs, mark.kind, offset, own, mark.keyword?⟩, mark⟩,
    if mark.kind = .blockStart then own + 1 else own, rfl, rfl, fun later hlater => ?_⟩
  rw [marksFrom, hread]
  simp only [bind, Except.bind]
  rw [hlater]
  rfl

theorem agrees_marksFrom (h : marksFrom offset block ps = .ok ms) : ∀ m ∈ ms, m.Agrees := by
  induction ps generalizing offset block ms with
  | nil =>
    rw [marksFrom, Except.ok.injEq] at h
    simp [← h]
  | cons p ps ih =>
    obtain ⟨m, next, later, rfl, -, hagrees, htext, hstart, hlater⟩ := exists_of_marksFrom_cons h
    exact List.forall_mem_cons.2 ⟨hagrees, ih hlater⟩

/-- The slices of pieces with text have text. -/
theorem text_ne_marksFrom (h : marksFrom offset block ps = .ok ms) (hps : ∀ p ∈ ps, p.2 ≠ []) :
    ∀ m ∈ ms, m.slice.text ≠ "" := by
  induction ps generalizing offset block ms with
  | nil =>
    rw [marksFrom, Except.ok.injEq] at h
    simp [← h]
  | cons p ps ih =>
    obtain ⟨m, next, later, rfl, -, hagrees, htext, hstart, hlater⟩ := exists_of_marksFrom_cons h
    obtain ⟨hp, hps⟩ := List.forall_mem_cons.1 hps
    refine List.forall_mem_cons.2 ⟨?_, ih hlater hps⟩
    rw [htext]
    simpa using hp

/-- The slices of the pieces follow each other. -/
theorem tile_marksFrom (h : marksFrom offset block ps = .ok ms) :
    RawSlice.Tile offset (ms.map (·.slice)) (offset + byteCount (ps.flatMap (·.2))) := by
  induction ps generalizing offset block ms with
  | nil =>
    rw [marksFrom, Except.ok.injEq] at h
    rw [← h]
    exact .nil offset
  | cons p ps ih =>
    obtain ⟨m, next, later, rfl, -, hagrees, htext, hstart, hlater⟩ := exists_of_marksFrom_cons h
    have rest := ih hlater
    rw [List.flatMap_cons, byteCount_append, ← Nat.add_assoc, ← hstart]
    refine .cons ?_
    rwa [RawSlice.stop, hstart, htext, utf8ByteSize_ofList]

/-- Nothing keeps the slices of the pieces from tiling the source. -/
theorem rawTiling?_marksFrom {source : String} {front : List Char}
    (hsource : source.toList = front ++ ps.flatMap (·.2)) (hfront : byteCount front = offset)
    (h : marksFrom offset block ps = .ok ms) :
    rawTiling? source offset (ms.map (·.slice)) = none := by
  induction ps generalizing offset block ms front with
  | nil =>
    rw [marksFrom, Except.ok.injEq] at h
    rw [List.flatMap_nil, List.append_nil] at hsource
    rw [← h, List.map_nil, rawTiling?, if_pos]
    rw [← byteCount_toList, hsource, hfront]
  | cons p ps ih =>
    obtain ⟨m, next, later, rfl, -, hagrees, htext, hstart, hlater⟩ := exists_of_marksFrom_cons h
    rw [List.flatMap_cons] at hsource
    have text : slice? source m.slice.start m.slice.stop = some m.slice.text :=
      slice?_eq_some_iff.2 ⟨front, ps.flatMap (·.2), by
        rw [hsource, htext, String.toList_ofList, List.append_assoc], by rw [hfront, hstart], rfl⟩
    have rest := ih (show source.toList = (front ++ p.2) ++ ps.flatMap (·.2) by
      rw [hsource, List.append_assoc]) (by rw [byteCount_append, hfront]) hlater
    rw [List.map_cons, rawTiling?, if_neg (by simp [hstart]), if_neg (by simp [text])]
    rwa [RawSlice.stop, hstart, htext, utf8ByteSize_ofList]

end Markup

open Markup

/-! ## 3. Rendered slices -/

namespace Block

/-- However it is rendered, a part renders slices of a list, and literal ones with their text. -/
def IsFaithful (raw : List RawSlice) (b : Block) : Prop :=
  ∀ scope, ∀ x ∈ render scope b, x.1 ∈ raw ∧ (x.1.kind.isLiteral = true → x.2 = x.1.text)

section Faithful

variable {raw : List RawSlice} {bs : List Block}

theorem mem_renderAll {scope : Scope} {x : RawSlice × String} :
    x ∈ renderAll scope bs ↔ ∃ b ∈ bs, x ∈ render scope b := by
  induction bs with
  | nil => simp [renderAll]
  | cons b bs ih => simp [renderAll, ih]

/-- The part that a slice is by itself, if it is no tag. -/
def leaf? (m : Marked) : Option Block :=
  match m.mark with
  | .literal => some (.literal m.slice)
  | .expression name => some (.expression m.slice name)
  | .comment => some (.comment m.slice)
  | _ => none

/-- A slice that is a part by itself is rendered once, whole if it is literal, and without text if
it is a comment. -/
theorem render_leaf? {m : Marked} {b : Block} (hm : m.Agrees) (h : leaf? m = some b)
    (scope : Scope) : m.slice.kind ≠ .blockStart ∧ m.slice.kind ≠ .blockEnd ∧
      ∃ text, render scope b = [(m.slice, text)] ∧
        (m.slice.kind.isLiteral = true → text = m.slice.text) ∧
        (m.slice.kind = .comment → text = "") := by
  rw [hm.kind_eq]
  unfold leaf? at h
  split at h
  case h_4 => cases h
  all_goals
    next hmark =>
    obtain rfl := Option.some.inj h
    rw [hmark]
    exact ⟨by simp [Mark.kind], by simp [Mark.kind], _, by rw [render],
      by simp [Mark.kind, SliceKind.isLiteral], by simp [Mark.kind]⟩

/-- A tag and its end are rendered once, around the parts between them, which are rendered any
number of times. -/
theorem render_close? {opening closing : Marked} {parts : List Block} {b : Block}
    (hopening : opening.Agrees) (hclosing : closing.Agrees)
    (h : close? opening parts closing = some b) (scope : Scope) :
    opening.slice.kind = .blockStart ∧ closing.slice.kind = .blockEnd ∧
      ∃ scopes : List Scope, render scope b = (opening.slice, "") ::
        scopes.flatMap (renderAll · parts.reverse) ++ [(closing.slice, "")] := by
  rw [hopening.kind_eq, hclosing.kind_eq]
  unfold close? at h
  split at h
  · next name negate hmark hmark' =>
    obtain rfl := Option.some.inj h
    rw [hmark, hmark']
    refine ⟨rfl, rfl, if (scope.lookup name).any isTruthy != negate then [scope] else [], ?_⟩
    rw [render]
    split <;> simp
  · next bound items hmark hmark' =>
    obtain rfl := Option.some.inj h
    rw [hmark, hmark']
    refine ⟨rfl, rfl, (expandItems scope items).map fun item => (bound, item) :: scope, ?_⟩
    rw [render, List.flatMap_map]
  · cases h

theorem isFaithful_leaf? {m : Marked} {b : Block} (hm : m.slice ∈ raw) (hagrees : m.Agrees)
    (h : leaf? m = some b) : b.IsFaithful raw := by
  intro scope x hx
  obtain ⟨-, -, text, hrender, hliteral, -⟩ := render_leaf? hagrees h scope
  rw [hrender, List.mem_singleton] at hx
  subst hx
  exact ⟨hm, hliteral⟩

/-- A tag with its end is faithful if what is between them is. -/
theorem isFaithful_close? {opening closing : Marked} {parts : List Block} {b : Block}
    (ho : opening.slice ∈ raw) (hc : closing.slice ∈ raw) (hok : opening.Agrees)
    (hck : closing.Agrees) (hparts : ∀ c ∈ parts, c.IsFaithful raw)
    (h : close? opening parts closing = some b) : b.IsFaithful raw := by
  intro scope x hx
  obtain ⟨hstart, hend, scopes, hrender⟩ := render_close? hok hck h scope
  rw [hrender, List.mem_append, List.mem_cons, List.mem_flatMap, List.mem_singleton] at hx
  rcases hx with (rfl | ⟨inner, -, hx⟩) | rfl
  · exact ⟨ho, fun hliteral => by rw [hstart] at hliteral; cases hliteral⟩
  · obtain ⟨b, hb, hx⟩ := mem_renderAll.1 hx
    exact hparts b (List.mem_reverse.1 hb) inner x hx
  · exact ⟨hc, fun hliteral => by rw [hend] at hliteral; cases hliteral⟩

/-- A slice that is no tag is a part by itself. -/
theorem exists_leaf? {m : Marked} (hstart : m.mark.kind ≠ .blockStart)
    (hend : m.mark.kind ≠ .blockEnd) : ∃ b, leaf? m = some b := by
  unfold leaf?
  cases hmark : m.mark <;> simp_all [Mark.kind]

section Nest

variable {waiting : List Pending} {parts : List Block} {m : Marked} {ms : List Marked}

/-- A slice that is a part by itself is nested with the parts before it. -/
theorem nest_leaf? {b : Block} (h : leaf? m = some b) :
    nest waiting parts (m :: ms) = nest waiting (b :: parts) ms := by
  unfold leaf? at h
  rw [nest]
  split at h
  case h_4 => cases h
  all_goals
    next hmark =>
    obtain rfl := Option.some.inj h
    simp only [hmark]

/-- A tag that opens a block waits for its end. -/
theorem nest_opening (h : m.mark.kind = .blockStart) :
    nest waiting parts (m :: ms) = nest (⟨m, parts⟩ :: waiting) [] ms := by
  rw [nest]
  cases hmark : m.mark <;> rw [hmark, Mark.kind] at h <;> first | rfl | cases h

/-- A tag that ends a block belongs to the innermost open one. -/
theorem exists_of_nest_closing (hm : m.mark.kind = .blockEnd)
    (h : nest waiting parts (m :: ms) = .ok bs) : ∃ w ws b, waiting = w :: ws ∧
      close? w.opening parts m = some b ∧ nest ws (b :: w.before) ms = .ok bs := by
  rw [nest] at h
  cases hmark : m.mark <;> rw [hmark, Mark.kind] at hm
  case endIf | endFor =>
    rw [hmark] at h
    dsimp only at h
    split at h
    · cases h
    · next w ws =>
      split at h
      · next b hb => exact ⟨w, ws, b, rfl, hb, h⟩
      · cases h
  all_goals cases hm

/-- What nesting makes of the next mark: a part, an open tag, or the end of the innermost one. -/
theorem nest_cons_eq_ok (h : nest waiting parts (m :: ms) = .ok bs) :
    (∃ b, leaf? m = some b ∧ nest waiting (b :: parts) ms = .ok bs) ∨
    nest (⟨m, parts⟩ :: waiting) [] ms = .ok bs ∨
    ∃ w ws b, waiting = w :: ws ∧ close? w.opening parts m = some b ∧
      nest ws (b :: w.before) ms = .ok bs := by
  by_cases hstart : m.mark.kind = .blockStart
  · exact .inr (.inl ((nest_opening hstart).symm.trans h))
  · by_cases hend : m.mark.kind = .blockEnd
    · exact .inr (.inr (exists_of_nest_closing hend h))
    · obtain ⟨b, hb⟩ := exists_leaf? hstart hend
      exact .inl ⟨b, hb, (nest_leaf? hb).symm.trans h⟩

/-- Slices that are parts by themselves are nested with the parts before them. -/
theorem exists_nest_leaves {P : Block → Prop} {rest : List Marked}
    (hms : ∀ m ∈ ms, ∃ b, leaf? m = some b ∧ P b) (hparts : ∀ b ∈ parts, P b)
    (h : nest waiting parts (ms ++ rest) = .ok bs) :
    ∃ parts', (∀ b ∈ parts', P b) ∧ nest waiting parts' rest = .ok bs := by
  induction ms generalizing parts with
  | nil => exact ⟨parts, hparts, h⟩
  | cons m ms ih =>
    obtain ⟨⟨b, hb, hP⟩, later⟩ := List.forall_mem_cons.1 hms
    rw [List.cons_append, nest_leaf? hb] at h
    exact ih later (List.forall_mem_cons.2 ⟨hP, hparts⟩) h

end Nest

/-- What nesting keeps: it holds of the part that a mark is by itself, and of a tag with its end if
it holds of the parts between them. -/
structure KeptByNesting (Q : Marked → Prop) (P : Block → Prop) : Prop where
  leaf : ∀ {m b}, Q m → leaf? m = some b → P b
  close : ∀ {opening parts closing b}, Q opening → Q closing → (∀ c ∈ parts, P c) →
    close? opening parts closing = some b → P b

namespace KeptByNesting

variable {Q : Marked → Prop} {P : Block → Prop} {waiting : List Pending} {parts : List Block}
  {ms : List Marked}

/-- Marks before others are nested first. -/
theorem exists_nest_append (keeps : KeptByNesting Q P) {rest : List Marked}
    (hwaiting : ∀ w ∈ waiting, Q w.opening ∧ ∀ b ∈ w.before, P b) (hparts : ∀ b ∈ parts, P b)
    (hms : ∀ m ∈ ms, Q m) (h : nest waiting parts (ms ++ rest) = .ok bs) :
    ∃ waiting' parts', (∀ w ∈ waiting', Q w.opening ∧ ∀ b ∈ w.before, P b) ∧
      (∀ b ∈ parts', P b) ∧ nest waiting' parts' rest = .ok bs := by
  induction ms generalizing waiting parts with
  | nil => exact ⟨waiting, parts, hwaiting, hparts, h⟩
  | cons m ms ih =>
    obtain ⟨hm, later⟩ := List.forall_mem_cons.1 hms
    rcases nest_cons_eq_ok h with ⟨b, hb, h⟩ | h | ⟨w, ws, b, rfl, hb, h⟩
    · exact ih hwaiting (List.forall_mem_cons.2 ⟨keeps.leaf hm hb, hparts⟩) later h
    · exact ih (List.forall_mem_cons.2 ⟨⟨hm, hparts⟩, hwaiting⟩) (by simp) later h
    · obtain ⟨⟨hw, hbefore⟩, hws⟩ := List.forall_mem_cons.1 hwaiting
      exact ih hws (List.forall_mem_cons.2 ⟨keeps.close hw hm hparts hb, hbefore⟩) later h

theorem forall_of_nest (keeps : KeptByNesting Q P)
    (hwaiting : ∀ w ∈ waiting, Q w.opening ∧ ∀ b ∈ w.before, P b) (hparts : ∀ b ∈ parts, P b)
    (hms : ∀ m ∈ ms, Q m) (h : nest waiting parts ms = .ok bs) : ∀ b ∈ bs, P b := by
  rw [← List.append_nil ms] at h
  obtain ⟨waiting', parts', -, hparts', h⟩ := keeps.exists_nest_append hwaiting hparts hms h
  cases waiting' with
  | nil =>
    rw [nest, Except.ok.injEq] at h
    exact fun b hb => hparts' b (List.mem_reverse.1 (h ▸ hb))
  | cons w ws => cases h

theorem forall_of_ofMarks (keeps : KeptByNesting Q P) (hms : ∀ m ∈ ms, Q m)
    (h : ofMarks ms = .ok bs) : ∀ b ∈ bs, P b :=
  keeps.forall_of_nest (by simp) (by simp) hms h

end KeptByNesting

theorem keptByNesting_isFaithful :
    KeptByNesting (fun m => m.slice ∈ raw ∧ m.Agrees) (·.IsFaithful raw) where
  leaf hm h := isFaithful_leaf? hm.1 hm.2 h
  close ho hc hparts h := isFaithful_close? ho.1 hc.1 ho.2 hc.2 hparts h

/-- However it is rendered, the tags and comments of a part render no text. -/
def IsSilent (b : Block) : Prop :=
  ∀ scope, ∀ x ∈ render scope b, x.1.kind ≠ .literal → x.1.kind ≠ .templated → x.2 = ""

theorem keptByNesting_isSilent : KeptByNesting Marked.Agrees IsSilent where
  leaf {m b} hm h := by
    intro scope x hx hliteral htemplated
    obtain ⟨hstart, hend, text, hrender, -, hcomment⟩ := render_leaf? hm h scope
    rw [hrender, List.mem_singleton] at hx
    subst hx
    exact hcomment (by cases hkind : m.slice.kind <;> simp_all)
  close {opening parts closing b} ho hc hparts h := by
    intro scope x hx hliteral htemplated
    obtain ⟨-, -, scopes, hrender⟩ := render_close? ho hc h scope
    rw [hrender, List.mem_append, List.mem_cons, List.mem_flatMap, List.mem_singleton] at hx
    rcases hx with (rfl | ⟨inner, -, hx⟩) | rfl
    · rfl
    · obtain ⟨b, hb, hx⟩ := mem_renderAll.1 hx
      exact hparts b (List.mem_reverse.1 hb) inner x hx hliteral htemplated
    · rfl

end Faithful

/-- The text of rendered slices. -/
def textOf (xs : List (RawSlice × String)) : List Char := xs.flatMap (·.2.toList)

@[simp] theorem textOf_nil : textOf [] = [] := rfl

@[simp] theorem textOf_cons (s : RawSlice) (text : String) (xs : List (RawSlice × String)) :
    textOf ((s, text) :: xs) = text.toList ++ textOf xs := rfl

@[simp] theorem textOf_append (xs ys : List (RawSlice × String)) :
    textOf (xs ++ ys) = textOf xs ++ textOf ys := List.flatMap_append

theorem byteCount_textOf_cons (x : RawSlice × String) (xs : List (RawSlice × String)) :
    byteCount (textOf (x :: xs)) = x.2.utf8ByteSize + byteCount (textOf xs) := by
  rw [← byteCount_toList, ← byteCount_append]
  rfl

theorem toList_join (xs : List (RawSlice × String)) :
    (String.join (xs.map (·.2))).toList = textOf xs := by
  induction xs with
  | nil => rfl
  | cons x xs ih => rw [List.map_cons, String.join_cons, String.toList_append, ih]; rfl

theorem layOut_append (offset : Nat) (xs ys : List (RawSlice × String)) :
    layOut offset (xs ++ ys) = layOut offset xs ++ layOut (offset + byteCount (textOf xs)) ys := by
  induction xs generalizing offset with
  | nil => rfl
  | cons x xs ih =>
    obtain ⟨s, text⟩ := x
    rw [List.cons_append, layOut, layOut, ih, textOf_cons, byteCount_append, byteCount_toList,
      Nat.add_assoc]
    rfl

/-- Nothing keeps slices that are laid out from tiling their text. -/
theorem renderedTiling?_layOut {sourceLength : Nat} (offset : Nat)
    {xs : List (RawSlice × String)} (h : ∀ x ∈ xs, x.1.stop ≤ sourceLength) :
    renderedTiling? (offset + byteCount (textOf xs)) sourceLength offset (layOut offset xs) =
      none := by
  induction xs generalizing offset with
  | nil => simp [layOut, renderedTiling?]
  | cons x xs ih =>
    obtain ⟨s, text⟩ := x
    obtain ⟨hs, hxs⟩ := List.forall_mem_cons.1 h
    have rest := ih (offset + text.utf8ByteSize) hxs
    have within : ¬ sourceLength < s.span.stop := Nat.not_lt.2 hs
    rw [layOut, renderedTiling?, if_neg (by simp), if_neg within, textOf_cons, byteCount_append,
      byteCount_toList, ← Nat.add_assoc]
    exact rest

/-- A raw slice is laid out with its text, behind the text before it. -/
theorem exists_mem_layOut (offset : Nat) (before : List (RawSlice × String))
    (x : RawSlice × String) (after : List (RawSlice × String)) :
    ∃ t ∈ layOut offset (before ++ x :: after), t.kind = x.1.kind ∧ t.source = x.1.span ∧
      t.templated.start = offset + byteCount (textOf before) ∧
      t.templated.stop = t.templated.start + x.2.utf8ByteSize := by
  rw [layOut_append]
  exact ⟨_, List.mem_append_right _ (List.mem_cons_self ..), rfl, rfl, rfl, rfl⟩

/-- A rendered slice that comes from a raw slice lies where that one does in the source. -/
theorem source_ends {t : RenderedSlice} {s : RawSlice} (h : t.source = s.span) :
    t.source.start = s.start ∧ t.source.stop = s.stop := h ▸ ⟨rfl, rfl⟩

/-- A slice that is laid out is a raw slice with its text, and stands behind the text before it. -/
theorem exists_of_mem_layOut {offset : Nat} {xs : List (RawSlice × String)} {t : RenderedSlice}
    (h : t ∈ layOut offset xs) : ∃ before x after, xs = before ++ x :: after ∧
      t.kind = x.1.kind ∧ t.source = x.1.span ∧
      t.templated.start = offset + byteCount (textOf before) ∧
      t.templated.stop = t.templated.start + x.2.utf8ByteSize := by
  induction xs generalizing offset with
  | nil => cases h
  | cons x xs ih =>
    rcases List.mem_cons.1 h with rfl | h
    · exact ⟨[], x, xs, rfl, rfl, rfl, rfl, rfl⟩
    · obtain ⟨before, y, after, rfl, hkind, hsource, hstart, hstop⟩ := ih h
      refine ⟨x :: before, y, after, rfl, hkind, hsource, ?_, hstop⟩
      rw [hstart, byteCount_textOf_cons, Nat.add_assoc]

end Block

open Block

/-! ## 4. Whole templates -/

namespace Templater

variable {values : List (String × String)} {source name : String} {f : TemplatedFile}

/-- How a file came out of a template: the marks of the source and the parts they nest in. -/
structure Renders (values : List (String × String)) (source : String) (f : TemplatedFile)
    (ms : List Marked) (bs : List Block) : Prop where
  marks_eq : marks source = .ok ms
  nest_eq : ofMarks ms = .ok bs
  source_eq : f.source = source
  templated_eq : f.templated.toList = textOf (renderAll values bs)
  slices_eq : f.slices = layOut 0 (renderAll values bs)
  raw_eq : f.raw = ms.map (·.slice)

/-- Every mark is as its slice says, and has text. -/
theorem Renders.agrees {ms : List Marked} {bs : List Block} (h : Renders values source f ms bs) :
    ∀ m ∈ ms, m.Agrees ∧ m.slice.text ≠ "" := fun m hm =>
  ⟨agrees_marksFrom h.marks_eq m hm,
    text_ne_marksFrom h.marks_eq (fun _ hp => ne_nil_of_mem_pieces hp) m hm⟩

theorem Renders.start_lt_stop {ms : List Marked} {bs : List Block}
    (h : Renders values source f ms bs) : ∀ s ∈ f.raw, s.start < s.stop := by
  intro s hs
  rw [h.raw_eq] at hs
  obtain ⟨m, hm, rfl⟩ := List.mem_map.1 hs
  have : m.slice.text.utf8ByteSize ≠ 0 := fun hzero =>
    (h.agrees m hm).2 (String.utf8ByteSize_eq_zero_iff.1 hzero)
  unfold RawSlice.stop
  omega

/-- A file that came out of a template was rendered from its marks. -/
theorem exists_renders (h : (placeholder values).process source name = .ok f) :
    ∃ ms bs, Renders values source f ms bs := by
  rw [process] at h
  cases hms : marks source with
  | error e => rw [hms] at h; cases h
  | ok ms =>
    cases hbs : ofMarks ms with
    | error e => simp [hms, hbs, bind, Except.bind] at h
    | ok bs =>
      simp only [hms, hbs, bind, Except.bind] at h
      unfold TemplatedFile.ofSlices at h
      split at h
      · cases h
      · split at h
        · cases h
        · rw [Except.ok.injEq] at h
          subst h
          exact ⟨ms, bs, hms, hbs, rfl, toList_join _, rfl, rfl⟩

theorem isFaithful_ofMarks {ms : List Marked} {bs : List Block} (hms : marks source = .ok ms)
    (hbs : ofMarks ms = .ok bs) : ∀ b ∈ bs, b.IsFaithful (ms.map (·.slice)) :=
  keptByNesting_isFaithful.forall_of_ofMarks
    (fun m hm => ⟨List.mem_map_of_mem hm, agrees_marksFrom hms m hm⟩) hbs

/-- What a template renders are slices of the file: literal ones with their text, and tags and
comments without any. -/
theorem Renders.spec {ms : List Marked} {bs : List Block} (h : Renders values source f ms bs) :
    ∀ x ∈ renderAll values bs, x.1 ∈ f.raw ∧ (x.1.kind.isLiteral = true → x.2 = x.1.text) ∧
      (x.1.kind ≠ .literal → x.1.kind ≠ .templated → x.2 = "") := by
  intro x hx
  obtain ⟨b, hb, hx⟩ := mem_renderAll.1 hx
  have faithful := isFaithful_ofMarks h.marks_eq h.nest_eq b hb values x hx
  have silent := keptByNesting_isSilent.forall_of_ofMarks (fun m hm => (h.agrees m hm).1) h.nest_eq
  exact ⟨h.raw_eq ▸ faithful.1, faithful.2, silent b hb values x hx⟩

/-- Marks that nest are rendered. -/
theorem exists_process {ms : List Marked} {bs : List Block} (hpieces : (pieces source.toList).flatMap
    (·.2) = source.toList) (hms : marks source = .ok ms) (hbs : ofMarks ms = .ok bs)
    (name : String) : ∃ f, (placeholder values).process source name = .ok f ∧
      f.templated.toList = textOf (renderAll values bs) := by
  have faithful := isFaithful_ofMarks hms hbs
  have tile := tile_marksFrom hms
  rw [hpieces, byteCount_toList, Nat.zero_add] at tile
  have inSource : ∀ x ∈ renderAll values bs, x.1.stop ≤ source.utf8ByteSize := by
    intro x hx
    obtain ⟨b, hb, hx⟩ := mem_renderAll.1 hx
    exact (tile.bounds _ (faithful b hb values x hx).1).2
  have rendered := renderedTiling?_layOut 0 inSource
  rw [Nat.zero_add, ← toList_join, byteCount_toList] at rendered
  have raw : rawTiling? source 0 (ms.map (·.slice)) = none :=
    rawTiling?_marksFrom (hpieces.symm.trans (List.nil_append _).symm) rfl hms
  refine ⟨⟨source, _, name, _, _, rendered, raw⟩, ?_, toList_join _⟩
  rw [process, hms]
  simp only [bind, Except.bind, hbs]
  unfold TemplatedFile.ofSlices
  split
  · next h => rw [rendered] at h; cases h
  · split
    · next h => rw [raw] at h; cases h
    · rfl

end Templater

/-- The file of a template, if it can be rendered. -/
@[irreducible] def rendered (values : List (String × String)) (source : String) : TemplatedFile :=
  match (Templater.placeholder values).process source "" with
  | .ok f => f
  | .error _ => .ofString ""

theorem process_eq_rendered {values : List (String × String)} {source : String}
    (h : ((Templater.placeholder values).process source "").isOk = true) :
    (Templater.placeholder values).process source "" = .ok (rendered values source) := by
  unfold rendered
  cases hfile : (Templater.placeholder values).process source "" with
  | ok f => rfl
  | error e => rw [hfile] at h; cases h

namespace TemplatedFile

variable {values : List (String × String)} {source name : String} {f : TemplatedFile}

/-- Literal text is as long as its source. -/
theorem length_source_of_isLiteral
    (h : (Templater.placeholder values).process source name = .ok f) {t : RenderedSlice}
    (ht : t ∈ f.slices) (hkind : t.kind.isLiteral = true) :
    t.source.length = t.templated.length := by
  obtain ⟨ms, bs, hr⟩ := Templater.exists_renders h
  rw [hr.slices_eq] at ht
  obtain ⟨before, x, after, hout, hk, hs, -, hstop⟩ := exists_of_mem_layOut ht
  have text := (hr.spec x (by simp [hout])).2.1 (hk ▸ hkind)
  rw [Span.length, Span.length, hs, hstop, text]
  show x.1.start + x.1.text.utf8ByteSize - x.1.start = _
  omega

end TemplatedFile

end QueryLint
