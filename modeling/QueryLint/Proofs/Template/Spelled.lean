import QueryLint.Proofs.Template.LoopFree
import QueryLint.Proofs.Template.Pieces

/-!
QueryLint.Proofs.Template.Spelled — the text of a template without loops, piece by piece.

What a piece of the source is rendered to depends on the piece and on the conditions around it, but
not on where it stands. So the pieces alone say what a template without loops is rendered to, and
pieces can be put in, changed, or cut differently without another look at offsets.

* `Markup.spellAll` — the text of pieces.
* `Markup.spellAll_glue` — text that meets may be one piece or several.
* `Markup.exists_piece` — the piece of a rendered slice, with what comes before and after it.
* `Templater.exists_process_of_spellAll` — pieces that spell a text are rendered to it.
-/

namespace QueryLint

open Text Block

namespace Markup

/-! ## 1. The text of pieces -/

/-- What a piece is rendered to, and the conditions that are open after it. Nothing if it cannot be
read, and for loops. -/
def spellPiece (scope : Scope) (open_ : List Bool) (p : Shape × List Char) :
    Option (List Char × List Bool) :=
  (Mark.read p.1 p.2 0).toOption.bind fun mark =>
    (mark.spell scope p.2 open_).map fun r => (if open_.all id then r.1 else [], r.2)

/-- What pieces are rendered to, and the conditions that are open after them. -/
def spellAll (scope : Scope) (open_ : List Bool) :
    List (Shape × List Char) → Option (List Char × List Bool)
  | [] => some ([], open_)
  | p :: ps =>
    (spellPiece scope open_ p).bind fun first =>
      (spellAll scope first.2 ps).map fun rest => (first.1 ++ rest.1, rest.2)

variable {scope : Scope} {open_ next left : List Bool} {p : Shape × List Char}
  {ps qs : List (Shape × List Char)} {text : List Char}

theorem spellAll_cons_eq_some :
    spellAll scope open_ (p :: ps) = some (text, left) ↔ ∃ first next rest,
      spellPiece scope open_ p = some (first, next) ∧ spellAll scope next ps = some (rest, left) ∧
        text = first ++ rest := by
  simp only [spellAll, Option.bind_eq_some_iff, Option.map_eq_some_iff, Prod.exists, Prod.mk.injEq]
  constructor
  · rintro ⟨first, next, hfirst, rest, left', hrest, rfl, rfl⟩
    exact ⟨first, next, rest, hfirst, hrest, rfl⟩
  · rintro ⟨first, next, rest, hfirst, hrest, rfl⟩
    exact ⟨first, next, hfirst, rest, left, hrest, rfl, rfl⟩

/-- Pieces spell their texts one after the other. -/
theorem spellAll_append {rest : List Char} (hps : spellAll scope open_ ps = some (text, next))
    (hqs : spellAll scope next qs = some (rest, left)) :
    spellAll scope open_ (ps ++ qs) = some (text ++ rest, left) := by
  induction ps generalizing open_ text with
  | nil =>
    rw [spellAll, Option.some.injEq, Prod.mk.injEq] at hps
    obtain ⟨rfl, rfl⟩ := hps
    exact hqs
  | cons p ps ih =>
    obtain ⟨first, next', later, hfirst, hlater, rfl⟩ := spellAll_cons_eq_some.1 hps
    exact spellAll_cons_eq_some.2 ⟨first, next', later ++ rest, hfirst, ih hlater,
      List.append_assoc ..⟩

theorem spellAll_single (h : spellPiece scope open_ p = some (text, next)) :
    spellAll scope open_ [p] = some (text, next) :=
  spellAll_cons_eq_some.2 ⟨text, next, [], h, rfl, (List.append_nil _).symm⟩

/-- Text is rendered as it is. -/
theorem spellPiece_text (open_ : List Bool) (cs : List Char) :
    spellPiece scope open_ (.text, cs) = some (if open_.all id then cs else [], open_) := rfl

theorem spellAll_consText (cs : List Char) (ps : List (Shape × List Char)) :
    spellAll scope open_ (consText cs ps) = spellAll scope open_ ((.text, cs) :: ps) := by
  match ps with
  | [] => rfl
  | (.text, ds) :: rest =>
    simp only [consText, spellAll, spellPiece_text, Option.bind_some, Option.map_map]
    congr 1
    funext r
    cases h : open_.all id <;> simp
  | (.expression, _) :: _ | (.statement, _) :: _ | (.comment, _) :: _ => rfl

/-- Text that meets may be one piece or several. -/
theorem spellAll_glue (open_ : List Bool) (ps : List (Shape × List Char)) :
    spellAll scope open_ (glue ps) = spellAll scope open_ ps := by
  induction ps generalizing open_ with
  | nil => rfl
  | cons p ps ih =>
    have more : spellAll scope open_ (p :: glue ps) = spellAll scope open_ (p :: ps) := by
      simp only [spellAll, ih]
    obtain ⟨shape, cs⟩ := p
    by_cases hshape : shape = .text
    · subst hshape
      rw [glue]
      split
      · next hnil => rw [← more, hnil]; simp [spellAll, spellPiece_text]
      · rw [spellAll_consText, more]
    · rw [glue_tag hshape, more]

/-! ## 2. Pieces and marks -/

theorem toOption_readName (cs : List Char) (n m : Nat) :
    (readName cs n).toOption = (readName cs m).toOption := by
  unfold readName
  split <;> rfl

theorem toOption_bind_congr {ε α β : Type} {x y : Except ε α} {f : α → Except ε β}
    (h : x.toOption = y.toOption) : (x >>= f).toOption = (y >>= f).toOption := by
  cases x <;> cases y <;> simp_all [Except.toOption, bind, Except.bind]

/-- What a piece says does not depend on where it stands. -/
theorem toOption_read (shape : Shape) (cs : List Char) (n m : Nat) :
    (Mark.read shape cs n).toOption = (Mark.read shape cs m).toOption := by
  cases shape with
  | text | comment => rfl
  | expression => exact toOption_bind_congr (toOption_readName _ n m)
  | statement =>
    unfold Mark.read readStatement
    dsimp only
    split
    · split
      · exact toOption_bind_congr (toOption_readName _ n m)
      · rfl
    · exact toOption_bind_congr (toOption_readName _ n m)
    · rfl
    · rfl
    · split
      · exact toOption_bind_congr (toOption_readName _ n m)
      · rfl
    · rfl
    · rfl
    · rfl

theorem read_zero {shape : Shape} {cs : List Char} {n : Nat} {mark : Mark}
    (h : Mark.read shape cs n = .ok mark) : (Mark.read shape cs 0).toOption = some mark := by
  rw [toOption_read shape cs 0 n, h]
  rfl

theorem exists_read_of_toOption {shape : Shape} {cs : List Char} {mark : Mark}
    (h : (Mark.read shape cs 0).toOption = some mark) (n : Nat) :
    Mark.read shape cs n = .ok mark := by
  rw [toOption_read shape cs 0 n] at h
  cases hread : Mark.read shape cs n with
  | error e => rw [hread] at h; cases h
  | ok mark' => rw [hread] at h; exact congrArg _ (Option.some.inj h)

/-- An end of a condition has no text. -/
theorem Mark.spell_endIf {cs text : List Char} {open_ next : List Bool} {mark : Mark}
    (h : mark.spell scope cs open_ = some (text, next)) (haround : mark.around open_ next ≠ open_) :
    text = [] := by
  cases mark with
  | endIf =>
    cases open_ with
    | nil => cases h
    | cons b rest =>
      cases h
      rfl
  | _ => exact absurd rfl haround

/-- A mark is rendered to what its piece spells. -/
theorem spellPiece_of_emit {m : Marked} {n : Nat} {out : List (RawSlice × String)}
    (hread : Mark.read p.1 p.2 n = .ok m.mark) (htext : m.slice.text = String.ofList p.2)
    (h : m.emit scope open_ = some (out, next)) :
    spellPiece scope open_ p = some (textOf out, next) := by
  obtain ⟨text, hspell, rfl⟩ := m.emit_eq_some h
  rw [htext, String.toList_ofList] at hspell
  rw [spellPiece, read_zero hread, Option.bind_some, hspell, Option.map_some]
  by_cases haround : m.mark.around open_ next = open_
  · rw [haround]
    split <;> simp
  · rw [Mark.spell_endIf hspell haround]
    split <;> split <;> simp

/-- A piece that is spelled has a mark that is rendered to the same text. -/
theorem exists_emit_of_spellPiece (h : spellPiece scope open_ p = some (text, next)) :
    ∃ mark, (∀ n, Mark.read p.1 p.2 n = .ok mark) ∧ mark.OpensNoLoop ∧
      ∀ m : Marked, m.mark = mark → m.slice.text = String.ofList p.2 →
        ∃ out, m.emit scope open_ = some (out, next) ∧ textOf out = text := by
  obtain ⟨mark, hread, hmap⟩ := Option.bind_eq_some_iff.1 h
  obtain ⟨⟨full, next'⟩, hspell, heq⟩ := Option.map_eq_some_iff.1 hmap
  have reads := exists_read_of_toOption hread
  refine ⟨mark, reads, fun bound items hmark => ?_, fun m hm htext => ?_⟩
  · rw [hmark] at hspell
    cases hspell
  · have emit : m.emit scope open_ = some (if (m.mark.around open_ next').all id
        then [(m.slice, String.ofList full)] else [], next') := by
      rw [Marked.emit, htext, String.toList_ofList, hm, hspell]
      rfl
    have spelled := spellPiece_of_emit ((reads 0).trans (congrArg _ hm.symm)) htext emit
    rw [h, Option.some.injEq, Prod.mk.injEq] at spelled
    exact ⟨_, by rw [spelled.2]; exact spelled.2 ▸ emit, spelled.1.symm⟩

variable {offset block : Nat} {ms : List Marked} {out : List (RawSlice × String)}

/-- Marks are rendered to what their pieces spell. -/
theorem spellAll_of_emitAll (hms : marksFrom offset block ps = .ok ms)
    (h : emitAll scope open_ ms = some (out, left)) :
    spellAll scope open_ ps = some (textOf out, left) := by
  induction ps generalizing offset block ms open_ out with
  | nil =>
    rw [marksFrom, Except.ok.injEq] at hms
    rw [← hms, emitAll, Option.some.injEq, Prod.mk.injEq] at h
    obtain ⟨rfl, rfl⟩ := h
    rfl
  | cons p ps ih =>
    obtain ⟨m, _, later, rfl, hread, -, htext, -, hlater⟩ := exists_of_marksFrom_cons hms
    obtain ⟨first, next, rest, hfirst, hrest, rfl⟩ := emitAll_cons_eq_some.1 h
    exact spellAll_cons_eq_some.2 ⟨_, next, _, spellPiece_of_emit hread htext hfirst,
      ih hlater hrest, textOf_append ..⟩

/-- Pieces that are spelled have marks that are rendered to the same text. -/
theorem exists_emitAll_of_spellAll (h : spellAll scope open_ ps = some (text, left))
    (offset block : Nat) : ∃ ms out, marksFrom offset block ps = .ok ms ∧
      (∀ m ∈ ms, m.mark.OpensNoLoop) ∧ emitAll scope open_ ms = some (out, left) ∧
      textOf out = text := by
  induction ps generalizing offset block open_ text with
  | nil =>
    rw [spellAll, Option.some.injEq, Prod.mk.injEq] at h
    obtain ⟨rfl, rfl⟩ := h
    exact ⟨[], [], rfl, by simp, rfl, rfl⟩
  | cons p ps ih =>
    obtain ⟨first, next, rest, hfirst, hrest, rfl⟩ := spellAll_cons_eq_some.1 h
    obtain ⟨mark, hread, hloop, hemit⟩ := exists_emit_of_spellPiece hfirst
    obtain ⟨m, after, hm, htext, hcons⟩ := exists_marksFrom_cons (hread offset) block ps
    obtain ⟨later, more, hlater, hloops, hmore, rfl⟩ := ih hrest (offset + byteCount p.2) after
    obtain ⟨single, hsingle, rfl⟩ := hemit m hm htext
    exact ⟨m :: later, single ++ more, hcons later hlater,
      List.forall_mem_cons.2 ⟨hm ▸ hloop, hloops⟩,
      emitAll_cons_eq_some.2 ⟨single, next, more, hsingle, hmore, rfl⟩, textOf_append ..⟩

/-! ## 3. The piece of a rendered slice -/

/-- A mark with text is no tag: it leaves the conditions as they are, and they hold. -/
theorem around_of_text {m : Marked} {x : RawSlice × String}
    (h : m.emit scope open_ = some ([x], next)) (hx : x.2 ≠ "") :
    next = open_ ∧ open_.all id = true ∧ x.1 = m.slice := by
  obtain ⟨text, hspell, hout⟩ := m.emit_eq_some h
  split at hout
  · next hall =>
    rw [List.cons.injEq] at hout
    obtain ⟨rfl, -⟩ := hout
    have solid : text ≠ [] := by
      rintro rfl
      exact hx rfl
    have same : m.mark.around open_ next = open_ :=
      Classical.byContradiction fun haround => solid (Mark.spell_endIf hspell haround)
    have kept : next = open_ := by
      unfold Mark.spell at hspell
      split at hspell
      · simp_all
      · simp_all
      · simp_all
      · simp_all
      · split at hspell <;> simp_all
      · cases hspell
      · cases hspell
    exact ⟨kept, same ▸ hall, rfl⟩
  · cases hout

theorem exists_of_bind_pure {ε α β : Type} {x : Except ε α} {g : α → β} {b : β}
    (h : (x >>= fun a => pure (g a)) = .ok b) : ∃ a, b = g a := by
  cases x with
  | error e => cases h
  | ok a => exact ⟨a, (Except.ok.inj h).symm⟩

/-- Only text is read as literal text. -/
theorem shape_of_kind {shape : Shape} {cs : List Char} {n : Nat} {mark : Mark}
    (h : Mark.read shape cs n = .ok mark) (hkind : mark.kind.isLiteral = true) : shape = .text := by
  cases shape with
  | text => rfl
  | comment =>
    obtain rfl := Except.ok.inj h
    cases hkind
  | expression =>
    obtain ⟨name, rfl⟩ := exists_of_bind_pure h
    cases hkind
  | statement =>
    have tag : mark.kind = .blockStart ∨ mark.kind = .blockEnd := by
      rw [Mark.read, readStatement] at h
      split at h
      · split at h
        · obtain ⟨name, rfl⟩ := exists_of_bind_pure h
          exact .inl rfl
        · cases h
      · obtain ⟨name, rfl⟩ := exists_of_bind_pure h
        exact .inl rfl
      · cases h
      · cases h
        exact .inr rfl
      · split at h
        · obtain ⟨name, rfl⟩ := exists_of_bind_pure h
          exact .inl rfl
        · cases h
      · cases h
      · cases h
        exact .inr rfl
      · cases h
    rcases tag with htag | htag <;> rw [htag] at hkind <;> cases hkind

/-- A rendered slice with text comes from one piece in conditions that hold. -/
theorem exists_piece {x : RawSlice × String} {before after : List (RawSlice × String)}
    (hms : marksFrom offset block ps = .ok ms)
    (h : emitAll scope open_ ms = some (before ++ x :: after, left)) (hx : x.2 ≠ "") :
    ∃ front piece back around, ps = front ++ piece :: back ∧ around.all id = true ∧
      spellAll scope open_ front = some (textOf before, around) ∧
      spellAll scope around [piece] = some (x.2.toList, around) ∧
      spellAll scope around back = some (textOf after, left) ∧
      x.1.start = offset + byteCount (front.flatMap (·.2)) ∧ x.1.text = String.ofList piece.2 ∧
      (x.1.kind.isLiteral = true → piece.1 = .text) := by
  induction ps generalizing offset block ms open_ before with
  | nil =>
    rw [marksFrom, Except.ok.injEq] at hms
    rw [← hms, emitAll] at h
    simp at h
  | cons p ps ih =>
    obtain ⟨m, _, later, rfl, hread, hagrees, htext, hstart, hlater⟩ := exists_of_marksFrom_cons hms
    obtain ⟨first, next, rest, hfirst, hrest, hout⟩ := emitAll_cons_eq_some.1 h
    have spelled := spellPiece_of_emit hread htext hfirst
    -- The slice is that of the first piece, or comes from one of the others.
    have further (more : List (RawSlice × String)) (hbefore : before = first ++ more)
        (hmore : rest = more ++ x :: after) :
        ∃ front piece back around, p :: ps = front ++ piece :: back ∧ around.all id = true ∧
          spellAll scope open_ front = some (textOf before, around) ∧
          spellAll scope around [piece] = some (x.2.toList, around) ∧
          spellAll scope around back = some (textOf after, left) ∧
          x.1.start = offset + byteCount (front.flatMap (·.2)) ∧
          x.1.text = String.ofList piece.2 ∧ (x.1.kind.isLiteral = true → piece.1 = .text) := by
      obtain ⟨front, piece, back, around, rfl, hall, hfront, hpiece, hback, hpos, hspec⟩ :=
        ih hlater (hmore ▸ hrest)
      refine ⟨p :: front, piece, back, around, rfl, hall, ?_, hpiece, hback, ?_, hspec⟩
      · rw [hbefore, textOf_append]
        exact spellAll_cons_eq_some.2 ⟨_, next, _, spelled, hfront, rfl⟩
      · rw [hpos, List.flatMap_cons, byteCount_append, Nat.add_assoc]
    obtain ⟨text, -, hshown⟩ := m.emit_eq_some hfirst
    split at hshown
    · next hall =>
      cases before with
      | nil =>
        rw [hshown, List.nil_append, List.singleton_append, List.cons.injEq] at hout
        obtain ⟨rfl, rfl⟩ := hout
        rw [hshown] at hfirst spelled
        obtain ⟨rfl, hholds, -⟩ := around_of_text hfirst hx
        have own : spellPiece scope next p = some (text, next) := by simpa using spelled
        refine ⟨[], p, ps, next, rfl, hholds, rfl, ?_, spellAll_of_emitAll hlater hrest, ?_, htext,
          fun hkind => shape_of_kind hread (hagrees.kind_eq ▸ hkind)⟩
        · rw [String.toList_ofList]
          exact spellAll_single own
        · rw [hstart]; rfl
      | cons y before =>
        rw [hshown, List.cons_append, List.singleton_append, List.cons.injEq] at hout
        exact further before (by rw [hshown, hout.1]; rfl) hout.2.symm
    · exact further before (by rw [hshown]; rfl) (by rw [hout, hshown]; rfl)

end Markup

/-! ## 4. Rendering pieces -/

namespace Templater

open Markup

/-- Clean pieces that spell a text are rendered to it. -/
theorem exists_process_of_spellAll {values : List (String × String)}
    {ps : List (Shape × List Char)} {text : List Char} (hclean : ∀ p ∈ ps, IsClean p)
    (h : spellAll values [] ps = some (text, [])) (name : String) :
    ∃ g, (placeholder values).process (String.ofList (ps.flatMap (·.2))) name = .ok g ∧
      g.templated = String.ofList text := by
  rw [← spellAll_glue, ← pieces_flatMap hclean] at h
  obtain ⟨ms, out, hms, hloops, hout, htext⟩ := exists_emitAll_of_spellAll h 0 0
  obtain ⟨bs, hbs, hrender⟩ := (ofMarks_eq_ok_iff hloops out).2 hout
  have marks_eq : marks (String.ofList (ps.flatMap (·.2))) = .ok ms := by
    rw [marks, String.toList_ofList]
    exact hms
  obtain ⟨g, hg, hgtext⟩ := exists_process (flatMap_pieces _) marks_eq hbs name
  refine ⟨g, hg, ?_⟩
  rw [hrender, htext] at hgtext
  rw [← hgtext, String.ofList_toList]

end Templater

end QueryLint
