import QueryLint.Proofs.Template.Rendered

/-!
QueryLint.Proofs.Template.LoopFree — templates without loops.

Without loops every mark is rendered at most once, so that rendering is a walk along the marks that
remembers which conditions are open around it, and whether they hold. The walk stands for nesting
and rendering at once: it ends with no open condition exactly if the tags nest, and then it has
rendered what the nested parts are rendered to.

* `Markup.Mark.spell`, `Markup.Marked.emit`, `Markup.emitAll` — the walk.
* `Block.renderAll_nest` — nesting and rendering is the walk.
* `TemplatedFile.exists_emitAll` — the slices of a file are what the walk renders.
* `TemplatedFile.ascending_of_loopFree` — they come in the order of their sources.
-/

namespace QueryLint

open Text Markup Block

/-- No tag opens a loop. -/
def TemplatedFile.LoopFree (f : TemplatedFile) : Prop := ∀ s ∈ f.raw, s.tag ≠ some "for"

instance (f : TemplatedFile) : Decidable f.LoopFree :=
  inferInstanceAs (Decidable (∀ s ∈ f.raw, _))

/-! ## 1. The walk -/

namespace Markup

/-- A mark opens no loop. -/
def Mark.OpensNoLoop (m : Mark) : Prop := ∀ bound items, m ≠ .openFor bound items

/-- What a mark is rendered to if it is, and the conditions that are open after it; `open_` tells
of those before it whether they hold, innermost first. Nothing for an end without a condition, and
for loops. -/
def Mark.spell (scope : Scope) (text : List Char) (open_ : List Bool) :
    Mark → Option (List Char × List Bool)
  | literal => some (text, open_)
  | expression name => some (((scope.lookup name).getD name).toList, open_)
  | comment => some ([], open_)
  | openIf name negate => some ([], ((scope.lookup name).any isTruthy != negate) :: open_)
  | endIf =>
    match open_ with
    | [] => none
    | _ :: rest => some ([], rest)
  | openFor _ _ | endFor => none

/-- A mark is rendered if all conditions around it hold. Those around an end are open after it. -/
def Mark.around (open_ next : List Bool) : Mark → List Bool
  | endIf => next
  | _ => open_

/-- The rendered slice of a mark, if there is one, and the conditions that are open after it. -/
def Marked.emit (scope : Scope) (open_ : List Bool) (m : Marked) :
    Option (List (RawSlice × String) × List Bool) :=
  (m.mark.spell scope m.slice.text.toList open_).map fun r =>
    (if (m.mark.around open_ r.2).all id then [(m.slice, String.ofList r.1)] else [], r.2)

/-- The rendered slices of marks, and the conditions that are open after them. -/
def emitAll (scope : Scope) (open_ : List Bool) :
    List Marked → Option (List (RawSlice × String) × List Bool)
  | [] => some ([], open_)
  | m :: ms =>
    (m.emit scope open_).bind fun first =>
      (emitAll scope first.2 ms).map fun rest => (first.1 ++ rest.1, rest.2)

variable {scope : Scope} {open_ left : List Bool} {ms : List Marked}
  {out : List (RawSlice × String)}

theorem emitAll_cons_eq_some {m : Marked} :
    emitAll scope open_ (m :: ms) = some (out, left) ↔ ∃ first next rest,
      m.emit scope open_ = some (first, next) ∧ emitAll scope next ms = some (rest, left) ∧
        out = first ++ rest := by
  simp only [emitAll, Option.bind_eq_some_iff, Option.map_eq_some_iff, Prod.exists, Prod.mk.injEq]
  constructor
  · rintro ⟨first, next, hfirst, rest, left', hrest, rfl, rfl⟩
    exact ⟨first, next, rest, hfirst, hrest, rfl⟩
  · rintro ⟨first, next, rest, hfirst, hrest, rfl⟩
    exact ⟨first, next, hfirst, rest, left, hrest, rfl, rfl⟩

/-- A mark has one rendered slice or none. -/
theorem Marked.emit_eq_some {m : Marked} {next : List Bool}
    (h : m.emit scope open_ = some (out, next)) :
    ∃ text, m.mark.spell scope m.slice.text.toList open_ = some (text, next) ∧
      out = if (m.mark.around open_ next).all id then [(m.slice, String.ofList text)] else [] := by
  obtain ⟨⟨text, next'⟩, hspell, heq⟩ := Option.map_eq_some_iff.1 h
  simp only [Prod.mk.injEq] at heq
  obtain ⟨rfl, rfl⟩ := heq
  exact ⟨text, hspell, rfl⟩

/-- Each mark is rendered once at most, in order. -/
theorem sublist_emitAll (h : emitAll scope open_ ms = some (out, left)) :
    (out.map (·.1)).Sublist (ms.map (·.slice)) := by
  induction ms generalizing open_ out with
  | nil =>
    rw [emitAll, Option.some.injEq, Prod.mk.injEq] at h
    rw [← h.1]
    exact .slnil
  | cons m ms ih =>
    obtain ⟨first, next, rest, hfirst, hrest, rfl⟩ := emitAll_cons_eq_some.1 h
    obtain ⟨text, -, rfl⟩ := m.emit_eq_some hfirst
    rw [List.map_cons, List.map_append]
    split
    · exact (ih hrest).cons_cons _
    · exact (ih hrest).cons _

/-- The first mark is rendered. -/
theorem head?_emitAll (h : emitAll scope [] ms = some (out, left)) :
    (out.map (·.1)).head? = (ms.map (·.slice)).head? := by
  cases ms with
  | nil =>
    rw [emitAll, Option.some.injEq, Prod.mk.injEq] at h
    rw [← h.1]
    rfl
  | cons m ms =>
    obtain ⟨first, next, rest, hfirst, hrest, rfl⟩ := emitAll_cons_eq_some.1 h
    obtain ⟨text, hspell, rfl⟩ := m.emit_eq_some hfirst
    have around : m.mark.around [] next = [] := by
      unfold Mark.around
      split
      · next hmark => rw [hmark] at hspell; cases hspell
      · rfl
    rw [around]
    rfl

end Markup

/-! ## 2. Nesting and rendering is the walk -/

namespace Block

variable {scope : Scope}

/-- The condition of an open tag holds. -/
def Pending.holds (scope : Scope) (w : Pending) : Bool :=
  match w.opening.mark with
  | .openIf name negate => (scope.lookup name).any isTruthy != negate
  | _ => false

/-- An open tag is a condition. -/
def Pending.IsCondition (w : Pending) : Prop := ∃ name negate, w.opening.mark = .openIf name negate

/-- Rendered slices of parts that stand in open conditions. -/
def renderedIn (open_ : List Bool) (xs : List (RawSlice × String)) : List (RawSlice × String) :=
  if open_.all id then xs else []

@[simp] theorem renderedIn_nil (xs : List (RawSlice × String)) : renderedIn [] xs = xs := rfl

theorem renderedIn_append (open_ : List Bool) (xs ys : List (RawSlice × String)) :
    renderedIn open_ (xs ++ ys) = renderedIn open_ xs ++ renderedIn open_ ys := by
  unfold renderedIn
  split <;> simp

theorem renderedIn_empty (open_ : List Bool) : renderedIn open_ [] = [] := by
  unfold renderedIn
  split <;> rfl

theorem renderedIn_cons (b : Bool) (open_ : List Bool) (xs : List (RawSlice × String)) :
    renderedIn (b :: open_) xs = renderedIn open_ (if b then xs else []) := by
  unfold renderedIn
  cases b <;> simp

/-- What has been rendered when conditions wait for their ends, and `parts` were read in the
innermost. -/
def soFar (scope : Scope) : List Pending → List Block → List (RawSlice × String)
  | [], parts => renderAll scope parts.reverse
  | w :: ws, parts =>
    soFar scope ws w.before ++ renderedIn (ws.map (·.holds scope)) [(w.opening.slice, "")] ++
      renderedIn (w.holds scope :: ws.map (·.holds scope)) (renderAll scope parts.reverse)

theorem renderAll_append (bs cs : List Block) :
    renderAll scope (bs ++ cs) = renderAll scope bs ++ renderAll scope cs := by
  induction bs with
  | nil => rfl
  | cons b bs ih => rw [List.cons_append, renderAll, renderAll, ih, List.append_assoc]

theorem soFar_cons (ws : List Pending) (b : Block) (parts : List Block) :
    soFar scope ws (b :: parts) =
      soFar scope ws parts ++ renderedIn (ws.map (·.holds scope)) (render scope b) := by
  have last : renderAll scope (b :: parts).reverse =
      renderAll scope parts.reverse ++ render scope b := by
    rw [List.reverse_cons, renderAll_append, renderAll, renderAll, List.append_nil]
  cases ws with
  | nil => exact last
  | cons w ws => rw [soFar, soFar, last, renderedIn_append, List.map_cons, ← List.append_assoc]

/-- What is rendered in the end, if all conditions have had theirs. -/
def finish (front : List (RawSlice × String)) (r : List (RawSlice × String) × List Bool) :
    Option (List (RawSlice × String)) :=
  if r.2 = [] then some (front ++ r.1) else none

/-- Going on from rendered slices is the same as going on without them and putting them in
front. -/
theorem bind_emitAll_finish {m : Marked} {ms : List Marked} {open_ next : List Bool}
    {front first : List (RawSlice × String)} (h : m.emit scope open_ = some (first, next)) :
    (emitAll scope open_ (m :: ms)).bind (finish front) =
      (emitAll scope next ms).bind (finish (front ++ first)) := by
  rw [emitAll, h, Option.bind_some, Option.bind_map]
  congr 1
  funext r
  simp only [Function.comp, finish, List.append_assoc]

/-- Nesting marks without loops and rendering them is the walk. -/
theorem renderAll_nest {waiting : List Pending} (parts : List Block) {ms : List Marked}
    (hwaiting : ∀ w ∈ waiting, w.IsCondition) (hms : ∀ m ∈ ms, m.mark.OpensNoLoop) :
    (nest waiting parts ms).toOption.map (renderAll scope) =
      (emitAll scope (waiting.map (·.holds scope)) ms).bind (finish (soFar scope waiting parts)) := by
  induction ms generalizing waiting parts with
  | nil =>
    cases waiting with
    | nil => simp [nest, emitAll, finish, soFar, Except.toOption]
    | cons w ws => simp [nest, emitAll, finish, Except.toOption]
  | cons m ms ih =>
    obtain ⟨hm, hms⟩ := List.forall_mem_cons.1 hms
    have part (b : Block) (text : List Char) (hrender : render scope b = [(m.slice, .ofList text)])
        (hspell : m.mark.spell scope m.slice.text.toList (waiting.map (·.holds scope)) =
          some (text, waiting.map (·.holds scope)))
        (haround : ∀ open_ next, m.mark.around open_ next = open_)
        (hnest : nest waiting parts (m :: ms) = nest waiting (b :: parts) ms) :
        (nest waiting parts (m :: ms)).toOption.map (renderAll scope) =
          (emitAll scope (waiting.map (·.holds scope)) (m :: ms)).bind
            (finish (soFar scope waiting parts)) := by
      have emit : m.emit scope (waiting.map (·.holds scope)) =
          some (renderedIn (waiting.map (·.holds scope)) (render scope b),
            waiting.map (·.holds scope)) := by
        rw [Marked.emit, hspell, Option.map_some, haround, hrender]
        rfl
      rw [hnest, ih _ hwaiting hms, soFar_cons, bind_emitAll_finish emit]
    cases hmark : m.mark with
    | literal =>
      refine part (.literal m.slice) m.slice.text.toList ?_ ?_ ?_ ?_
      · rw [render, String.ofList_toList]
      all_goals simp [hmark, Mark.spell, Mark.around, nest]
    | expression name =>
      refine part (.expression m.slice name) ((scope.lookup name).getD name).toList
        ?_ ?_ ?_ ?_
      · rw [render, String.ofList_toList]
      all_goals simp [hmark, Mark.spell, Mark.around, nest]
    | comment =>
      refine part (.comment m.slice) [] ?_ ?_ ?_ ?_
      · rw [render]
      all_goals simp [hmark, Mark.spell, Mark.around, nest]
    | openIf name negate =>
      have condition : (⟨m, parts⟩ : Pending).IsCondition := ⟨name, negate, hmark⟩
      have emit : m.emit scope (waiting.map (·.holds scope)) =
          some (renderedIn (waiting.map (·.holds scope)) [(m.slice, "")],
            ((⟨m, parts⟩ : Pending) :: waiting).map (·.holds scope)) := by
        simp [Marked.emit, hmark, Mark.spell, Mark.around, renderedIn, Pending.holds]
      rw [nest, hmark]
      dsimp only
      rw [ih _ (List.forall_mem_cons.2 ⟨condition, hwaiting⟩) hms, bind_emitAll_finish emit, soFar,
        List.reverse_nil, renderAll, renderedIn_empty, List.append_nil]
    | openFor bound items => exact absurd hmark (hm bound items)
    | endIf =>
      cases waiting with
      | nil => simp [nest, hmark, emitAll, Marked.emit, Mark.spell, Except.toOption]
      | cons w ws =>
        obtain ⟨⟨name, negate, hw⟩, hws⟩ := List.forall_mem_cons.1 hwaiting
        have emit : m.emit scope ((w :: ws).map (·.holds scope)) =
            some (renderedIn (ws.map (·.holds scope)) [(m.slice, "")],
              ws.map (·.holds scope)) := by
          rw [Marked.emit, hmark]
          rfl
        have closed : soFar scope ws
            (.cond w.opening.slice name negate parts.reverse m.slice :: w.before) =
              soFar scope (w :: ws) parts ++
                renderedIn (ws.map (·.holds scope)) [(m.slice, "")] := by
          have holds : w.holds scope = ((scope.lookup name).any isTruthy != negate) := by
            rw [Pending.holds, hw]
          rw [soFar_cons, soFar, render, ← List.singleton_append, renderedIn_append,
            renderedIn_append, renderedIn_cons, holds, List.append_assoc, List.append_assoc,
            List.append_assoc]
        simp only [nest, hmark, close?, hw]
        rw [ih _ hws hms, bind_emitAll_finish emit, closed]
    | endFor =>
      have ends : (emitAll scope (waiting.map (·.holds scope)) (m :: ms)) = none := by
        simp [emitAll, Marked.emit, hmark, Mark.spell]
      rw [ends, nest, hmark]
      cases waiting with
      | nil => rfl
      | cons w ws =>
        obtain ⟨⟨name, negate, hw⟩, -⟩ := List.forall_mem_cons.1 hwaiting
        simp [close?, hw, hmark, Except.toOption]

/-- Marks without loops nest exactly if the walk ends without an open condition. -/
theorem ofMarks_eq_ok_iff {ms : List Marked} (hms : ∀ m ∈ ms, m.mark.OpensNoLoop)
    (out : List (RawSlice × String)) :
    (∃ bs, ofMarks ms = .ok bs ∧ renderAll scope bs = out) ↔
      emitAll scope [] ms = some (out, []) := by
  have walk : (nest [] [] ms).toOption.map (renderAll scope) = _ :=
    renderAll_nest [] (by simp) hms
  rw [ofMarks]
  simp only [List.map_nil, soFar, List.reverse_nil, renderAll] at walk
  constructor
  · rintro ⟨bs, hbs, rfl⟩
    rw [hbs] at walk
    obtain ⟨⟨out, left⟩, hout, hfinish⟩ := Option.bind_eq_some_iff.1 walk.symm
    unfold finish at hfinish
    split at hfinish
    · next hleft =>
      dsimp only at hleft
      rw [hout, hleft]
      simpa using hfinish
    · cases hfinish
  · intro hout
    rw [hout] at walk
    obtain ⟨bs, hbs, hrender⟩ := Option.map_eq_some_iff.1 walk
    refine ⟨bs, ?_, hrender⟩
    cases hnest : nest [] [] ms with
    | error e => rw [hnest] at hbs; cases hbs
    | ok bs' => rw [hnest] at hbs; exact congrArg _ (Option.some.inj hbs)

end Block

/-! ## 3. Files -/

namespace TemplatedFile

variable {values : List (String × String)} {source name : String} {f : TemplatedFile}

theorem opensNoLoop_of_loopFree {ms : List Marked} (hms : marks source = .ok ms)
    (hraw : f.raw = ms.map (·.slice)) (h : f.LoopFree) : ∀ m ∈ ms, m.mark.OpensNoLoop := by
  intro m hm bound items hmark
  refine h m.slice (hraw ▸ List.mem_map_of_mem hm) ?_
  rw [(agrees_marksFrom hms m hm).tag_eq, hmark]
  rfl

/-- The slices of a file without loops are what the walk along its marks renders. -/
theorem exists_emitAll (h : (Templater.placeholder values).process source name = .ok f)
    (hloops : f.LoopFree) :
    ∃ ms out, marks source = .ok ms ∧ (∀ m ∈ ms, m.mark.OpensNoLoop) ∧
      f.raw = ms.map (·.slice) ∧ emitAll values [] ms = some (out, []) ∧
      f.slices = layOut 0 out ∧ f.templated.toList = textOf out := by
  obtain ⟨ms, bs, hr⟩ := Templater.exists_renders h
  have noLoops := opensNoLoop_of_loopFree hr.marks_eq hr.raw_eq hloops
  exact ⟨ms, _, hr.marks_eq, noLoops, hr.raw_eq,
    (ofMarks_eq_ok_iff noLoops _).1 ⟨bs, hr.nest_eq, rfl⟩, hr.slices_eq, hr.templated_eq⟩

theorem map_source_layOut (offset : Nat) (xs : List (RawSlice × String)) :
    (layOut offset xs).map (·.source) = xs.map (·.1.span) := by
  induction xs generalizing offset with
  | nil => rfl
  | cons x xs ih => rw [layOut, List.map_cons, ih]; rfl

/-- Without loops, slices come in the order of their sources. -/
theorem ascending_of_loopFree (h : (Templater.placeholder values).process source name = .ok f)
    (hloops : f.LoopFree) : f.slices.Pairwise (·.source.stop ≤ ·.source.start) := by
  obtain ⟨ms, out, -, -, hraw, hemit, hslices, -⟩ := exists_emitAll h hloops
  have sorted : (out.map (·.1)).Pairwise (·.stop ≤ ·.start) :=
    (f.raw_tiles.pairwise).sublist (hraw ▸ sublist_emitAll hemit)
  have sources : (f.slices.map (·.source)).Pairwise (·.stop ≤ ·.start) := by
    rw [hslices, map_source_layOut]
    rw [List.pairwise_map] at sorted ⊢
    exact sorted
  exact List.pairwise_map.1 sources

end TemplatedFile

end QueryLint
