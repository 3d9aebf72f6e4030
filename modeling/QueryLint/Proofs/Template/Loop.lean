import QueryLint.Proofs.Template.Point

/-!
QueryLint.Proofs.Template.Loop — the rounds of a loop without expressions.

A loop whose body is literal text and comments renders the same text in every round. Tags nest, so
along the rendered slices of a file the body is entered at the tag of the loop and left at its end
tag, and nowhere else: in front of a slice of the body there is the tag or another slice of the
body. From a point in the loop one therefore gets back to text of the body, or to the tag, without
passing any other text.

The map takes a point where slices meet to the least of their ends in the source. This lies in the
loop if text of a round ends there, and nothing that starts there comes from before the body. The
rounds are told apart from what follows by nothing else, so the point behind the last round counts
with the loop.

* `TemplatedFile.LiteralLoop` — a loop whose body is literal text and comments.
* `LiteralLoop.Walk` — rendered slices lead into the loop or out of it.
* `LiteralLoop.walk_renderAll` — those of a whole file lead back out.
* `LiteralLoop.lands_iff` — the points whose source lies in the loop.
* `LiteralLoop.block_mem_literalLoopBlocks` — the loop is found to render the same in every round.
-/

namespace QueryLint

open Text Markup Block

namespace TemplatedFile

/-- A loop whose body is literal text and comments: its tags, and the raw slices of the file
before, between and behind them. -/
structure LiteralLoop (f : TemplatedFile) where
  before : List RawSlice
  opening : RawSlice
  body : List RawSlice
  closing : RawSlice
  after : List RawSlice
  raw_eq : f.raw = before ++ opening :: (body ++ closing :: after)
  opening_kind : opening.kind = .blockStart
  opening_tag : opening.tag = some "for"
  closing_kind : closing.kind = .blockEnd
  body_kind : ∀ s ∈ body, s.kind = .literal ∨ s.kind = .comment

namespace LiteralLoop

variable {f : TemplatedFile} (loop : f.LiteralLoop)

/-! ## 1. In the loop and outside -/

/-- Where the slices lie in the source. -/
theorem bounds : (∀ s ∈ loop.before, s.stop ≤ loop.opening.start) ∧
    (∀ s ∈ loop.body, loop.opening.stop ≤ s.start ∧ s.stop ≤ loop.closing.start) ∧
    loop.opening.stop ≤ loop.closing.start ∧ ∀ s ∈ loop.after, loop.closing.stop ≤ s.start := by
  have sorted := f.raw_tiles.pairwise
  rw [loop.raw_eq, List.pairwise_append, List.pairwise_cons, List.pairwise_append,
    List.pairwise_cons] at sorted
  obtain ⟨-, ⟨hopening, -, ⟨hclosing, -⟩, hbody⟩, hbefore⟩ := sorted
  exact ⟨fun s hs => hbefore s hs _ (by simp),
    fun s hs => ⟨hopening s (by simp [hs]), hbody s hs _ (by simp)⟩, hopening _ (by simp), hclosing⟩

/-- What a slice of the file is to the loop. -/
theorem cases_of_mem_raw {s : RawSlice} (hs : s ∈ f.raw) :
    s = loop.opening ∨ s ∈ loop.body ∨ s = loop.closing ∨ s ∈ loop.before ∨ s ∈ loop.after := by
  rw [loop.raw_eq] at hs
  simp only [List.mem_append, List.mem_cons] at hs
  rcases hs with hs | hs | hs | hs | hs <;> simp [hs]

/-- One is in the loop in front of a slice of the source: it is of the body, or the end tag. -/
def insideBefore (s : RawSlice) : Bool :=
  loop.opening.start < s.start && s.start ≤ loop.closing.start

/-- One is in the loop behind a slice of the source: it is the tag, or of the body. -/
def insideAfter (s : RawSlice) : Bool :=
  loop.opening.start ≤ s.start && s.start < loop.closing.start

/-- Rendered slices lead from a place in front of them to one behind, each of which is in the loop
or outside. -/
inductive Walk : Bool → List (RawSlice × String) → Bool → Prop
  | nil (inside : Bool) : Walk inside [] inside
  | cons {x : RawSlice × String} {xs : List (RawSlice × String)} {a b c : Bool} :
      loop.insideBefore x.1 = a → loop.insideAfter x.1 = b → Walk b xs c → Walk a (x :: xs) c

section Places

variable (htext : ∀ s ∈ f.raw, s.start < s.stop) {s : RawSlice}

include htext

theorem inside_opening : loop.insideBefore loop.opening = false ∧
    loop.insideAfter loop.opening = true := by
  have := htext loop.opening (by simp [loop.raw_eq])
  have := loop.bounds.2.2.1
  simp only [insideBefore, insideAfter, Bool.and_eq_false_iff, Bool.and_eq_true,
    decide_eq_true_eq, decide_eq_false_iff_not]
  omega

theorem inside_closing : loop.insideBefore loop.closing = true ∧
    loop.insideAfter loop.closing = false := by
  have := htext loop.opening (by simp [loop.raw_eq])
  have := loop.bounds.2.2.1
  simp only [insideBefore, insideAfter, Bool.and_eq_false_iff, Bool.and_eq_true,
    decide_eq_true_eq, decide_eq_false_iff_not]
  omega

theorem inside_body (hs : s ∈ loop.body) : loop.insideBefore s = true ∧
    loop.insideAfter s = true := by
  have := htext loop.opening (by simp [loop.raw_eq])
  have := htext s (by simp [loop.raw_eq, hs])
  have := loop.bounds.2.1 s hs
  simp only [insideBefore, insideAfter, Bool.and_eq_true, decide_eq_true_eq]
  omega

theorem inside_elsewhere (hs : s ∈ loop.before ∨ s ∈ loop.after) : loop.insideBefore s = false ∧
    loop.insideAfter s = false := by
  have := htext loop.closing (by simp [loop.raw_eq])
  have := htext s (by rcases hs with hs | hs <;> simp [loop.raw_eq, hs])
  have := hs.imp (loop.bounds.1 s) (loop.bounds.2.2.2 s)
  simp only [insideBefore, insideAfter, Bool.and_eq_false_iff, decide_eq_false_iff_not]
  omega

/-- Behind the tag and the slices of the body alone one is in the loop. -/
theorem eq_or_mem_of_insideAfter (hs : s ∈ f.raw) (h : loop.insideAfter s = true) :
    s = loop.opening ∨ s ∈ loop.body := by
  rcases loop.cases_of_mem_raw hs with rfl | hs | rfl | hs
  · exact .inl rfl
  · exact .inr hs
  · rw [(loop.inside_closing htext).2] at h
    cases h
  · rw [(loop.inside_elsewhere htext hs).2] at h
    cases h

/-- In front of the slices of the body and the end tag alone one is in the loop. -/
theorem mem_or_eq_of_insideBefore (hs : s ∈ f.raw) (h : loop.insideBefore s = true) :
    s ∈ loop.body ∨ s = loop.closing := by
  rcases loop.cases_of_mem_raw hs with rfl | hs | rfl | hs
  · rw [(loop.inside_opening htext).1] at h
    cases h
  · exact .inl hs
  · exact .inr rfl
  · rw [(loop.inside_elsewhere htext hs).1] at h
    cases h

end Places

/-! ## 2. The walk along the rendered slices -/

namespace Walk

variable {loop} {xs ys : List (RawSlice × String)} {a b c : Bool}

theorem append (h : loop.Walk a xs b) (h' : loop.Walk b ys c) : loop.Walk a (xs ++ ys) c := by
  induction h with
  | nil inside => exact h'
  | cons hbefore hafter _ ih => exact .cons hbefore hafter (ih h')

theorem split (h : loop.Walk a (xs ++ ys) c) : ∃ b, loop.Walk a xs b ∧ loop.Walk b ys c := by
  induction xs generalizing a with
  | nil => exact ⟨a, .nil a, h⟩
  | cons x xs ih =>
    cases h with
    | cons hbefore hafter h =>
      obtain ⟨b, hxs, hys⟩ := ih h
      exact ⟨b, .cons hbefore hafter hxs, hys⟩

theorem flatMap {α : Type} {g : α → List (RawSlice × String)} {ls : List α}
    (h : ∀ l ∈ ls, loop.Walk a (g l) a) : loop.Walk a (ls.flatMap g) a := by
  induction ls with
  | nil => exact .nil a
  | cons l ls ih =>
    obtain ⟨hl, hls⟩ := List.forall_mem_cons.1 h
    exact hl.append (ih hls)

theorem renderAll {scope : Scope} {bs : List Block}
    (h : ∀ b ∈ bs, loop.Walk a (b.render scope) a) : loop.Walk a (renderAll scope bs) a := by
  induction bs with
  | nil => exact .nil a
  | cons b bs ih =>
    obtain ⟨hb, hbs⟩ := List.forall_mem_cons.1 h
    exact hb.append (ih hbs)

variable (htext : ∀ s ∈ f.raw, s.start < s.stop)

include htext

/-- On the way into the loop one passes its tag or text of the body, and no text after that. -/
theorem exists_before (h : loop.Walk a xs true) (hraw : ∀ x ∈ xs, x.1 ∈ f.raw) :
    a = true ∧ textOf xs = [] ∨ ∃ front x back, xs = front ++ x :: back ∧ textOf back = [] ∧
      (x.1 = loop.opening ∨ x.1 ∈ loop.body ∧ x.2 ≠ "") := by
  induction xs generalizing a with
  | nil =>
    cases h
    exact .inl ⟨rfl, rfl⟩
  | cons x xs ih =>
    cases h with
    | cons hbefore hafter h =>
      obtain ⟨hx, hxs⟩ := List.forall_mem_cons.1 hraw
      rcases ih h hxs with ⟨rfl, hback⟩ | ⟨front, y, back, rfl, hback, hy⟩
      · rcases loop.eq_or_mem_of_insideAfter htext hx hafter with hopening | hbody
        · exact .inr ⟨[], x, xs, rfl, hback, .inl hopening⟩
        · by_cases hempty : x.2 = ""
          · refine .inl ⟨hbefore.symm.trans (loop.inside_body htext hbody).1, ?_⟩
            rw [← byteCount_eq_zero_iff, byteCount_textOf_cons, hempty, hback]
            rfl
          · exact .inr ⟨[], x, xs, rfl, hback, .inr ⟨hbody, hempty⟩⟩
      · exact .inr ⟨x :: front, y, back, rfl, hback, hy⟩

/-- On the way out of the loop one passes its end tag or text of the body, and no text before. -/
theorem exists_after (h : loop.Walk true ys false) (hraw : ∀ y ∈ ys, y.1 ∈ f.raw) :
    ∃ front y back, ys = front ++ y :: back ∧ textOf front = [] ∧
      (y.1 = loop.closing ∨ y.1 ∈ loop.body ∧ y.2 ≠ "") := by
  induction ys with
  | nil => cases h
  | cons y ys ih =>
    cases h with
    | cons hbefore hafter h =>
      rcases loop.mem_or_eq_of_insideBefore htext (hraw y (by simp)) hbefore with hbody | hclosing
      · by_cases hempty : y.2 = ""
        · rw [(loop.inside_body htext hbody).2] at hafter
          subst hafter
          obtain ⟨front, z, back, rfl, hfront, hz⟩ := ih h fun z hz => hraw z (by simp [hz])
          refine ⟨y :: front, z, back, rfl, ?_, hz⟩
          rw [← byteCount_eq_zero_iff, byteCount_textOf_cons, hempty, hfront]
          rfl
        · exact ⟨[], y, ys, rfl, rfl, .inr ⟨hbody, hempty⟩⟩
      · exact ⟨[], y, ys, rfl, rfl, .inl hclosing⟩

end Walk

/-- A tag with its end leads out to where one came from, if what is between them leads back to
where it starts. -/
theorem walk_close? {opening closing : Marked} {parts : List Block} {b : Block}
    {outer inner : Bool} (hopening : opening.Agrees) (hclosing : closing.Agrees)
    (ho : loop.insideBefore opening.slice = outer ∧ loop.insideAfter opening.slice = inner)
    (hc : loop.insideBefore closing.slice = inner ∧ loop.insideAfter closing.slice = outer)
    (hparts : ∀ c ∈ parts, ∀ scope, loop.Walk inner (c.render scope) inner)
    (h : close? opening parts closing = some b) (scope : Scope) :
    loop.Walk outer (b.render scope) outer := by
  obtain ⟨-, -, scopes, hrender⟩ := render_close? hopening hclosing h scope
  have rounds : loop.Walk inner (scopes.flatMap (Block.renderAll · parts.reverse)) inner :=
    .flatMap fun within _ => .renderAll fun c hc => hparts c (List.mem_reverse.1 hc) within
  rw [hrender]
  exact .append (.cons ho.1 ho.2 rounds) (.cons hc.1 hc.2 (.nil outer))

/-- Slices that one is on the same side of, in front and behind, are nested in parts that one is on
that side of. -/
theorem keptByNesting_walk (inside : Bool) :
    KeptByNesting
      (fun m => m.Agrees ∧ loop.insideBefore m.slice = inside ∧ loop.insideAfter m.slice = inside)
      (fun b => ∀ scope, loop.Walk inside (b.render scope) inside) where
  leaf hm h := by
    intro scope
    obtain ⟨-, -, text, hrender, -⟩ := render_leaf? hm.1 h scope
    rw [hrender]
    exact .cons hm.2.1 hm.2.2 (.nil inside)
  close ho hc hparts h := loop.walk_close? ho.1 hc.1 ho.2 hc.2 hparts h

/-- The rendered slices of a file lead from outside of the loop to outside of it. -/
theorem walk_renderAll {values : List (String × String)} {source : String} {ms : List Marked}
    {bs : List Block} (hr : Templater.Renders values source f ms bs) :
    loop.Walk false (Block.renderAll values bs) false := by
  have htext := hr.start_lt_stop
  obtain ⟨front, rest, rfl, hfront, hrest⟩ :=
    List.map_eq_append_iff.1 (hr.raw_eq.symm.trans loop.raw_eq)
  obtain ⟨o, rest, rfl, ho, hrest⟩ := List.map_eq_cons_iff.1 hrest
  obtain ⟨inner, rest, rfl, hinner, hrest⟩ := List.map_eq_append_iff.1 hrest
  obtain ⟨c, back, rfl, hc, hback⟩ := List.map_eq_cons_iff.1 hrest
  have agrees : ∀ m ∈ front ++ o :: (inner ++ c :: back), m.Agrees := fun m hm => (hr.agrees m hm).1
  have agrees_o := agrees o (by simp)
  have agrees_c := agrees c (by simp)
  have elsewhere {m : Marked} (hm : m ∈ front ∨ m ∈ back) : m.Agrees ∧
      loop.insideBefore m.slice = false ∧ loop.insideAfter m.slice = false := by
    have hslice : m.slice ∈ loop.before ∨ m.slice ∈ loop.after := by
      rw [← hfront, ← hback]
      exact hm.imp List.mem_map_of_mem List.mem_map_of_mem
    exact ⟨agrees m (by rcases hm with hm | hm <;> simp [hm]), loop.inside_elsewhere htext hslice⟩
  have outside := loop.keptByNesting_walk false
  have within := loop.keptByNesting_walk true
  -- The slices in front of the loop, its tag, its body, its end tag, and the slices behind it.
  obtain ⟨waiting, parts, hwaiting, hparts, hnest⟩ :=
    outside.exists_nest_append (by simp) (by simp) (fun m hm => elsewhere (.inl hm)) hr.nest_eq
  rw [nest_opening (by rw [← agrees_o.kind_eq, ho, loop.opening_kind])] at hnest
  have leaves : ∀ m ∈ inner, ∃ b, leaf? m = some b ∧
      ∀ scope, loop.Walk true (b.render scope) true := by
    intro m hm
    have hagrees := agrees m (by simp [hm])
    have hbody : m.slice ∈ loop.body := hinner ▸ List.mem_map_of_mem hm
    have hkind := loop.body_kind _ hbody
    rw [hagrees.kind_eq] at hkind
    obtain ⟨b, hb⟩ := exists_leaf? (m := m) (by rcases hkind with h | h <;> rw [h] <;> decide)
      (by rcases hkind with h | h <;> rw [h] <;> decide)
    exact ⟨b, hb, within.leaf ⟨hagrees, loop.inside_body htext hbody⟩ hb⟩
  obtain ⟨rounds, hrounds, hnest⟩ := exists_nest_leaves leaves (by simp) hnest
  obtain ⟨w, ws, b, hw, hb, hnest⟩ :=
    exists_of_nest_closing (by rw [← agrees_c.kind_eq, hc, loop.closing_kind]) hnest
  obtain ⟨rfl, rfl⟩ := List.cons.inj hw
  have own : ∀ scope, loop.Walk false (b.render scope) false :=
    loop.walk_close? agrees_o agrees_c (ho ▸ loop.inside_opening htext)
      (hc ▸ loop.inside_closing htext) hrounds hb
  exact .renderAll fun b hb => outside.forall_of_nest hwaiting
    (List.forall_mem_cons.2 ⟨own, hparts⟩) (fun m hm => elsewhere (.inr hm)) hnest b hb values

/-! ## 3. Points in the loop -/

/-- A rendered slice is of the body. -/
def Covers (t : RenderedSlice) : Prop := ∃ s ∈ loop.body, t.source = s.span

/-- The source of a point lies in the loop: not before the end of its tag, nor behind the start of
its end tag. -/
def Lands (p : Nat) : Prop :=
  ∃ k, f.toSource? (.point p) = .ok (.point k) ∧ loop.opening.stop ≤ k ∧ k ≤ loop.closing.start

/-- The last round of the loop stops at a point: text of the body does, and the end tag starts. -/
structure EndsAt (p : Nat) : Prop where
  stops : ∃ t ∈ f.visible, loop.Covers t ∧ t.templated.stop = p
  closes : ∃ t ∈ f.slices, t.source = loop.closing.span ∧ t.templated.start = p

section Rendered

variable {loop} {values : List (String × String)} {source name : String} {ms : List Marked}
  {bs : List Block} {xs ys : List (RawSlice × String)} {t : RenderedSlice} {p : Nat}

/-- A rendered slice of the body is a slice of the body with its text. -/
theorem exists_of_covers (hr : Templater.Renders values source f ms bs) (ht : t ∈ f.slices)
    (hbody : loop.Covers t) : ∃ xs x ys, Block.renderAll values bs = xs ++ x :: ys ∧
      x.1 ∈ loop.body ∧ t.kind = x.1.kind ∧ t.source = x.1.span ∧
      t.templated.start = byteCount (textOf xs) ∧
      t.templated.stop = t.templated.start + x.2.utf8ByteSize := by
  rw [hr.slices_eq] at ht
  obtain ⟨xs, x, ys, hout, hkind, hsource, hstart, hstop⟩ := exists_of_mem_layOut ht
  obtain ⟨s, hs, hspan⟩ := hbody
  have hx : x.1 ∈ f.raw := (hr.spec x (by simp [hout])).1
  have hraw : s ∈ f.raw := by simp [loop.raw_eq, hs]
  have same : x.1 = s := by
    have : x.1.start = s.start := congrArg Span.start (hsource.symm.trans hspan)
    have := hr.start_lt_stop s hraw
    have := hr.start_lt_stop x.1 hx
    rcases eq_or_apart hx hraw with heq | h | h
    · exact heq
    · omega
    · omega
  exact ⟨xs, x, ys, hout, same ▸ hs, hkind, hsource, hstart.trans (Nat.zero_add _), hstop⟩

/-- A slice with text of the body is literal. -/
theorem isLiteral_of_covers (hr : Templater.Renders values source f ms bs) (ht : t ∈ f.visible)
    (hbody : loop.Covers t) : t.kind.isLiteral = true := by
  obtain ⟨hslice, hlt⟩ := mem_visible.1 ht
  obtain ⟨xs, x, ys, hout, hx, hkind, -, -, hstop⟩ := exists_of_covers hr hslice hbody
  rw [hkind]
  rcases loop.body_kind x.1 hx with hx | hx
  · rw [hx]
    rfl
  · have silent := (hr.spec x (by simp [hout])).2.2
    rw [hx] at silent
    rw [hstop, silent nofun nofun] at hlt
    exact absurd hlt (Nat.lt_irrefl _)

/-- In front of a place in the loop its tag starts, or text of the body stops. -/
theorem exists_slice_before (hr : Templater.Renders values source f ms bs)
    (hout : Block.renderAll values bs = xs ++ ys) (hwalk : loop.Walk false xs true) :
    (∃ t ∈ f.slices, t.source = loop.opening.span ∧ t.templated.start = byteCount (textOf xs)) ∨
      ∃ t ∈ f.visible, loop.Covers t ∧ t.templated.stop = byteCount (textOf xs) := by
  have hraw : ∀ x ∈ xs, x.1 ∈ f.raw := fun x hx => (hr.spec x (by simp [hout, hx])).1
  obtain ⟨hfalse, -⟩ | ⟨front, x, back, rfl, hback, hx⟩ := hwalk.exists_before hr.start_lt_stop hraw
  · cases hfalse
  · obtain ⟨t, ht, -, hsource, hstart, hstop⟩ := exists_mem_layOut 0 front x (back ++ ys)
    have hslice : t ∈ f.slices := by
      rw [hr.slices_eq, hout]
      simpa using ht
    have upTo : byteCount (textOf (front ++ x :: back)) = t.templated.stop := by
      rw [textOf_append, byteCount_append, byteCount_textOf_cons, hback, hstop, hstart,
        Nat.zero_add]
      rfl
    rw [upTo]
    rcases hx with hopening | ⟨hbody, hne⟩
    · have silent := (hr.spec x (by simp [hout])).2.2
      rw [hopening, loop.opening_kind] at silent
      refine .inl ⟨t, hslice, hopening ▸ hsource, ?_⟩
      rw [hstop, silent nofun nofun]
      rfl
    · have : x.2.utf8ByteSize ≠ 0 := fun hzero => hne (String.utf8ByteSize_eq_zero_iff.1 hzero)
      exact .inr ⟨t, mem_visible.2 ⟨hslice, by omega⟩, ⟨x.1, hbody, hsource⟩, rfl⟩

/-- Behind a place in the loop its end tag starts, or text of the body. -/
theorem exists_slice_after (hr : Templater.Renders values source f ms bs)
    (hout : Block.renderAll values bs = xs ++ ys) (hwalk : loop.Walk true ys false) :
    (∃ t ∈ f.slices, t.source = loop.closing.span ∧ t.templated.start = byteCount (textOf xs)) ∨
      ∃ t ∈ f.visible, loop.Covers t ∧ t.templated.start = byteCount (textOf xs) := by
  have hraw : ∀ y ∈ ys, y.1 ∈ f.raw := fun y hy => (hr.spec y (by simp [hout, hy])).1
  obtain ⟨front, y, back, rfl, hfront, hy⟩ := hwalk.exists_after hr.start_lt_stop hraw
  obtain ⟨t, ht, -, hsource, hstart, hstop⟩ := exists_mem_layOut 0 (xs ++ front) y back
  rw [Nat.zero_add, textOf_append, hfront, List.append_nil] at hstart
  have hslice : t ∈ f.slices := by
    rw [hr.slices_eq, hout]
    simpa using ht
  rcases hy with hclosing | ⟨hbody, hne⟩
  · exact .inl ⟨t, hslice, hclosing ▸ hsource, hstart⟩
  · have : y.2.utf8ByteSize ≠ 0 := fun hzero => hne (String.utf8ByteSize_eq_zero_iff.1 hzero)
    exact .inr ⟨t, mem_visible.2 ⟨hslice, by omega⟩, ⟨y.1, hbody, hsource⟩, hstart⟩

/-- Where text of the body stops, the end tag starts, or text of the body. -/
theorem exists_after_of_covers (hr : Templater.Renders values source f ms bs) (ht : t ∈ f.slices)
    (hbody : loop.Covers t) :
    (∃ u ∈ f.slices, u.source = loop.closing.span ∧ u.templated.start = t.templated.stop) ∨
      ∃ u ∈ f.visible, loop.Covers u ∧ u.templated.start = t.templated.stop := by
  obtain ⟨xs, x, ys, hout, hx, -, -, hstart, hstop⟩ := exists_of_covers hr ht hbody
  have walk := loop.walk_renderAll hr
  rw [hout] at walk
  obtain ⟨inside, -, hrest⟩ := walk.split
  cases hrest with
  | cons _ hafter hys =>
    obtain rfl := hafter.symm.trans (loop.inside_body hr.start_lt_stop hx).2
    have place : t.templated.stop = byteCount (textOf (xs ++ [x])) := by
      rw [hstop, hstart, textOf_append, byteCount_append, byteCount_textOf_cons]
      rfl
    rw [place]
    exact exists_slice_after hr (by rw [hout, List.append_assoc]; rfl) hys

/-- The last round stops where text of the body does and none starts. -/
theorem endsAt_of_covers (hfile : (Templater.placeholder values).process source name = .ok f)
    (ht : t ∈ f.visible) (hcovers : loop.Covers t) (hp : t.templated.stop = p)
    (hlast : ∀ u ∈ f.visible, loop.Covers u → u.templated.start ≠ p) : loop.EndsAt p := by
  obtain ⟨ms, bs, hr⟩ := Templater.exists_renders hfile
  rcases exists_after_of_covers hr (mem_visible.1 ht).1 hcovers with
    hcloses | ⟨u, hu, hcovers', hstart⟩
  · exact ⟨⟨t, ht, hcovers, hp⟩, hp ▸ hcloses⟩
  · exact absurd (hstart.trans hp) (hlast u hu hcovers')

/-- Where the least end in the source of the slices that meet lies in the loop, text of the body
stops. -/
theorem exists_covers_of_meets (hr : Templater.Renders values source f ms bs) {k : Nat}
    (ht : t ∈ f.slices) (hmeets : t.Meets p k) (hlow : loop.opening.stop ≤ k)
    (hhigh : k ≤ loop.closing.start)
    (hstarts : ∀ u ∈ f.slices, u.templated.start = p → loop.opening.stop ≤ u.source.start) :
    ∃ u ∈ f.visible, loop.Covers u ∧ u.templated.stop = p := by
  have hslice := ht
  rw [hr.slices_eq] at ht
  obtain ⟨xs, x, ys, hout, -, hsource, hstart, hstop⟩ := exists_of_mem_layOut ht
  obtain ⟨hx, -, silent⟩ := hr.spec x (by simp [hout])
  have htag := hr.start_lt_stop loop.opening (by simp [loop.raw_eq])
  have hend := hr.start_lt_stop loop.closing (by simp [loop.raw_eq])
  obtain ⟨source_start, source_stop⟩ := source_ends hsource
  have reach (hp : t.templated.start = p) (hinside : loop.insideBefore x.1 = true) :
      ∃ u ∈ f.visible, loop.Covers u ∧ u.templated.stop = p := by
    have walk := loop.walk_renderAll hr
    rw [hout] at walk
    obtain ⟨inside, hxs, hrest⟩ := walk.split
    cases hrest with
    | cons hbefore _ _ =>
      obtain rfl := hbefore.symm.trans hinside
      rw [Nat.zero_add, hp] at hstart
      rcases exists_slice_before hr hout hxs with ⟨u, hu, husource, hustart⟩ | h
      · have := hstarts u hu (hustart.trans hstart.symm)
        rw [husource] at this
        exact absurd this (Nat.not_le.2 htag)
      · rwa [← hstart] at h
  rcases hmeets with ⟨hp, hk⟩ | ⟨hp, hk⟩
  · refine reach hp ?_
    simp only [insideBefore, Bool.and_eq_true, decide_eq_true_eq]
    omega
  · obtain ⟨hbefore, hbody, -, hafter⟩ := loop.bounds
    rcases loop.cases_of_mem_raw hx with hopening | hx | hclosing | hx | hx
    · rw [hopening, loop.opening_kind] at silent
      rw [silent nofun nofun] at hstop
      have := hstarts t hslice (hstop.symm.trans hp)
      rw [source_start, hopening] at this
      exact absurd this (Nat.not_le.2 htag)
    · by_cases hlt : t.templated.start < t.templated.stop
      · exact ⟨t, mem_visible.2 ⟨hslice, hlt⟩, ⟨x.1, hx, hsource⟩, hp⟩
      · have := t.templated.start_le_stop
        exact reach (by omega) (loop.inside_body hr.start_lt_stop hx).1
    · rw [source_stop, hclosing] at hk
      omega
    · have := hbefore x.1 hx
      omega
    · have := hafter x.1 hx
      have := x.1.start_le_stop
      omega

/-- Literal text with a byte of its source in the loop is of the body. -/
theorem covers_of_isLiteral (hr : Templater.Renders values source f ms bs) (ht : t ∈ f.slices)
    {k : Nat} (hstart : t.source.start < k) (hstop : k < t.source.stop)
    (hlow : loop.opening.stop ≤ k) (hhigh : k ≤ loop.closing.start) : loop.Covers t := by
  rw [hr.slices_eq] at ht
  obtain ⟨xs, x, ys, hout, -, hsource, -⟩ := exists_of_mem_layOut ht
  obtain ⟨hbefore, -, -, hafter⟩ := loop.bounds
  obtain ⟨source_start, source_stop⟩ := source_ends hsource
  have := loop.opening.start_le_stop
  have := loop.closing.start_le_stop
  rcases loop.cases_of_mem_raw (hr.spec x (by simp [hout])).1 with hx | hx | hx | hx | hx
  · rw [hx] at source_stop
    omega
  · exact ⟨x.1, hx, hsource⟩
  · rw [hx] at source_start
    omega
  · have := hbefore x.1 hx
    omega
  · have := hafter x.1 hx
    omega

/-- A point whose least end in the source lies in the loop lands there. -/
theorem lands_of_pointToSource? {k : Nat} (ht : t ∈ f.slices) (hp : p ≤ t.templated.stop)
    (hk : f.pointToSource? p = .ok k) (hlow : loop.opening.stop ≤ k)
    (hhigh : k ≤ loop.closing.start) : loop.Lands p := by
  have := ((bounds_of_renderedTiling? f.slices_tile).2 t ht).2
  exact ⟨k, toSource?_point_eq_ok_iff.2 ⟨by unfold length; omega, .inr ⟨List.ne_nil_of_mem ht, hk⟩⟩,
    hlow, hhigh⟩

/-- A point in text of the body lands in the loop. -/
theorem lands_of_covers (hfile : (Templater.placeholder values).process source name = .ok f)
    (ht : t ∈ f.slices) (hcovers : loop.Covers t) (hstart : t.templated.start < p)
    (hstop : p < t.templated.stop) : loop.Lands p := by
  obtain ⟨ms, bs, hr⟩ := Templater.exists_renders hfile
  have hliteral := isLiteral_of_covers hr (mem_visible.2 ⟨ht, by omega⟩) hcovers
  have same := length_source_of_isLiteral hfile ht hliteral
  obtain ⟨s, hs, hspan⟩ := hcovers
  have hin := loop.bounds.2.1 s hs
  obtain ⟨source_start, source_stop⟩ := source_ends hspan
  unfold Span.length at same
  exact lands_of_pointToSource? ht (Nat.le_of_lt hstop)
    (pointToSource?_eq_ok_iff.2 (.inr ⟨t, ht, hliteral, hstart, hstop, rfl⟩)) (by omega) (by omega)

/-- A point where text of the body stops lands in the loop, if nothing starts there that comes from
before the body. -/
theorem lands_of_covers_stop (ht : t ∈ f.visible) (hcovers : loop.Covers t)
    (hp : t.templated.stop = p)
    (hstarts : ∀ u ∈ f.slices, u.templated.start = p → loop.opening.stop ≤ u.source.start) :
    loop.Lands p := by
  obtain ⟨hslice, hlt⟩ := mem_visible.1 ht
  obtain ⟨s, hs, hspan⟩ := hcovers
  have hin := loop.bounds.2.1 s hs
  obtain ⟨source_start, source_stop⟩ := source_ends hspan
  have meets : t.Meets p t.source.stop := .inr ⟨hp, rfl⟩
  obtain ⟨k, hk⟩ := exists_pointToSource? hslice meets
  rcases pointToSource?_eq_ok_iff.1 hk with
    ⟨⟨u, hu, humeets⟩, hleast⟩ | ⟨u, hu, -, hlow, hhigh, -⟩
  · have own := hleast t hslice _ meets
    refine lands_of_pointToSource? hslice (Nat.le_of_eq hp.symm) hk ?_ (by omega)
    rcases humeets with ⟨hup, rfl⟩ | ⟨hup, rfl⟩
    · exact hstarts u hu hup
    · by_cases hult : u.templated.start < u.templated.stop
      · obtain rfl := slices_eq_of_lt hu hslice (by omega) (by omega)
        have := s.start_le_stop
        omega
      · have := u.templated.start_le_stop
        exact Nat.le_trans (hstarts u hu (by omega)) u.source.start_le_stop
  · rcases slices_eq_or_apart hu hslice with rfl | h | h <;> omega

/-- The source of a point lies in the loop if the point lies in text of the body, or if text of
the body stops there and nothing starts there that comes from before the body. -/
theorem lands_iff (hfile : (Templater.placeholder values).process source name = .ok f) :
    loop.Lands p ↔
      (∃ t ∈ f.slices, loop.Covers t ∧ t.templated.start < p ∧ p < t.templated.stop) ∨
      (∃ t ∈ f.visible, loop.Covers t ∧ t.templated.stop = p) ∧
        ∀ t ∈ f.slices, t.templated.start = p → loop.opening.stop ≤ t.source.start := by
  constructor
  · rintro ⟨k, hk, hlow, hhigh⟩
    obtain ⟨ms, bs, hr⟩ := Templater.exists_renders hfile
    obtain ⟨hlength, ⟨hnone, rfl⟩ | ⟨-, hk⟩⟩ := toSource?_point_eq_ok_iff.1 hk
    · -- Without slices there is no text.
      have tile := f.slices_tile
      rw [hnone] at tile
      have : 0 = f.length := renderedTiling?_nil_eq_none tile
      have := hr.start_lt_stop loop.opening (by simp [loop.raw_eq])
      omega
    · rcases pointToSource?_eq_ok_iff.1 hk with
        ⟨⟨t, ht, hmeets⟩, hleast⟩ | ⟨t, ht, hliteral, hstart, hstop, hkey⟩
      · have hstarts : ∀ u ∈ f.slices, u.templated.start = p →
            loop.opening.stop ≤ u.source.start := fun u hu hp =>
          Nat.le_trans hlow (hleast u hu _ (.inl ⟨hp, rfl⟩))
        exact .inr ⟨exists_covers_of_meets hr ht hmeets hlow hhigh hstarts, hstarts⟩
      · have same := length_source_of_isLiteral hfile ht hliteral
        unfold Span.length at same
        have hcovers := covers_of_isLiteral hr ht (by omega) (by omega) hlow hhigh
        exact .inl ⟨t, ht, hcovers, hstart, hstop⟩
  · rintro (⟨t, ht, hcovers, hstart, hstop⟩ | ⟨⟨t, ht, hcovers, hp⟩, hstarts⟩)
    · exact lands_of_covers hfile ht hcovers hstart hstop
    · exact lands_of_covers_stop ht hcovers hp hstarts

end Rendered

/-! ## 4. The block of the body -/

section Blocks

variable {s : RawSlice} {rest : List RawSlice}

theorem literalLoops_of_literal (h : s.kind = .literal) (open_ : List OpenBlock) :
    literalLoops open_ (s :: rest) = literalLoops (noteLiteral s.block open_) rest := by
  simp [literalLoops, h]

theorem literalLoops_of_templated (h : s.kind = .templated) (open_ : List OpenBlock) :
    literalLoops open_ (s :: rest) = literalLoops (spoil open_) rest := by
  simp [literalLoops, h]

theorem literalLoops_of_comment (h : s.kind = .comment) (open_ : List OpenBlock) :
    literalLoops open_ (s :: rest) = literalLoops open_ rest := by
  simp [literalLoops, h]

theorem literalLoops_of_blockStart (h : s.kind = .blockStart) (open_ : List OpenBlock) :
    literalLoops open_ (s :: rest) = literalLoops (⟨s.tag, true, []⟩ :: spoil open_) rest := by
  simp [literalLoops, h]

theorem literalLoops_of_blockEnd (h : s.kind = .blockEnd) (b : OpenBlock) (bs : List OpenBlock) :
    literalLoops (b :: bs) (s :: rest) =
      (if b.tag = some "for" && b.literalOnly then b.body else []) ++ literalLoops bs rest := by
  simp [literalLoops, h]

/-- Slices before others yield their own blocks, and leave some blocks open for the others. -/
theorem exists_literalLoops_append (open_ : List OpenBlock) (ss rest : List RawSlice) :
    ∃ own left, literalLoops open_ (ss ++ rest) = own ++ literalLoops left rest := by
  induction ss generalizing open_ with
  | nil => exact ⟨[], open_, rfl⟩
  | cons s ss ih =>
    rw [List.cons_append]
    cases hkind : s.kind with
    | literal =>
      rw [literalLoops_of_literal hkind]
      exact ih _
    | templated =>
      rw [literalLoops_of_templated hkind]
      exact ih _
    | comment =>
      rw [literalLoops_of_comment hkind]
      exact ih _
    | blockStart =>
      rw [literalLoops_of_blockStart hkind]
      exact ih _
    | blockEnd =>
      cases open_ with
      | nil =>
        obtain ⟨own, left, heq⟩ := ih []
        exact ⟨own, left, by simpa [literalLoops, hkind] using heq⟩
      | cons b bs =>
        obtain ⟨own, left, heq⟩ := ih bs
        rw [literalLoops_of_blockEnd hkind, heq, ← List.append_assoc]
        exact ⟨_, left, rfl⟩

/-- Literal text and comments add the blocks of the text to the innermost open block. -/
theorem literalLoops_body {ss : List RawSlice} (b : OpenBlock) (bs : List OpenBlock)
    (rest : List RawSlice) (h : ∀ s ∈ ss, s.kind = .literal ∨ s.kind = .comment) :
    literalLoops (b :: bs) (ss ++ rest) = literalLoops
      ({ b with body := b.body ++ (ss.filter (·.kind.isLiteral)).map (·.block) } :: bs) rest := by
  induction ss generalizing b with
  | nil => simp
  | cons s ss ih =>
    obtain ⟨hs, hss⟩ := List.forall_mem_cons.1 h
    rw [List.cons_append]
    rcases hs with hs | hs
    · rw [literalLoops_of_literal hs, noteLiteral, ih _ hss,
        List.filter_cons_of_pos (by rw [hs]; rfl), List.map_cons, List.append_assoc]
      rfl
    · rw [literalLoops_of_comment hs, ih _ hss, List.filter_cons_of_neg (by rw [hs]; decide)]

/-- The literal text of the body is known to be repeated. -/
theorem block_mem_literalLoopBlocks (hs : s ∈ loop.body) (hkind : s.kind = .literal) :
    s.block ∈ f.literalLoopBlocks := by
  obtain ⟨own, left, heq⟩ := exists_literalLoops_append [] loop.before
    (loop.opening :: (loop.body ++ loop.closing :: loop.after))
  rw [literalLoopBlocks, loop.raw_eq, heq, literalLoops_of_blockStart loop.opening_kind,
    literalLoops_body _ _ _ loop.body_kind, literalLoops_of_blockEnd loop.closing_kind,
    loop.opening_tag]
  have own_block : s.block ∈ (loop.body.filter (·.kind.isLiteral)).map (·.block) :=
    List.mem_map_of_mem (List.mem_filter.2 ⟨hs, by rw [hkind]; rfl⟩)
  simp [own_block]

end Blocks

end LiteralLoop

/-- Where every slice has text, a slice is found by where it starts. -/
theorem blockAt?_eq_some {f : TemplatedFile} (htext : ∀ s ∈ f.raw, s.start < s.stop) {s : RawSlice}
    (hs : s ∈ f.raw) : f.blockAt? s.start = some s.block := by
  unfold blockAt?
  cases hfound : f.raw.reverse.find? (·.start == s.start) with
  | none =>
    have := List.find?_eq_none.1 hfound s (List.mem_reverse.2 hs)
    simp at this
  | some t =>
    have ht := List.mem_reverse.1 (List.mem_of_find?_eq_some hfound)
    have hstart : t.start = s.start := by simpa using List.find?_some hfound
    have := htext s hs
    have := htext t ht
    rcases eq_or_apart ht hs with rfl | h | h
    · rfl
    · omega
    · omega

end TemplatedFile

end QueryLint
