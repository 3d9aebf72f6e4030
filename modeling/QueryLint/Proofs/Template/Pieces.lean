import QueryLint.Template.Markup

/-!
QueryLint.Proofs.Template.Pieces — cutting a text again after an edit.

A tag is told by its first two characters and ends at its first closing sign, whatever follows. A
brace that opens no tag is text. So a text that is put together from tags and from text without
braces is cut into these tags again; only pieces of text that meet become one.

* `IsClean` — a tag, or text without braces.
* `glue` — pieces with text that meets made one.
* `pieces_flatMap` — what a text of clean pieces is cut into.
* `flatMap_pieces`, `isClean_of_mem_pieces` — what any text is cut into.
-/

namespace QueryLint.Markup

/-! ## 1. Tags -/

/-- A tag ends where it ends, whatever follows. -/
theorem closing?_eq_some {sign : Char} {cs inside after : List Char}
    (h : closing? sign cs = some (inside, after)) :
    cs = inside ++ after ∧ ∀ rest, closing? sign (inside ++ rest) = some (inside, rest) := by
  fun_induction closing? sign cs generalizing inside after with
  | case1 => cases h
  | case2 => cases h
  | case3 rest =>
    simp only [Option.some.injEq, Prod.mk.injEq] at h
    obtain ⟨rfl, rfl⟩ := h
    exact ⟨rfl, fun rest => by simp [closing?]⟩
  | case4 d rest hd ih =>
    obtain ⟨⟨i, a⟩, hi, he⟩ := Option.map_eq_some_iff.1 h
    simp only [Prod.mk.injEq] at he
    obtain ⟨rfl, rfl⟩ := he
    obtain ⟨rfl, hrest⟩ := ih hi
    exact ⟨rfl, fun rest => by simp [closing?, hd, hrest]⟩
  | case5 c d rest hc ih =>
    obtain ⟨⟨i, a⟩, hi, he⟩ := Option.map_eq_some_iff.1 h
    simp only [Prod.mk.injEq] at he
    obtain ⟨rfl, rfl⟩ := he
    obtain ⟨htext, hrest⟩ := ih hi
    cases i with
    | nil => exact absurd (hrest []) (by simp [closing?])
    | cons e i =>
      simp only [List.cons_append, List.cons.injEq] at htext
      obtain ⟨rfl, rfl⟩ := htext
      exact ⟨rfl, fun rest => by
        have := hrest rest
        rw [List.cons_append] at this
        simp [closing?, hc, this]⟩

/-- A tag, or text without a brace that could open one. -/
inductive IsClean : Shape × List Char → Prop where
  | text {cs : List Char} (h : '\x7b' ∉ cs) : IsClean (.text, cs)
  | tag {shape : Shape} {sign d : Char} {inside : List Char}
      (opens : tagShape? d = some (shape, sign))
      (closes : closing? sign inside = some (inside, [])) :
      IsClean (shape, '\x7b' :: d :: inside)

/-! ## 2. Text that meets -/

/-- Pieces with text that meets made one, and without empty text. -/
def glue : List (Shape × List Char) → List (Shape × List Char)
  | [] => []
  | (.text, cs) :: rest => if cs = [] then glue rest else consText cs (glue rest)
  | (shape, cs) :: rest => (shape, cs) :: glue rest

theorem consText_consText {cs ds : List Char} (ps : List (Shape × List Char)) :
    consText cs (consText ds ps) = consText (cs ++ ds) ps := by
  match ps with
  | [] => rfl
  | (.text, es) :: _ => simp [consText]
  | (.expression, _) :: _ | (.statement, _) :: _ | (.comment, _) :: _ => rfl

theorem tagShape?_ne_text {d sign : Char} : tagShape? d ≠ some (.text, sign) := by
  unfold tagShape?
  split <;> simp

theorem glue_tag {shape : Shape} {cs : List Char} {ps : List (Shape × List Char)}
    (h : shape ≠ .text) : glue ((shape, cs) :: ps) = (shape, cs) :: glue ps := by
  cases shape with
  | text => exact absurd rfl h
  | expression | statement | comment => rfl

/-! ## 3. Cutting -/

theorem pieces_cons_of_ne {c : Char} {cs : List Char} (h : c ≠ '\x7b') :
    pieces (c :: cs) = consText [c] (pieces cs) := by
  rw [pieces.eq_def]
  exact if_neg h

/-- Text without braces is put in front of what follows. -/
theorem pieces_text_append {cs rest : List Char} (h : '\x7b' ∉ cs) (hcs : cs ≠ []) :
    pieces (cs ++ rest) = consText cs (pieces rest) := by
  induction cs with
  | nil => exact absurd rfl hcs
  | cons c cs ih =>
    rw [List.mem_cons, not_or] at h
    rw [List.cons_append, pieces_cons_of_ne (Ne.symm h.1)]
    cases cs with
    | nil => rfl
    | cons d ds => rw [ih h.2 (List.cons_ne_nil _ _), consText_consText]; rfl

theorem pieces_tag_append {shape : Shape} {sign d : Char} {inside rest : List Char}
    (opens : tagShape? d = some (shape, sign)) (closes : closing? sign inside = some (inside, [])) :
    pieces ('\x7b' :: d :: inside ++ rest) = (shape, '\x7b' :: d :: inside) :: pieces rest := by
  have found := (closing?_eq_some closes).2 rest
  rw [List.cons_append, List.cons_append, pieces, if_pos rfl, opens]
  dsimp only
  split
  · next h => rw [found] at h; cases h
  · next inside' after h =>
    rw [found, Option.some.injEq, Prod.mk.injEq] at h
    rw [h.1, h.2]

/-- A text of clean pieces is cut into them, but for text that meets. -/
theorem pieces_flatMap {ps : List (Shape × List Char)} (h : ∀ p ∈ ps, IsClean p) :
    pieces (ps.flatMap (·.2)) = glue ps := by
  induction ps with
  | nil => rw [List.flatMap_nil, pieces, glue]
  | cons p ps ih =>
    have rest := ih fun q hq => h q (List.mem_cons_of_mem _ hq)
    rw [List.flatMap_cons]
    cases h p (List.mem_cons_self ..) with
    | @text cs hcs =>
      rw [glue]
      split
      · next hnil => rw [hnil, List.nil_append, rest]
      · next hne => rw [pieces_text_append hcs hne, rest]
    | tag opens closes =>
      rw [pieces_tag_append opens closes, rest, glue_tag]
      rintro rfl
      exact tagShape?_ne_text opens

theorem flatMap_consText (cs : List Char) (ps : List (Shape × List Char)) :
    (consText cs ps).flatMap (·.2) = cs ++ ps.flatMap (·.2) := by
  match ps with
  | [] => simp [consText]
  | (.text, _) :: _ => simp [consText]
  | (.expression, _) :: _ | (.statement, _) :: _ | (.comment, _) :: _ => simp [consText]

/-- The pieces of a text make it up. -/
theorem flatMap_pieces (cs : List Char) : (pieces cs).flatMap (·.2) = cs := by
  fun_induction pieces cs with
  | case1 => rfl
  | case2 => rfl
  | case3 d ds hd ih => rw [flatMap_consText, ih]; rfl
  | case4 d ds shape sign hd hnone => simp
  | case5 d ds shape sign hd inside after hsome _ ih =>
    rw [List.flatMap_cons, ih, (closing?_eq_some hsome).1]
    rfl
  | case6 c cs hc ih => rw [flatMap_consText, ih]; rfl

theorem mem_consText {cs : List Char} {ps : List (Shape × List Char)} {p : Shape × List Char}
    (h : p ∈ consText cs ps) : p.1 = .text ∨ p ∈ ps := by
  match ps with
  | [] => exact .inl (by rw [List.mem_singleton.1 h])
  | (.text, _) :: _ =>
    rcases List.mem_cons.1 h with rfl | h
    · exact .inl rfl
    · exact .inr (List.mem_cons_of_mem _ h)
  | (.expression, _) :: _ | (.statement, _) :: _ | (.comment, _) :: _ =>
    rcases List.mem_cons.1 h with rfl | h
    · exact .inl rfl
    · exact .inr h

/-- No piece is empty. -/
theorem ne_nil_of_mem_pieces {cs : List Char} {p : Shape × List Char} (h : p ∈ pieces cs) :
    p.2 ≠ [] := by
  have joined {c : Char} {ps : List (Shape × List Char)} (ih : p ∈ ps → p.2 ≠ [])
      (h : p ∈ consText [c] ps) : p.2 ≠ [] := by
    match ps with
    | [] => simp [List.mem_singleton.1 h]
    | (.text, _) :: _ =>
      rcases List.mem_cons.1 h with rfl | h
      · simp
      · exact ih (List.mem_cons_of_mem _ h)
    | (.expression, _) :: _ | (.statement, _) :: _ | (.comment, _) :: _ =>
      rcases List.mem_cons.1 h with rfl | h
      · simp
      · exact ih h
  fun_induction pieces cs with
  | case1 => cases h
  | case2 => simp [List.mem_singleton.1 h]
  | case3 d ds hd ih => exact joined ih h
  | case4 d ds shape sign hd hnone => simp [List.mem_singleton.1 h]
  | case5 d ds shape sign hd inside after hsome _ ih =>
    rcases List.mem_cons.1 h with rfl | h
    · simp
    · exact ih h
  | case6 c cs hc ih => exact joined ih h

/-- A piece of any text is text or a whole tag. -/
theorem isClean_of_mem_pieces {cs : List Char} {p : Shape × List Char} (h : p ∈ pieces cs)
    (htext : p.1 = .text → '\x7b' ∉ p.2) : IsClean p := by
  have whole : p.1 = .text ∨ IsClean p := by
    fun_induction pieces cs with
    | case1 => cases h
    | case2 => exact .inl (by rw [List.mem_singleton.1 h])
    | case3 d ds hd ih => exact (mem_consText h).elim .inl ih
    | case4 d ds shape sign hd hnone => exact .inl (by rw [List.mem_singleton.1 h])
    | case5 d ds shape sign hd inside after hsome _ ih =>
      rcases List.mem_cons.1 h with rfl | h
      · have := (closing?_eq_some hsome).2 []
        rw [List.append_nil] at this
        exact .inr (.tag hd this)
      · exact ih h
    | case6 c cs hc ih => exact (mem_consText h).elim .inl ih
  rcases whole with hp | hp
  · obtain ⟨shape, ds⟩ := p
    obtain rfl : shape = .text := hp
    exact .text (htext rfl)
  · exact hp

end QueryLint.Markup
