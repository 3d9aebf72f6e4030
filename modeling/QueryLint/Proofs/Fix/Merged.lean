import QueryLint.Fix.Group
import QueryLint.Proofs.Step

/-!
QueryLint.Proofs.Fix.Merged — fixes of one anchor that are merged.

A replacement of an anchor may come with others that change the source only. Whichever comes first,
the group ends up with the replacement, and its first new segment carries the source fixes of all
others, each once. What can go wrong is a second copy of the replacement. It is known for one by its
text and its source fixes, and the first copy may carry more by then; so a copy that comes behind
both is kept beside the first, and the group is not valid.

* `Gains` — a list with those of another behind it that it lacks.
* `Fix.Bears` — a replacement with other source fixes on its first new segment.
* `FixGroup.ComesLate` — a copy of a replacement behind source fixes that it lacks.
* `FixGroup.Merged`, `FixGroup.Merged.add` — what a group holds of the fixes so far, and one more.
* `FixGroup.foldlM_add_merges` — a group of a replacement and others that change the source only.
-/

namespace QueryLint

/-! ## 1. Source fixes -/

/-- A list with those of another behind it that it lacks, each once. -/
def Gains (own extra all : List SourceFix) : Prop :=
  ∃ added, all = own ++ added ∧ added.Nodup ∧ ∀ s, s ∈ added ↔ s ∉ own ∧ s ∈ extra

theorem mergeSourceFixes_cons (own : List SourceFix) (e : SourceFix) (extra : List SourceFix) :
    mergeSourceFixes own (e :: extra) =
      mergeSourceFixes (if e ∈ own then own else own ++ [e]) extra := by
  simp only [mergeSourceFixes, List.foldl_cons, List.contains_iff_mem]

theorem gains_mergeSourceFixes (own extra : List SourceFix) :
    Gains own extra (mergeSourceFixes own extra) := by
  induction extra generalizing own with
  | nil => exact ⟨[], by simp [mergeSourceFixes], .nil, by simp⟩
  | cons e extra ih =>
    rw [mergeSourceFixes_cons]
    by_cases he : e ∈ own
    · obtain ⟨added, hall, hnodup, hmem⟩ := ih own
      rw [if_pos he]
      refine ⟨added, hall, hnodup, ?_⟩
      intro s
      rw [hmem, List.mem_cons]
      refine and_congr_right fun hs => (or_iff_right ?_).symm
      rintro rfl
      exact hs he
    · obtain ⟨added, hall, hnodup, hmem⟩ := ih (own ++ [e])
      have hnew : e ∉ added := by
        intro hadded
        exact ((hmem e).1 hadded).1 (by simp)
      rw [if_neg he, hall, List.append_assoc]
      refine ⟨e :: added, rfl, List.nodup_cons.2 ⟨hnew, hnodup⟩, ?_⟩
      intro s
      rw [List.mem_cons, List.mem_cons, hmem, List.mem_append, List.mem_singleton]
      by_cases hs : s = e
      · subst hs
        simp [he]
      · simp [hs]

theorem mem_mergeSourceFixes {own extra : List SourceFix} {s : SourceFix} :
    s ∈ mergeSourceFixes own extra ↔ s ∈ own ∨ s ∈ extra := by
  obtain ⟨added, hall, -, hmem⟩ := gains_mergeSourceFixes own extra
  rw [hall, List.mem_append, hmem]
  by_cases hs : s ∈ own <;> simp [hs]

namespace Gains

variable {own extra more all : List SourceFix}

/-- Gaining more, too. -/
theorem merge (h : Gains own extra all) (hmore : ∀ s ∈ extra, s ∈ more) :
    Gains own more (mergeSourceFixes all more) := by
  obtain ⟨added, rfl, hnodup, hmem⟩ := h
  obtain ⟨added', hall, hnodup', hmem'⟩ := gains_mergeSourceFixes (own ++ added) more
  refine ⟨added ++ added', by rw [hall, List.append_assoc], ?_, ?_⟩
  · refine List.nodup_append.2 ⟨hnodup, hnodup', ?_⟩
    rintro s hs t ht rfl
    exact ((hmem' s).1 ht).1 (List.mem_append_right own hs)
  · intro s
    rw [List.mem_append, hmem, hmem', List.mem_append, hmem]
    by_cases hs : s ∈ own
    · simp [hs]
    · by_cases hs' : s ∈ extra <;> simp [hs, hs', hmore]

/-- Nothing is gained if nothing was lacking. -/
theorem eq_iff (h : Gains own extra all) : all = own ↔ ∀ s ∈ extra, s ∈ own := by
  obtain ⟨added, rfl, -, hmem⟩ := h
  rw [List.append_right_eq_self, List.eq_nil_iff_forall_not_mem]
  refine forall_congr' fun s => ?_
  rw [hmem]
  by_cases hs : s ∈ own <;> simp [hs]

end Gains

/-! ## 2. Fixes that do the same -/

namespace Fix

variable {x y z : Fix}

theorem isReplace_iff : x.edit.isReplace = true ↔ x.edit.name = "replace" := by
  cases x.edit <;> simp [Edit.isReplace, Edit.name]

theorem isInsertBefore_of_isReplace (h : x.edit.isReplace = true) :
    x.edit.isInsertBefore = false := by
  cases hx : x.edit <;> simp_all [Edit.isReplace, Edit.isInsertBefore]

/-- A replacement keeps the text if what it brings in is one segment with the text of the anchor. -/
theorem keepsText_iff : x.keepsText = true ↔
    x.edit.isReplace = true ∧ x.new.map (·.raw) = [x.anchor.raw] := by
  obtain ⟨edit, anchor, origins⟩ := x
  cases edit with
  | replace new =>
    match new with
    | [] => simp [keepsText, Edit.isReplace, Fix.new, Edit.new]
    | [s] => simp [keepsText, Edit.isReplace, Fix.new, Edit.new]
    | s :: t :: more => simp [keepsText, Edit.isReplace, Fix.new, Edit.new]
  | insertBefore new | insertAfter new | delete => simp [keepsText, Edit.isReplace]

theorem exists_of_keepsText (h : x.keepsText = true) : ∃ s, x.edit = .replace [s] := by
  obtain ⟨edit, anchor, origins⟩ := x
  unfold keepsText at h
  dsimp only at h
  split at h
  · exact ⟨_, rfl⟩
  · cases h

/-- A replacement that changes the text does not keep it. -/
theorem keepsText_of_text (h : x.text ≠ x.anchor.raw) : x.keepsText = false := by
  refine Bool.eq_false_iff.2 fun keeps => h ?_
  obtain ⟨s, hs⟩ := exists_of_keepsText keeps
  have raws := (keepsText_iff.1 keeps).2
  rw [new, hs] at raws
  rw [text, new, hs]
  simpa [Edit.new, Segment.rawAll] using raws

theorem isSourceOnly_iff :
    x.isSourceOnly = true ↔ x.keepsText = true ∧ x.sourceFixes ≠ [] := by
  simp [isSourceOnly]

theorem isSourceOnly_of_keepsText (h : x.keepsText = false) : x.isSourceOnly = false := by
  rw [isSourceOnly, h, Bool.false_and]

theorem sourceFixes_eq (x : Fix) : x.sourceFixes = x.new.flatMap (·.sourceFixes) := by
  have all (ss : List Segment) : Segment.sourceFixesAll ss = ss.flatMap (·.sourceFixes) := by
    induction ss with
    | nil => rw [Segment.sourceFixesAll]; rfl
    | cons s ss ih => rw [Segment.sourceFixesAll, ih]; rfl
  exact all x.new

/-- Fixes that do the same bring in the same texts and source fixes. -/
theorem same_iff : x.same y = true ↔ x.edit.name = y.edit.name ∧ x.anchor.id = y.anchor.id ∧
    x.anchor.classTypes = y.anchor.classTypes ∧
    x.new.map (·.raw) = y.new.map (·.raw) ∧
    x.new.map (·.sourceFixes) = y.new.map (·.sourceFixes) := by
  have pairs (ss ts : List Segment) :
      ss.map (fun s => (s.raw, s.sourceFixes)) = ts.map (fun s => (s.raw, s.sourceFixes)) ↔
        ss.map (·.raw) = ts.map (·.raw) ∧ ss.map (·.sourceFixes) = ts.map (·.sourceFixes) := by
    induction ss generalizing ts with
    | nil => cases ts <;> simp
    | cons s ss ih =>
      cases ts with
      | nil => simp
      | cons t ts =>
        simp only [List.map_cons, List.cons.injEq, Prod.mk.injEq, ih]
        exact and_and_and_comm
  simp only [same, Bool.and_eq_true, beq_iff_eq, pairs, and_assoc]

@[simp] theorem same_self (x : Fix) : x.same x = true := by
  simp [same_iff]

theorem same_comm : x.same y = y.same x := by
  rw [Bool.eq_iff_iff, same_iff, same_iff]
  simp only [eq_comm]

/-- Fixes that do the same are the same to any other. -/
theorem same_congr (h : x.same y = true) (z : Fix) : z.same x = z.same y := by
  obtain ⟨name, id, types, raws, fixes⟩ := same_iff.1 h
  rw [Bool.eq_iff_iff, same_iff, same_iff, name, id, types, raws, fixes]

/-- Of two fixes that do the same to one anchor, both keep its text or none. -/
theorem keepsText_of_same (h : x.same y = true) (anchor : x.anchor = y.anchor) :
    x.keepsText = y.keepsText := by
  obtain ⟨name, -, -, raws, -⟩ := same_iff.1 h
  rw [Bool.eq_iff_iff, keepsText_iff, keepsText_iff, isReplace_iff, isReplace_iff, name, raws,
    anchor]

theorem same_of_keepsText (hx : x.keepsText = false) (hy : y.isSourceOnly = true)
    (anchor : x.anchor = y.anchor) : x.same y = false := by
  refine Bool.eq_false_iff.2 fun same => ?_
  have keeps := keepsText_of_same same anchor
  rw [hx, (isSourceOnly_iff.1 hy).1] at keeps
  cases keeps

theorem sourceFixes_of_same (h : x.same y = true) : x.sourceFixes = y.sourceFixes := by
  obtain ⟨-, -, -, -, fixes⟩ := same_iff.1 h
  rw [sourceFixes_eq, sourceFixes_eq, List.flatMap_def, List.flatMap_def, fixes]

/-- A replacement like another, with other source fixes of its own on its first new segment. -/
structure Bears (own : List SourceFix) (x y : Fix) : Prop where
  anchor_eq : y.anchor = x.anchor
  new_eq : ∃ s t more, x.edit = .replace (s :: more) ∧ y.edit = .replace (t :: more) ∧
    t.raw = s.raw ∧ t.children = s.children ∧ t.ownSourceFixes = own

namespace Bears

variable {own own' : List SourceFix}

theorem trans (h : Bears own x y) (h' : Bears own' y z) : Bears own' x z := by
  obtain ⟨s, t, more, hx, hy, raw, children, -⟩ := h.new_eq
  obtain ⟨t', u, more', hy', hz, raw', children', own_eq⟩ := h'.new_eq
  rw [hy] at hy'
  obtain ⟨rfl, rfl⟩ := List.cons.inj (Edit.replace.inj hy')
  exact ⟨h'.anchor_eq.trans h.anchor_eq, s, u, more, hx, hz, raw'.trans raw,
    children'.trans children, own_eq⟩

theorem isReplace (h : Bears own x y) : y.edit.isReplace = true := by
  obtain ⟨s, t, more, -, hy, -⟩ := h.new_eq
  rw [hy]
  rfl

theorem name_eq (h : Bears own x y) : y.edit.name = x.edit.name := by
  obtain ⟨s, t, more, hx, hy, -⟩ := h.new_eq
  rw [hx, hy]
  rfl

theorem raws_eq (h : Bears own x y) : y.new.map (·.raw) = x.new.map (·.raw) := by
  obtain ⟨s, t, more, hx, hy, raw, -⟩ := h.new_eq
  rw [new, new, hx, hy]
  exact congrArg (· :: _) raw

theorem keepsText_eq (h : Bears own x y) : y.keepsText = x.keepsText := by
  rw [Bool.eq_iff_iff, keepsText_iff, keepsText_iff, isReplace_iff, isReplace_iff, h.name_eq,
    h.raws_eq, h.anchor_eq]

/-- All source fixes but those of its own are the same. -/
theorem exists_sourceFixes (h : Bears own x y) {s : Segment} {more : List Segment}
    (hx : x.edit = .replace (s :: more)) :
    ∃ others, x.sourceFixes = s.ownSourceFixes ++ others ∧ y.sourceFixes = own ++ others ∧
      (y.new.map (·.sourceFixes) = x.new.map (·.sourceFixes) ↔ own = s.ownSourceFixes) := by
  have split (u : Segment) :
      u.sourceFixes = u.ownSourceFixes ++ Segment.sourceFixesAll u.children := by
    cases u with
    | mk i cs => rw [Segment.sourceFixes]; rfl
  obtain ⟨s', t, more', hx', hy, -, children, own_eq⟩ := h.new_eq
  rw [hx] at hx'
  obtain ⟨rfl, rfl⟩ := List.cons.inj (Edit.replace.inj hx')
  have xnew : x.new = s :: more := by rw [new, hx]; rfl
  have ynew : y.new = t :: more := by rw [new, hy]; rfl
  refine ⟨Segment.sourceFixesAll s.children ++ more.flatMap (·.sourceFixes), ?_, ?_, ?_⟩
  · rw [sourceFixes_eq, xnew, List.flatMap_cons, split, List.append_assoc]
  · rw [sourceFixes_eq, ynew, List.flatMap_cons, split, own_eq, children, List.append_assoc]
  · rw [xnew, ynew, List.map_cons, List.map_cons, List.cons.injEq, and_iff_left rfl, split t,
      split s, own_eq, children, List.append_cancel_right_eq]

/-- A replacement is known for another that bears the same source fixes. -/
theorem same_iff {s : Segment} {more : List Segment} (h : Bears own x y)
    (hx : x.edit = .replace (s :: more)) : y.same x = true ↔ own = s.ownSourceFixes := by
  obtain ⟨others, -, -, hsame⟩ := h.exists_sourceFixes hx
  rw [Fix.same_iff, h.name_eq, h.anchor_eq, h.raws_eq, hsame]
  simp

/-- A replacement that bears more source fixes has those of the other, and these. -/
theorem mem_sourceFixes {s : Segment} {more : List Segment} {extra : List SourceFix}
    (hx : x.edit = .replace (s :: more)) (h : Bears (mergeSourceFixes s.ownSourceFixes extra) x y)
    (u : SourceFix) : u ∈ y.sourceFixes ↔ u ∈ x.sourceFixes ∨ u ∈ extra := by
  obtain ⟨others, hxs, hys, -⟩ := h.exists_sourceFixes hx
  rw [hxs, hys, List.mem_append, List.mem_append, mem_mergeSourceFixes, or_right_comm]

end Bears

end Fix

namespace FixGroup

open QueryLint.Fix

variable {x y regular : Fix} {first : Segment} {more : List Segment} {done : List Fix}
  {g : FixGroup} {gathered : List SourceFix}

/-! ## 3. Adding a fix -/

theorem bears_carrying (hx : x.edit = .replace (first :: more)) (extra : List SourceFix) (n : Nat) :
    Bears (mergeSourceFixes first.ownSourceFixes extra) x ((carrying extra x).run n).1 := by
  have run : ((carrying extra x).run n).1 = { x with edit := .replace (Segment.mk
      { first.info with
        id := n, sourceFixes := mergeSourceFixes first.ownSourceFixes extra }
      first.children :: more) } := by
    obtain ⟨edit, anchor, origins⟩ := x
    obtain rfl : edit = .replace (first :: more) := hx
    obtain ⟨⟨kind, _, _, _, _, _⟩, cs⟩ := first
    cases kind <;> rfl
  rw [run]
  refine ⟨rfl, first, _, more, hx, rfl, ?_, rfl, rfl⟩
  obtain ⟨i, cs⟩ := first
  rw [Segment.raw, Segment.raw]
  rfl

theorem add_of_same (h : g.fixes.any (·.same x) = true) : g.add x = pure g := by
  rw [add, if_pos h]

theorem firstReplace?_cons (h : y.edit.isReplace = true) (rest : List Fix) :
    firstReplace? (y :: rest) = some y := List.find?_cons_of_pos h

theorem setFirstReplace_cons (h : y.edit.isReplace = true) (rest : List Fix) (z : Fix) :
    setFirstReplace z (y :: rest) = z :: rest := by
  rw [setFirstReplace, if_pos h]

/-- A fix that changes the source only is merged into the replacement that is there. -/
theorem run_add_sourceOnly (rest : List Fix) (gathered : List SourceFix)
    (hknown : (y :: rest).any (·.same x) = false) (hx : x.isSourceOnly = true)
    (hy : y.edit = .replace (first :: more)) (n : Nat) :
    let all := mergeSourceFixes gathered x.sourceFixes
    ∃ z, Bears (mergeSourceFixes first.ownSourceFixes all) y z ∧
      ((add ⟨y :: rest, gathered⟩ x).run n).1 = ⟨z :: rest, all⟩ := by
  have isReplace : y.edit.isReplace = true := by rw [hy]; rfl
  refine ⟨_, bears_carrying hy _ n, ?_⟩
  rw [add, if_neg (by simp [hknown]), if_pos hx]
  dsimp only
  rw [firstReplace?_cons isReplace]
  show FixGroup.mk (setFirstReplace _ (y :: rest)) _ = _
  rw [setFirstReplace_cons isReplace]
  rfl

/-- A replacement takes the place of one that changes the source only. -/
theorem run_add_regular (rest : List Fix) (gathered : List SourceFix)
    (hknown : (y :: rest).any (·.same x) = false) (hx : x.isSourceOnly = false)
    (hedit : x.edit = .replace (first :: more)) (hy : y.isSourceOnly = true) (n : Nat) :
    ∃ z, Bears (mergeSourceFixes first.ownSourceFixes gathered) x z ∧
      ((add ⟨y :: rest, gathered⟩ x).run n).1 = ⟨z :: rest, gathered⟩ := by
  have isReplace : y.edit.isReplace = true :=
    (Fix.keepsText_iff.1 (isSourceOnly_iff.1 hy).1).1
  have replaces : x.edit.isReplace = true := by rw [hedit]; rfl
  refine ⟨_, bears_carrying hedit _ n, ?_⟩
  rw [add, if_neg (by simp [hknown]), if_neg (by simp [hx]), firstReplace?_cons isReplace,
    if_pos (by simp [replaces, hy])]
  show FixGroup.mk (setFirstReplace _ (y :: rest)) _ = _
  rw [setFirstReplace_cons isReplace]
  rfl

/-- Any other fix that is not known comes last. -/
theorem add_of_other (hknown : g.fixes.any (·.same x) = false) (hx : x.isSourceOnly = false)
    (hfirst : (firstReplace? g.fixes).any (·.isSourceOnly) = false) :
    g.add x = pure { g with fixes := g.fixes ++ [x] } := by
  rw [add, if_neg (by simp [hknown]), if_neg (by simp [hx]), if_neg (by simp [hfirst])]

/-! ## 4. What a group holds of the fixes so far -/

/-- The source fixes of those fixes of a list that change the source only. -/
def sourceOnlyFixes (xs : List Fix) : List SourceFix :=
  (xs.filter (·.isSourceOnly)).flatMap (·.sourceFixes)

theorem mem_sourceOnlyFixes_concat {xs : List Fix} {s : SourceFix} :
    s ∈ sourceOnlyFixes (xs ++ [x]) ↔
      s ∈ sourceOnlyFixes xs ∨ x.isSourceOnly = true ∧ s ∈ x.sourceFixes := by
  cases hx : x.isSourceOnly <;> simp [sourceOnlyFixes, hx]

/-- A copy of a replacement comes behind another copy and behind a source fix that this one lacks. -/
def ComesLate (regular : Fix) (own : List SourceFix) (xs : List Fix) : Prop :=
  ∃ before x after, xs = before ++ x :: after ∧ x.same regular = true ∧
    (∃ c ∈ before, c.same regular = true) ∧ ∃ s ∈ sourceOnlyFixes before, s ∉ own

theorem comesLate_concat {own : List SourceFix} {xs : List Fix} :
    ComesLate regular own (xs ++ [x]) ↔ ComesLate regular own xs ∨
      x.same regular = true ∧ (∃ c ∈ xs, c.same regular = true) ∧
        ∃ s ∈ sourceOnlyFixes xs, s ∉ own := by
  constructor
  · rintro ⟨before, z, after, hxs, hz, hcopy, hlack⟩
    rcases List.eq_nil_or_concat after with rfl | ⟨after, y, rfl⟩
    · obtain ⟨rfl, hx⟩ := List.append_inj' hxs rfl
      obtain rfl := (List.cons.inj hx).1
      exact .inr ⟨hz, hcopy, hlack⟩
    · rw [List.concat_eq_append, ← List.cons_append, ← List.append_assoc] at hxs
      obtain ⟨rfl, -⟩ := List.append_inj' hxs rfl
      exact .inl ⟨before, z, after, rfl, hz, hcopy, hlack⟩
  · rintro (⟨before, z, after, rfl, hz, hcopy, hlack⟩ | ⟨hx, hcopy, hlack⟩)
    · exact ⟨before, z, after ++ [x], by simp, hz, hcopy, hlack⟩
    · exact ⟨xs, x, [], rfl, hx, hcopy, hlack⟩

theorem not_comesLate_concat {own : List SourceFix} {xs : List Fix}
    (h : ∀ c ∈ xs, c.same regular = false) : ¬ ComesLate regular own (xs ++ [x]) := by
  have absent (c : Fix) (hc : c ∈ xs) (copy : c.same regular = true) : False := by
    rw [h c hc] at copy
    cases copy
  rw [comesLate_concat]
  rintro (⟨before, z, after, rfl, hz, -⟩ | ⟨-, ⟨c, hc, copy⟩, -⟩)
  · exact absent z (by simp) hz
  · exact absent c hc copy

/-- What a group holds after some fixes of an anchor: copies of a replacement, of which this one is
the first, and others that change the source only. Its first new segment has some source fixes of
its own. -/
inductive Merged (regular : Fix) (own : List SourceFix) (done : List Fix) : FixGroup → Prop where
  | empty (h : done = []) : Merged regular own done {}
  /-- Without the replacement, the first of the others carries their source fixes. -/
  | sourceOnly {y : Fix} {gathered : List SourceFix} (absent : ∀ c ∈ done, c.same regular = false)
      (sourceOnly : y.isSourceOnly = true) (anchor : y.anchor = regular.anchor)
      (carried : ∀ s ∈ y.sourceFixes, s ∈ gathered)
      (mem : ∀ s, s ∈ gathered ↔ s ∈ sourceOnlyFixes done) :
      Merged regular own done ⟨[y], gathered⟩
  /-- The replacement carries them all, and is there once more if a copy came late. -/
  | replaced {y : Fix} {rest : List Fix} {all gathered : List SourceFix}
      (present : ∃ c ∈ done, c.same regular = true)
      (bears : Bears all regular y) (gains : Gains own gathered all)
      (mem : ∀ s, s ∈ gathered ↔ s ∈ sourceOnlyFixes done)
      (rest_eq : rest = [] ∧ ¬ ComesLate regular own done ∨
        (∃ c, rest = [c] ∧ c.same regular = true ∧ c.anchor = regular.anchor) ∧
          ComesLate regular own done) :
      Merged regular own done ⟨y :: rest, gathered⟩

namespace Merged

/-- One more fix that changes the source only. -/
theorem add_sourceOnly (h : Merged regular first.ownSourceFixes done g)
    (hregular : regular.keepsText = false) (hx : x.isSourceOnly = true)
    (hanchor : x.anchor = regular.anchor) (n : Nat) :
    Merged regular first.ownSourceFixes (done ++ [x]) ((g.add x).run n).1 := by
  have unlike (z : Fix) (hz : z.keepsText = false) (anchor : z.anchor = regular.anchor) :
      z.same x = false := same_of_keepsText hz hx (anchor.trans hanchor.symm)
  have other : x.same regular = false := by
    rw [same_comm]
    exact unlike regular hregular rfl
  have lateness : ComesLate regular first.ownSourceFixes (done ++ [x]) ↔
      ComesLate regular first.ownSourceFixes done := by
    rw [comesLate_concat, other]
    simp
  have absent (h : ∀ c ∈ done, c.same regular = false) :
      ∀ c ∈ done ++ [x], c.same regular = false := by
    intro c hc
    rcases List.mem_append.1 hc with hc | hc
    · exact h c hc
    · rw [List.mem_singleton.1 hc]
      exact other
  have gather (gathered : List SourceFix) (mem : ∀ s, s ∈ gathered ↔ s ∈ sourceOnlyFixes done) :
      ∀ s, s ∈ mergeSourceFixes gathered x.sourceFixes ↔ s ∈ sourceOnlyFixes (done ++ [x]) := by
    intro s
    rw [mem_mergeSourceFixes, mem_sourceOnlyFixes_concat, mem, hx]
    simp
  cases h with
  | empty hdone =>
    have added : ((FixGroup.add {} x).run n).1 = ⟨[x], mergeSourceFixes [] x.sourceFixes⟩ := by
      rw [add, if_neg (by simp), if_pos hx]
      rfl
    rw [added]
    refine .sourceOnly (absent (by simp [hdone])) hx hanchor
      (fun s hs => mem_mergeSourceFixes.2 (.inr hs)) (gather [] fun s => ?_)
    rw [hdone]
    simp [sourceOnlyFixes]
  | @sourceOnly y gathered absent' sourceOnly anchor carried mem =>
    by_cases hknown : y.same x = true
    · rw [add_of_same (by simpa using hknown)]
      refine .sourceOnly (absent absent') sourceOnly anchor carried fun s => ?_
      rw [mem_sourceOnlyFixes_concat, ← mem, ← sourceFixes_of_same hknown]
      exact ⟨.inl, fun hs => hs.elim id fun hs => carried s hs.2⟩
    · obtain ⟨keeps, nonempty⟩ := isSourceOnly_iff.1 sourceOnly
      obtain ⟨t, hy⟩ := exists_of_keepsText keeps
      obtain ⟨z, bears, hz⟩ :=
        run_add_sourceOnly [] gathered (by simpa using hknown) hx hy n
      rw [hz]
      have carries := bears.mem_sourceFixes hy
      refine .sourceOnly (absent absent')
        (isSourceOnly_iff.2 ⟨bears.keepsText_eq.trans keeps, ?_⟩)
        (bears.anchor_eq.trans anchor) ?_ (gather _ mem)
      · obtain ⟨s, hs⟩ := List.exists_mem_of_ne_nil _ nonempty
        exact List.ne_nil_of_mem ((carries s).2 (.inl hs))
      · intro s hs
        rcases (carries s).1 hs with hs | hs
        · exact mem_mergeSourceFixes.2 (.inl (carried s hs))
        · exact hs
  | @replaced y rest all gathered present bears gains mem rest_eq =>
    have hknown : (y :: rest).any (·.same x) = false := by
      have front := unlike y (bears.keepsText_eq.trans hregular) bears.anchor_eq
      rcases rest_eq with ⟨rfl, -⟩ | ⟨⟨c, rfl, copy, anchor⟩, -⟩
      · simp [front]
      · simp [front, unlike c ((keepsText_of_same copy anchor).trans hregular) anchor]
    obtain ⟨c, hc, copy⟩ := present
    obtain ⟨s, t, more, -, hy, -, -, rfl⟩ := bears.new_eq
    obtain ⟨z, bears', hz⟩ := run_add_sourceOnly rest gathered hknown hx hy n
    rw [hz]
    refine .replaced ⟨c, List.mem_append_left _ hc, copy⟩ (bears.trans bears')
      (gains.merge fun s hs => mem_mergeSourceFixes.2 (.inl hs)) (gather _ mem) ?_
    rw [lateness]
    exact rest_eq

/-- One more copy of the replacement. -/
theorem add_copy (h : Merged regular first.ownSourceFixes done g)
    (hregular : regular.keepsText = false) (hedit : regular.edit = .replace (first :: more))
    (hx : x.same regular = true) (hanchor : x.anchor = regular.anchor)
    (hfirst : (∀ c ∈ done, c.same regular = false) → x = regular) (n : Nat) :
    Merged regular first.ownSourceFixes (done ++ [x]) ((g.add x).run n).1 := by
  have changes : x.keepsText = false := (keepsText_of_same hx hanchor).trans hregular
  have notSourceOnly := isSourceOnly_of_keepsText changes
  have present : ∃ c ∈ done ++ [x], c.same regular = true := ⟨x, by simp, hx⟩
  have mem_concat (s : SourceFix) :
      s ∈ sourceOnlyFixes (done ++ [x]) ↔ s ∈ sourceOnlyFixes done := by
    rw [mem_sourceOnlyFixes_concat, notSourceOnly]
    simp
  cases h with
  | empty hdone =>
    have absent : ∀ c ∈ done, c.same regular = false := by simp [hdone]
    obtain rfl := hfirst absent
    rw [add_of_other rfl notSourceOnly rfl]
    show Merged x _ _ ⟨[x], []⟩
    refine .replaced present ⟨rfl, first, first, more, hedit, hedit, rfl, rfl, rfl⟩
      ⟨[], by simp, .nil, by simp⟩ ?_ (.inl ⟨rfl, not_comesLate_concat absent⟩)
    intro s
    rw [mem_concat, hdone]
    simp [sourceOnlyFixes]
  | @sourceOnly y gathered absent sourceOnly anchor carried mem =>
    obtain rfl := hfirst absent
    have hknown : y.same x = false := by
      rw [same_comm]
      exact same_of_keepsText changes sourceOnly anchor.symm
    obtain ⟨z, bears, hz⟩ :=
      run_add_regular [] gathered (by simpa using hknown) notSourceOnly hedit sourceOnly n
    rw [hz]
    exact .replaced present bears (gains_mergeSourceFixes _ _)
      (fun s => (mem s).trans (mem_concat s).symm) (.inl ⟨rfl, not_comesLate_concat absent⟩)
  | @replaced y rest all gathered present' bears gains mem rest_eq =>
    have mem' (s : SourceFix) := (mem s).trans (mem_concat s).symm
    -- The first copy is not known for another if it has gained source fixes by now.
    have known : y.same x = true ↔ ∀ s ∈ sourceOnlyFixes done, s ∈ first.ownSourceFixes := by
      rw [same_congr hx, bears.same_iff hedit, gains.eq_iff]
      exact forall_congr' fun s => by rw [mem]
    rcases rest_eq with ⟨rfl, early⟩ | ⟨⟨c, rfl, copy, anchor⟩, late⟩
    · by_cases hknown : y.same x = true
      · rw [add_of_same (by simpa using hknown)]
        refine .replaced present bears gains mem' (.inl ⟨rfl, ?_⟩)
        rw [comesLate_concat]
        rintro (late | ⟨-, -, s, hs, lacks⟩)
        · exact early late
        · exact lacks (known.1 hknown s hs)
      · have plain := isSourceOnly_of_keepsText (bears.keepsText_eq.trans hregular)
        rw [add_of_other (by simpa using hknown) notSourceOnly
          (by simp [firstReplace?_cons bears.isReplace, plain])]
        refine .replaced present bears gains mem' (.inr ⟨⟨x, rfl, hx, hanchor⟩, ?_⟩)
        refine comesLate_concat.2 (.inr ⟨hx, present', ?_⟩)
        rw [known] at hknown
        simpa using hknown
    · have again : c.same x = true := by rw [same_congr hx, copy]
      rw [add_of_same (by simp [again])]
      exact .replaced present bears gains mem'
        (.inr ⟨⟨c, rfl, copy, anchor⟩, comesLate_concat.2 (.inl late)⟩)

/-- A run over a list of fixes, of which the replacement is the first of all its copies. -/
theorem foldlM {xs : List Fix} (h : Merged regular first.ownSourceFixes done g)
    (hregular : regular.keepsText = false) (hedit : regular.edit = .replace (first :: more))
    (hxs : ∀ x ∈ xs, x.anchor = regular.anchor ∧
      (x.same regular = true ∨ x.isSourceOnly = true))
    (hfirst : (done ++ xs).find? (·.same regular) = some regular) (n : Nat) :
    Merged regular first.ownSourceFixes (done ++ xs)
      ((xs.foldlM FixGroup.add g : Fresh FixGroup).run n).1 := by
  induction xs generalizing done g n with
  | nil =>
    rw [List.append_nil]
    exact h
  | cons x xs ih =>
    obtain ⟨⟨hanchor, hx⟩, hrest⟩ := List.forall_mem_cons.1 hxs
    have next : Merged regular first.ownSourceFixes (done ++ [x]) ((g.add x).run n).1 := by
      rcases hx with hx | hx
      · refine h.add_copy hregular hedit hx hanchor (fun absent => ?_) n
        have none : done.find? (·.same regular) = none := by
          simpa using absent
        rw [List.find?_append, none, Option.none_or] at hfirst
        simpa [hx] using hfirst
      · exact h.add_sourceOnly hregular hx hanchor n
    have run := ih next hrest (by rwa [List.append_assoc]) ((g.add x).run n).2
    rw [List.append_assoc] at run
    rw [List.foldlM_cons]
    exact run

end Merged

/-! ## 5. A group -/

/-- Copies of a replacement that changes the text of an anchor, this one first of them, and others
that change its source only, in any order, leave one fix in their group, and the group is valid; but
if a copy of the replacement comes late, there are two and it is not. The first fix brings in the
texts of the replacement, and to its source fixes come those of the others, each once, which its
first new segment did not carry. -/
theorem foldlM_add_merges {regular : Fix} {first : Segment} {more : List Segment} {xs : List Fix}
    (hedit : regular.edit = .replace (first :: more)) (htext : regular.text ≠ regular.anchor.raw)
    (hxs : ∀ x ∈ xs, x.anchor = regular.anchor ∧
      (x.same regular = true ∨ x.isSourceOnly = true))
    (hfirst : xs.find? (·.same regular) = some regular) (n : Nat) {g : FixGroup}
    (hg : g = ((xs.foldlM FixGroup.add {} : Fresh FixGroup).run n).1) :
    ∃ y rest added, g.fixes = y :: rest ∧
      (¬ ComesLate regular first.ownSourceFixes xs ∧ rest = [] ∧ g.isValid = true ∨
        ComesLate regular first.ownSourceFixes xs ∧ g.isValid = false ∧
          ∃ c, rest = [c] ∧ c.same regular = true) ∧
      y.anchor = regular.anchor ∧ y.edit.isReplace = true ∧
      y.new.map (·.raw) = regular.new.map (·.raw) ∧
      y.sourceFixes.Perm (added ++ regular.sourceFixes) ∧ added.Nodup ∧
      ∀ s, s ∈ added ↔ s ∉ first.ownSourceFixes ∧
        ∃ x ∈ xs, x.isSourceOnly = true ∧ s ∈ x.sourceFixes := by
  have hregular := keepsText_of_text htext
  have merged := (Merged.empty rfl).foldlM hregular hedit hxs hfirst n
  rw [List.nil_append, ← hg] at merged
  cases merged with
  | empty hdone =>
    rw [hdone] at hfirst
    cases hfirst
  | sourceOnly absent =>
    rw [List.find?_eq_none.2 (by simpa using absent)] at hfirst
    cases hfirst
  | @replaced y rest all gathered _ bears gains mem rest_eq =>
    obtain ⟨others, hold, hnew, -⟩ := bears.exists_sourceFixes hedit
    obtain ⟨added, rfl, nodup, hadded⟩ := gains
    refine ⟨y, rest, added, rfl, ?_, bears.anchor_eq, bears.isReplace, bears.raws_eq, ?_, nodup, ?_⟩
    · rcases rest_eq with ⟨rfl, early⟩ | ⟨⟨c, rfl, copy, -⟩, late⟩
      · exact .inl ⟨early, rfl, rfl⟩
      · refine .inr ⟨late, ?_, c, rfl, copy⟩
        have replaces : c.edit.isReplace = true := by
          rw [isReplace_iff, (Fix.same_iff.1 copy).1, hedit]
          rfl
        simp [isValid, size, isInsertBefore_of_isReplace bears.isReplace,
          isInsertBefore_of_isReplace replaces]
    · rw [hnew, hold, ← List.append_assoc]
      exact List.perm_append_comm.append_right others
    · intro s
      rw [hadded, mem]
      simp [sourceOnlyFixes, and_assoc]

/-- A word that may carry source fixes. -/
def noted (id : Nat) (text : String) (fixes : List SourceFix) : Segment :=
  .mk ⟨.token text .ofCode none, "word", ["word"], id, none, fixes⟩ []

/-- Another word in place of one. -/
def reworded : Fix := .replace (noted 0 "a" []) [noted 1 "b" []]

/-- A change of the source under the word. -/
def note (text : String) : SourceFix := ⟨text, .point 0, .point 0⟩

/-- A replacement that changes the source only. -/
def renoted (text : String) : Fix := .replace (noted 0 "a" []) [noted 2 "a" [note text]]

theorem isSourceOnly_renoted (text : String) :
    (renoted text).isSourceOnly = true ∧ (renoted text).anchor = reworded.anchor :=
  ⟨rfl, rfl⟩

/-- Changes of the source on both sides of a replacement, and one of them twice. -/
theorem foldlM_add_merges_twice :
    ∃ y, (([renoted "x", reworded, renoted "y", renoted "x"].foldlM FixGroup.add {} :
        Fresh FixGroup).run 3).1.fixes = [y] ∧ y.new.map (·.raw) = ["b"] ∧
      y.sourceFixes.Nodup ∧ ∀ s, s ∈ y.sourceFixes ↔ s = note "x" ∨ s = note "y" := by
  have members : ∀ x ∈ [renoted "x", reworded, renoted "y", renoted "x"],
      x.anchor = reworded.anchor ∧ (x.same reworded = true ∨ x.isSourceOnly = true) := by
    simp [isSourceOnly_renoted]
  have first : [renoted "x", reworded, renoted "y", renoted "x"].find? (·.same reworded) =
      some reworded := by
    have other : (renoted "x").same reworded = false := by decide +kernel
    simp [other]
  obtain ⟨y, rest, added, fixes, valid, -, -, raws, perm, nodup, mem⟩ :=
    foldlM_add_merges (show reworded.edit = .replace [noted 1 "b" []] from rfl)
      (by decide +kernel) members first 3 rfl
  have isValid : (([renoted "x", reworded, renoted "y", renoted "x"].foldlM FixGroup.add {} :
      Fresh FixGroup).run 3).1.isValid = true := by decide +kernel
  have plain : reworded.isSourceOnly = false := by decide +kernel
  have sources (text : String) : (renoted text).sourceFixes = [note text] := rfl
  rw [show reworded.sourceFixes = [] from rfl, List.append_nil] at perm
  rcases valid with ⟨-, rfl, -⟩ | ⟨-, invalid, -⟩
  · refine ⟨y, fixes, raws, perm.nodup_iff.2 nodup, fun s => ?_⟩
    rw [perm.mem_iff, mem]
    by_cases hs : s = note "x" <;>
      simp [isSourceOnly_renoted, plain, sources, noted, Segment.ownSourceFixes, Segment.info, hs]
  · rw [isValid] at invalid
    cases invalid

/-- Behind a change of the source, a second copy of the replacement is not known for one. -/
theorem foldlM_add_splits :
    (∀ x ∈ [reworded, renoted "x", reworded],
      x = reworded ∨ x.isSourceOnly = true ∧ x.anchor = reworded.anchor) ∧
      reworded.text ≠ reworded.anchor.raw ∧
      let g := (([reworded, renoted "x", reworded].foldlM FixGroup.add {} :
        Fresh FixGroup).run 3).1
      g.isValid = false ∧ g.fixes.length = 2 := by
  refine ⟨by simp [isSourceOnly_renoted], by decide +kernel, ?_⟩
  decide +kernel

end FixGroup

end QueryLint
