import QueryLint.Proofs.Match.Transparent

/-!
QueryLint.Proofs.Match.Traced — grammars that take code as it is leave a trace.

A match says which of its tokens a terminal took, but not which were taken as they are, by a grammar
of any token or of all tokens up to a terminator: these just stay among the tokens of the match. To
ask whether a token was taken by some grammar, the tables are given a segment for each of these
grammars. Nothing else changes: the same grammars are tried at the same places, and what they match
is the same but for the segments that were added.

* `Tables.traced` — the tables with a segment for every grammar that takes code as it is.
* `Match.Traced` — a match with such segments added.
* `MatchContext.traced_matchGrammar` — matching by the tables with traces adds traces only.
* `MatchContext.ExactBrackets.traced` — brackets stay exact.
-/

namespace QueryLint

/-! ## 1. Tables with traces -/

namespace Tables

variable (t : Tables)

/-- The grammar takes code as it is and puts it into no segment, so that its match says nothing of
it. -/
def isTraceless (id : GrammarId) : Bool := t.takesAsIs id && (t.segmentType? id).isNone

/-- The types of the segments that grammars make, with one for every grammar that would leave no
trace. -/
def tracedTypes : Array Nat :=
  Array.ofFn fun k : Fin (max t.size t.segmentTypes.size) =>
    if t.isTraceless ⟨k⟩ then 0 else t.segmentTypes.getD k GrammarId.absent

/-- The tables with a segment for every grammar that takes code as it is. -/
def traced : Tables := { t with segmentTypes := t.tracedTypes }

variable {t} {id : GrammarId}

theorem lt_size_of_takesAsIs (h : t.takesAsIs id = true) : id.index < t.size := by
  refine lt_size_of_kind fun missing => ?_
  simp [takesAsIs, shape, missing] at h

/-- A grammar makes the segment it made before, or one that only tells where it matched. -/
theorem segmentType?_traced :
    t.traced.segmentType? id = if t.isTraceless id then some (t.string 0) else t.segmentType? id := by
  have slot (hlt : id.index < max t.size t.segmentTypes.size) :
      t.tracedTypes[id.index]? = some (if t.isTraceless id then 0
        else t.segmentTypes.getD id.index GrammarId.absent) := by
    rw [tracedTypes, Array.getElem?_ofFn, dif_pos hlt]
  have absent : slotNat? GrammarId.absent = none := by simp [slotNat?]
  show ((t.tracedTypes[id.index]?).bind slotNat?).map t.string = _
  split
  · next htrace =>
    have hlt : id.index < t.size := lt_size_of_takesAsIs (by simp_all [isTraceless])
    rw [slot (by omega), if_pos htrace]
    rfl
  · next htrace =>
    rw [segmentType?]
    by_cases hlt : id.index < max t.size t.segmentTypes.size
    · rw [slot hlt, if_neg htrace, Array.getD_eq_getD_getElem?]
      cases t.segmentTypes[id.index]? with
      | none => simp [absent]
      | some n => rfl
    · have before : t.segmentTypes[id.index]? = none := Array.getElem?_eq_none (by omega)
      have after : t.tracedTypes[id.index]? = none :=
        Array.getElem?_eq_none (by simp only [tracedTypes, Array.size_ofFn]; omega)
      rw [before, after]

/-- With traces, whatever takes code as it is makes a segment. -/
theorem segmentType?_traced_of_takesAsIs (h : t.takesAsIs id = true) :
    (t.traced.segmentType? id).isSome = true := by
  rw [segmentType?_traced]
  cases htype : t.segmentType? id with
  | none => simp [isTraceless, h, htype]
  | some type => simp [isTraceless, htype]

end Tables

/-! ## 2. Matches with traces -/

namespace Match

variable {t : Tables} {m m' : Match} {cs cs' ds ds' : List Match}

/-- Matches, and the same ones with segments for code that is taken as it is. Such a segment is put
around a match, or among others for what was inside a match that was put into nothing. -/
inductive TracedAll (t : Tables) : List Match → List Match → Prop where
  | nil : TracedAll t [] []
  | same {a b : Nat} {k : Option MatchClass} {is : List (Nat × MarkerKind)}
      {cs cs' ms ms' : List Match} (inside : TracedAll t cs cs') (rest : TracedAll t ms ms') :
      TracedAll t (.mk a b k is cs :: ms) (.mk a b k is cs' :: ms')
  | around {a b : Nat} {type : String} {g : GrammarId} {cs cs' ms ms' : List Match}
      (hg : t.isTraceless g = true) (inside : TracedAll t cs cs') (rest : TracedAll t ms ms') :
      TracedAll t (.mk a b none [] cs :: ms) (.mk a b (some (.node type g)) [] cs' :: ms')
  | among {a b : Nat} {type : String} {g : GrammarId} {cs cs' ms ms' : List Match}
      (hg : t.isTraceless g = true) (inside : TracedAll t cs cs') (rest : TracedAll t ms ms') :
      TracedAll t (cs ++ ms) (.mk a b (some (.node type g)) [] cs' :: ms')

/-- A match, and the same one with segments for code that is taken as it is. -/
inductive Traced (t : Tables) : Match → Match → Prop where
  | same {a b : Nat} {k : Option MatchClass} {is : List (Nat × MarkerKind)} {cs cs' : List Match}
      (inside : TracedAll t cs cs') : Traced t (.mk a b k is cs) (.mk a b k is cs')
  | around {a b : Nat} {type : String} {g : GrammarId} {cs cs' : List Match}
      (hg : t.isTraceless g = true) (inside : TracedAll t cs cs') :
      Traced t (.mk a b none [] cs) (.mk a b (some (.node type g)) [] cs')

theorem TracedAll.refl : ∀ ms : List Match, TracedAll t ms ms
  | [] => .nil
  | .mk _ _ _ _ cs :: ms => .same (refl cs) (refl ms)

theorem TracedAll.append (h : TracedAll t cs cs') (h' : TracedAll t ds ds') :
    TracedAll t (cs ++ ds) (cs' ++ ds') := by
  induction h with
  | nil => exact h'
  | same inside _ _ ih => exact .same inside ih
  | around hg inside _ _ ih => exact .around hg inside ih
  | among hg inside _ _ ih =>
    rw [List.append_assoc]
    exact .among hg inside ih

namespace Traced

theorem single (h : Traced t m m') : TracedAll t [m] [m'] := by
  cases h with
  | same inside => exact .same inside .nil
  | around hg inside => exact .around hg inside .nil

theorem refl (t : Tables) (m : Match) : Traced t m m := by
  obtain ⟨a, b, k, is, cs⟩ := m
  exact .same (.refl cs)

theorem start_eq (h : Traced t m m') : m.start = m'.start := by cases h <;> rfl

theorem stop_eq (h : Traced t m m') : m.stop = m'.stop := by cases h <;> rfl

theorem inserts_eq (h : Traced t m m') : m.inserts = m'.inserts := by cases h <;> rfl

theorem isMatch_eq (h : Traced t m m') : m.isMatch = m'.isMatch := by
  rw [isMatch, isMatch, isEmpty, isEmpty, h.start_eq, h.stop_eq, h.inserts_eq]

theorem outerChildren (h : Traced t m m') : TracedAll t m.outerChildren m'.outerChildren := by
  cases h with
  | @same a b k is cs cs' inside =>
    cases k with
    | none => exact inside
    | some k => exact (same inside).single
  | @around a b type g cs cs' hg inside =>
    have among : TracedAll t (cs ++ []) [.mk a b (some (.node type g)) [] cs'] :=
      .among hg inside .nil
    rwa [List.append_nil] at among

/-- What is put into something has its trace inside. -/
theorem wrap (h : Traced t m m') (k : MatchClass) : Traced t (m.wrap k) (m'.wrap k) := by
  have hmatch := h.isMatch_eq
  have houter := h.outerChildren
  by_cases hm : m.isMatch = true
  · have hm' : m'.isMatch = true := by rw [← hmatch, hm]
    cases h with
    | @same a b k' is cs cs' inside =>
      cases k' with
      | none =>
        simp only [Match.wrap, hm, hm', class?, Option.isNone_none]
        exact .same inside
      | some k' =>
        simp only [Match.wrap, hm, hm', class?, Option.isNone_some]
        exact .same houter
    | around hg inside =>
      simp only [Match.wrap, hm, hm', class?, Option.isNone_none, Option.isNone_some]
      exact .same houter
  · have hm' : ¬ m'.isMatch = true := by rwa [← hmatch]
    rw [Match.wrap, Match.wrap, if_pos (by simpa using hm), if_pos (by simpa using hm')]
    exact h

end Traced

/-- With traces, matches are told apart as little as without them. -/
theorem likeness_traced : Likeness Eq (Traced t) (TracedAll t) where
  class_refl _ := rfl
  refl := .refl t
  start_eq h := h.start_eq
  stop_eq h := h.stop_eq
  isMatch_eq h := h.isMatch_eq
  outerInserts_eq h := by
    cases h with
    | same => rfl
    | around => rfl
  outerChildren h := h.outerChildren
  wrap hk h := hk ▸ h.wrap _
  build _ _ _ hk h := by
    cases hk with
    | none => exact .same h
    | some hk => exact hk ▸ .same h
  nil := .nil
  single h := h.single
  append h h' := h.append h'

end Match

/-! ## 3. Matching with traces -/

namespace MatchContext

variable {c : MatchContext}

/-- The same context with tables that leave traces. -/
def traced (c : MatchContext) : MatchContext := { c with tables := c.tables.traced }

/-- A grammar puts its match into the segment it did before, or into the trace that it leaves. -/
theorem segmentsAlike_traced :
    c.SegmentsAlike c.tables.tracedTypes (Match.Traced c.tables) (Match.TracedAll c.tables) := by
  intro id m m' hm hloose
  show Match.Traced c.tables _ (m'.wrap? ((c.tables.traced.segmentType? id).map (.node · id)))
  rw [Tables.segmentType?_traced]
  split
  · next htrace =>
    rw [Tables.isTraceless, Bool.and_eq_true, Option.isNone_iff_eq_none] at htrace
    rw [htrace.2]
    cases hloose htrace.1 with
    | @mk cs cs' i j inside =>
      show Match.Traced c.tables (.mk i j none [] cs) (Match.wrap (.mk i j none [] cs') _)
      by_cases hmatch : (Match.mk i j none [] cs').isMatch = true
      · simp only [Match.wrap, hmatch, Match.class?, Option.isNone_none]
        exact .around (by simp [Tables.isTraceless, htrace]) inside
      · rw [Match.wrap, if_pos (by simpa using hmatch)]
        exact hm
  · cases (c.tables.segmentType? id).map (MatchClass.node · id) with
    | none => exact hm
    | some k => exact hm.wrap k

/-- What is kept without traces and with them: for the same keys, the same matches but for the
traces. -/
def MemosTraced (c : MatchContext) (s t : MatchState) : Prop :=
  ∀ key : MemoKey, Option.Rel (Match.Traced c.tables) s.memo[key]? t.memo[key]?

theorem MemosTraced.initial : c.MemosTraced {} {} := fun key => by simp

/-- By the tables with traces a grammar matches as without, and so do those after it. -/
theorem traced_matchGrammar {s t : MatchState} (hst : c.MemosTraced s t) (n : Nat)
    (ts : List GrammarId) (limit i : Nat) (g : GrammarId) :
    Match.Traced c.tables ((c.matchGrammar n ts limit i g).run s).1
        ((c.traced.matchGrammar n ts limit i g).run t).1 ∧
      c.MemosTraced ((c.matchGrammar n ts limit i g).run s).2
        ((c.traced.matchGrammar n ts limit i g).run t).2 := by
  let b : Bond := depthBond False False c.MemosTraced
  have hbeyond : Paired b (Match.Traced c.tables) .refuse .refuse :=
    fun _ _ i _ => .pure (.refl c.tables (.empty i))
  have hpaired : Paired b (Match.Traced c.tables) (c.matchOver .refuse n)
      (c.traced.matchOver .refuse n) := by
    refine paired_matchOver (c := c) (d := c.traced) rfl Match.likeness_traced
      abreast_self segmentsAlike_traced (notesPaired_self (fun _ _ _ h => h) _) hbeyond
      (fun n hn => memoPaired_of_alike _ hn ?_ ?_) n
    · exact fun s t h => h
    · intro ts limit i g s t _ r r' _ hlike hmemos key
      dsimp only
      rw [Std.HashMap.getElem?_insert, Std.HashMap.getElem?_insert]
      split
      · exact .some hlike
      · exact hmemos key
  rw [← matchOver_refuse, ← matchOver_refuse]
  rcases (hpaired ts limit i g).agree s t hst with hlost | hlost | h
  · exact hlost.1.elim
  · exact hlost.1.elim
  · exact h

/-! ## 4. Brackets -/

/-- A state that matching with traces can be in goes with one that matching without can be in. -/
theorem Reachable.exists_traced {t : MatchState} (h : c.traced.Reachable t) :
    ∃ s, c.Reachable s ∧ c.MemosTraced s t := by
  induction h with
  | initial => exact ⟨{}, .initial, .initial⟩
  | note notes _ ih => exact ih
  | @keep t t' m' n limit i ts g _ run _ ih _ =>
    obtain ⟨s, hs, hst⟩ := ih
    obtain ⟨hm, hst'⟩ := traced_matchGrammar hst n ts limit i g
    rw [run] at hm hst'
    refine ⟨_, .keep hs rfl (reachable_matchGrammar n ts limit i g s hs).2, fun key => ?_⟩
    dsimp only
    rw [Std.HashMap.getElem?_insert, Std.HashMap.getElem?_insert]
    split
    · exact .some hm
    · exact hst' key

/-- Brackets that are exact are so with traces too. -/
theorem ExactBrackets.traced (h : c.ExactBrackets) : c.traced.ExactBrackets where
  declared id opening closing persists hshape := by
    obtain ⟨p, hp, hresolve⟩ := h.declared id opening closing persists hshape
    refine ⟨p, hp, ?_⟩
    show (c.varied c.tokens c.tables.tracedTypes c.memoize).resolve p.opening =
      (c.varied c.tokens c.tables.tracedTypes c.memoize).resolve opening
    rw [resolve_varied, resolve_varied, hresolve]
  closing_ref := h.closing_ref
  closing_one p hp n ts limit i t ht := by
    obtain ⟨s, hs, hst⟩ := ht.exists_traced
    have hm := (traced_matchGrammar hst n ts limit i p.closing).1
    have hone := h.closing_one p hp n ts limit i s hs
    intro hmatch
    rw [← hm.start_eq, ← hm.stop_eq]
    exact hone (by rw [hm.isMatch_eq, hmatch])

end MatchContext

end QueryLint
