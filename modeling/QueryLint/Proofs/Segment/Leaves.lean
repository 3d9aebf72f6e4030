import QueryLint.Proofs.Step
import QueryLint.Segment.Layout

/-!
QueryLint.Proofs.Segment.Leaves — the tokens that segments carry.

Making segments of tokens draws identities from a counter, retypes tokens and puts markers between
them. The markers are known by identities that were not drawn before; without them, and without
what retyping changes, the leaves of the segments are the tokens again.

Placing segments anew changes positions and nothing else. What does not speak of positions can be
asked of the segment without any, so no law about text, identities or source fixes has to look at
how positions are found.

* `Segment.bare` — a token without what a grammar may change in it.
* `Segment.isInserted` — a marker that was made after the tokens.
* `Segment.Carries` — the leaves of some segments are some tokens.
* `Segment.unplaced` — a segment without positions.
* `Segment.map_unplaced_positionAll` — placing segments anew changes positions only.
-/

namespace QueryLint

namespace SegmentKind

/-- A kind without a normalised text. -/
def plain : SegmentKind → SegmentKind
  | token text flags _ => token text flags none
  | k => k

@[simp] theorem isLeaf_plain (k : SegmentKind) : k.plain.isLeaf = k.isLeaf := by
  cases k <;> rfl

end SegmentKind

namespace Segment

/-! ## 1. Leaves -/

@[simp] theorem leavesAll_nil : leavesAll [] = [] := by simp [leavesAll]

@[simp] theorem leavesAll_cons (s : Segment) (ss : List Segment) :
    leavesAll (s :: ss) = s.leaves ++ leavesAll ss := by simp [leavesAll]

@[simp] theorem leavesAll_append (xs ys : List Segment) :
    leavesAll (xs ++ ys) = leavesAll xs ++ leavesAll ys := by
  induction xs with
  | nil => simp
  | cons x xs ih => simp [ih]

theorem leaves_of_isLeaf {s : Segment} (h : s.isLeaf = true) : s.leaves = [s] := by
  cases s with
  | mk i cs =>
    change i.kind.isLeaf = true at h
    simp [leaves, h]

theorem leaves_of_not_isLeaf {s : Segment} (h : s.isLeaf = false) :
    s.leaves = leavesAll s.children := by
  cases s with
  | mk i cs =>
    change i.kind.isLeaf = false at h
    simp [leaves, h, children]

/-- A list of leaves is its own leaves. -/
theorem leavesAll_of_isLeaf {ss : List Segment} (h : ∀ s ∈ ss, s.isLeaf = true) :
    leavesAll ss = ss := by
  induction ss with
  | nil => simp
  | cons s ss ih =>
    rw [leavesAll_cons, leaves_of_isLeaf (h s (by simp)), ih fun x hx => h x (by simp [hx])]
    rfl

theorem isUnparsable_of_isLeaf {s : Segment} (h : s.isLeaf = true) : s.isUnparsable = false := by
  obtain ⟨⟨kind, type, types, id, position, fixes⟩, cs⟩ := s
  cases kind with
  | token | marker | node | bracketed | file => rfl
  | unparsable => cases h

/-! ## 2. What grammars change in tokens -/

/-- A segment without what a grammar may change in a token: the type, the types it counts as, the
identity and the normalised text. -/
def bare (s : Segment) : Segment :=
  mk { s.info with kind := s.kind.plain, type := "", classTypes := [], id := 0 } s.children

@[simp] theorem position_bare (s : Segment) : s.bare.position = s.position := rfl

@[simp] theorem isLeaf_bare (s : Segment) : s.bare.isLeaf = s.isLeaf :=
  SegmentKind.isLeaf_plain s.kind

@[simp] theorem isMarker_bare (s : Segment) : s.bare.isMarker = s.isMarker := by
  have hkind : s.bare.kind = s.kind.plain := rfl
  simp only [isMarker, marker?, hkind]
  cases s.kind <;> rfl

theorem bare_withNormalized (s : Segment) (text : String) :
    (s.withNormalized text).bare = s.bare := by
  unfold withNormalized
  split
  · next hk =>
    show mk _ s.children = mk _ s.children
    rw [hk]
    rfl
  · rfl

theorem raw_bare (s : Segment) : s.bare.raw = s.raw := by
  cases s with
  | mk i cs =>
    show (mk _ cs).raw = (mk i cs).raw
    unfold raw
    cases hk : i.kind <;> simp [SegmentKind.plain, kind, info, hk]

theorem isCode_bare {s : Segment} (h : s.isLeaf = true) : s.bare.isCode = s.isCode := by
  obtain ⟨i, cs⟩ := s
  show (mk _ cs).isCode = (mk i cs).isCode
  rw [isCode, isCode]
  change i.kind.isLeaf = true at h
  cases hk : i.kind <;> simp_all [SegmentKind.plain, SegmentKind.isLeaf, kind, info]

/-- A marker whose identity was drawn from the counter at `n` or later. -/
def isInserted (n : Nat) (s : Segment) : Bool := s.isMarker && decide (n ≤ s.id)

/-- The leaves that were there before the counter stood at `n`. -/
def keptLeaves (n : Nat) (ss : List Segment) : List Segment :=
  ((leavesAll ss).filter (!isInserted n ·)).map bare

/-- It has a position, unless it is a marker made since the counter stood at `n`. -/
def IsPlaced (n : Nat) (s : Segment) : Prop :=
  s.position.isSome = true ∨ isInserted n s = true

/-- The leaves of some segments are some tokens, but for markers made since; all others have a
position. -/
structure Carries (n : Nat) (ss ts : List Segment) : Prop where
  placed : ∀ x ∈ leavesAll ss, IsPlaced n x
  kept : keptLeaves n ss = ts.map bare

theorem rawAll_map_bare (ss : List Segment) : rawAll (ss.map bare) = rawAll ss := by
  induction ss with
  | nil => rfl
  | cons s ss ih => rw [List.map_cons, rawAll, rawAll, raw_bare, ih]

/-- A marker has no text. -/
theorem raw_of_isInserted {s : Segment} (h : isInserted n s = true) : s.raw = "" := by
  cases s with
  | mk i cs =>
    rw [isInserted, Bool.and_eq_true] at h
    have hmarker : (marker? (mk i cs)).isSome = true := h.1
    unfold raw
    unfold marker? at hmarker
    split at hmarker
    · next hk =>
      change i.kind = _ at hk
      rw [hk]
    · cases hmarker

/-- A marker is no code. -/
theorem isCode_of_isMarker {s : Segment} (h : s.isMarker = true) : s.isCode = false := by
  cases s with
  | mk i cs =>
    have hmarker : (marker? (mk i cs)).isSome = true := h
    unfold isCode
    unfold marker? at hmarker
    split at hmarker
    · next hk =>
      change i.kind = _ at hk
      rw [hk]
    · cases hmarker

theorem rawAll_keptLeaves (n : Nat) (ss : List Segment) :
    rawAll (keptLeaves n ss) = rawAll ss := by
  rw [keptLeaves, rawAll_map_bare, ← rawAll_leavesAll ss]
  induction leavesAll ss with
  | nil => rfl
  | cons s ss ih =>
    rw [List.filter_cons]
    cases hs : isInserted n s with
    | true => simp [rawAll, ih, raw_of_isInserted hs]
    | false => simp [rawAll, ih]

/-- A tree keeps some tokens: without the markers made since, its leaves are these tokens, each once
and in order, and its text is theirs. -/
structure KeepsTokens (n : Nat) (ts : List Segment) (tree : Segment) : Prop where
  leaves : (tree.leaves.filter (!isInserted n ·)).map bare = ts.map bare
  raw : tree.raw = rawAll ts

/-- Tokens as they are read from a file before the counter stands at `n`. -/
structure IsLexed (n : Nat) (ts : List Segment) : Prop where
  isLeaf : ∀ t ∈ ts, t.isLeaf = true
  placed : ∀ t ∈ ts, t.position.isSome = true
  id_lt : ∀ t ∈ ts, t.id < n

namespace IsLexed

variable {n : Nat} {ts : List Segment}

theorem sublist {us : List Segment} (h : IsLexed n ts) (hs : us.Sublist ts) : IsLexed n us :=
  ⟨fun t ht => h.isLeaf t (hs.subset ht), fun t ht => h.placed t (hs.subset ht),
    fun t ht => h.id_lt t (hs.subset ht)⟩

theorem not_isInserted (h : IsLexed n ts) {t : Segment} (ht : t ∈ ts) : isInserted n t = false := by
  have := h.id_lt t ht
  simp only [isInserted, Bool.and_eq_false_iff, decide_eq_false_iff_not]
  exact .inr (by omega)

/-- Tokens carry themselves. -/
theorem carries (h : IsLexed n ts) : Carries n ts ts where
  placed x hx := by
    rw [leavesAll_of_isLeaf h.isLeaf] at hx
    exact .inl (h.placed x hx)
  kept := by
    rw [keptLeaves, leavesAll_of_isLeaf h.isLeaf, List.filter_eq_self.2]
    intro t ht
    rw [h.not_isInserted ht]
    rfl

end IsLexed

/-! ## 3. Filling in positions -/

@[simp] theorem isLeaf_withPosition (s : Segment) (p : Option Position) :
    (s.withPosition p).isLeaf = s.isLeaf := rfl

/-- A position of a node does not reach its leaves. -/
theorem leaves_withPosition {s : Segment} (h : s.isLeaf = false) (p : Option Position) :
    (s.withPosition p).leaves = s.leaves := by
  rw [leaves_of_not_isLeaf h, leaves_of_not_isLeaf (by simpa using h)]
  rfl

/-- A segment gets a position, or it is left as it is. -/
theorem fillPositions_cons (before : Option Segment) (s : Segment) (rest : List Segment) :
    ∃ placed, fillPositions before (s :: rest) = placed :: fillPositions (some placed) rest ∧
      (placed = s ∨ s.position = none ∧ ∃ p, placed = s.withPosition (some p) ∧
        ((before.bind endPointAfter).or (nextStartPoint rest)) = some p) := by
  refine ⟨_, by rw [fillPositions], ?_⟩
  cases hs : s.position with
  | some p => exact .inl rfl
  | none =>
    cases hp : (before.bind endPointAfter).or (nextStartPoint rest) with
    | none => exact .inl rfl
    | some p => exact .inr ⟨rfl, p, rfl, rfl⟩

namespace Carries

variable {n : Nat} {ss ts us vs : List Segment}

theorem nil (n : Nat) : Carries n [] [] := ⟨by simp, rfl⟩

theorem append (h : Carries n ss ts) (h' : Carries n us vs) :
    Carries n (ss ++ us) (ts ++ vs) where
  placed x hx := by
    rw [leavesAll_append, List.mem_append] at hx
    exact hx.elim (h.placed x) (h'.placed x)
  kept := by
    rw [keptLeaves, leavesAll_append, List.filter_append, List.map_append, List.map_append,
      ← h.kept, ← h'.kept]
    rfl

/-- Two lists with the same leaves carry the same. -/
theorem of_leaves (h : Carries n ss ts) (hl : leavesAll us = leavesAll ss) : Carries n us ts :=
  ⟨by rw [hl]; exact h.placed, by rw [keptLeaves, hl]; exact h.kept⟩

/-- What is carried has the same text. -/
theorem rawAll_eq (h : Carries n ss ts) : rawAll ss = rawAll ts := by
  rw [← rawAll_keptLeaves n, h.kept, rawAll_map_bare]

theorem keepsTokens {tree : Segment} (h : Carries n [tree] ts) : tree.KeepsTokens n ts where
  leaves := by
    have := h.kept
    rwa [keptLeaves, leavesAll_cons, leavesAll_nil, List.append_nil] at this
  raw := by
    have := h.rawAll_eq
    rwa [rawAll, rawAll, String.append_empty] at this

end Carries

/-- What some segments carry is carried by others in their place. -/
def Preserves (n : Nat) (ss us : List Segment) : Prop :=
  (∀ x ∈ leavesAll ss, IsPlaced n x) →
    keptLeaves n us = keptLeaves n ss ∧ ∀ x ∈ leavesAll us, IsPlaced n x

theorem keptLeaves_append (n : Nat) (xs ys : List Segment) :
    keptLeaves n (xs ++ ys) = keptLeaves n xs ++ keptLeaves n ys := by
  simp [keptLeaves]

theorem keptLeaves_of_isLeaf {n : Nat} {s : Segment} (h : s.isLeaf = true) :
    keptLeaves n [s] = if isInserted n s then [] else [s.bare] := by
  unfold keptLeaves
  rw [leavesAll_cons, leaves_of_isLeaf h, leavesAll_nil]
  cases hs : isInserted n s <;> simp [hs]

namespace Preserves

variable {n : Nat} {s u : Segment} {ss us ts : List Segment}

theorem refl (n : Nat) (ss : List Segment) : Preserves n ss ss := fun h => ⟨rfl, h⟩

theorem cons (h : Preserves n [s] [u]) (h' : Preserves n ss us) :
    Preserves n (s :: ss) (u :: us) := by
  intro placed
  obtain ⟨kept, first⟩ := h fun x hx => placed x (by
    rw [leavesAll_cons, leavesAll_nil, List.append_nil] at hx
    simp [hx])
  obtain ⟨kept', rest⟩ := h' fun x hx => placed x (by simp [hx])
  refine ⟨?_, fun x hx => ?_⟩
  · rw [show u :: us = [u] ++ us from rfl, show s :: ss = [s] ++ ss from rfl, keptLeaves_append,
      keptLeaves_append, kept, kept']
  · rw [leavesAll_cons, List.mem_append] at hx
    exact hx.elim (fun hx => first x (by simp [hx])) (rest x)

/-- One leaf in place of another. -/
theorem of_isLeaf (hs : s.isLeaf = true) (hu : u.isLeaf = true)
    (h : IsPlaced n s → IsPlaced n u ∧ isInserted n u = isInserted n s ∧
      (isInserted n s = false → u.bare = s.bare)) : Preserves n [s] [u] := by
  intro placed
  obtain ⟨hplaced, inserted, same⟩ := h (placed s (by simp [leaves_of_isLeaf hs]))
  refine ⟨?_, fun x hx => ?_⟩
  · rw [keptLeaves_of_isLeaf hs, keptLeaves_of_isLeaf hu, inserted]
    split
    · rfl
    · next hnot => rw [same (by simpa using hnot)]
  · rw [leavesAll_cons, leaves_of_isLeaf hu, leavesAll_nil, List.append_nil,
      List.mem_singleton] at hx
    rw [hx]
    exact hplaced

/-- A token in place of one that only differs in what a grammar may change. -/
theorem of_bare (hs : s.isLeaf = true) (hm : s.isMarker = false) (h : u.bare = s.bare) :
    Preserves n [s] [u] := by
  have hleaf : u.isLeaf = true := by rw [← isLeaf_bare, h, isLeaf_bare, hs]
  have hmarker : u.isMarker = false := by rw [← isMarker_bare, h, isMarker_bare, hm]
  have hposition : u.position = s.position := by rw [← position_bare, h, position_bare]
  have inserted : isInserted n u = isInserted n s := by simp [isInserted, hm, hmarker]
  refine of_isLeaf hs hleaf fun placed => ⟨?_, inserted, fun _ => h⟩
  rwa [IsPlaced, hposition, inserted]

theorem carries (h : Preserves n ss us) (hs : Carries n ss ts) : Carries n us ts :=
  have ⟨kept, placed⟩ := h hs.placed
  ⟨placed, kept.trans hs.kept⟩

/-- A position changes what a segment carries only if it is a leaf that was there before. -/
theorem withPosition (p : Position) (hnone : s.position = none) :
    Preserves n [s] [s.withPosition (some p)] := by
  cases hleaf : s.isLeaf with
  | true =>
    refine of_isLeaf hleaf hleaf fun placed => ⟨.inl rfl, rfl, fun hnot => ?_⟩
    rcases placed with placed | placed
    · rw [hnone] at placed
      cases placed
    · rw [placed] at hnot
      cases hnot
  | false =>
    have same := leaves_withPosition hleaf (some p)
    intro placed
    have same : leavesAll [s.withPosition (some p)] = leavesAll [s] := by simp [same]
    rw [keptLeaves, keptLeaves, same]
    exact ⟨rfl, placed⟩

/-- Filling in positions changes nothing that is carried. -/
theorem fillPositions (before : Option Segment) (ss : List Segment) :
    Preserves n ss (fillPositions before ss) := by
  induction ss generalizing before with
  | nil => exact refl n []
  | cons s ss ih =>
    obtain ⟨s', hfill, hs'⟩ := fillPositions_cons before s ss
    rw [hfill]
    refine cons ?_ (ih (some s'))
    rcases hs' with rfl | ⟨hnone, p, rfl, -⟩
    · exact refl n [_]
    · exact withPosition p hnone

end Preserves

/-! ## 4. Making segments -/

theorem meets_freshId {n : Nat} : Meets (n ≤ ·) freshId (n ≤ ·) := by
  intro m hm
  exact ⟨hm, Nat.le_succ_of_le hm⟩

/-- A node carries what it is made of. -/
theorem meets_branch {n : Nat} {k : SegmentKind} (type : String) {cs ts : List Segment}
    (hk : k.isLeaf = false) (h : Carries n cs ts) :
    Meets (n ≤ ·) (branch k type cs) fun s => Carries n [s] ts := by
  refine meets_freshId.bind fun id _ => .pure ?_
  refine ((Preserves.fillPositions none cs).carries h).of_leaves ?_
  rw [leavesAll_cons, leavesAll_nil, List.append_nil]
  exact leaves_of_not_isLeaf hk

/-- A marker that is made is known by its identity. -/
theorem meets_marker_isInserted {n : Nat} (k : MarkerKind) (p : Option Position) :
    Meets (n ≤ ·) (marker k p) fun s => s.isLeaf = true ∧ isInserted n s = true := by
  refine meets_freshId.bind fun id hid => .pure ⟨rfl, ?_⟩
  show (true && decide (n ≤ id)) = true
  simpa using hid

/-- It carries nothing. -/
theorem meets_marker {n : Nat} (k : MarkerKind) (p : Option Position) :
    Meets (n ≤ ·) (marker k p) fun s => Carries n [s] [] := by
  refine (meets_marker_isInserted k p).mono fun s hs => ⟨fun x hx => ?_, ?_⟩
  · rw [leavesAll_cons, leaves_of_isLeaf hs.1, leavesAll_nil, List.append_nil,
      List.mem_singleton] at hx
    rw [hx]
    exact .inr hs.2
  · rw [keptLeaves_of_isLeaf hs.1, if_pos hs.2]
    rfl

end Segment

end QueryLint

namespace QueryLint.Segment

mutual

/-- A segment and all inside it without their positions. -/
def unplaced : Segment → Segment
  | mk i cs => mk { i with position := none } (unplacedAll cs)

/-- Several segments without positions. -/
def unplacedAll : List Segment → List Segment
  | [] => []
  | s :: rest => s.unplaced :: unplacedAll rest

end

@[simp] theorem unplacedAll_eq_map (ss : List Segment) : unplacedAll ss = ss.map unplaced := by
  induction ss with
  | nil => rw [unplacedAll]; rfl
  | cons s ss ih => rw [unplacedAll, ih]; rfl

/-! ## 5. What positions do not matter for -/

@[simp] theorem info_unplaced (s : Segment) :
    s.unplaced.info = { s.info with position := none } := by
  cases s with
  | mk i cs => rw [unplaced]; rfl

@[simp] theorem children_unplaced (s : Segment) :
    s.unplaced.children = s.children.map unplaced := by
  cases s with
  | mk i cs => rw [unplaced, unplacedAll_eq_map]; rfl

@[simp] theorem kind_unplaced (s : Segment) : s.unplaced.kind = s.kind := by
  simp [kind]

@[simp] theorem id_unplaced (s : Segment) : s.unplaced.id = s.id := by
  simp [id]

@[simp] theorem isLeaf_unplaced (s : Segment) : s.unplaced.isLeaf = s.isLeaf := by
  simp [isLeaf]

@[simp] theorem isMarker_unplaced (s : Segment) : s.unplaced.isMarker = s.isMarker := by
  simp [isMarker, marker?]

mutual

theorem unplaced_unplaced (s : Segment) : s.unplaced.unplaced = s.unplaced := by
  match s with
  | mk i cs => rw [unplaced, unplaced, unplacedAll_unplacedAll cs]

theorem unplacedAll_unplacedAll (ss : List Segment) :
    unplacedAll (unplacedAll ss) = unplacedAll ss := by
  match ss with
  | [] => rw [unplacedAll, unplacedAll]
  | s :: rest =>
    rw [unplacedAll, unplacedAll, unplaced_unplaced s, unplacedAll_unplacedAll rest]

end

mutual

theorem ids_unplaced (s : Segment) : s.unplaced.ids = s.ids := by
  match s with
  | mk i cs => rw [unplaced, ids, ids, idsAll_unplacedAll cs]

theorem idsAll_unplacedAll (ss : List Segment) : idsAll (unplacedAll ss) = idsAll ss := by
  match ss with
  | [] => rw [unplacedAll]
  | s :: rest => rw [unplacedAll, idsAll, idsAll, ids_unplaced s, idsAll_unplacedAll rest]

end

mutual

theorem raw_unplaced (s : Segment) : s.unplaced.raw = s.raw := by
  match s with
  | mk i cs =>
    have ih := rawAll_unplacedAll cs
    rw [unplaced, raw, raw]
    split <;> simp_all

theorem rawAll_unplacedAll (ss : List Segment) : rawAll (unplacedAll ss) = rawAll ss := by
  match ss with
  | [] => rw [unplacedAll]
  | s :: rest => rw [unplacedAll, rawAll, rawAll, raw_unplaced s, rawAll_unplacedAll rest]

end

mutual

theorem sourceFixes_unplaced (s : Segment) : s.unplaced.sourceFixes = s.sourceFixes := by
  match s with
  | mk i cs => rw [unplaced, sourceFixes, sourceFixes, sourceFixesAll_unplacedAll cs]

theorem sourceFixesAll_unplacedAll (ss : List Segment) :
    sourceFixesAll (unplacedAll ss) = sourceFixesAll ss := by
  match ss with
  | [] => rw [unplacedAll]
  | s :: rest =>
    rw [unplacedAll, sourceFixesAll, sourceFixesAll, sourceFixes_unplaced s,
      sourceFixesAll_unplacedAll rest]

end

mutual

theorem leaves_unplaced (s : Segment) : s.unplaced.leaves = s.leaves.map unplaced := by
  match s with
  | mk i cs =>
    have ih := leavesAll_unplacedAll cs
    rw [unplaced, leaves, leaves]
    dsimp only
    split
    · rw [List.map_singleton, unplaced]
    · exact ih

theorem leavesAll_unplacedAll (ss : List Segment) :
    leavesAll (unplacedAll ss) = (leavesAll ss).map unplaced := by
  match ss with
  | [] => rw [unplacedAll, leavesAll]; rfl
  | s :: rest =>
    rw [unplacedAll, leavesAll, leavesAll, leaves_unplaced s, leavesAll_unplacedAll rest,
      List.map_append]

end

/-! ## 6. Placing -/

theorem unplaced_withPosition (s : Segment) (p : Option Position) :
    (s.withPosition p).unplaced = s.unplaced := by
  cases s with
  | mk i cs =>
    show unplaced (mk _ _) = _
    rw [unplaced, unplaced]
    rfl

mutual

/-- Placing a segment anew changes positions only. -/
theorem unplaced_placeAt (p : Position) (s : Segment) : (placeAt p s).unplaced = s.unplaced := by
  match s with
  | mk i [] =>
    rw [placeAt]
    split
    · rfl
    · rw [unplaced, unplaced]
  | mk i (c :: rest) =>
    rw [placeAt]
    split
    · rfl
    · rw [unplaced, unplaced, unplacedAll_positionFrom]

theorem unplacedAll_positionFrom (parent : Option Position) (place : Place)
    (before : Option Segment) (ss : List Segment) :
    unplacedAll (positionFrom parent place before ss) = unplacedAll ss := by
  match ss with
  | [] => rw [positionFrom]
  | s :: rest =>
    rw [positionFrom]
    split
    · rw [unplacedAll, unplacedAll, unplacedAll_positionFrom]
    · rw [unplacedAll, unplacedAll, unplaced_placeAt, unplacedAll_positionFrom]

end

/-- Placing segments anew changes positions only. -/
theorem map_unplaced_positionAll (cs : List Segment) (parent : Option Position) :
    (positionAll cs parent).map unplaced = cs.map unplaced := by
  rw [← unplacedAll_eq_map, ← unplacedAll_eq_map]
  exact unplacedAll_positionFrom ..

end QueryLint.Segment
