import QueryLint.Proofs.Segment.Leaves
import QueryLint.Proofs.Segment.Region

/-!
QueryLint.Proofs.Segment.Renamed — segments with other identities.

Identities tell segments apart, and that is all they say. Segments with other identities have the
same text, the same tokens and the same positions, and what is made of them is made of the others
as well. Making segments draws identities from a counter; if the counter stands further on, others
are drawn, and nothing else is different.

The counter stands above all identities that have been drawn. Making segments draws further ones and
leaves the counter above these, so a segment never has an identity that is still to be drawn. That
is why it makes no difference for the segments that are there how far the counter is taken on.

* `Renaming` — other identities, which are drawn one after the other like the old ones.
* `Segment.renamed` — a segment with other identities.
* `Renaming.Carries` — computations that do the same with other identities.
* `Segment.DrawnBefore` — the identities in a segment have been drawn.
* `Segment.renamed_later` — identities that have been drawn stay when later ones change.
* `Draws` — what a computation promises of the identities that it draws.
* `Redraws` — it does the same at any time, but for the identities that are drawn then.
-/

namespace QueryLint

/-! ## 1. Renamings -/

/-- Other identities for old ones. From a start on they follow one another like the old ones. -/
structure Renaming where
  /-- The identity in place of another. -/
  image : Nat → Nat
  start : Nat
  injective : ∀ {i j}, image i = image j → i = j
  next : ∀ {n}, start ≤ n → image (n + 1) = image n + 1

namespace Renaming

/-- Identities from a start on are taken further on, the others stay. -/
def later (start distance : Nat) : Renaming where
  image i := if i < start then i else i + distance
  start := start
  injective := by
    intro i j h
    split at h <;> split at h <;> omega
  next := by
    intro n hn
    rw [if_neg (by omega), if_neg (by omega)]
    omega

theorem later_of_lt {start distance i : Nat} (h : i < start) : (later start distance).image i = i :=
  if_pos h

theorem later_of_le {start distance i : Nat} (h : start ≤ i) :
    (later start distance).image i = i + distance :=
  if_neg (Nat.not_lt.2 h)

theorem image_inj (ρ : Renaming) {i j : Nat} : ρ.image i = ρ.image j ↔ i = j :=
  ⟨ρ.injective, fun h => h ▸ rfl⟩

end Renaming

namespace Segment

variable {ρ : Renaming}

/-! ## 2. Renamed segments -/

mutual

/-- A segment and all inside it with other identities. -/
def renamed (ρ : Renaming) : Segment → Segment
  | mk i cs => mk { i with id := ρ.image i.id } (renamedAll ρ cs)

/-- Several segments with other identities. -/
def renamedAll (ρ : Renaming) : List Segment → List Segment
  | [] => []
  | s :: rest => s.renamed ρ :: renamedAll ρ rest

end

@[simp] theorem renamedAll_eq_map (ss : List Segment) : renamedAll ρ ss = ss.map (renamed ρ) := by
  induction ss with
  | nil => rw [renamedAll]; rfl
  | cons s ss ih => rw [renamedAll, ih]; rfl

theorem renamed_mk (i : SegmentInfo) (cs : List Segment) :
    (mk i cs).renamed ρ = mk { i with id := ρ.image i.id } (cs.map (renamed ρ)) := by
  rw [renamed, renamedAll_eq_map]

@[simp] theorem info_renamed (s : Segment) :
    (s.renamed ρ).info = { s.info with id := ρ.image s.id } := by
  cases s with
  | mk i cs => rw [renamed]; rfl

@[simp] theorem children_renamed (s : Segment) :
    (s.renamed ρ).children = s.children.map (renamed ρ) := by
  cases s with
  | mk i cs => rw [renamed_mk]; rfl

@[simp] theorem id_renamed (s : Segment) : (s.renamed ρ).id = ρ.image s.id := by
  rw [id, info_renamed]

@[simp] theorem kind_renamed (s : Segment) : (s.renamed ρ).kind = s.kind := by simp [kind]

@[simp] theorem type_renamed (s : Segment) : (s.renamed ρ).type = s.type := by simp [type]

@[simp] theorem classTypes_renamed (s : Segment) : (s.renamed ρ).classTypes = s.classTypes := by
  simp [classTypes]

@[simp] theorem position_renamed (s : Segment) : (s.renamed ρ).position = s.position := by
  simp [position]

@[simp] theorem ownSourceFixes_renamed (s : Segment) :
    (s.renamed ρ).ownSourceFixes = s.ownSourceFixes := by
  simp [ownSourceFixes]

@[simp] theorem isType_renamed (s : Segment) : (s.renamed ρ).isType = s.isType := by
  funext t
  rw [isType, isType, classTypes_renamed]

@[simp] theorem isLeaf_renamed (s : Segment) : (s.renamed ρ).isLeaf = s.isLeaf := by
  simp [isLeaf]

@[simp] theorem marker?_renamed (s : Segment) : (s.renamed ρ).marker? = s.marker? := by
  simp [marker?]

@[simp] theorem isMarker_renamed (s : Segment) : (s.renamed ρ).isMarker = s.isMarker := by
  simp [isMarker]

@[simp] theorem isTemplateMarker_renamed (s : Segment) :
    (s.renamed ρ).isTemplateMarker = s.isTemplateMarker := by
  simp [isTemplateMarker]

@[simp] theorem isUnparsable_renamed (s : Segment) :
    (s.renamed ρ).isUnparsable = s.isUnparsable := by
  simp [isUnparsable]

@[simp] theorem expected?_renamed (s : Segment) : (s.renamed ρ).expected? = s.expected? := by
  simp [expected?]

@[simp] theorem grammar?_renamed (s : Segment) : (s.renamed ρ).grammar? = s.grammar? := by
  simp [grammar?]

@[simp] theorem isFile_renamed (s : Segment) : (s.renamed ρ).isFile = s.isFile := by
  simp [isFile]

@[simp] theorem mayHaveLooseEnds_renamed (s : Segment) :
    (s.renamed ρ).mayHaveLooseEnds = s.mayHaveLooseEnds := by
  simp [mayHaveLooseEnds]

/-! ## 3. Text and leaves -/

mutual

@[simp] theorem raw_renamed (s : Segment) : (s.renamed ρ).raw = s.raw := by
  match s with
  | mk i cs =>
    have ih := rawAll_renamedAll cs
    rw [renamed, raw, raw]
    split <;> simp_all

theorem rawAll_renamedAll (ss : List Segment) : rawAll (renamedAll ρ ss) = rawAll ss := by
  match ss with
  | [] => rw [renamedAll]
  | s :: rest => rw [renamedAll, rawAll, rawAll, raw_renamed s, rawAll_renamedAll rest]

end

mutual

@[simp] theorem isCode_renamed (s : Segment) : (s.renamed ρ).isCode = s.isCode := by
  match s with
  | mk i cs =>
    have ih := anyCode_renamedAll cs
    rw [renamed, isCode, isCode]
    split <;> simp_all

theorem anyCode_renamedAll (ss : List Segment) : anyCode (renamedAll ρ ss) = anyCode ss := by
  match ss with
  | [] => rw [renamedAll]
  | s :: rest => rw [renamedAll, anyCode, anyCode, isCode_renamed s, anyCode_renamedAll rest]

end

mutual

@[simp] theorem sourceFixes_renamed (s : Segment) : (s.renamed ρ).sourceFixes = s.sourceFixes := by
  match s with
  | mk i cs => rw [renamed, sourceFixes, sourceFixes, sourceFixesAll_renamedAll cs]

theorem sourceFixesAll_renamedAll (ss : List Segment) :
    sourceFixesAll (renamedAll ρ ss) = sourceFixesAll ss := by
  match ss with
  | [] => rw [renamedAll]
  | s :: rest =>
    rw [renamedAll, sourceFixesAll, sourceFixesAll, sourceFixes_renamed s,
      sourceFixesAll_renamedAll rest]

end

@[simp] theorem rawAll_map_renamed (ss : List Segment) :
    rawAll (ss.map (renamed ρ)) = rawAll ss := by
  rw [← renamedAll_eq_map, rawAll_renamedAll]

@[simp] theorem sourceFixesAll_map_renamed (ss : List Segment) :
    sourceFixesAll (ss.map (renamed ρ)) = sourceFixesAll ss := by
  rw [← renamedAll_eq_map, sourceFixesAll_renamedAll]

mutual

@[simp] theorem leaves_renamed (s : Segment) :
    (s.renamed ρ).leaves = s.leaves.map (renamed ρ) := by
  match s with
  | mk i cs =>
    have ih := leavesAll_renamedAll cs
    rw [renamed, leaves, leaves]
    dsimp only
    split
    · rw [List.map_singleton, renamed]
    · exact ih

theorem leavesAll_renamedAll (ss : List Segment) :
    leavesAll (renamedAll ρ ss) = (leavesAll ss).map (renamed ρ) := by
  match ss with
  | [] => rw [renamedAll, leavesAll]; rfl
  | s :: rest =>
    rw [renamedAll, leavesAll, leavesAll, leaves_renamed s, leavesAll_renamedAll rest,
      List.map_append]

end

mutual

@[simp] theorem crawl_renamed (types : List String) (deep : Bool) (s : Segment) :
    (s.renamed ρ).crawl types deep = (s.crawl types deep).map (renamed ρ) := by
  match s with
  | mk i cs =>
    have ih := crawlAll_renamedAll types deep cs
    rw [renamed, crawl, crawl]
    split
    · cases deep with
      | false => simp [renamed]
      | true => simpa [renamed] using ih
    · exact ih

theorem crawlAll_renamedAll (types : List String) (deep : Bool) (ss : List Segment) :
    crawlAll types deep (renamedAll ρ ss) = (crawlAll types deep ss).map (renamed ρ) := by
  match ss with
  | [] => rw [renamedAll, crawlAll]; rfl
  | s :: rest =>
    rw [renamedAll, crawlAll, crawlAll, crawl_renamed types deep s,
      crawlAll_renamedAll types deep rest, List.map_append]

end

@[simp] theorem display_renamed (s : Segment) : (s.renamed ρ).display = s.display := by
  simp [display]

@[simp] theorem rawUpper_renamed (s : Segment) : (s.renamed ρ).rawUpper = s.rawUpper := by
  simp [rawUpper]

/-! ## 4. Copies and positions -/

@[simp] theorem renamed_withPosition (s : Segment) (p : Option Position) :
    (s.withPosition p).renamed ρ = (s.renamed ρ).withPosition p := by
  cases s with
  | mk i cs => simp [withPosition, renamed_mk, info, children]

@[simp] theorem renamed_withChildren (s : Segment) (cs : List Segment) (p : Option Position) :
    (s.withChildren cs p).renamed ρ = (s.renamed ρ).withChildren (cs.map (renamed ρ)) p := by
  cases s with
  | mk i _ => simp [withChildren, renamed_mk, info]

@[simp] theorem renamed_withNormalized (s : Segment) (text : String) :
    (s.withNormalized text).renamed ρ = (s.renamed ρ).withNormalized text := by
  unfold withNormalized
  rw [kind_renamed]
  split
  · rw [renamed_mk, info_renamed, children_renamed]
    rfl
  · rfl

@[simp] theorem endPointAfter_renamed (s : Segment) :
    (s.renamed ρ).endPointAfter = s.endPointAfter := by
  simp [endPointAfter]

@[simp] theorem nextStartPoint_map_renamed (ss : List Segment) :
    nextStartPoint (ss.map (renamed ρ)) = nextStartPoint ss := by
  induction ss with
  | nil => rfl
  | cons s ss ih =>
    have same : (fun x : Segment => (x.renamed ρ).position) = fun x => x.position := by
      funext x
      rw [position_renamed]
    rw [List.map_cons, nextStartPoint, nextStartPoint, ih, leaves_renamed, List.findSome?_map,
      position_renamed]
    simp only [Function.comp_def, same]

theorem fillPositions_map_renamed (before : Option Segment) (ss : List Segment) :
    fillPositions (before.map (renamed ρ)) (ss.map (renamed ρ)) =
      (fillPositions before ss).map (renamed ρ) := by
  induction ss generalizing before with
  | nil => rfl
  | cons s ss ih =>
    have point : (before.map (renamed ρ)).bind endPointAfter = before.bind endPointAfter := by
      cases before <;> simp
    rw [List.map_cons, fillPositions, fillPositions, position_renamed, point,
      nextStartPoint_map_renamed]
    split
    · rw [List.map_cons, ← ih]
      rfl
    · split
      · rw [← renamed_withPosition, List.map_cons, ← ih]
        rfl
      · rw [List.map_cons, ← ih]
        rfl

@[simp] theorem startPlace_map_renamed (ss : List Segment) (parent : Option Position) :
    startPlace (ss.map (renamed ρ)) parent = startPlace ss parent := by
  simp [startPlace, List.findSome?_map, Function.comp_def]

@[simp] theorem gapPosition_renamed (before : Option Segment) (parent : Option Position)
    (rest : List Segment) :
    gapPosition (before.map (renamed ρ)) parent (rest.map (renamed ρ)) =
      gapPosition before parent rest := by
  cases before <;> simp [gapPosition]

mutual

theorem placeAt_renamed (p : Position) (s : Segment) :
    placeAt p (s.renamed ρ) = (placeAt p s).renamed ρ := by
  match s with
  | mk i [] =>
    rw [renamed_mk, List.map_nil, placeAt, placeAt]
    split
    · rw [renamed_mk, List.map_nil]
    · rw [renamed_mk, List.map_nil]
  | mk i (c :: rest) =>
    have start : startPlace (c.renamed ρ :: rest.map (renamed ρ)) (some p) =
        startPlace (c :: rest) (some p) := startPlace_map_renamed (c :: rest) (some p)
    rw [renamed_mk, List.map_cons, placeAt, placeAt]
    split
    · rw [renamed_mk, List.map_cons]
    · rw [renamed_mk, start, ← positionFrom_renamed]
      rfl

theorem positionFrom_renamed (parent : Option Position) (place : Place) (before : Option Segment)
    (ss : List Segment) :
    positionFrom parent place (before.map (renamed ρ)) (ss.map (renamed ρ)) =
      (positionFrom parent place before ss).map (renamed ρ) := by
  match ss with
  | [] => rw [List.map_nil, positionFrom, positionFrom, List.map_nil]
  | s :: rest =>
    rw [List.map_cons, positionFrom, positionFrom, position_renamed, gapPosition_renamed,
      raw_renamed]
    split
    · rw [List.map_cons, ← positionFrom_renamed]
      rfl
    · rw [List.map_cons, ← positionFrom_renamed, placeAt_renamed]
      rfl

end

/-- Placing segments anew does not ask for identities. -/
theorem positionAll_map_renamed (cs : List Segment) (parent : Option Position) :
    positionAll (cs.map (renamed ρ)) parent = (positionAll cs parent).map (renamed ρ) := by
  rw [positionAll, positionAll, startPlace_map_renamed]
  exact positionFrom_renamed parent _ none cs

end Segment

/-! ## 5. Drawing identities -/

section Carries

variable {α β γ δ : Type}

/-- From a renamed counter one computation does what another does, and ends with a renamed counter.
Its result is what `f` makes of the other's. -/
def Renaming.Carries (ρ : Renaming) (f : α → β) (x : Fresh α) (y : Fresh β) : Prop :=
  ∀ n, ρ.start ≤ n →
    ρ.start ≤ (x.run n).2 ∧ y.run (ρ.image n) = (f (x.run n).1, ρ.image (x.run n).2)

namespace Renaming.Carries

variable {ρ : Renaming} {f : α → β} {g : γ → δ}

theorem pure {a : α} {b : β} (h : b = f a) : ρ.Carries f (Pure.pure a) (Pure.pure b) :=
  fun _ hn => ⟨hn, h ▸ rfl⟩

theorem bind {x : Fresh α} {y : Fresh β} {k : α → Fresh γ} {l : β → Fresh δ}
    (hx : ρ.Carries f x y) (hk : ∀ a, ρ.Carries g (k a) (l (f a))) :
    ρ.Carries g (x >>= k) (y >>= l) := by
  intro n hn
  obtain ⟨hle, hrun⟩ := hx n hn
  have after := hk (x.run n).1 (x.run n).2 hle
  have joined (i : Nat) : (y >>= l).run i = (l (y.run i).1).run (y.run i).2 := rfl
  rw [joined, hrun]
  exact after

/-- Computations that make something of what others found. -/
theorem map {x : Fresh α} {y : Fresh β} {k : α → γ} {l : β → δ} (hx : ρ.Carries f x y)
    (hk : ∀ a, l (f a) = g (k a)) :
    ρ.Carries g (x >>= fun a => Pure.pure (k a)) (y >>= fun b => Pure.pure (l b)) :=
  hx.bind fun a => .pure (hk a)

theorem ite {p q : Prop} [Decidable p] [Decidable q] {x x' : Fresh α} {y y' : Fresh β}
    (hpq : q ↔ p) (hx : p → ρ.Carries f x y) (hx' : ¬p → ρ.Carries f x' y') :
    ρ.Carries f (if p then x else x') (if q then y else y') := by
  by_cases hp : p
  · rw [if_pos hp, if_pos (hpq.2 hp)]
    exact hx hp
  · rw [if_neg hp, if_neg (mt hpq.1 hp)]
    exact hx' hp

/-- Computations over a list and over what `g` makes of it. -/
theorem mapM {k : γ → Fresh α} {l : δ → Fresh β} (xs : List γ)
    (h : ∀ x ∈ xs, ρ.Carries f (k x) (l (g x))) :
    ρ.Carries (List.map f) (xs.mapM k) ((xs.map g).mapM l) := by
  induction xs with
  | nil => exact .pure rfl
  | cons x xs ih =>
    rw [List.map_cons, List.mapM_cons, List.mapM_cons]
    refine (h x (by simp)).bind fun a => (ih fun y hy => h y (by simp [hy])).bind fun as => ?_
    exact .pure rfl

theorem freshId : ρ.Carries ρ.image Segment.freshId Segment.freshId := by
  intro n hn
  refine ⟨Nat.le_succ_of_le hn, ?_⟩
  show (ρ.image n, ρ.image n + 1) = (ρ.image n, ρ.image (n + 1))
  rw [ρ.next hn]

end Renaming.Carries

namespace Segment

variable {ρ : Renaming}

theorem carries_token (text type : String) (flags : TokenFlags) (p : Option Position) :
    ρ.Carries (renamed ρ) (token text type flags p) (token text type flags p) :=
  .map .freshId fun n => by rw [renamed_mk]; rfl

theorem carries_marker (k : MarkerKind) (p : Option Position) :
    ρ.Carries (renamed ρ) (marker k p) (marker k p) :=
  .map .freshId fun n => by rw [renamed_mk]; rfl

theorem carries_retyped (s : Segment) (type : String) (extra : List String) :
    ρ.Carries (renamed ρ) (s.retyped type extra) ((s.renamed ρ).retyped type extra) :=
  .map .freshId fun n => by
    rw [renamed_mk, children_renamed, info_renamed, classTypes_renamed]

theorem carries_edit (s : Segment) (text : Option String) (fixes : Option (List SourceFix)) :
    ρ.Carries (renamed ρ) (s.edit text fixes) ((s.renamed ρ).edit text fixes) := by
  unfold edit
  rw [kind_renamed, ownSourceFixes_renamed]
  refine .map .freshId fun n => ?_
  rw [renamed_mk, children_renamed, info_renamed]

theorem carries_branch (k : SegmentKind) (type : String) (cs : List Segment) :
    ρ.Carries (renamed ρ) (branch k type cs) (branch k type (cs.map (renamed ρ))) := by
  have filled : fillPositions none (cs.map (renamed ρ)) =
      (fillPositions none cs).map (renamed ρ) := fillPositions_map_renamed none cs
  unfold branch
  rw [filled]
  refine .map .freshId fun n => ?_
  rw [renamed_mk, List.filterMap_map]
  simp only [Function.comp_def, position_renamed]

end Segment

end Carries

end QueryLint

namespace QueryLint

/-! ## 6. Drawn identities -/

namespace Segment

/-- The identities in a segment were drawn before the counter stood at `n`. -/
def DrawnBefore (n : Nat) (s : Segment) : Prop := Every (·.id < n) s

variable {n m : Nat} {s : Segment}

theorem DrawnBefore.mono (h : s.DrawnBefore n) (hnm : n ≤ m) : s.DrawnBefore m := by
  induction h with
  | mk own _ ih => exact .mk (Nat.lt_of_lt_of_le own hnm) ih

theorem DrawnBefore.inside (h : s.DrawnBefore n) : ∀ c ∈ s.children, c.DrawnBefore n :=
  Every.inside h

theorem isPlaceless_id (n : Nat) : IsPlaceless fun i => i.id < n := fun _ _ => Iff.rfl

mutual

/-- Identities that have been drawn stay when later ones are taken further on. -/
theorem renamed_later (d : Nat) (s : Segment) (h : s.DrawnBefore n) :
    s.renamed (.later n d) = s := by
  match s with
  | mk i cs =>
    rw [renamed, renamedAll_later d cs h.inside, Renaming.later_of_lt (show i.id < n from h.own)]

theorem renamedAll_later (d : Nat) (ss : List Segment) (h : ∀ s ∈ ss, s.DrawnBefore n) :
    renamedAll (.later n d) ss = ss := by
  match ss with
  | [] => rw [renamedAll]
  | s :: rest =>
    obtain ⟨hs, hrest⟩ := List.forall_mem_cons.1 h
    rw [renamedAll, renamed_later d s hs, renamedAll_later d rest hrest]

end

mutual

theorem drawnBefore_of_ids (s : Segment) (h : ∀ i ∈ s.ids, i < n) : s.DrawnBefore n := by
  match s with
  | mk i cs =>
    rw [ids, List.forall_mem_cons] at h
    exact .mk h.1 (forall_drawnBefore_of_ids cs h.2)

theorem forall_drawnBefore_of_ids (ss : List Segment) (h : ∀ i ∈ idsAll ss, i < n) :
    ∀ s ∈ ss, s.DrawnBefore n := by
  match ss with
  | [] => exact fun s hs => by cases hs
  | s :: rest =>
    rw [idsAll, List.forall_mem_append] at h
    exact List.forall_mem_cons.2 ⟨drawnBefore_of_ids s h.1, forall_drawnBefore_of_ids rest h.2⟩

end

end Segment

/-! ## 7. Drawing -/

section Draws

variable {α β : Type} {n : Nat} {Q : Nat → α → Prop} {R : Nat → β → Prop}

/-- From a counter at `n` or further on, the counter does not go back, and the result is as promised
for where it ends. -/
def Draws (n : Nat) (Q : Nat → α → Prop) (x : Fresh α) : Prop :=
  ∀ m, n ≤ m → m ≤ (x.run m).2 ∧ Q (x.run m).2 (x.run m).1

namespace Draws

theorem pure {a : α} (h : ∀ m, n ≤ m → Q m a) : Draws n Q (Pure.pure a) :=
  fun m hm => ⟨Nat.le_refl m, h m hm⟩

theorem bind {x : Fresh α} {k : α → Fresh β} (hx : Draws n Q x)
    (hk : ∀ m a, n ≤ m → Q m a → Draws m R (k a)) : Draws n R (x >>= k) := by
  intro m hm
  obtain ⟨hle, ha⟩ := hx m hm
  obtain ⟨hle', hb⟩ := hk (x.run m).2 (x.run m).1 (Nat.le_trans hm hle) ha _ (Nat.le_refl _)
  exact ⟨Nat.le_trans hle hle', hb⟩

/-- A computation that makes something of what another found. -/
theorem map {x : Fresh α} {k : α → β} (hx : Draws n Q x)
    (hk : ∀ m a, n ≤ m → Q m a → R m (k a)) : Draws n R (x >>= fun a => Pure.pure (k a)) := by
  intro m hm
  obtain ⟨hle, ha⟩ := hx m hm
  exact ⟨hle, hk _ _ (Nat.le_trans hm hle) ha⟩

theorem ite {p : Prop} [Decidable p] {x y : Fresh α} (hx : p → Draws n Q x)
    (hy : ¬p → Draws n Q y) : Draws n Q (if p then x else y) := by
  split
  · next h => exact hx h
  · next h => exact hy h

theorem freshId : Draws n (fun m i => i < m) Segment.freshId :=
  fun m _ => ⟨Nat.le_succ m, Nat.lt_succ_self m⟩

/-- Steps over a list promise of every result what each promises of its own. -/
theorem mapM {k : α → Fresh β} (xs : List α) (h : ∀ a ∈ xs, ∀ m, n ≤ m → Draws m R (k a))
    (hR : ∀ {m m' b}, m ≤ m' → R m b → R m' b) :
    Draws n (fun m bs => ∀ b ∈ bs, R m b) (xs.mapM k) := by
  induction xs generalizing n with
  | nil => exact .pure (by simp)
  | cons a xs ih =>
    obtain ⟨ha, hxs⟩ := List.forall_mem_cons.1 h
    rw [List.mapM_cons]
    refine (ha n (Nat.le_refl n)).bind fun m b hm hb => ?_
    refine (ih fun a h k hk => hxs a h k (Nat.le_trans hm hk)).bind fun k bs hk hbs => ?_
    refine .pure fun k' hk' => List.forall_mem_cons.2 ⟨hR (Nat.le_trans hk hk') hb, ?_⟩
    exact fun c hc => hR hk' (hbs c hc)

/-- A computation that does the same with other identities does not take the counter back. -/
theorem of_carries {x : Fresh α} {f : Nat → α → β} {y : Nat → Fresh β}
    (h : ∀ m, (Renaming.later m 0).Carries (f m) x (y m)) : Draws n (fun _ _ => True) x :=
  fun m _ => ⟨(h m m (Nat.le_refl m)).1, trivial⟩

end Draws

/-- Taking the counter further on makes no difference but for the identities that are drawn: from
`n` on, the result is the same but for those, as `f` gives it, and it is as promised. -/
structure Redraws (n : Nat) (f : Renaming → α → α) (Q : Nat → α → Prop) (x : Fresh α) : Prop where
  carries : ∀ distance, (Renaming.later n distance).Carries (f (.later n distance)) x x
  draws : Draws n Q x

namespace Redraws

variable {f : Renaming → α → α} {g : Renaming → β → β}

theorem pure {a : α} (hf : ∀ distance, a = f (.later n distance) a) (hQ : ∀ m, n ≤ m → Q m a) :
    Redraws n f Q (Pure.pure a) :=
  ⟨fun distance => .pure (hf distance), .pure hQ⟩

/-- A computation that makes something of what another found. -/
theorem map {x : Fresh α} {k : α → β} (hx : Redraws n f Q x)
    (hk : ∀ distance a, k (f (.later n distance) a) = g (.later n distance) (k a))
    (hR : ∀ m a, n ≤ m → Q m a → R m (k a)) : Redraws n g R (x >>= fun a => Pure.pure (k a)) :=
  ⟨fun distance => (hx.carries distance).map (hk distance), hx.draws.map hR⟩

theorem ite {p : Prop} [Decidable p] {x y : Fresh α} (hx : p → Redraws n f Q x)
    (hy : ¬p → Redraws n f Q y) : Redraws n f Q (if p then x else y) := by
  split
  · next h => exact hx h
  · next h => exact hy h

end Redraws

end Draws

namespace Segment

variable {n : Nat}

theorem draws_token (text type : String) (flags : TokenFlags) (p : Option Position) :
    Draws n DrawnBefore (token text type flags p) :=
  Draws.freshId.map fun _ _ _ hi => .mk hi (by simp)

theorem draws_marker (k : MarkerKind) (p : Option Position) :
    Draws n DrawnBefore (marker k p) :=
  Draws.freshId.map fun _ _ _ hi => .mk hi (by simp)

theorem draws_retyped {s : Segment} (h : s.DrawnBefore n) (type : String) (extra : List String) :
    Draws n DrawnBefore (s.retyped type extra) :=
  Draws.freshId.map fun _ _ hm hi => .mk hi fun c hc => (DrawnBefore.inside h c hc).mono hm

theorem draws_edit {s : Segment} (h : s.DrawnBefore n) (text : Option String)
    (fixes : Option (List SourceFix)) : Draws n DrawnBefore (s.edit text fixes) :=
  Draws.freshId.map fun _ _ hm hi => .mk hi fun c hc => (DrawnBefore.inside h c hc).mono hm

theorem drawnBefore_fillPositions {ss : List Segment} (h : ∀ s ∈ ss, s.DrawnBefore n)
    (before : Option Segment) : ∀ s ∈ fillPositions before ss, s.DrawnBefore n := by
  induction ss generalizing before with
  | nil => exact h
  | cons s ss ih =>
    obtain ⟨hs, hrest⟩ := List.forall_mem_cons.1 h
    obtain ⟨placed, hfill, hplaced⟩ := fillPositions_cons before s ss
    rw [hfill]
    refine List.forall_mem_cons.2 ⟨?_, ih hrest (some placed)⟩
    rcases hplaced with rfl | ⟨-, p, rfl, -⟩
    · exact hs
    · exact .mk hs.own hs.inside

theorem draws_branch {cs : List Segment} (h : ∀ c ∈ cs, c.DrawnBefore n) (k : SegmentKind)
    (type : String) : Draws n DrawnBefore (branch k type cs) :=
  Draws.freshId.map fun _ _ hm hi =>
    .mk hi fun c hc => (drawnBefore_fillPositions h none c hc).mono hm

theorem redraws_token (text type : String) (flags : TokenFlags) (p : Option Position) :
    Redraws n renamed DrawnBefore (token text type flags p) :=
  ⟨fun _ => carries_token text type flags p, draws_token text type flags p⟩

theorem redraws_edit {s : Segment} (h : s.DrawnBefore n) (text : Option String)
    (fixes : Option (List SourceFix)) : Redraws n renamed DrawnBefore (s.edit text fixes) := by
  refine ⟨fun distance => ?_, draws_edit h text fixes⟩
  have edited := carries_edit (ρ := .later n distance) s text fixes
  rwa [renamed_later distance s h] at edited

end Segment

end QueryLint
