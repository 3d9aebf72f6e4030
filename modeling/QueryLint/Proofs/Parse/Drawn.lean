import QueryLint.Parse
import QueryLint.Proofs.Fix.Apart
import QueryLint.Proofs.Match.Apply
import QueryLint.Proofs.Segment.Balance
import QueryLint.Proofs.Segment.Renamed

/-!
QueryLint.Proofs.Parse.Drawn — the identities in a parsed tree.

Parsing takes tokens as they are, copies some of them with an identity of their own and draws one
for every node and every marker. So the identities of a parsed tree have all been drawn when parsing
ends, if those of its tokens had been drawn when it began.

They are drawn one after the other. What is made first has identities from before what is made next,
so none is found twice, in whatever order the segments are put together. It is counted how often an
identity is found, since sorting and taking copies can be told of that at once.

* `Match.draws_apply`, `Parser.draws_parse` — all identities have been drawn: those of the segments
  of a match, and of the tree of a list of tokens.
* `Minted` — identities that were drawn between two times, each found once.
* `Match.mints_apply`, `Parser.mints_parse` — no two segments have the same one.
-/

namespace QueryLint

open Segment

variable {n m : Nat}

namespace Match

/-! ## 1. Laying out -/

/-- The identities in an inlay were drawn before the counter stood at `n`. -/
def Inlay.DrawnBefore (n : Nat) (x : Inlay) : Prop := ∀ s ∈ x.segments, s.DrawnBefore n

theorem Inlay.DrawnBefore.mono {x : Inlay} (h : x.DrawnBefore n) (hnm : n ≤ m) :
    x.DrawnBefore m :=
  fun s hs => (h s hs).mono hnm

variable {tokens : Array Segment}

theorem drawnBefore_tokensIn (h : ∀ t ∈ tokens, t.DrawnBefore n) (start stop : Nat) :
    ∀ t ∈ tokensIn tokens start stop, t.DrawnBefore n := by
  intro t ht
  obtain ⟨k, -, -, hk⟩ := mem_tokensIn.1 ht
  exact h t (Array.mem_of_getElem? hk)

theorem drawnBefore_layOut (h : ∀ t ∈ tokens, t.DrawnBefore n) {xs : List Inlay}
    (hxs : ∀ x ∈ xs, x.DrawnBefore n) (stop i : Nat) :
    ∀ t ∈ layOut tokens stop i xs, t.DrawnBefore n := by
  induction xs generalizing i with
  | nil => exact drawnBefore_tokensIn h i stop
  | cons x xs ih =>
    obtain ⟨hx, hrest⟩ := List.forall_mem_cons.1 hxs
    rw [layOut, List.forall_mem_append, List.forall_mem_append]
    exact ⟨⟨drawnBefore_tokensIn h i x.start, hx⟩, ih hrest _⟩

/-! ## 2. Segments of a match -/

theorem draws_retypeToken {s : Segment} (hs : s.DrawnBefore n) (type : String)
    (normalized : Option String) :
    Draws n Segment.DrawnBefore (retypeToken type normalized s) := by
  unfold retypeToken
  refine .ite (fun _ => .pure fun m hm => hs.mono hm) fun _ => ?_
  refine (draws_retyped hs type []).map fun m t _ ht => ?_
  cases normalized with
  | none => exact ht
  | some text =>
    show (t.withNormalized text).DrawnBefore m
    unfold withNormalized
    split
    · exact .mk ht.own ht.inside
    · exact ht

theorem draws_build {content : List Segment} (h : ∀ s ∈ content, s.DrawnBefore n)
    (k : Option MatchClass) :
    Draws n (fun m ss => ∀ s ∈ ss, s.DrawnBefore m) (build content k) := by
  have same : Draws n (fun m ss => ∀ s ∈ ss, s.DrawnBefore m) (Pure.pure content) :=
    .pure fun m hm s hs => (h s hs).mono hm
  have single (k : SegmentKind) (type : String) :
      Draws n (fun m ss => ∀ s ∈ ss, s.DrawnBefore m) (do return [← branch k type content]) :=
    (draws_branch h k type).map fun m t _ ht => List.forall_mem_singleton.2 ht
  cases k with
  | none => exact same
  | some k =>
    cases k with
    | token type normalized =>
      exact .mapM content (fun s hs m hm => draws_retypeToken ((h s hs).mono hm) type normalized)
        fun hm hs => hs.mono hm
    | node type grammar => exact .ite (fun _ => same) fun _ => single (.node (some grammar)) type
    | bracketed => exact single .bracketed "bracketed"
    | unparsable expected => exact single (.unparsable (some expected)) "unparsable"

theorem draws_newMarkers (is : List (Nat × MarkerKind)) :
    Draws n (fun m ss => ∀ s ∈ ss, s.DrawnBefore m) (newMarkers is) := by
  induction is generalizing n with
  | nil => exact .pure (by simp)
  | cons i is ih =>
    exact (draws_marker i.2 none).bind fun m s _ hs => ih.map fun k ss hk hss =>
      List.forall_mem_cons.2 ⟨hs.mono hk, hss⟩

theorem draws_markerInlays (is : List (Nat × MarkerKind)) :
    Draws n (fun m xs => ∀ x ∈ xs, x.DrawnBefore m) (markerInlays is) := by
  induction is generalizing n with
  | nil => exact .pure (by simp)
  | cons i is ih =>
    exact (draws_marker i.2 none).bind fun m s _ hs => ih.map fun k xs hk hxs =>
      List.forall_mem_cons.2 ⟨List.forall_mem_singleton.2 (hs.mono hk), hxs⟩

mutual

/-- The segments of a match have identities of its tokens and others that are drawn for them. -/
theorem draws_apply {n : Nat} (h : ∀ t ∈ tokens, t.DrawnBefore n) (x : Match) :
    Draws n (fun m ss => ∀ s ∈ ss, s.DrawnBefore m) (x.apply tokens) := by
  match x with
  | mk start stop k inserts children =>
    rw [apply]
    refine .ite (fun _ => draws_newMarkers inserts) fun _ => ?_
    refine (draws_markerInlays inserts).bind fun m markers hm hmarkers => ?_
    have tokens_later : ∀ t ∈ tokens, t.DrawnBefore m := fun t ht => (h t ht).mono hm
    refine (draws_applyAll tokens_later children).bind fun i inner hi hinner => ?_
    have tokens_last : ∀ t ∈ tokens, t.DrawnBefore i := fun t ht => (tokens_later t ht).mono hi
    refine draws_build (drawnBefore_layOut tokens_last ?_ stop start) k
    intro x hx
    rcases List.mem_append.1 ((perm_sortInlays _).mem_iff.1 hx) with hx | hx
    · exact (hmarkers x hx).mono hi
    · exact hinner x hx

theorem draws_applyAll {n : Nat} (h : ∀ t ∈ tokens, t.DrawnBefore n) (xs : List Match) :
    Draws n (fun m ys => ∀ y ∈ ys, y.DrawnBefore m) (applyAll tokens xs) := by
  match xs with
  | [] =>
    rw [applyAll]
    exact .pure (by simp)
  | x :: rest =>
    rw [applyAll]
    refine (draws_apply h x).bind fun m ss hm hss => ?_
    refine (draws_applyAll (fun t ht => (h t ht).mono hm) rest).map fun k ys hk hys => ?_
    exact List.forall_mem_cons.2 ⟨fun s hs => (hss s hs).mono hk, hys⟩

end

end Match

/-! ## 3. Parsing -/

namespace Parser

variable {tokens : List Segment}

theorem draws_unmatched (h : ∀ t ∈ tokens, t.DrawnBefore n) :
    Draws n (fun m ss => ∀ s ∈ ss, s.DrawnBefore m) (unmatched tokens) := by
  have blank : ∀ t ∈ tokens.takeWhile (!·.isCode), t.DrawnBefore n :=
    fun t ht => h t ((List.takeWhile_sublist _).subset ht)
  have rest : ∀ t ∈ tokens.dropWhile (!·.isCode), t.DrawnBefore n :=
    fun t ht => h t ((List.dropWhile_sublist _).subset ht)
  unfold unmatched
  dsimp only
  cases hrest : tokens.dropWhile (!·.isCode) with
  | nil => exact .pure fun m hm t ht => (blank t ht).mono hm
  | cons s more =>
    rw [hrest] at rest
    refine (draws_branch rest _ _).map fun m t hm ht => ?_
    rw [List.forall_mem_append, List.forall_mem_singleton]
    exact ⟨fun u hu => (blank u hu).mono hm, ht⟩

theorem draws_code (p : Parser) (h : ∀ t ∈ tokens, t.DrawnBefore n) (start stop : Nat)
    (x : Match) :
    Draws n (fun m ss => ∀ s ∈ ss, s.DrawnBefore m) (p.code tokens start stop x) := by
  have between (a : Nat) : ∀ t ∈ (tokens.take stop).drop a, t.DrawnBefore n :=
    fun t ht => h t (List.mem_of_mem_take (List.mem_of_mem_drop ht))
  unfold code
  dsimp only
  refine .ite (fun _ => ?_) fun _ =>
    (draws_branch (between start) _ _).map fun m t _ ht => List.forall_mem_singleton.2 ht
  refine (Match.draws_apply (by simpa using h) x).bind fun m ss hm hss => ?_
  refine (draws_unmatched fun t ht => (between _ t ht).mono hm).map fun k rest hk hrest => ?_
  exact List.forall_mem_append.2 ⟨fun s hs => (hss s hs).mono hk, hrest⟩

/-- All identities in a parsed tree have been drawn. -/
theorem draws_parse (p : Parser) (h : ∀ t ∈ tokens, t.DrawnBefore n) :
    Draws n (fun m r => r.tree.DrawnBefore m) (p.parse tokens) := by
  unfold parse
  dsimp only
  refine .ite (fun _ => (draws_branch h .file "file").map fun m t _ ht => ht) fun _ => ?_
  refine (draws_code p h _ _ _).bind fun m code hm hcode => ?_
  refine (draws_branch ?_ .file "file").map fun k t _ ht => ht
  rw [List.forall_mem_append, List.forall_mem_append]
  exact ⟨⟨fun t ht => (h t (List.mem_of_mem_take ht)).mono hm, hcode⟩,
    fun t ht => (h t (List.mem_of_mem_drop ht)).mono hm⟩

end Parser

/-! ## 4. Counting identities -/

/-- Of the identities from `n` on there are only those that were drawn while the counter went from
`l` to `m`, each once. -/
def Minted (n l m : Nat) (is : List Nat) : Prop :=
  ∀ i, n ≤ i → is.count i ≤ if l ≤ i ∧ i < m then 1 else 0

variable {l k : Nat} {is js : List Nat}

namespace Minted

theorem nil (n l m : Nat) : Minted n l m [] := fun i _ => by simp

theorem perm (h : Minted n l m is) (hp : js.Perm is) : Minted n l m js :=
  fun i hi => hp.count_eq i ▸ h i hi

theorem sublist (h : Minted n l m is) (hs : js.Sublist is) : Minted n l m js :=
  fun i hi => Nat.le_trans (hs.count_le i) (h i hi)

theorem later (h : Minted n l m is) (hmk : m ≤ k) : Minted n l k is := by
  intro i hi
  have := h i hi
  split at this <;> split <;> omega

/-- What was drawn first and what was drawn next. -/
theorem append (h : Minted n l m is) (h' : Minted n m k js) (hlm : l ≤ m) (hmk : m ≤ k) :
    Minted n l k (is ++ js) := by
  intro i hi
  have first := h i hi
  have next := h' i hi
  rw [List.count_append]
  split at first <;> split at next <;> split <;> omega

end Minted

namespace Segment

variable {s : Segment} {ss us cs : List Segment}

theorem idsAll_eq_flatMap (ss : List Segment) : idsAll ss = ss.flatMap ids := by
  induction ss with
  | nil => rfl
  | cons s ss ih => rw [idsAll, ih, List.flatMap_cons]

theorem idsAll_append (ss us : List Segment) : idsAll (ss ++ us) = idsAll ss ++ idsAll us := by
  simp [idsAll_eq_flatMap]

theorem idsAll_singleton (s : Segment) : idsAll [s] = s.ids := by simp [idsAll_eq_flatMap]

theorem map_id_sublist (ss : List Segment) : (ss.map (·.id)).Sublist (idsAll ss) := by
  induction ss with
  | nil => exact .slnil
  | cons s ss ih =>
    rw [List.map_cons, idsAll, ids_eq, List.cons_append]
    exact (ih.trans (List.sublist_append_right _ _)).cons_cons s.id

/-- Filling in positions changes no identity. -/
theorem idsAll_fillPositions (before : Option Segment) (ss : List Segment) :
    idsAll (fillPositions before ss) = idsAll ss := by
  rw [← idsAll_unplacedAll, unplacedAll_eq_map, map_unplaced_fillPositions, ← unplacedAll_eq_map,
    idsAll_unplacedAll]

theorem lt_of_drawnBefore (h : ∀ s ∈ ss, s.DrawnBefore n) : ∀ i ∈ idsAll ss, i < n := by
  intro i hi
  rw [← map_id_membersAll] at hi
  obtain ⟨t, ht, rfl⟩ := List.mem_map.1 hi
  obtain ⟨s, hs, ht⟩ := mem_membersAll.1 ht
  have every : Every (·.id < n) t := (show Every (·.id < n) s from h s hs).of_mem_members t ht
  exact every.own

/-- A node has an identity of its own. -/
theorem mints_branch (hl : l ≤ m) (h : Minted n l m (idsAll cs)) (k : SegmentKind)
    (type : String) : Draws m (fun k s => Minted n l k s.ids) (branch k type cs) := by
  intro m' hm
  refine ⟨Nat.le_succ m', fun i hi => ?_⟩
  show ((m' :: idsAll (fillPositions none cs)).count i) ≤ if l ≤ i ∧ i < m' + 1 then 1 else 0
  have inside := h i hi
  rw [idsAll_fillPositions, List.count_cons]
  split at inside <;> split <;> split <;> simp_all <;> omega

/-- A token or a marker has an identity of its own. -/
theorem mints_leaf (n : Nat) (k : SegmentKind) (type : String) (types : List String)
    (p : Option Position) :
    Draws l (fun m s => Minted n l m s.ids)
      (do return mk ⟨k, type, types, ← freshId, p, []⟩ []) := by
  intro m hm
  refine ⟨Nat.le_succ m, fun i hi => ?_⟩
  show ([m].count i) ≤ if l ≤ i ∧ i < m + 1 then 1 else 0
  rw [List.count_singleton]
  by_cases heq : i = m
  · simp [heq, hm]
  · simp [Ne.symm heq]

theorem mints_marker (n : Nat) (kind : MarkerKind) (p : Option Position) :
    Draws l (fun m s => Minted n l m s.ids) (marker kind p) :=
  mints_leaf n _ _ _ p

end Segment

namespace Match

/-! ## 5. Distinct identities in a match -/

variable {tokens : Array Segment} {ss : List Segment}

/-- Of the identities in some places there are those that were there, and others that were drawn
while the counter went from `m` to `k`, each once. -/
def Recounted (m k : Nat) (is js : List Nat) : Prop :=
  ∀ i, js.count i ≤ is.count i + if m ≤ i ∧ i < k then 1 else 0

/-- A token of another type has an identity of its own. -/
theorem draws_retypeToken_recounted (s : Segment) (type : String) (normalized : Option String) :
    Draws m (fun k u => Recounted m k s.ids u.ids) (retypeToken type normalized s) := by
  unfold retypeToken
  refine .ite (fun _ => .pure fun k _ i => Nat.le_add_right _ _) fun _ => ?_
  have fresh : Draws m (fun k u => Recounted m k s.ids u.ids) (s.retyped type []) := by
    intro m' hm
    refine ⟨Nat.le_succ m', fun i => ?_⟩
    show ((m' :: idsAll s.children).count i) ≤ s.ids.count i + if m ≤ i ∧ i < m' + 1 then 1 else 0
    rw [ids_eq, List.count_cons, List.count_cons]
    by_cases heq : m' = i
    · subst heq
      simp [hm]
    · have other : (m' == i) = false := by simpa using heq
      rw [other, if_neg Bool.false_ne_true, Nat.add_zero]
      exact Nat.le_trans (Nat.le_add_right _ _) (Nat.le_add_right _ _)
  refine fresh.map fun k u _ hu => ?_
  have ids : ((normalized.map u.withNormalized).getD u).ids = u.ids := by
    cases normalized with
    | none => rfl
    | some text =>
      show (u.withNormalized text).ids = u.ids
      unfold withNormalized
      split
      · rw [ids_eq, ids_eq u]
        rfl
      · rfl
  rwa [ids]

theorem draws_retypeTokens_recounted (ss : List Segment) (type : String)
    (normalized : Option String) {m : Nat} :
    Draws m (fun k us => Recounted m k (idsAll ss) (idsAll us))
      (ss.mapM (retypeToken type normalized)) := by
  induction ss generalizing m with
  | nil => exact .pure fun k _ i => Nat.le_add_right _ _
  | cons s ss ih =>
    rw [List.mapM_cons]
    refine (draws_retypeToken_recounted s type normalized).bind fun k u hk hu =>
      ih.map fun k' us hk' hus i => ?_
    have first := hu i
    have rest := hus i
    rw [idsAll, idsAll, List.count_append, List.count_append]
    split at first <;> split at rest <;> split <;> omega

/-- Tokens of another type have identities of their own. -/
theorem mints_retypeTokens (hl : l ≤ m) (h : Minted n l m (idsAll ss)) (type : String)
    (normalized : Option String) :
    Draws m (fun k us => Minted n l k (idsAll us)) (ss.mapM (retypeToken type normalized)) := by
  intro m' hm
  obtain ⟨hle, recounted⟩ := draws_retypeTokens_recounted ss type normalized m' (Nat.le_refl m')
  refine ⟨hle, fun i hi => ?_⟩
  have before := h i hi
  have after := recounted i
  split at before <;> split at after <;> split <;> omega

theorem mints_build (hl : l ≤ m) (h : Minted n l m (idsAll ss)) (c : Option MatchClass) :
    Draws m (fun k us => Minted n l k (idsAll us)) (build ss c) := by
  have same : Draws m (fun k us => Minted n l k (idsAll us)) (Pure.pure ss) :=
    .pure fun k hk => h.later hk
  have single (kind : SegmentKind) (type : String) :
      Draws m (fun k us => Minted n l k (idsAll us)) (do return [← branch kind type ss]) :=
    (mints_branch hl h kind type).map fun k s _ hs => by rwa [idsAll_singleton]
  cases c with
  | none => exact same
  | some c =>
    cases c with
    | token type normalized => exact mints_retypeTokens hl h type normalized
    | node type grammar => exact .ite (fun _ => same) fun _ => single (.node (some grammar)) type
    | bracketed => exact single .bracketed "bracketed"
    | unparsable expected => exact single (.unparsable (some expected)) "unparsable"

theorem mints_newMarkers (n : Nat) (is : List (Nat × MarkerKind)) :
    Draws l (fun m ss => Minted n l m (idsAll ss)) (newMarkers is) := by
  induction is generalizing l with
  | nil => exact .pure fun m hm => .nil n l m
  | cons i is ih =>
    refine (mints_marker n i.2 none).bind fun m s hm hs => ih.map fun k ss hk hss => ?_
    rw [idsAll]
    exact hs.append hss hm hk

/-- Identities in inlays. -/
def inlayIds (xs : List Inlay) : List Nat := xs.flatMap fun x => idsAll x.segments

theorem mints_markerInlays (n : Nat) (is : List (Nat × MarkerKind)) :
    Draws l (fun m xs => Minted n l m (inlayIds xs)) (markerInlays is) := by
  induction is generalizing l with
  | nil => exact .pure fun m hm => .nil n l m
  | cons i is ih =>
    refine (mints_marker n i.2 none).bind fun m s hm hs => ih.map fun k xs hk hxs => ?_
    rw [inlayIds, List.flatMap_cons, idsAll_singleton]
    exact hs.append hxs hm hk

/-- Of the identities from `n` on, laying out adds none to those in the inlays. -/
theorem count_layOut (h : ∀ t ∈ tokens, t.DrawnBefore n) {i : Nat} (hi : n ≤ i) (xs : List Inlay)
    (stop start : Nat) :
    (idsAll (layOut tokens stop start xs)).count i = (inlayIds xs).count i := by
  have tokens_count (a b : Nat) : (idsAll (tokensIn tokens a b)).count i = 0 := by
    refine List.count_eq_zero.2 fun hmem => ?_
    have := lt_of_drawnBefore (drawnBefore_tokensIn h a b) i hmem
    omega
  induction xs generalizing start with
  | nil => exact tokens_count start stop
  | cons x xs ih =>
    rw [layOut, idsAll_append, idsAll_append, List.count_append, List.count_append, tokens_count,
      ih, inlayIds, inlayIds, List.flatMap_cons, List.count_append, Nat.zero_add]

mutual

/-- No identity that is drawn for the segments of a match is found twice in them. -/
theorem mints_apply (h : ∀ t ∈ tokens, t.DrawnBefore n) (x : Match) {l : Nat} :
    Draws l (fun m ss => Minted n l m (idsAll ss)) (x.apply tokens) := by
  match x with
  | mk start stop c inserts children =>
    rw [apply]
    refine .ite (fun _ => mints_newMarkers n inserts) fun _ => ?_
    refine (mints_markerInlays n inserts).bind fun m markers hm hmarkers => ?_
    refine (mints_applyAll h children).bind fun k inner hk hinner => ?_
    refine mints_build (Nat.le_trans hm hk) (fun i hi => ?_) c
    rw [count_layOut h hi]
    have all := hmarkers.append hinner hm hk
    rw [inlayIds, inlayIds, ← List.flatMap_append] at all
    exact all.perm ((perm_sortInlays _).flatMap_right _) i hi

theorem mints_applyAll (h : ∀ t ∈ tokens, t.DrawnBefore n) (xs : List Match) {l : Nat} :
    Draws l (fun m ys => Minted n l m (inlayIds ys)) (applyAll tokens xs) := by
  match xs with
  | [] =>
    rw [applyAll]
    exact .pure fun m hm => .nil n l m
  | x :: rest =>
    rw [applyAll]
    refine (mints_apply h x).bind fun m ss hm hss => ?_
    refine (mints_applyAll h rest).map fun k ys hk hys => ?_
    rw [inlayIds, List.flatMap_cons]
    exact hss.append hys hm hk

end

end Match

/-! ## 6. Distinct identities in a tree -/

namespace Parser

variable {tokens : List Segment}

theorem minted_of_drawnBefore (h : ∀ t ∈ tokens, t.DrawnBefore n) :
    Minted n l m (idsAll tokens) := by
  intro i hi
  rw [List.count_eq_zero.2 fun hmem => by have := lt_of_drawnBefore h i hmem; omega]
  exact Nat.zero_le _

theorem mints_unmatched (h : ∀ t ∈ tokens, t.DrawnBefore n) :
    Draws l (fun m ss => Minted n l m (idsAll ss)) (unmatched tokens) := by
  have part {ts : List Segment} (hts : ts.Sublist tokens) (m : Nat) : Minted n l m (idsAll ts) :=
    minted_of_drawnBefore fun t ht => h t (hts.subset ht)
  unfold unmatched
  dsimp only
  cases hrest : tokens.dropWhile (!·.isCode) with
  | nil => exact .pure fun m hm => part (List.takeWhile_sublist _) m
  | cons t more =>
    have rest := part (List.dropWhile_sublist (!·.isCode)) l
    rw [hrest] at rest
    refine (mints_branch (Nat.le_refl l) rest _ _).map fun m s hm hs => ?_
    rw [idsAll_append, idsAll_singleton]
    exact (part (List.takeWhile_sublist _) l).append hs (Nat.le_refl l) hm

theorem mints_code (p : Parser) (h : ∀ t ∈ tokens, t.DrawnBefore n) (start stop : Nat)
    (x : Match) :
    Draws l (fun m ss => Minted n l m (idsAll ss)) (p.code tokens start stop x) := by
  have between (a : Nat) : ∀ t ∈ (tokens.take stop).drop a, t.DrawnBefore n :=
    fun t ht => h t (List.mem_of_mem_take (List.mem_of_mem_drop ht))
  unfold code
  dsimp only
  refine .ite (fun _ => ?_) fun _ =>
    (mints_branch (Nat.le_refl l) (minted_of_drawnBefore (between start)) _ _).map
      fun m s _ hs => by rwa [idsAll_singleton]
  refine (Match.mints_apply (by simpa using h) x).bind fun m ss hm hss => ?_
  refine (mints_unmatched (between _)).map fun k rest hk hrest => ?_
  rw [idsAll_append]
  exact hss.append hrest hm hk

/-- No identity that is drawn for a parsed tree is found twice in it. -/
theorem mints_parse (p : Parser) (h : ∀ t ∈ tokens, t.DrawnBefore n) :
    Draws l (fun m r => Minted n l m r.tree.ids) (p.parse tokens) := by
  have part {ts : List Segment} (hts : ts.Sublist tokens) (l m : Nat) :
      Minted n l m (idsAll ts) := minted_of_drawnBefore fun t ht => h t (hts.subset ht)
  unfold parse
  dsimp only
  refine .ite (fun _ => ?_) fun _ => ?_
  · exact (mints_branch (Nat.le_refl l) (part (.refl _) l l) .file "file").map fun m s _ hs => hs
  refine (mints_code p h _ _ _).bind fun m code hm hcode => ?_
  refine (mints_branch hm ?_ .file "file").map fun k s _ hs => hs
  rw [idsAll_append, idsAll_append]
  exact ((part (List.take_sublist _ _) l l).append hcode (Nat.le_refl l) hm).append
    (part (List.drop_sublist _ _) m m) hm (Nat.le_refl m)

end Parser

end QueryLint
