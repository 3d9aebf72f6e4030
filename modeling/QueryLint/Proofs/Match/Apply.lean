import QueryLint.Match.Apply
import QueryLint.Proofs.Match.Tidy
import QueryLint.Proofs.Segment.Leaves
import QueryLint.Proofs.Segment.Region

/-!
QueryLint.Proofs.Match.Apply — the segments of a match carry its tokens.

What a match puts between its tokens is sorted by where it starts. If no two inner matches claim
the same token, the tokens between them and the tokens inside them are all the tokens of the match,
each once and in order.

Inner matches may also claim the same token, and then it stands in the tree more than once. What
is asked of segments in place of tokens holds of the segments of a match all the same, if it may be
asked of fewer tokens. So these lie in a region if its tokens do, and they cover these tokens.

* `Match.Additive` — what can be asked of segments for a range of tokens.
* `Match.layOut_of_fitted` — it holds of tokens with inlays among them.
* `Match.meets_apply` — the segments of a tidy match carry its tokens.
* `Match.Standing` — what can be asked of segments in place of tokens.
* `Match.meets_apply_standing` — it holds of the segments of a match.
* `Match.meets_apply_occupies` — the segments of a match cover its tokens.
-/

namespace QueryLint.Match

open Segment

variable {n : Nat} {tokens : Array Segment}

/-! ## 1. Tokens in a range -/

theorem tokensIn_of_le {a b : Nat} (h : b ≤ a) : tokensIn tokens a b = [] := by
  simp [tokensIn, Nat.sub_eq_zero_of_le h]

theorem tokensIn_append {a b d : Nat} (hab : a ≤ b) (hbd : b ≤ d) :
    tokensIn tokens a b ++ tokensIn tokens b d = tokensIn tokens a d := by
  unfold tokensIn
  rw [← Array.toList_append, Array.extract_append_extract, Nat.min_eq_left hab,
    Nat.max_eq_right hbd]

theorem length_tokensIn {a b : Nat} (hb : b ≤ tokens.size) :
    (tokensIn tokens a b).length = b - a := by
  rw [tokensIn, Array.length_toList, Array.size_extract, Nat.min_eq_left hb]

theorem tokensIn_sublist (a b : Nat) : (tokensIn tokens a b).Sublist tokens.toList := by
  unfold tokensIn
  rw [Array.toList_extract]
  exact (List.take_sublist _ _).trans (List.drop_sublist _ _)

/-! ## 2. Sorting inlays -/

theorem perm_insertInlay (x : Inlay) (ys : List Inlay) : (insertInlay x ys).Perm (x :: ys) := by
  induction ys with
  | nil => exact .refl _
  | cons y ys ih =>
    unfold insertInlay
    split
    · exact .refl _
    · exact (ih.cons y).trans (.swap x y ys)

theorem perm_sortInlays (xs : List Inlay) : (sortInlays xs).Perm xs := by
  induction xs with
  | nil => exact .refl _
  | cons x xs ih => exact (perm_insertInlay x _).trans (ih.cons x)

/-- Inlays in the order of their starts. -/
def Sorted (xs : List Inlay) : Prop := xs.Pairwise (·.start ≤ ·.start)

theorem sorted_insertInlay (x : Inlay) {ys : List Inlay} (h : Sorted ys) :
    Sorted (insertInlay x ys) := by
  induction ys with
  | nil => exact List.pairwise_singleton _ _
  | cons y ys ih =>
    obtain ⟨hy, hys⟩ := List.pairwise_cons.1 h
    unfold insertInlay
    split
    · next hxy =>
      refine List.pairwise_cons.2 ⟨fun z hz => ?_, h⟩
      rcases List.mem_cons.1 hz with rfl | hz
      · exact hxy
      · exact Nat.le_trans hxy (hy z hz)
    · next hxy =>
      refine List.pairwise_cons.2 ⟨fun z hz => ?_, ih hys⟩
      rcases List.mem_cons.1 ((perm_insertInlay x ys).mem_iff.1 hz) with rfl | hz
      · omega
      · exact hy z hz

theorem sorted_sortInlays (xs : List Inlay) : Sorted (sortInlays xs) := by
  induction xs with
  | nil => exact .nil
  | cons x xs ih => exact sorted_insertInlay x ih

/-! ## 3. Laying out -/

namespace Inlay

/-- Two inlays of which one takes no token, or which end before the other starts. -/
def Separate (x y : Inlay) : Prop :=
  x.start = x.stop ∨ y.start = y.stop ∨ x.stop ≤ y.start ∨ y.stop ≤ x.start

theorem Separate.symm {x y : Inlay} (h : x.Separate y) : y.Separate x := by
  unfold Separate at *
  omega

end Inlay

/-- What is asked of segments for a range of tokens, if it adds up along the tokens and markers do
not matter for it. -/
structure Additive (n : Nat) (C : Nat → Nat → List Segment → Prop) : Prop where
  nil : ∀ a, C a a []
  append : ∀ {a b d : Nat} {ss us : List Segment}, a ≤ b → b ≤ d → C a b ss → C b d us →
    C a d (ss ++ us)
  /-- Segments without a token can stand anywhere. -/
  point : ∀ {a : Nat} {ss : List Segment}, C a a ss → ∀ b, C b b ss
  marker : ∀ (k : MarkerKind) (a : Nat),
    Meets (n ≤ ·) (Segment.marker k none) fun s => C a a [s]

/-- Inlays between two places, each as is asked for the tokens that it takes. -/
structure Fitted (C : Nat → Nat → List Segment → Prop) (a b : Nat) (xs : List Inlay) : Prop where
  bounds : ∀ x ∈ xs, a ≤ x.start ∧ x.start ≤ x.stop ∧ x.stop ≤ b
  takes : ∀ x ∈ xs, C x.start x.stop x.segments
  separate : xs.Pairwise Inlay.Separate

variable {C : Nat → Nat → List Segment → Prop}

theorem Fitted.perm {a b : Nat} {xs ys : List Inlay} (h : Fitted C a b xs)
    (hp : ys.Perm xs) : Fitted C a b ys where
  bounds x hx := h.bounds x (hp.mem_iff.1 hx)
  takes x hx := h.takes x (hp.mem_iff.1 hx)
  separate := (hp.pairwise_iff fun h => h.symm).2 h.separate

/-- The tokens from `i` up to `stop` with inlays among them are as is asked if the tokens between
the inlays are. No inlay that takes a token starts before `i`. -/
theorem layOut_of_fitted (hC : Additive n C) {a i stop : Nat} {xs : List Inlay}
    (hi : i ≤ stop) (h : Fitted C a stop xs) (hsorted : Sorted xs)
    (ahead : ∀ x ∈ xs, i ≤ x.start ∨ x.start = x.stop ∧ x.stop ≤ i)
    (gaps : ∀ b d, i ≤ b → b ≤ d → d ≤ stop → (∀ x ∈ xs, x.stop ≤ b ∨ d ≤ x.start) →
      C b d (tokensIn tokens b d)) :
    C i stop (layOut tokens stop i xs) := by
  induction xs generalizing i with
  | nil => exact gaps i stop (Nat.le_refl i) hi (Nat.le_refl stop) (by simp)
  | cons x xs ih =>
    obtain ⟨-, hle, hstop⟩ := h.bounds x (by simp)
    obtain ⟨hfirst, hsorted⟩ := List.pairwise_cons.1 hsorted
    obtain ⟨hseparate, separate⟩ := List.pairwise_cons.1 h.separate
    have rest : Fitted C a stop xs :=
      ⟨fun y hy => h.bounds y (by simp [hy]), fun y hy => h.takes y (by simp [hy]), separate⟩
    have next : ∀ y ∈ xs, max (max i x.start) x.stop ≤ y.start ∨
        y.start = y.stop ∧ y.stop ≤ max (max i x.start) x.stop := by
      intro y hy
      have hxy := hfirst y hy
      have hsep := hseparate y hy
      have hy' := h.bounds y (by simp [hy])
      rcases ahead x (by simp) with hx | hx <;> rcases ahead y (by simp [hy]) with hyi | hyi <;>
        rcases hsep with hsep | hsep | hsep | hsep <;> omega
    have last := ih (by omega) rest hsorted next fun b d hb hbd hd hys =>
      gaps b d (by omega) hbd hd fun y hy => by
        rcases List.mem_cons.1 hy with rfl | hy
        · exact .inl (by omega)
        · exact hys y hy
    rw [layOut]
    rcases ahead x (by simp) with hx | ⟨hempty, hx⟩
    · have front := gaps i x.start (Nat.le_refl i) hx (by omega) fun y hy => .inr <| by
        rcases List.mem_cons.1 hy with rfl | hy
        · exact Nat.le_refl _
        · exact hfirst y hy
      rw [show max (max i x.start) x.stop = x.stop by omega] at last ⊢
      exact hC.append (by omega) hstop (hC.append hx hle front (h.takes x (by simp))) last
    · have here := h.takes x (by simp)
      rw [hempty] at here
      rw [show max (max i x.start) x.stop = i by omega] at last ⊢
      rw [tokensIn_of_le (by omega), List.nil_append]
      exact hC.append (Nat.le_refl i) hi (hC.point here i) last

/-! ## 4. Segments of a match -/

theorem meets_newMarkers (hC : Additive n C) (a : Nat) (is : List (Nat × MarkerKind)) :
    Meets (n ≤ ·) (newMarkers is) fun ss => C a a ss := by
  induction is with
  | nil => exact .pure (hC.nil a)
  | cons x is ih =>
    exact (hC.marker x.2 a).bind fun s hs => ih.bind fun ss hss =>
      .pure (hC.append (Nat.le_refl a) (Nat.le_refl a) hs hss)

/-- The inlay of a marker takes no token. -/
theorem meets_markerInlays (hC : Additive n C) {a b : Nat} {is : List (Nat × MarkerKind)}
    (his : MarkersInside a b is) :
    Meets (n ≤ ·) (markerInlays is) fun xs =>
      ∀ x ∈ xs, a ≤ x.start ∧ x.start ≤ b ∧ x.stop = x.start ∧ C x.start x.stop x.segments := by
  induction is with
  | nil => exact .pure (by simp)
  | cons i is ih =>
    refine (hC.marker i.2 i.1).bind fun s hs =>
      (ih fun x hx => his x (by simp [hx])).bind fun xs hxs => .pure fun x hx => ?_
    rcases List.mem_cons.1 hx with rfl | hx
    · exact ⟨(his i (by simp)).1, (his i (by simp)).2, rfl, hs⟩
    · exact hxs x hx

/-- The inlays of inner matches lie where these lie. -/
theorem meets_applyAll {Q : Match → List Segment → Prop} {cs : List Match}
    (h : ∀ m ∈ cs, Meets (n ≤ ·) (m.apply tokens) (Q m)) :
    Meets (n ≤ ·) (applyAll tokens cs) fun xs =>
      xs.map (fun x => (x.start, x.stop)) = cs.map (fun m => (m.start, m.stop)) ∧
      ∀ x ∈ xs, ∃ m ∈ cs, x.start = m.start ∧ x.stop = m.stop ∧ Q m x.segments := by
  induction cs with
  | nil =>
    rw [applyAll]
    exact .pure ⟨rfl, by simp⟩
  | cons m cs ih =>
    rw [applyAll]
    refine (h m (by simp)).bind fun ss hss =>
      (ih fun m hm => h m (by simp [hm])).bind fun xs hxs => .pure ⟨?_, fun x hx => ?_⟩
    · rw [List.map_cons, List.map_cons, hxs.1]
    · rcases List.mem_cons.1 hx with rfl | hx
      · exact ⟨m, by simp, rfl, rfl, hss⟩
      · obtain ⟨m', hm', hrest⟩ := hxs.2 x hx
        exact ⟨m', by simp [hm'], hrest⟩

/-- The markers of a match and its inner matches can be laid out. -/
theorem Fitted.of_parts {a b : Nat} {cs : List Match} {markers inner : List Inlay}
    (hcs : Inside True a b cs)
    (hmarkers : ∀ x ∈ markers, a ≤ x.start ∧ x.start ≤ b ∧ x.stop = x.start ∧
      C x.start x.stop x.segments)
    (hspans : inner.map (fun x => (x.start, x.stop)) = cs.map (fun m => (m.start, m.stop)))
    (hinner : ∀ x ∈ inner, ∃ m ∈ cs, x.start = m.start ∧ x.stop = m.stop ∧
      C m.start m.stop x.segments) :
    Fitted C a b (markers ++ inner) where
  bounds x hx := by
    rcases List.mem_append.1 hx with hx | hx
    · obtain ⟨h₁, h₂, h₃, -⟩ := hmarkers x hx
      omega
    · obtain ⟨m, hm, h₁, h₂, -⟩ := hinner x hx
      have := hcs.bounds m hm
      have := (hcs.tidy m hm).start_le_stop
      omega
  takes x hx := by
    rcases List.mem_append.1 hx with hx | hx
    · exact (hmarkers x hx).2.2.2
    · obtain ⟨m, -, h₁, h₂, h⟩ := hinner x hx
      rw [h₁, h₂]
      exact h
  separate := by
    refine List.pairwise_append.2 ⟨?_, ?_, fun x hx y _ => .inl (hmarkers x hx).2.2.1.symm⟩
    · exact List.pairwise_of_forall_mem_list fun x hx y _ => .inl (hmarkers x hx).2.2.1.symm
    · have spans : (cs.map fun m => (m.start, m.stop)).Pairwise
          fun p q => p.2 ≤ q.1 ∨ q.2 ≤ p.1 := List.pairwise_map.2 (hcs.pairwise trivial)
      rw [← hspans, List.pairwise_map] at spans
      exact spans.imp fun h => .inr (.inr h)

/-- The segments of a match of tokens are made of what is asked of its range, if that is asked of
what its inner matches make and of the tokens between them. -/
theorem meets_apply_of_parts (hC : Additive n C) {D : List Segment → Prop} {a b : Nat}
    {c : Option MatchClass} {is : List (Nat × MarkerKind)} {cs : List Match} (hab : a < b)
    (his : MarkersInside a b is) (hcs : Inside True a b cs)
    (inner : ∀ m ∈ cs, Meets (n ≤ ·) (m.apply tokens) fun ss => C m.start m.stop ss)
    (gaps : ∀ i j, a ≤ i → i ≤ j → j ≤ b → (∀ m ∈ cs, m.stop ≤ i ∨ j ≤ m.start) →
      C i j (tokensIn tokens i j))
    (hbuild : ∀ ss, C a b ss → Meets (n ≤ ·) (build ss c) D) :
    Meets (n ≤ ·) ((mk a b c is cs).apply tokens) D := by
  rw [apply, if_neg (by omega)]
  refine (meets_markerInlays hC his).bind fun markers hmarkers =>
    (meets_applyAll inner).bind fun xs hxs => ?_
  have fitted := (Fitted.of_parts hcs hmarkers hxs.1 hxs.2).perm (perm_sortInlays (markers ++ xs))
  refine hbuild _ (layOut_of_fitted hC (Nat.le_of_lt hab) fitted (sorted_sortInlays _)
    (fun x hx => .inl (fitted.bounds x hx).1) fun i j hai hij hjb hgap =>
      gaps i j hai hij hjb fun m hm => ?_)
  -- the place of every inner match is that of one of the inlays
  have hspan : (m.start, m.stop) ∈ xs.map fun x => (x.start, x.stop) := by
    rw [hxs.1]
    exact List.mem_map_of_mem hm
  obtain ⟨x, hx, hxm⟩ := List.mem_map.1 hspan
  rw [Prod.mk.injEq] at hxm
  rw [← hxm.1, ← hxm.2]
  exact hgap x ((perm_sortInlays (markers ++ xs)).mem_iff.2 (by simp [hx]))

/-! ## 5. The tokens of a match -/

/-- Segments carry the tokens of a range. -/
theorem additive_carries : Additive n fun a b ss => Carries n ss (tokensIn tokens a b) where
  nil a := by
    rw [tokensIn_of_le (Nat.le_refl a)]
    exact .nil n
  append hab hbd h h' := by
    rw [← tokensIn_append hab hbd]
    exact h.append h'
  point h b := by
    rw [tokensIn_of_le (Nat.le_refl _)] at h ⊢
    exact h
  marker k a := by
    rw [tokensIn_of_le (Nat.le_refl a)]
    exact meets_marker k none

/-- A token of another type is the same token. -/
theorem meets_retypeToken (type : String) (normalized : Option String) (s : Segment) :
    Meets (n ≤ ·) (retypeToken type normalized s) fun u =>
      u = s ∨ s.isLeaf = true ∧ s.isMarker = false ∧ u.bare = s.bare := by
  unfold retypeToken
  split
  · exact .pure (.inl rfl)
  · next hs =>
    rw [Bool.or_eq_true, Bool.not_eq_true', not_or, Bool.not_eq_false, Bool.not_eq_true] at hs
    refine (meets_freshId.bind fun id _ => .pure rfl :
      Meets (n ≤ ·) (s.retyped type []) fun u => u.bare = s.bare).bind fun u hu =>
        .pure (.inr ⟨hs.1, hs.2, ?_⟩)
    cases normalized with
    | none => exact hu
    | some text => exact (bare_withNormalized u text).trans hu

theorem meets_retypeTokens (type : String) (normalized : Option String) (ss : List Segment) :
    Meets (n ≤ ·) (ss.mapM (retypeToken type normalized)) fun us => Preserves n ss us := by
  induction ss with
  | nil => exact .pure (.refl n [])
  | cons s ss ih =>
    rw [List.mapM_cons]
    refine (meets_retypeToken type normalized s).bind fun u hu =>
      ih.bind fun us hus => .pure (.cons ?_ hus)
    rcases hu with rfl | ⟨hleaf, hmarker, hbare⟩
    · exact .refl n [u]
    · exact .of_bare hleaf hmarker hbare

/-- What a match puts its segments into is as is asked of them, if tokens of another type are and a
node is. -/
theorem meets_build_of {D : List Segment → Prop} {ss : List Segment} (h : D ss)
    (retype : ∀ type normalized, Meets (n ≤ ·) (ss.mapM (retypeToken type normalized)) D)
    (node : ∀ k type, k.isLeaf = false → Meets (n ≤ ·) (branch k type ss) fun s => D [s])
    (c : Option MatchClass) : Meets (n ≤ ·) (build ss c) D := by
  unfold build
  split
  · exact .pure h
  · exact retype _ _
  · split
    · exact .pure h
    · exact (node _ _ rfl).bind fun s hs => .pure hs
  · exact (node _ _ rfl).bind fun s hs => .pure hs
  · exact (node _ _ rfl).bind fun s hs => .pure hs

/-- What a match puts its segments into carries what they carry. -/
theorem meets_build {ss ts : List Segment} (h : Carries n ss ts) (c : Option MatchClass) :
    Meets (n ≤ ·) (build ss c) fun us => Carries n us ts :=
  meets_build_of (D := fun us => Carries n us ts) h
    (fun type normalized => (meets_retypeTokens type normalized ss).mono fun _ hus => hus.carries h)
    (fun _ type hk => meets_branch type hk h) c

/-- The segments of a tidy match whose inner matches claim different tokens carry its tokens. -/
theorem meets_apply (hlex : IsLexed n tokens.toList) {m : Match} (h : m.Tidy True) :
    Meets (n ≤ ·) (m.apply tokens) fun ss => Carries n ss (tokensIn tokens m.start m.stop) := by
  induction h with
  | @mk a b c is cs le inserts bounds children pairwise ih =>
    rw [start_mk, stop_mk]
    by_cases hab : a < b
    · exact meets_apply_of_parts additive_carries hab inserts ⟨bounds, children, pairwise⟩ ih
        (fun i j _ _ _ _ => (hlex.sublist (tokensIn_sublist i j)).carries)
        fun ss hss => meets_build hss c
    · rw [apply, if_pos (by omega), show a = b by omega]
      exact meets_newMarkers additive_carries b is

end QueryLint.Match

namespace QueryLint.Match

open Segment

variable {R : Position → Prop} {n : Nat} {tokens : Array Segment}

/-- Tokens in a region, each with its position. -/
structure PlacedIn (R : Position → Prop) (ts : List Segment) : Prop where
  allIn : AllIn R ts
  placed : ∀ t ∈ ts, t.position.isSome = true

namespace PlacedIn

variable {ts us : List Segment}

theorem mono (h : PlacedIn R ts) (hts : ∀ u ∈ us, u ∈ ts) : PlacedIn R us :=
  ⟨fun u hu => h.allIn u (hts u hu), fun u hu => h.placed u (hts u hu)⟩

/-- Tokens occupy their own places. -/
theorem occupies (h : PlacedIn R ts) : Occupies R ts ts := ⟨h.allIn, .refl h.placed⟩

end PlacedIn

/-! ## 6. Segments in place of tokens -/

theorem mem_tokensIn {a b : Nat} {t : Segment} :
    t ∈ tokensIn tokens a b ↔ ∃ k, a ≤ k ∧ k < b ∧ tokens[k]? = some t := by
  unfold tokensIn
  rw [Array.mem_toList_iff, Array.mem_iff_getElem?]
  constructor
  · rintro ⟨k, hk⟩
    rw [Array.getElem?_extract] at hk
    split at hk
    · next hlt => exact ⟨a + k, by omega, by omega, hk⟩
    · cases hk
  · rintro ⟨k, hak, hkb, hk⟩
    have hsize := (Array.getElem?_eq_some_iff.1 hk).1
    refine ⟨k - a, ?_⟩
    rw [Array.getElem?_extract, if_pos (by omega), Nat.add_sub_cancel' hak]
    exact hk

theorem tokensIn_subset {a b a' b' : Nat} (ha : a ≤ a') (hb : b' ≤ b) :
    ∀ t ∈ tokensIn tokens a' b', t ∈ tokensIn tokens a b := by
  intro t ht
  obtain ⟨k, hak, hkb, hk⟩ := mem_tokensIn.1 ht
  exact mem_tokensIn.2 ⟨k, by omega, by omega, hk⟩

theorem tokensIn_ne_nil {a b : Nat} (hab : a < b) (hb : b ≤ tokens.size) :
    tokensIn tokens a b ≠ [] := by
  have ha : a < tokens.size := Nat.lt_of_lt_of_le hab hb
  have member : tokens[a] ∈ tokensIn tokens a b :=
    mem_tokensIn.2 ⟨a, Nat.le_refl a, hab, Array.getElem?_eq_getElem ha⟩
  exact List.ne_nil_of_mem member

/-- What can be asked of segments in place of tokens, if it adds up along them, if it may be asked
of fewer tokens, and if it stays when segments in place of some tokens are put into something of a
kind. -/
structure Standing (n : Nat) (Q : MatchClass → Prop) (C : List Segment → List Segment → Prop) :
    Prop where
  append : ∀ {ss ts us vs : List Segment}, C ss ts → C us vs → C (ss ++ us) (ts ++ vs)
  mono : ∀ {ss ts us : List Segment}, C ss ts → (∀ t ∈ us, t ∈ ts) → C ss us
  marker : ∀ k : MarkerKind, Meets (n ≤ ·) (Segment.marker k none) fun s => C [s] []
  build : ∀ {k : MatchClass} {ss ts : List Segment}, Q k → ts ≠ [] → C ss ts →
    Meets (n ≤ ·) (build ss (some k)) fun us => C us ts

section Standing

variable {Q : MatchClass → Prop} {C : List Segment → List Segment → Prop}

/-- It may be asked of the tokens of any part of a range. -/
def StandsIn (C : List Segment → List Segment → Prop) (tokens : Array Segment) (a b : Nat) :
    Prop :=
  ∀ i j, a ≤ i → j ≤ b → C (tokensIn tokens i j) (tokensIn tokens i j)

theorem StandsIn.mono {a b a' b' : Nat} (h : StandsIn C tokens a b) (ha : a ≤ a') (hb : b' ≤ b) :
    StandsIn C tokens a' b' :=
  fun i j hi hj => h i j (Nat.le_trans ha hi) (Nat.le_trans hj hb)

/-- Inlays between two places, each in place of the tokens that it takes. -/
def InPlace (C : List Segment → List Segment → Prop) (tokens : Array Segment) (a b : Nat)
    (xs : List Inlay) : Prop :=
  ∀ x ∈ xs, a ≤ x.start ∧ x.start ≤ b ∧ x.stop ≤ b ∧
    C x.segments (tokensIn tokens x.start x.stop)

variable (hC : Standing n Q C)

include hC

/-- The tokens from `i` up to `stop` with inlays among them stand in place of these tokens. -/
theorem standing_layOut {a i stop : Nat} {xs : List Inlay} (h : StandsIn C tokens a stop)
    (hi : a ≤ i) (hxs : InPlace C tokens a stop xs) :
    C (layOut tokens stop i xs) (tokensIn tokens i stop) := by
  induction xs generalizing i with
  | nil => exact h i stop hi (Nat.le_refl stop)
  | cons x xs ih =>
    obtain ⟨hax, hstart, hstop, hx⟩ := hxs x (by simp)
    have front := h i x.start hi hstart
    have back := ih (i := max (max i x.start) x.stop) (by omega)
      fun y hy => hxs y (by simp [hy])
    rw [layOut]
    refine hC.mono (hC.append (hC.append front hx) back) fun t ht => ?_
    obtain ⟨k, hik, hks, hk⟩ := mem_tokensIn.1 ht
    rw [List.mem_append, List.mem_append, mem_tokensIn, mem_tokensIn, mem_tokensIn]
    by_cases hbefore : k < x.start
    · exact .inl (.inl ⟨k, hik, hbefore, hk⟩)
    · by_cases hwithin : k < x.stop
      · exact .inl (.inr ⟨k, by omega, hwithin, hk⟩)
      · exact .inr ⟨k, by omega, hks, hk⟩

theorem meets_newMarkers_standing (nothing : C [] []) (is : List (Nat × MarkerKind)) :
    Meets (n ≤ ·) (newMarkers is) fun ss => C ss [] := by
  induction is with
  | nil => exact .pure nothing
  | cons x is ih =>
    exact (hC.marker x.2).bind fun s hs => ih.bind fun ss hss => .pure (hC.append hs hss)

variable (tokens) in
/-- The inlay of a marker takes no token. -/
theorem meets_markerInlays_inPlace {a b : Nat} {is : List (Nat × MarkerKind)}
    (his : MarkersInside a b is) :
    Meets (n ≤ ·) (markerInlays is) fun xs => InPlace C tokens a b xs := by
  induction is with
  | nil => exact .pure (by simp [InPlace])
  | cons i is ih =>
    refine (hC.marker i.2).bind fun s hs =>
      (ih fun x hx => his x (by simp [hx])).bind fun xs hxs => .pure fun x hx => ?_
    rcases List.mem_cons.1 hx with rfl | hx
    · obtain ⟨ha, hb⟩ := his i (by simp)
      refine ⟨ha, hb, hb, ?_⟩
      rw [tokensIn_of_le (Nat.le_refl _)]
      exact hs
    · exact hxs x hx

/-- The segments of a match stand in place of its tokens, if these stand for themselves. -/
theorem meets_apply_standing {m : Match} (h : m.Tidy False) (hm : m.Classed Q)
    (hsize : m.stop ≤ tokens.size) (hts : StandsIn C tokens m.start m.stop) :
    Meets (n ≤ ·) (m.apply tokens) fun ss => C ss (tokensIn tokens m.start m.stop) := by
  induction h with
  | @mk a b c is cs le inserts bounds children _ ih =>
    rw [start_mk, stop_mk] at *
    rw [apply]
    split
    · next hempty =>
      have nothing := hts a b (Nat.le_refl a) (Nat.le_refl b)
      rw [tokensIn_of_le hempty] at nothing ⊢
      exact meets_newMarkers_standing hC nothing is
    next hab =>
    have inner (m : Match) (hin : m ∈ cs) : Meets (n ≤ ·) (m.apply tokens) fun ss =>
        C ss (tokensIn tokens m.start m.stop) :=
      have ⟨ha, hb⟩ := bounds m hin
      ih m hin (hm.children m hin) (Nat.le_trans hb hsize) (hts.mono ha hb)
    have made (ss : List Segment) (hss : C ss (tokensIn tokens a b)) :
        Meets (n ≤ ·) (build ss c) fun us => C us (tokensIn tokens a b) := by
      cases c with
      | none => exact .pure hss
      | some k => exact hC.build (hm.own k rfl) (tokensIn_ne_nil (Nat.lt_of_not_le hab) hsize) hss
    refine (meets_markerInlays_inPlace tokens hC inserts).bind fun markers hmarkers =>
      (meets_applyAll inner).bind fun xs hxs => ?_
    refine made _ (standing_layOut hC hts (Nat.le_refl a) fun x hx => ?_)
    rcases List.mem_append.1 ((perm_sortInlays (markers ++ xs)).mem_iff.1 hx) with hx | hx
    · exact hmarkers x hx
    · obtain ⟨m, hin, hstart, hstop, hstands⟩ := hxs.2 x hx
      have hle := (children m hin).start_le_stop
      obtain ⟨ha, hb⟩ := bounds m hin
      rw [hstart, hstop]
      exact ⟨ha, Nat.le_trans hle hb, hb, hstands⟩

end Standing

/-! ## 7. Segments in a region -/

/-- What a grammar may change in a token does not move it. -/
theorem every_liesIn_of_bare {s u : Segment} (h : u.bare = s.bare) (hs : Every (LiesIn R) s) :
    Every (LiesIn R) u := by
  have fixes : u.bare.info.sourceFixes = s.bare.info.sourceFixes := by rw [h]
  have place : u.bare.position = s.bare.position := by rw [h]
  have inside : u.children = s.children := (congrArg Segment.children h :)
  refine .of_children ⟨fixes.trans hs.own.1, fun p hp => hs.own.2 p (place.symm.trans hp)⟩ ?_
  rw [inside]
  exact hs.inside

/-- A token of another type stays where it is. -/
theorem meets_retypeToken_position (type : String) (normalized : Option String) (s : Segment) :
    Meets (n ≤ ·) (retypeToken type normalized s) fun u =>
      u.position = s.position ∧ (Every (LiesIn R) s → Every (LiesIn R) u) := by
  refine (meets_retypeToken type normalized s).mono fun u hu => ?_
  rcases hu with rfl | ⟨-, -, hbare⟩
  · exact ⟨rfl, fun h => h⟩
  · exact ⟨by rw [← position_bare, hbare, position_bare], every_liesIn_of_bare hbare⟩

theorem meets_retypeTokens_occupies (type : String) (normalized : Option String)
    {ss ts : List Segment} (h : Occupies R ss ts) :
    Meets (n ≤ ·) (ss.mapM (retypeToken type normalized)) fun us => Occupies R us ts := by
  have each (ss : List Segment) :
      Meets (n ≤ ·) (ss.mapM (retypeToken type normalized)) fun us =>
        us.map (·.position) = ss.map (·.position) ∧ (AllIn R ss → AllIn R us) := by
    induction ss with
    | nil => exact .pure ⟨rfl, id⟩
    | cons s ss ih =>
      rw [List.mapM_cons]
      refine (meets_retypeToken_position (R := R) type normalized s).bind fun u hu =>
        ih.bind fun us hus => .pure ⟨?_, fun hs => ?_⟩
      · rw [List.map_cons, List.map_cons, hu.1, hus.1]
      · exact AllIn.append (.single (hu.2 hs.head)) (hus.2 hs.tail)
  refine (each ss).mono fun us hus => ⟨hus.2 h.allIn, h.covers.of_position fun s hs _ => ?_⟩
  have member : s.position ∈ us.map (·.position) := by
    rw [hus.1]
    exact List.mem_map_of_mem hs
  exact List.mem_map.1 member

/-- What a match puts its segments into lies where they lie. -/
theorem meets_build_occupies (hR : Position.IsRegion R) {ss ts : List Segment}
    (h : Occupies R ss ts) (c : Option MatchClass) :
    Meets (n ≤ ·) (build ss c) fun us => Occupies R us ts :=
  meets_build_of (D := fun us => Occupies R us ts) h
    (fun type normalized => meets_retypeTokens_occupies type normalized h)
    (fun k type _ => meets_branch_occupies hR k type h) c

/-- Where segments lie and what they cover can be asked of segments in place of tokens. -/
theorem standing_occupies (hR : Position.IsRegion R) :
    Standing n (fun _ => True) (Occupies R) where
  append := .append
  mono := .mono
  marker k := (meets_marker_allIn k).mono fun s hs => ⟨hs, by simp [Covers]⟩
  build _ _ h := meets_build_occupies hR h _

/-- The segments of a match lie where its tokens lie, and they cover them. -/
theorem meets_apply_occupies (hR : Position.IsRegion R) {m : Match} (h : m.Tidy False)
    (hsize : m.stop ≤ tokens.size) (hts : PlacedIn R (tokensIn tokens m.start m.stop)) :
    Meets (n ≤ ·) (m.apply tokens) fun ss =>
      Occupies R ss (tokensIn tokens m.start m.stop) :=
  meets_apply_standing (standing_occupies hR) h h.classed hsize fun _ _ hi hj =>
    (hts.mono (tokensIn_subset hi hj)).occupies

end QueryLint.Match
