import QueryLint.Proofs.Fix.Words

/-!
QueryLint.Proofs.Segment.Listing — trees by their paths.

A segment of a tree is told by its path, the numbers of the children on the way to it. All segments
with their paths, each before those inside it, are the listing of the tree. Paths in it ascend, if
of two of them the one comes first that is the start of the other, or that turns off earlier. So
what comes before a segment in the tree is what has a smaller path.

* `Segment.at?` — the segment at a path.
* `Segment.listing` — the segments of a tree with their paths.
* `Segment.mem_listing`, `Segment.sorted_listing` — what is listed, and in which order.
* `Segment.leavesBefore` — the leaves of a tree before a path.
-/

namespace QueryLint.Segment

/-! ## 1. Paths -/

/-- The segment at a path, if the path leads to one. -/
def at? (s : Segment) : List Nat → Option Segment
  | [] => some s
  | k :: p => (s.children[k]?).bind fun c => c.at? p

@[simp] theorem at?_nil (s : Segment) : s.at? [] = some s := rfl

theorem at?_cons (s : Segment) (k : Nat) (p : List Nat) :
    s.at? (k :: p) = (s.children[k]?).bind (·.at? p) := rfl

theorem at?_append (s : Segment) (p q : List Nat) :
    s.at? (p ++ q) = (s.at? p).bind (·.at? q) := by
  induction p generalizing s with
  | nil => rfl
  | cons k p ih =>
    rw [List.cons_append, at?_cons, at?_cons, Option.bind_assoc]
    exact Option.bind_congr fun c _ => ih c

/-- No segment on the way to a path is unparsable, and neither is the one there. -/
def ParsedTo (s : Segment) (p : List Nat) : Prop :=
  ∀ q, q <+: p → ∀ t, s.at? q = some t → t.isUnparsable = false

theorem parsedTo_nil (s : Segment) : s.ParsedTo [] ↔ s.isUnparsable = false := by
  constructor
  · exact fun h => h [] List.prefix_rfl s rfl
  · rintro h q hq t ht
    obtain rfl := List.prefix_nil.1 hq
    exact Option.some.inj ht ▸ h

theorem parsedTo_cons {s c : Segment} {k : Nat} (p : List Nat) (hc : s.children[k]? = some c) :
    s.ParsedTo (k :: p) ↔ s.isUnparsable = false ∧ c.ParsedTo p := by
  constructor
  · refine fun h => ⟨h [] List.nil_prefix s rfl, fun q hq t ht => ?_⟩
    exact h (k :: q) ((List.prefix_cons_inj k).2 hq) t (by rw [at?_cons, hc]; exact ht)
  · rintro ⟨hs, hin⟩ q hq t ht
    rcases List.prefix_cons_iff.1 hq with rfl | ⟨q', rfl, hq'⟩
    · exact Option.some.inj ht ▸ hs
    · rw [at?_cons, hc] at ht
      exact hin q' hq' t ht

/-! ## 2. Listings -/

mutual

/-- The segments of a tree with their paths, each before those inside it. With `whole` unset those
in unparsable segments are left out. -/
def listing (whole : Bool) : Segment → List (List Nat × Segment)
  | mk i cs =>
    if (mk i cs).isUnparsable && !whole then []
    else ([], mk i cs) :: listingFrom whole 0 cs

/-- The same of the children of a segment from a number on. -/
def listingFrom (whole : Bool) (k : Nat) : List Segment → List (List Nat × Segment)
  | [] => []
  | s :: rest =>
    (s.listing whole).map (fun e => (k :: e.1, e.2)) ++ listingFrom whole (k + 1) rest

end

variable {whole : Bool}

theorem listing_eq (whole : Bool) (s : Segment) : s.listing whole =
    if s.isUnparsable && !whole then [] else ([], s) :: listingFrom whole 0 s.children := by
  cases s with
  | mk i cs => rw [listing]; rfl

theorem listingFrom_append (k : Nat) (xs ys : List Segment) : listingFrom whole k (xs ++ ys) =
    listingFrom whole k xs ++ listingFrom whole (k + xs.length) ys := by
  induction xs generalizing k with
  | nil => simp [listingFrom]
  | cons x xs ih =>
    rw [List.cons_append, listingFrom, listingFrom, ih, List.append_assoc, List.length_cons,
      Nat.add_assoc, Nat.add_comm 1]

/-- What is listed of children is listed of one of them. -/
theorem mem_listingFrom {k : Nat} {ss : List Segment} {p : List Nat} {t : Segment} :
    (p, t) ∈ listingFrom whole k ss ↔
      ∃ j c q, p = (k + j) :: q ∧ ss[j]? = some c ∧ (q, t) ∈ c.listing whole := by
  induction ss generalizing k with
  | nil => simp [listingFrom]
  | cons s ss ih =>
    rw [listingFrom, List.mem_append, ih, List.mem_map]
    constructor
    · rintro (⟨e, he, heq⟩ | ⟨j, c, q, rfl, hc, hq⟩)
      · obtain ⟨rfl, rfl⟩ := Prod.mk.inj heq
        exact ⟨0, s, e.1, rfl, rfl, he⟩
      · exact ⟨j + 1, c, q, by rw [Nat.add_right_comm, Nat.add_assoc], hc, hq⟩
    · rintro ⟨j, c, q, rfl, hc, hq⟩
      cases j with
      | zero =>
        obtain rfl := Option.some.inj hc
        exact .inl ⟨(q, t), hq, rfl⟩
      | succ j => exact .inr ⟨j, c, q, by rw [Nat.add_right_comm, Nat.add_assoc], hc, hq⟩

theorem mem_listing_cons {s t : Segment} {k : Nat} {p : List Nat} :
    (k :: p, t) ∈ s.listing whole ↔ (s.isUnparsable = false ∨ whole = true) ∧
      ∃ c, s.children[k]? = some c ∧ (p, t) ∈ c.listing whole := by
  have inside : (k :: p, t) ∈ listingFrom whole 0 s.children ↔
      ∃ c, s.children[k]? = some c ∧ (p, t) ∈ c.listing whole := by
    simp only [mem_listingFrom, Nat.zero_add, List.cons.injEq]
    constructor
    · rintro ⟨j, c, q, ⟨rfl, rfl⟩, hc, hq⟩
      exact ⟨c, hc, hq⟩
    · rintro ⟨c, hc, hq⟩
      exact ⟨k, c, p, ⟨rfl, rfl⟩, hc, hq⟩
  rw [listing_eq]
  cases s.isUnparsable <;> cases whole <;> simp [inside]

theorem mem_listing_nil {s t : Segment} :
    ([], t) ∈ s.listing whole ↔ (s.isUnparsable = false ∨ whole = true) ∧ s = t := by
  have outside : ([], t) ∉ listingFrom whole 0 s.children := by
    simp [mem_listingFrom]
  rw [listing_eq]
  cases s.isUnparsable <;> cases whole <;> simp [outside, eq_comm]

/-- Listed are the segments of a tree at their paths, except in unparsable ones if these are left
out. -/
theorem mem_listing {s t : Segment} {p : List Nat} :
    (p, t) ∈ s.listing whole ↔ s.at? p = some t ∧ (whole = true ∨ s.ParsedTo p) := by
  induction p generalizing s with
  | nil =>
    rw [mem_listing_nil, parsedTo_nil, at?_nil, Option.some.injEq, and_comm, or_comm]
  | cons k p ih =>
    rw [mem_listing_cons, at?_cons]
    cases hc : s.children[k]? with
    | none => simp
    | some c =>
      rw [parsedTo_cons p hc]
      simp only [Option.some.injEq, exists_eq_left', Option.bind_some, ih]
      cases whole <;> simp [and_left_comm]

mutual

/-- Paths ascend in a listing. -/
theorem sorted_listing (whole : Bool) (s : Segment) :
    (s.listing whole).Pairwise (·.1 < ·.1) := by
  match s with
  | mk i cs =>
    rw [listing]
    split
    · exact .nil
    · refine List.pairwise_cons.2 ⟨fun e he => ?_, sorted_listingFrom whole 0 cs⟩
      obtain ⟨j, c, q, hpath, -⟩ := mem_listingFrom.1 (show (e.1, e.2) ∈ _ from he)
      rw [hpath]
      exact List.nil_lt_cons ..
termination_by structural s

theorem sorted_listingFrom (whole : Bool) (k : Nat) (ss : List Segment) :
    (listingFrom whole k ss).Pairwise (·.1 < ·.1) := by
  match ss with
  | [] => rw [listingFrom]; exact .nil
  | s :: rest =>
    rw [listingFrom]
    refine List.pairwise_append.2 ⟨?_, sorted_listingFrom whole (k + 1) rest, ?_⟩
    · refine List.pairwise_map.2 ((sorted_listing whole s).imp fun h => ?_)
      exact List.cons_lt_cons_iff.2 (.inr ⟨rfl, h⟩)
    · intro a ha b hb
      obtain ⟨e, -, rfl⟩ := List.mem_map.1 ha
      obtain ⟨j, c, q, hpath, -⟩ := mem_listingFrom.1 (show (b.1, b.2) ∈ _ from hb)
      rw [hpath]
      exact List.cons_lt_cons_iff.2 (.inl (by omega))
termination_by structural ss

end

/-! ## 3. Leaves -/

/-- The leaves among listed segments. -/
def leavesListed (l : List (List Nat × Segment)) : List Segment :=
  (l.filter (·.2.isLeaf)).map (·.2)

@[simp] theorem leavesListed_append (l l' : List (List Nat × Segment)) :
    leavesListed (l ++ l') = leavesListed l ++ leavesListed l' := by
  simp [leavesListed]

theorem leavesListed_cons (p : List Nat) (s : Segment) (l : List (List Nat × Segment)) :
    leavesListed ((p, s) :: l) = (if s.isLeaf then [s] else []) ++ leavesListed l := by
  rw [leavesListed, List.filter_cons]
  split <;> rfl

/-- Paths that start further up lead to the same leaves. -/
theorem leavesListed_map_cons (k : Nat) (l : List (List Nat × Segment)) :
    leavesListed (l.map fun e => (k :: e.1, e.2)) = leavesListed l := by
  simp [leavesListed, List.filter_map, Function.comp_def]

mutual

/-- The leaves of a tree are those that are listed, in order. -/
theorem leavesListed_listing (s : Segment) (hs : s.isTree = true) :
    leavesListed (s.listing true) = s.leaves := by
  match s with
  | mk i cs =>
    obtain ⟨hempty, hcs⟩ := isTree_iff.1 hs
    have inside := leavesListed_listingFrom 0 cs hcs
    rw [listing_eq, if_neg (by simp), leavesListed_cons]
    cases hleaf : (mk i cs).isLeaf with
    | true => rw [hempty hleaf, leaves_of_isLeaf hleaf]; rfl
    | false => rw [leaves_of_not_isLeaf hleaf]; exact inside
termination_by structural s

theorem leavesListed_listingFrom (k : Nat) (ss : List Segment)
    (hss : ∀ s ∈ ss, s.isTree = true) :
    leavesListed (listingFrom true k ss) = leavesAll ss := by
  match ss with
  | [] => rw [listingFrom, leavesAll]; rfl
  | s :: rest =>
    obtain ⟨hs, hrest⟩ := List.forall_mem_cons.1 hss
    rw [listingFrom, leavesListed_append, leavesListed_map_cons, leavesListed_listing s hs,
      leavesListed_listingFrom (k + 1) rest hrest, leavesAll]
termination_by structural ss

end

/-- The leaves of a tree before a path, in order. -/
def leavesBefore (s : Segment) (p : List Nat) : List Segment :=
  leavesListed ((s.listing true).filter (·.1 < p))

@[simp] theorem leavesBefore_nil (s : Segment) : s.leavesBefore [] = [] := by
  rw [leavesBefore, List.filter_eq_nil_iff.2 (by simp)]
  rfl

/-- Before a path are all leaves of the children before the one it goes into, and the leaves before
it in that. -/
theorem leavesBefore_cons {s c : Segment} {before after : List Segment} (hs : s.isTree = true)
    (hc : s.children = before ++ c :: after) (p : List Nat) :
    s.leavesBefore (before.length :: p) = leavesAll before ++ c.leavesBefore p := by
  obtain ⟨hempty, hcs⟩ := isTree_iff.1 hs
  have node : s.isLeaf = false := by
    rw [← Bool.not_eq_true]
    intro hleaf
    rw [hempty hleaf] at hc
    simp at hc
  have first : (listingFrom true 0 before).filter (·.1 < before.length :: p) =
      listingFrom true 0 before := by
    refine List.filter_eq_self.2 fun e he => decide_eq_true ?_
    obtain ⟨j, d, q, hpath, hd, -⟩ := mem_listingFrom.1 (show (e.1, e.2) ∈ _ from he)
    have := (List.getElem?_eq_some_iff.1 hd).1
    rw [hpath]
    exact List.cons_lt_cons_iff.2 (.inl (by omega))
  have inside : ((c.listing true).map fun e => (before.length :: e.1, e.2)).filter
      (·.1 < before.length :: p) =
        ((c.listing true).filter (·.1 < p)).map fun e => (before.length :: e.1, e.2) := by
    rw [List.filter_map]
    congr 2
    funext e
    simp
  have last : (listingFrom true (before.length + 1) after).filter (·.1 < before.length :: p) =
      [] := by
    refine List.filter_eq_nil_iff.2 fun e he => ?_
    obtain ⟨j, d, q, hpath, hd, -⟩ := mem_listingFrom.1 (show (e.1, e.2) ∈ _ from he)
    rw [decide_eq_true_iff, hpath, List.cons_lt_cons_iff]
    omega
  rw [leavesBefore, listing_eq, if_neg (by simp), hc, listingFrom_append, listingFrom, Nat.zero_add,
    List.filter_cons_of_pos (by simp), List.filter_append, List.filter_append, first, inside, last,
    List.append_nil, leavesListed_cons, node, leavesListed_append, leavesListed_map_cons,
    leavesListed_listingFrom 0 before fun x hx => hcs x (by simp [hc, hx])]
  rfl

/-- Before a child are the leaves before the segment that it is in, and those of the children before
it. -/
theorem leavesBefore_concat {s t c : Segment} {p : List Nat} {before after : List Segment}
    (hs : s.isTree = true) (ht : s.at? p = some t) (hc : t.children = before ++ c :: after) :
    s.leavesBefore (p ++ [before.length]) = s.leavesBefore p ++ leavesAll before := by
  induction p generalizing s with
  | nil =>
    obtain rfl := Option.some.inj ht
    rw [List.nil_append, leavesBefore_cons hs hc, leavesBefore_nil, leavesBefore_nil,
      List.append_nil, List.nil_append]
  | cons k p ih =>
    obtain ⟨d, hd, ht⟩ := Option.bind_eq_some_iff.1 ht
    obtain ⟨hlt, rfl⟩ := List.getElem?_eq_some_iff.1 hd
    have split := (List.take_append_drop k s.children).symm
    rw [List.drop_eq_getElem_cons hlt] at split
    have inner := (isTree_iff.1 hs).2 _ (List.getElem_mem hlt)
    have length : (s.children.take k).length = k := List.length_take_of_le (Nat.le_of_lt hlt)
    have descend (q : List Nat) : s.leavesBefore (k :: q) =
        leavesAll (s.children.take k) ++ s.children[k].leavesBefore q := by
      have := leavesBefore_cons hs split q
      rwa [length] at this
    rw [List.cons_append, descend, descend, ih inner ht, List.append_assoc]

end QueryLint.Segment
