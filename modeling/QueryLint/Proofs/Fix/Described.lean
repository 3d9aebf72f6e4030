import QueryLint.Proofs.Fix.Splice
import QueryLint.Proofs.Token.Tiling

/-!
QueryLint.Proofs.Fix.Described — what the patches of a tree make of its text.

The patches of a tree are made in the templated text one after the other. Each node that differs
from the text at its position is walked, and between two of its segments there is a gap: from where
the one stops to where the other starts. Text that is in a gap has been removed, and text that was
added there takes its place.

A gap with added text is replaced only up to the place where the text was added first. What was
removed behind that place stays. So the patches say what the tree is exactly if there is no such
text; they say more than the tree otherwise, never less.

* `Patch.make` — a text with patches made in it.
* `Segment.opened` — the nodes that are walked.
* `Segment.gaps`, `Gap.kept` — the gaps of a node, and what is left in them.
* `Segment.exists_rewrites` — what the patches of a segment make of the text at its position.
-/

namespace QueryLint

open Text

/-! ## 1. Making patches -/

namespace Patch

/-- The text from an offset on with patches made in it, one after the other. Nothing if a patch
starts before the one in front of it stops, or where there is no cut. -/
def make (text : String) (start : Nat) : List Patch → Option String
  | [] => sliceFrom? text start
  | p :: rest => do
    let between ← slice? text start p.templated.start
    let later ← make text p.templated.stop rest
    return between ++ p.fixed ++ later

/-- Patches make new text of a part of a text, and leave what follows to the patches behind
them. -/
def Rewrites (text : String) (start stop : Nat) (ps : List Patch) (new : String) : Prop :=
  ∀ rest later, make text stop rest = some later →
    make text start (ps ++ rest) = some (new ++ later)

namespace Rewrites

variable {text new new' : String} {a b c : Nat} {ps qs : List Patch}

theorem append (h : Rewrites text a b ps new) (h' : Rewrites text b c qs new') :
    Rewrites text a c (ps ++ qs) (new ++ new') := by
  intro rest later hlater
  rw [List.append_assoc, h _ _ (h' rest later hlater), String.append_assoc]

/-- Without patches a part of a text stays. -/
theorem nil (h : slice? text a b = some new) : Rewrites text a b [] new := by
  intro rest later hlater
  cases rest with
  | nil =>
    obtain ⟨front, back, htext, hfront, hb⟩ := slice?_eq_some_iff.1 h
    rw [make, sliceFrom?, dropBytes?_of_eq_append htext (by
      rw [byteCount_append, byteCount_toList, hfront, hb]), Option.map_some, Option.some.injEq]
      at hlater
    rw [List.append_nil, make, sliceFrom?,
      dropBytes?_of_eq_append (htext.trans (List.append_assoc ..)) hfront, Option.map_some,
      String.ofList_append, String.ofList_toList, hlater]
  | cons p rest =>
    rw [make] at hlater
    obtain ⟨between, hbetween, hlater⟩ := Option.bind_eq_some_iff.1 hlater
    obtain ⟨more, hmore, hlater⟩ := Option.bind_eq_some_iff.1 hlater
    rw [List.nil_append, make, slice?_append h hbetween, hmore, ← Option.some.inj hlater]
    simp [String.append_assoc]

/-- A patch makes its new text of its span. -/
theorem patch (p : Patch) (h : (dropBytes? text.toList p.templated.start).isSome = true) :
    Rewrites text p.templated.start p.templated.stop [p] p.fixed := by
  intro rest later hlater
  have nothing : slice? text p.templated.start p.templated.start = some "" := by
    obtain ⟨back, hback⟩ := Option.isSome_iff_exists.1 h
    obtain ⟨front, htext, hfront⟩ := exists_append_of_dropBytes? hback
    exact slice?_eq_some_iff.2 ⟨front, back, by simp [htext], hfront, by simp⟩
  rw [List.singleton_append, make, nothing, hlater]
  simp

/-- Patches that make a text of a whole text. -/
theorem make_eq (h : Rewrites text 0 text.utf8ByteSize ps new) : make text 0 ps = some new := by
  have ends : make text text.utf8ByteSize [] = some "" := by
    have all : text.toList = text.toList ++ [] := (List.append_nil _).symm
    rw [make, sliceFrom?, dropBytes?_of_eq_append all (byteCount_toList text)]
    rfl
  have := h [] "" ends
  rwa [List.append_nil, String.append_empty] at this

end Rewrites

end Patch

/-! ## 2. Gaps -/

/-- What lies between two segments of a node in the templated text. -/
structure Gap where
  /-- Where the segment in front of it stops, or the node starts. -/
  start : Nat
  /-- Where text was added first, if any was. -/
  added : Option Nat
  /-- Where the segment behind it starts. -/
  stop : Nat

namespace Gap

/-- How far the gap is replaced. -/
def reach (g : Gap) : Nat := g.added.getD g.stop

/-- Number of bytes that stay behind added text. -/
def kept (g : Gap) : Nat := g.stop - g.reach

/-- The gap can be cut out of a text, and parted where text was added. -/
def IsCut (text : String) (g : Gap) : Prop :=
  (slice? text g.start g.reach).isSome = true ∧ (slice? text g.reach g.stop).isSome = true

instance (text : String) (g : Gap) : Decidable (g.IsCut text) :=
  inferInstanceAs (Decidable (_ ∧ _))

end Gap

namespace Segment

/-- It was added: it has text, but no text stands at its position. -/
def isAdded (s : Segment) : Bool := !s.raw.isEmpty && s.position.any (·.isPoint)

/-- The gaps before, between and behind segments of a node that stops at `stop`. The first starts
at `start`; `added` is where text was added in it before the list. -/
def gapsFrom (stop start : Nat) (added : Option Nat) : List Segment → List Gap
  | [] => [⟨start, none, stop⟩]
  | s :: rest =>
    match s.position with
    | none => gapsFrom stop start added rest
    | some q =>
      if s.isAdded then gapsFrom stop start (added.or (some q.templated.start)) rest
      else ⟨start, added, q.templated.start⟩ :: gapsFrom stop q.templated.stop none rest

/-- The gaps of a node. -/
def gaps (s : Segment) : List Gap :=
  match s.position with
  | none => []
  | some p => gapsFrom p.templated.stop p.templated.start none s.children

mutual

/-- The segments that are walked: those with another text than at their position, if that is not
literal. -/
def opened (f : TemplatedFile) : Segment → List Segment
  | mk i cs =>
    match i.position with
    | none => []
    | some p =>
      if p.templated.text? f.templated = some (mk i cs).raw then []
      else if p.isLiteral then []
      else mk i cs :: openedAll f cs

/-- The segments that are walked in a list. Added ones are not. -/
def openedAll (f : TemplatedFile) : List Segment → List Segment
  | [] => []
  | s :: rest => if s.isAdded then openedAll f rest else opened f s ++ openedAll f rest

end

/-- The walk of a segment goes from the start of its position to the end: it is made of segments,
each with a position if it has text, in the order of the templated text. -/
structure IsOrdered (f : TemplatedFile) (s : Segment) : Prop where
  inner : s.children ≠ []
  whole : s.raw = rawAll s.children
  placed : ∀ c ∈ s.children, c.position = none → c.raw = ""
  cuts : ∀ g ∈ s.gaps, g.IsCut f.templated

instance (f : TemplatedFile) (s : Segment) : Decidable (s.IsOrdered f) :=
  decidable_of_iff (s.children ≠ [] ∧ s.raw = rawAll s.children ∧
      (∀ c ∈ s.children, c.position = none → c.raw = "") ∧ ∀ g ∈ s.gaps, g.IsCut f.templated)
    ⟨fun h => ⟨h.1, h.2.1, h.2.2.1, h.2.2.2⟩, fun h => ⟨h.inner, h.whole, h.placed, h.cuts⟩⟩

/-- Number of bytes that stay behind added text in some gaps. -/
def keptIn : List Gap → Nat
  | [] => 0
  | g :: gs => g.kept + keptIn gs

theorem keptIn_append (gs hs : List Gap) : keptIn (gs ++ hs) = keptIn gs + keptIn hs := by
  induction gs with
  | nil => rw [List.nil_append, keptIn, Nat.zero_add]
  | cons g gs ih => rw [List.cons_append, keptIn, keptIn, ih, Nat.add_assoc]

theorem keptIn_eq_zero {gs : List Gap} : keptIn gs = 0 ↔ ∀ g ∈ gs, g.kept = 0 := by
  induction gs with
  | nil => simp [keptIn]
  | cons g gs ih =>
    rw [keptIn, List.forall_mem_cons, ← ih]
    omega

/-- There is a gap where the walk starts. -/
theorem exists_gap_start (stop start : Nat) (added : Option Nat) (ss : List Segment) :
    ∃ g ∈ gapsFrom stop start added ss, g.start = start := by
  induction ss generalizing added with
  | nil => exact ⟨_, List.mem_singleton.2 rfl, rfl⟩
  | cons s ss ih =>
    rw [gapsFrom]
    split
    · exact ih added
    · split
      · exact ih _
      · exact ⟨_, List.mem_cons_self .., rfl⟩

/-! ## 3. The walk -/

variable {f : TemplatedFile}

/-- The patch of a gap makes the added text of it, with the text that stays. -/
theorem Walk.rewrites_gapPatch {w : Walk} {q : Position} {g : Gap}
    (hw : w.added = "" → w.first = none)
    (hg : g = ⟨w.templated, w.first.map (·.templated.start), q.templated.start⟩)
    (hcut : g.IsCut f.templated) :
    ∃ left, Patch.Rewrites f.templated w.templated q.templated.start (w.gapPatch q)
        (w.added ++ left) ∧ left.utf8ByteSize = g.kept := by
  obtain ⟨hfront, hback⟩ := hcut
  obtain ⟨left, hleft⟩ := Option.isSome_iff_exists.1 hback
  have width := le_of_slice? hleft
  have stop : g.stop = q.templated.start := by rw [hg]
  have reach : g.reach = (w.first.getD q).templated.start := by
    rw [hg, Gap.reach]
    cases w.first <;> rfl
  have start : g.start = w.templated := by rw [hg]
  rw [start] at hfront
  rw [stop] at hleft width
  refine ⟨left, ?_, by rw [Gap.kept, stop]; omega⟩
  obtain ⟨hle, hcut, -⟩ := isSome_slice?_iff.1 hfront
  unfold Walk.gapPatch
  dsimp only
  split
  · next hpatch =>
    rw [← reach]
    have one : Patch.Rewrites f.templated _ _ [_] _ :=
      .patch ⟨.midPoint, .between w.source (w.first.getD q).source.start,
        .between w.templated g.reach, w.added, "", ""⟩ (by simpa using hcut)
    have here : (Span.between w.templated g.reach).stop = g.reach := by
      rw [Span.stop_between, Nat.max_eq_right hle]
    dsimp only at one
    rw [Span.start_between, here] at one
    have := one.append (.nil hleft)
    rwa [List.append_nil] at this
  · next hnothing =>
    simp only [Bool.or_eq_true, decide_eq_true_eq, not_or, Bool.not_eq_true', String.isEmpty_iff,
      Bool.not_eq_false] at hnothing
    obtain ⟨hend, hadded⟩ := hnothing
    rw [hw hadded, Option.getD_none] at reach
    rw [hadded, String.empty_append]
    rw [reach] at hle hleft
    have here : w.templated = q.templated.start := by omega
    rw [here]
    exact .nil hleft

/-- The patch behind the last segment makes the added text of what is left of the node. -/
theorem Walk.rewrites_endPatch {w : Walk} {p : Position}
    (hcut : (slice? f.templated w.templated p.templated.stop).isSome = true) :
    Patch.Rewrites f.templated w.templated p.templated.stop (w.endPatch f p) w.added := by
  obtain ⟨hle, hstart, -⟩ := isSome_slice?_iff.1 hcut
  unfold Walk.endPatch
  split
  · have one : Patch.Rewrites f.templated _ _ [_] _ :=
      .patch (.ofSpans f .endPoint (.between w.source p.source.stop)
        (.between w.templated p.templated.stop) w.added) (by simpa [Patch.ofSpans] using hstart)
    have here : (Span.between w.templated p.templated.stop).stop = p.templated.stop := by
      rw [Span.stop_between, Nat.max_eq_right hle]
    simp only [Patch.ofSpans, Span.start_between, here] at one ⊢
    exact one
  · next hnothing =>
    simp only [Bool.not_eq_true', not_or, ne_eq, Classical.not_not, String.isEmpty_iff,
      Bool.not_eq_false] at hnothing
    rw [hnothing.2, ← hnothing.1]
    obtain ⟨text, htext⟩ := Option.isSome_iff_exists.1 hcut
    rw [← hnothing.1] at htext
    have := (le_of_slice? htext).1
    rw [String.utf8ByteSize_eq_zero_iff.1 (show text.utf8ByteSize = 0 by omega)] at htext
    exact .nil htext

mutual

/-- What the patches of a segment make of the text at its position: its own text, but for what
stays behind added text. -/
theorem exists_rewrites (s : Segment) (hplain : s.IsPlain) {p : Position}
    (hp : s.position = some p) (hcut : (p.templated.text? f.templated).isSome = true)
    (hopened : ∀ o ∈ s.opened f, o.IsOrdered f) :
    ∃ new, Patch.Rewrites f.templated p.templated.start p.templated.stop (s.patches f) new ∧
      new.utf8ByteSize = s.raw.utf8ByteSize + keptIn ((s.opened f).flatMap gaps) ∧
      (keptIn ((s.opened f).flatMap gaps) = 0 → new = s.raw) := by
  match s with
  | mk i cs =>
    have position : i.position = some p := hp
    have own : i.sourceFixes = [] := ((isPlain_iff _).1 hplain).1
    have inside : ∀ c ∈ cs, c.IsPlain := ((isPlain_iff _).1 hplain).2
    have all : (mk i cs).sourceFixes = [] := hplain
    rw [opened, position] at hopened ⊢
    rw [patches, position]
    dsimp only at hopened ⊢
    split
    · next htext =>
      rw [all, List.map_nil]
      exact ⟨_, .nil htext, rfl, fun _ => rfl⟩
    · next hother =>
      rw [own, List.map_nil, List.nil_append]
      rw [if_neg hother] at hopened
      split
      · have start := (isSome_slice?_iff.1 hcut).2.1
        exact ⟨_, Patch.Rewrites.patch (p := .ofSpans f .literal p.source p.templated _) start, rfl,
          fun _ => rfl⟩
      · next hmarkup =>
        rw [if_neg hmarkup] at hopened
        obtain ⟨⟨inner, whole, placed, cuts⟩, below⟩ := List.forall_mem_cons.1 hopened
        have gaps_eq : gaps (mk i cs) = gapsFrom p.templated.stop p.templated.start none cs := by
          rw [gaps, hp]
          rfl
        cases cs with
        | nil => exact absurd rfl inner
        | cons c rest =>
          have whole : (mk i (c :: rest)).raw = rawAll (c :: rest) := whole
          obtain ⟨new, hnew, hsize, hsame⟩ := exists_rewritesFrom (c :: rest) inside placed
            (w := { source := p.source.start, templated := p.templated.start }) (p := p)
            (fun _ => rfl) (gaps_eq ▸ cuts) below
          refine ⟨new, hnew, ?_, fun hkept => ?_⟩
          · rw [hsize, whole, List.flatMap_cons, gaps_eq, keptIn_append]
            simp [Nat.add_assoc]
          · rw [List.flatMap_cons, gaps_eq, keptIn_append] at hkept
            rw [hsame (by simp; omega) (by omega), whole, String.empty_append]

/-- What the patches of the segments of a node make of the text from where the walk is. -/
theorem exists_rewritesFrom (ss : List Segment) (hplain : ∀ s ∈ ss, s.IsPlain)
    (hplaced : ∀ s ∈ ss, s.position = none → s.raw = "") {w : Walk} {p : Position}
    (hw : w.added = "" → w.first = none)
    (hcuts : ∀ g ∈ gapsFrom p.templated.stop w.templated (w.first.map (·.templated.start)) ss,
      g.IsCut f.templated)
    (hopened : ∀ o ∈ openedAll f ss, o.IsOrdered f) :
    ∃ new, Patch.Rewrites f.templated w.templated p.templated.stop (patchesFrom f p w ss) new ∧
      new.utf8ByteSize = w.added.utf8ByteSize + (rawAll ss).utf8ByteSize +
        keptIn (gapsFrom p.templated.stop w.templated (w.first.map (·.templated.start)) ss) +
        keptIn ((openedAll f ss).flatMap gaps) ∧
      (keptIn (gapsFrom p.templated.stop w.templated (w.first.map (·.templated.start)) ss) = 0 →
        keptIn ((openedAll f ss).flatMap gaps) = 0 → new = w.added ++ rawAll ss) := by
  match ss with
  | [] =>
    have cut := (hcuts ⟨w.templated, none, p.templated.stop⟩ (List.mem_singleton.2 rfl)).1
    refine ⟨_, by rw [patchesFrom]; exact Walk.rewrites_endPatch cut, ?_, fun _ _ => ?_⟩
    · simp [rawAll, openedAll, gapsFrom, keptIn, Gap.kept, Gap.reach]
    · simp [rawAll]
  | s :: rest =>
    have restPlain : ∀ c ∈ rest, c.IsPlain := fun c hc => hplain c (List.mem_cons_of_mem _ hc)
    have restPlaced : ∀ c ∈ rest, c.position = none → c.raw = "" :=
      fun c hc => hplaced c (List.mem_cons_of_mem _ hc)
    cases hs : s.position with
    | none =>
      have noText := hplaced s (List.mem_cons_self ..) hs
      have noPlace : s.isAdded = false := by simp [isAdded, hs]
      have noWalk : s.opened f = [] := by
        cases s with
        | mk i cs =>
          have : i.position = none := hs
          rw [opened, this]
      simp only [patchesFrom, gapsFrom, openedAll, rawAll, hs, noText, noPlace, noWalk,
        Bool.false_eq_true, if_false, List.nil_append, String.empty_append] at hcuts hopened ⊢
      exact exists_rewritesFrom rest restPlain restPlaced hw hcuts hopened
    | some q =>
      cases hadded : s.isAdded with
      | true =>
        have text : (!s.raw.isEmpty && q.isPoint) = true := by simpa [isAdded, hs] using hadded
        have first : (w.first.or (some q)).map (·.templated.start) =
            (w.first.map (·.templated.start)).or (some q.templated.start) := by
          cases w.first <;> rfl
        simp only [patchesFrom, gapsFrom, openedAll, rawAll, hs, hadded, text, if_true]
          at hcuts hopened ⊢
        rw [← first] at hcuts ⊢
        obtain ⟨new, hnew, hsize, hsame⟩ := exists_rewritesFrom rest restPlain restPlaced (p := p)
          (w := { w with added := w.added ++ s.raw, first := w.first.or (some q) })
          (fun h => by simp_all) hcuts hopened
        refine ⟨new, hnew, ?_, fun hgaps hbelow => ?_⟩
        · rw [hsize]
          simp only [String.utf8ByteSize_append]
          omega
        · rw [hsame hgaps hbelow, String.append_assoc]
      | false =>
        have text : (!s.raw.isEmpty && q.isPoint) = false := by simpa [isAdded, hs] using hadded
        simp only [patchesFrom, gapsFrom, openedAll, rawAll, hs, hadded, text, Bool.false_eq_true,
          if_false, List.forall_mem_cons, List.forall_mem_append] at hcuts hopened ⊢
        obtain ⟨hgap, hlater⟩ := hcuts
        obtain ⟨hown, hrest⟩ := hopened
        obtain ⟨left, hleft, hkept⟩ := Walk.rewrites_gapPatch (q := q) hw rfl hgap
        have here : (q.templated.text? f.templated).isSome = true := by
          obtain ⟨next, hnext, hstart⟩ :=
            exists_gap_start p.templated.stop q.templated.stop none rest
          have stop := (isSome_slice?_iff.1 (hlater next hnext).1).2.1
          rw [hstart] at stop
          exact isSome_slice?_iff.2
            ⟨q.templated.start_le_stop, (isSome_slice?_iff.1 hgap.2).2.2, stop⟩
        obtain ⟨own, howns, hownSize, hownSame⟩ :=
          exists_rewrites s (hplain s (List.mem_cons_self ..)) hs here hown
        obtain ⟨later, hlaters, hlaterSize, hlaterSame⟩ := exists_rewritesFrom rest restPlain
          restPlaced (w := { source := q.source.stop, templated := q.templated.stop }) (p := p)
          (fun _ => rfl) hlater hrest
        refine ⟨_, (hleft.append howns).append hlaters, ?_, fun hgaps hbelow => ?_⟩
        · dsimp only at hlaterSize
          rw [Option.map_none] at hlaterSize
          simp only [String.utf8ByteSize_append, keptIn, List.flatMap_append, keptIn_append,
            hkept, hownSize, hlaterSize, String.utf8ByteSize_empty]
          omega
        · rw [keptIn] at hgaps
          rw [List.flatMap_append, keptIn_append] at hbelow
          rw [String.utf8ByteSize_eq_zero_iff.1 (hkept.trans (by omega)), String.append_empty,
            hownSame (by omega), hlaterSame (by dsimp only [Option.map_none]; omega) (by omega),
            String.empty_append, String.append_assoc]

end

end Segment

/-! ## 4. Trees of files -/

open Segment

/-- Positions that end at an offset or before. -/
theorem isRegion_within (n : Nat) : Position.IsRegion fun p => p.templated.stop ≤ n where
  startPoint h := Nat.le_trans (Span.start_le_stop _) h
  endPoint _ h := h
  join h h' := Nat.max_le.2 ⟨h, h'⟩

/-- The root of a tree reaches over the whole templated text, if parsing takes up all tokens. -/
theorem span_parse (p : Parser) (rules : List LexRule) (blocks : BlocksIndent) (f : TemplatedFile)
    (n m : Nat) {tokens : List Segment} (htokens : tokens = ((lex rules blocks f).run n).1.segments)
    (htaken : p.resumed tokens = p.firstCode tokens) :
    ∃ P, ((p.parse tokens).run m).1.tree.position = some P ∧ P.templated.start = 0 ∧
      P.templated.stop = f.length := by
  obtain ⟨within, nonempty⟩ := (meets_lex_within rules blocks f n (Nat.le_refl n)).1
  have tiles := tiles_lex rules blocks f n
  rw [← htokens] at within nonempty tiles
  have all : p.taken tokens = tokens := by rw [Parser.taken, htaken, List.take_append_drop]
  have occupies := (Parser.meets_parse_occupies p tokens (isRegion_within f.length)
    (all.symm ▸ within) m (Nat.le_refl m)).1.1
  rw [all] at occupies
  generalize ((p.parse tokens).run m).1.tree = tree at occupies ⊢
  have reaches (t : Segment) (ht : t ∈ tokens) : ∃ P q, tree.position = some P ∧
      t.position = some q ∧ P.Holds q := by
    obtain ⟨s, hs, P, q, hP, hq, holds⟩ := occupies.covers t ht
    rw [List.mem_singleton.1 hs] at hP
    exact ⟨P, q, hP, hq, holds⟩
  obtain ⟨t, ts, rfl⟩ := List.exists_cons_of_ne_nil nonempty
  obtain ⟨P, -, hP, -, -⟩ := reaches t (List.mem_cons_self ..)
  have stop := (occupies.allIn tree (List.mem_singleton.2 rfl)).own.2 P hP
  have ordered := P.templated.start_le_stop
  refine ⟨P, hP, ?_⟩
  rcases Nat.eq_zero_or_pos f.length with hempty | hsolid
  · omega
  · have inTree {u : Segment} (hu : u ∈ textTokens (t :: ts)) {q : Position}
        (hq : u.position = some q) : P.Holds q := by
      obtain ⟨P', q', hP', hq', holds⟩ := reaches u (List.mem_filter.1 hu).1
      rw [hP, Option.some.injEq] at hP'
      rw [hq, Option.some.injEq] at hq'
      rwa [hP', hq']
    obtain ⟨u, hu, q, hq, hfirst⟩ := tiles.exists_first hsolid
    obtain ⟨v, hv, r, hr, hlast⟩ := tiles.exists_last hsolid
    have := (inTree hu hq).1
    have := (inTree hv hr).2
    omega

/-- The patches of a tree that fixes without source fixes lead to make its text of the templated
text exactly if nothing that was removed stands behind added text in the gap before a segment. The
tree has to be of all tokens, and the segments that are walked in it must be in the order of the
templated text. -/
theorem make_patches_eq_raw_iff (p : Parser) (rules : List LexRule) (blocks : BlocksIndent)
    (f : TemplatedFile) (n m : Nat) {tokens : List Segment} {tree : Segment}
    (htokens : tokens = ((lex rules blocks f).run n).1.segments)
    (htaken : p.resumed tokens = p.firstCode tokens)
    (h : FixedFrom p ((p.parse tokens).run m).1.tree tree)
    (hordered : ∀ s ∈ tree.opened f, s.IsOrdered f) :
    Patch.make f.templated 0 (tree.patches f) = some tree.raw ↔
      ∀ s ∈ tree.opened f, ∀ g ∈ s.gaps, g.kept = 0 := by
  obtain ⟨P, hP, hstart, hstop⟩ := span_parse p rules blocks f n m htokens htaken
  have root : tree.position = some P := by
    rw [← hP]
    exact congrArg SegmentInfo.position h.info_eq
  have plain : tree.IsPlain := h.isPlain (htokens ▸ isPlain_parse p rules blocks f n m)
  have whole : P.templated.text? f.templated = some f.templated := by
    rw [Span.text?, hstart, hstop]
    exact TemplatedFile.slice?_whole _
  obtain ⟨new, hnew, hsize, hsame⟩ := exists_rewrites tree plain root (by rw [whole]; rfl) hordered
  rw [hstart, hstop] at hnew
  have kept : keptIn ((tree.opened f).flatMap gaps) = 0 ↔
      ∀ s ∈ tree.opened f, ∀ g ∈ s.gaps, g.kept = 0 := by
    rw [keptIn_eq_zero]
    simp only [List.mem_flatMap, forall_exists_index, and_imp]
    exact ⟨fun h s hs g hg => h g s hs hg, fun h g s hs hg => h s hs g hg⟩
  rw [hnew.make_eq, Option.some.injEq, ← kept]
  refine ⟨fun heq => ?_, hsame⟩
  rw [heq] at hsize
  omega

/-- A template that renders two letters of literal text and one of a tag. -/
def lettersSource : String := "ab\x7b\x7bx\x7d\x7d"

/-- The file of the template. -/
def lettersFile : TemplatedFile := rendered [("x", "c")] lettersSource

/-- The tokens of the template, one for each letter. -/
def lettersTokens : List Segment :=
  ((lex [wordRule "a", wordRule "b", wordRule "c"] .enabled lettersFile).run 0).1.segments

/-- The tree of the template. -/
def lettersTree : Segment :=
  (((Parser.ofBook nothingBook).parse lettersTokens).run 10).1.tree

/-- One edit of the segment with an identity. -/
def editPlan (id : Nat) (e : Edit) : FixPlan :=
  [(id, { fixes := [⟨e, .mk ⟨.file, "", [], id, none, []⟩ [], []⟩] })]

theorem isPlain_editPlan (id : Nat) {e : Edit} (h : sourceFixesAll e.new = []) :
    (editPlan id e).IsPlain := by
  intro g hg x hx
  rw [List.mem_singleton.1 hg] at hx
  rw [List.mem_singleton.1 hx]
  exact h

/-- The tree with another letter behind the first. -/
def lettersAdded : Segment :=
  let letter : Segment := .mk ⟨.token "d" .ofCode none, "word", ["word"], 100, none, []⟩ []
  ((lettersTree.applyFixes (Parser.ofBook nothingBook) (editPlan 0 (.insertAfter [letter]))).run
    200).1.1.segment

/-- The tree with another letter behind the first, and without the second. -/
def lettersFixed : Segment :=
  ((lettersAdded.applyFixes (Parser.ofBook nothingBook) (editPlan 1 .delete)).run 300).1.1.segment

theorem fixedFrom_lettersAdded :
    FixedFrom (Parser.ofBook nothingBook) lettersTree lettersAdded :=
  .step (editPlan 0 (.insertAfter _)) 200 .refl (isPlain_editPlan 0 rfl)

/-- A letter that is added to the tree is added to the text. -/
theorem make_patches_eq_raw_iff_added :
    Patch.make lettersFile.templated 0 (lettersAdded.patches lettersFile) =
      some lettersAdded.raw :=
  (make_patches_eq_raw_iff (Parser.ofBook nothingBook)
    [wordRule "a", wordRule "b", wordRule "c"] .enabled lettersFile 0 10
    (rfl : lettersTokens = _) (by decide +kernel) fixedFrom_lettersAdded (by decide +kernel)).2
      (by decide +kernel)

/-- The letter behind the added one is literal text, and when it is deleted from the tree it stays
in the text. -/
theorem make_patches_ne_raw :
    (Templater.placeholder [("x", "c")]).process lettersSource "" = .ok lettersFile ∧
      FixedFrom (Parser.ofBook nothingBook) lettersTree lettersFixed ∧
      (∀ s ∈ lettersAdded.leaves, s.id = 1 → s.position.any (·.isLiteral) = true) ∧
      Patch.make lettersFile.templated 0 (lettersFixed.patches lettersFile) = some "adbc" ∧
      lettersFixed.raw = "adc" := by
  have accepted : ((Templater.placeholder [("x", "c")]).process lettersSource "").isOk = true := by
    decide +kernel
  have literal : ∀ s ∈ lettersAdded.leaves, s.id = 1 → s.position.any (·.isLiteral) = true := by
    decide +kernel
  have made : Patch.make lettersFile.templated 0 (lettersFixed.patches lettersFile) =
      some "adbc" := by decide +kernel
  have raw : lettersFixed.raw = "adc" := by decide +kernel
  exact ⟨process_eq_rendered accepted,
    .step (editPlan 1 .delete) 300 fixedFrom_lettersAdded (isPlain_editPlan 1 rfl), literal, made,
    raw⟩

end QueryLint
