import QueryLint.Proofs.Pattern.Caseless
import QueryLint.Proofs.Rule.Ordinary

/-!
QueryLint.Proofs.Rule.Casing — the rule that brings keywords into one style.

Where no style is asked for, the rule goes along the words and strikes out the styles that a word
does not have. As long as one is left it only takes note of it; from the word on that strikes out
the last, all words are brought into the one that was noted before. No word before strikes it out,
so all of them have it already, and it is as if it had been asked for from the start: that is
`exists_style`. In the tree that is left every word has the style, which is never struck out then.

For this, a word that was brought into a style must have it. Keywords are spelled in ASCII, but what
is a keyword in upper case need not be: a dotless i becomes a plain one, and a ligature becomes
several letters. Lower case leaves such characters as they are, so a word is in lower case, or in
upper case, once it has been brought there. Where only the first letter is to be in upper case, a
ligature there becomes several letters, and the next time all but the first of these are taken back
to lower case. But no keyword is spelled in such characters alone if it starts with letters of that
kind, and none that has others is read as one word.

* `LetterCase.Steady` — words that keep every style they are brought into.
* `Rule.proposals_keywordCase`, `Rule.exists_style` — what the rule proposes.
* `Segment.SameButCase` — leaves that are the same but for the case of words.
* `Rule.settlesIn_keywordCase` — one round of the rule is enough.
* `Text.mem_of_upperChar_ascii` — the characters that are in ASCII in upper case.
* `LetterCase.steady_of_isPlainWord` — words that are plain in upper case keep every style.
-/

namespace QueryLint

open Segment

/-- A word that was brought into a style has it, and is the same in upper case. -/
def LetterCase.Steady (word : String) : Prop :=
  ∀ style : LetterCase, style.apply (style.apply word) = style.apply word ∧
    Text.upper (style.apply word) = Text.upper word

namespace Rule

variable {n : Nat} {tree : Segment} {ws : List Segment} {policy : CasePolicy} {style : LetterCase}

/-! ## 1. One style for all words -/

theorem mem_refutedWith {word : String} {refuted : List LetterCase} :
    style ∈ LetterCase.refutedWith word refuted ↔
      style ∈ refuted ∨ style.apply word ≠ word := by
  have mem : style ∈ LetterCase.all := by cases style <;> simp [LetterCase.all]
  simp [LetterCase.refutedWith, mem]

theorem recaseProposals_of_eq {s : Segment} (h : style.apply s.raw = s.raw) :
    recaseProposals style s = [] := if_pos h

theorem find_unrefuted_eq_none {refuted : List LetterCase} :
    LetterCase.all.find? (!refuted.contains ·) = none ↔ ∀ c, c ∈ refuted := by
  rw [List.find?_eq_none]
  constructor
  · intro h c
    simpa using h c (by cases c <;> simp [LetterCase.all])
  · exact fun h c _ => by simp [h c]

/-- How the rule goes on at a word, without a style that is asked for. -/
theorem wordTells_consistent {s : Segment} (hs : isCasedWord s = true) (m : Memory) :
    wordTells .consistent s m =
      match LetterCase.all.find? (!(LetterCase.refutedWith s.raw (knownStyles m).1).contains ·) with
      | some style => ([], .cases (LetterCase.refutedWith s.raw (knownStyles m).1) (some style))
      | none => (recaseProposals ((knownStyles m).2.getD .upper) s,
          .cases (LetterCase.refutedWith s.raw (knownStyles m).1) (knownStyles m).2) := by
  rw [wordTells, hs]
  rfl

theorem wordTells_of_not_cased {s : Segment} (hs : isCasedWord s = false) (policy : CasePolicy)
    (m : Memory) : wordTells policy s m = ([], m) := by
  rw [wordTells, hs]
  rfl

theorem proposalsFrom_fixed (m : Memory) : proposalsFrom (wordTells (.fixed style)) m ws =
    (ws.filter isCasedWord).flatMap (recaseProposals style) := by
  induction ws generalizing m with
  | nil => rfl
  | cons s ws ih =>
    rw [proposalsFrom, ih]
    cases hs : isCasedWord s with
    | false => simp [wordTells, hs]
    | true => simp [wordTells, hs]

/-- Once all styles are struck out, words are brought into the one that was noted last. -/
theorem proposalsFrom_refuted (m : Memory) (hall : ∀ c, c ∈ (knownStyles m).1) :
    proposalsFrom (wordTells .consistent) m ws =
      (ws.filter isCasedWord).flatMap (recaseProposals ((knownStyles m).2.getD .upper)) := by
  induction ws generalizing m with
  | nil => rfl
  | cons s ws ih =>
    cases hs : isCasedWord s with
    | false =>
      rw [proposalsFrom, wordTells_of_not_cased hs, ih m hall,
        List.filter_cons_of_neg (by simp [hs])]
      rfl
    | true =>
      have all : ∀ c, c ∈ LetterCase.refutedWith s.raw (knownStyles m).1 :=
        fun c => mem_refutedWith.2 (.inl (hall c))
      have tells : wordTells .consistent s m = (recaseProposals ((knownStyles m).2.getD .upper) s,
          .cases (LetterCase.refutedWith s.raw (knownStyles m).1) (knownStyles m).2) := by
        rw [wordTells_consistent hs, find_unrefuted_eq_none.2 all]
      rw [proposalsFrom, tells, List.filter_cons_of_pos hs, List.flatMap_cons]
      exact congrArg _ (ih (.cases (LetterCase.refutedWith s.raw (knownStyles m).1)
        (knownStyles m).2) all)

/-- As long as the style that was noted last is not struck out, there is one that is not, into which
all words are brought. -/
theorem exists_unrefuted (m : Memory) (hleft : (knownStyles m).2.getD .upper ∉ (knownStyles m).1) :
    ∃ style, style ∉ (knownStyles m).1 ∧ proposalsFrom (wordTells .consistent) m ws =
      (ws.filter isCasedWord).flatMap (recaseProposals style) := by
  induction ws generalizing m with
  | nil => exact ⟨_, hleft, rfl⟩
  | cons s ws ih =>
    cases hs : isCasedWord s with
    | false =>
      rw [proposalsFrom, wordTells_of_not_cased hs, List.filter_cons_of_neg (by simp [hs])]
      exact ih m hleft
    | true =>
      rw [proposalsFrom, wordTells_consistent hs, List.filter_cons_of_pos hs]
      cases hfound : LetterCase.all.find?
          (!(LetterCase.refutedWith s.raw (knownStyles m).1).contains ·) with
      | some noted =>
        have unrefuted : noted ∉ LetterCase.refutedWith s.raw (knownStyles m).1 := by
          simpa using List.find?_some hfound
        obtain ⟨style, hstyle, rest⟩ := ih
          (.cases (LetterCase.refutedWith s.raw (knownStyles m).1) (some noted)) unrefuted
        have kept := mt mem_refutedWith.2 hstyle
        rw [not_or, not_not] at kept
        refine ⟨style, kept.1, ?_⟩
        rw [List.flatMap_cons, recaseProposals_of_eq kept.2]
        exact rest
      | none =>
        refine ⟨_, hleft, ?_⟩
        rw [List.flatMap_cons]
        exact congrArg _ (proposalsFrom_refuted
          (.cases (LetterCase.refutedWith s.raw (knownStyles m).1) (knownStyles m).2)
          (find_unrefuted_eq_none.1 hfound))

/-- All words are brought into one style. -/
theorem exists_style (policy : CasePolicy) (ws : List Segment) :
    ∃ style, (∀ s, policy = .fixed s → s = style) ∧
      proposalsFrom (wordTells policy) .empty ws =
        (ws.filter isCasedWord).flatMap (recaseProposals style) := by
  cases policy with
  | fixed style => exact ⟨style, by rintro _ ⟨⟩; rfl, proposalsFrom_fixed _⟩
  | consistent =>
    obtain ⟨style, -, all⟩ := @exists_unrefuted ws .empty (by simp [knownStyles])
    exact ⟨style, by simp, all⟩

/-- Where all words have a style, nothing is proposed, unless another one is asked for. -/
theorem proposalsFrom_eq_nil (hpolicy : ∀ s, policy = .fixed s → s = style)
    (hws : ∀ w ∈ ws, isCasedWord w = true → style.apply w.raw = w.raw) (m : Memory)
    (hm : style ∉ (knownStyles m).1) : proposalsFrom (wordTells policy) m ws = [] := by
  cases policy with
  | fixed s =>
    obtain rfl := hpolicy s rfl
    rw [proposalsFrom_fixed, List.flatMap_eq_nil_iff]
    intro w hw
    obtain ⟨hw, cased⟩ := List.mem_filter.1 hw
    exact recaseProposals_of_eq (hws w hw cased)
  | consistent =>
    induction ws generalizing m with
    | nil => rfl
    | cons s ws ih =>
      obtain ⟨hs, hrest⟩ := List.forall_mem_cons.1 hws
      cases hcased : isCasedWord s with
      | false => rw [proposalsFrom, wordTells_of_not_cased hcased, ih hrest m hm]; rfl
      | true =>
        have unrefuted : style ∉ LetterCase.refutedWith s.raw (knownStyles m).1 :=
          mt mem_refutedWith.1 (by simp [hm, hs hcased])
        rw [proposalsFrom, wordTells_consistent hcased]
        cases hfound : LetterCase.all.find?
            (!(LetterCase.refutedWith s.raw (knownStyles m).1).contains ·) with
        | some noted =>
          exact ih hrest (.cases (LetterCase.refutedWith s.raw (knownStyles m).1) (some noted))
            unrefuted
        | none => exact absurd (find_unrefuted_eq_none.1 hfound style) unrefuted

/-! ## 2. The words of a tree -/

/-- The types of words that the rule looks at. -/
def wordTypes : List String := ["keyword", "binary_operator"]

/-- The leaves of these types that are shown. -/
def wordsShown (t : Segment) : List Segment :=
  (((t.exhibits true).filter (·.2)).map (·.1)).filter (·.isAnyType wordTypes)

theorem mem_wordsShown {t w : Segment} :
    w ∈ wordsShown t ↔ (w, true) ∈ t.exhibits true ∧ w.isAnyType wordTypes = true := by
  simp [wordsShown]

theorem wordsShown_sublist (t : Segment) : (wordsShown t).Sublist t.leaves := by
  rw [← map_fst_exhibits true]
  exact List.filter_sublist.trans (List.filter_sublist.map _)

/-- What the rule proposes in a tree. -/
theorem proposals_keywordCase {t : Segment} (htree : t.isTree = true) :
    proposalsFrom (fun s m => wordTells policy s.segment m) .empty ((keywordCase policy).sites t) =
      proposalsFrom (wordTells policy) .empty (wordsShown t) := by
  have quiet : ∀ (s : Site) m, s.segment.isLeaf = false →
      wordTells policy s.segment m = ([], m) := fun s m hleaf =>
    wordTells_of_not_cased (by simp [isCasedWord, hleaf]) policy m
  have sites : ((keywordCase policy).sites t).filter (·.segment.isLeaf) =
      ((t.sites false).filter (·.segment.isLeaf)).filter (·.segment.isAnyType wordTypes) := by
    rw [Rule.sites, List.filter_comm]
    rfl
  have visited := congrArg (List.map (·.1)) (visits_exhibits [] [] [] [] t htree)
  rw [List.map_map, map_fst_visits] at visited
  rw [← proposalsFrom_filter quiet, sites, ← proposalsFrom_map (fun s : Site => s.segment),
    wordsShown, ← visited, List.filter_map]
  rfl

theorem isAlphabetic_of_isCasedWord {w : Segment} (h : isCasedWord w = true) :
    w.isLeaf = true ∧ w.raw.toList.any Text.isAlphabetic = true := by
  rw [isCasedWord, Bool.and_eq_true, Bool.and_eq_true] at h
  exact h.1

/-- In an ordinary tree, words with letters count. -/
theorem isCasedWord_of_mem (h : Ordinary n tree) {w : Segment} (hw : w ∈ tree.leaves)
    (hletters : w.raw.toList.any Text.isAlphabetic = true) : isCasedWord w = true := by
  have leaf := isLeaf_of_mem_leaves tree hw
  have token : w.isMarker = false := by
    obtain ⟨⟨kind, type, types, id, position, fixes⟩, cs⟩ := w
    cases kind with
    | marker m => simp [raw] at hletters
    | token | node | bracketed | unparsable | file => rfl
  have literal := h.literal w hw token
  rw [isCasedWord, leaf, hletters]
  cases hposition : w.position with
  | none => rfl
  | some p => simpa [hposition] using literal

theorem mem_recaseProposals {p : Proposal} {w : Segment} :
    p ∈ recaseProposals style w ↔
      p = .respell w (style.apply w.raw) ∧ style.apply w.raw ≠ w.raw := by
  unfold recaseProposals
  split <;> simp_all

/-- What is proposed to bring the words of a tree into a style. -/
def recased (style : LetterCase) (t : Segment) : List Proposal :=
  ((wordsShown t).filter isCasedWord).flatMap (recaseProposals style)

theorem mem_recased {p : Proposal} :
    p ∈ recased style tree ↔ ∃ w ∈ wordsShown tree, isCasedWord w = true ∧
      p = .respell w (style.apply w.raw) ∧ style.apply w.raw ≠ w.raw := by
  simp only [recased, List.mem_flatMap, List.mem_filter, mem_recaseProposals, and_assoc]

theorem admits_recased (h : Ordinary n tree) : tree.Admits (recased style tree) where
  apart := by
    have anchors (us : List Segment) :
        ((us.flatMap (recaseProposals style)).map (·.anchor)).Sublist us := by
      induction us with
      | nil => exact List.Sublist.slnil
      | cons u us ih =>
        rw [List.flatMap_cons, List.map_append]
        unfold recaseProposals
        split
        · exact ih.cons u
        · exact ih.cons_cons u
    have sublist := (anchors ((wordsShown tree).filter isCasedWord)).trans
      (List.filter_sublist.trans ((wordsShown_sublist tree).trans h.leaves_sublist))
    have := h.nodup_map_id sublist
    rwa [List.map_map] at this
  anchors p hp := by
    obtain ⟨w, hw, -, rfl, -⟩ := mem_recased.1 hp
    exact h.leaves_sublist.subset ((wordsShown_sublist tree).subset hw)
  takes p hp _ := by
    obtain ⟨w, -, cased, rfl, -⟩ := mem_recased.1 hp
    exact (isAlphabetic_of_isCasedWord cased).1

theorem respects_recased : tree.Respects (recased style tree) where
  drop s hs := by
    obtain ⟨w, -, -, hp, -⟩ := mem_recased.1 hs
    cases hp
  space s hs := by
    obtain ⟨w, -, -, hp, -⟩ := mem_recased.1 hs
    cases hp
  newline s hs := by
    obtain ⟨w, -, -, hp, -⟩ := mem_recased.1 hs
    cases hp

end Rule

/-! ## 3. One round -/

/-- A leaf that is the same, or a word that is the same in upper case. -/
def Segment.SameWord (x y : Segment) : Prop :=
  y.unplaced = x.unplaced ∨ x.isAnyType Rule.wordTypes = true ∧
    ∃ text k, Text.upper text = Text.upper x.raw ∧
      y.unplaced = ((x.unplaced.edit (some text) none).run k).1

/-- The leaves are the same in the same order, but for the case of words. -/
def Segment.SameButCase (tree fixed : Segment) : Prop :=
  List.Forall₂ SameWord tree.leaves fixed.leaves

namespace Rule

variable {n : Nat} {tree : Segment} {ws : List Segment} {policy : CasePolicy} {style : LetterCase}

theorem unplaced_edit (s : Segment) (text : String) (k : Nat) :
    ((s.edit (some text) none).run k).1.unplaced = ((s.unplaced.edit (some text) none).run k).1 := by
  obtain ⟨⟨kind, type, types, id, position, fixes⟩, cs⟩ := s
  cases kind <;> rfl

section OneRound

variable (h : Ordinary n tree) {plan : FixPlan} (hmade : tree.Made n (recased style tree) plan)

include h hmade

/-- What is left of a leaf, if words are brought into a style. -/
theorem spot_recased {w : Segment} (hw : w ∈ tree.leaves) :
    (w ∈ wordsShown tree ∧ isCasedWord w = true ∧ ∃ k,
      plan.spotOf w = [((w.edit (some (style.apply w.raw)) none).run k).1]) ∨
    plan.spotOf w = [w] ∧
      (w ∈ wordsShown tree → isCasedWord w = true → style.apply w.raw = w.raw) := by
  rcases hmade.spot w (h.leaves_sublist.subset hw) with
    ⟨p, hp, hanchor, k, -, hspot⟩ | ⟨hnone, hspot⟩
  · obtain ⟨u, hu, cased, rfl, -⟩ := mem_recased.1 hp
    obtain rfl : u = w := hanchor
    exact .inl ⟨hu, cased, k, hspot u rfl⟩
  · refine .inr ⟨hspot w rfl, fun hshown hcased => ?_⟩
    by_contra hstyle
    exact hnone _ (mem_recased.2 ⟨w, hshown, hcased, rfl, hstyle⟩) rfl

variable {fixed : Segment} (stands : fixed.Stands (plan.remade tree))
  (hsteady : ∀ w ∈ tree.leaves, w.isAnyType wordTypes = true → LetterCase.Steady w.raw)

include hsteady

/-- Words that are brought into a style are the same in upper case. -/
theorem forall₂_sameWord {us vs : List Segment} (hus : ∀ u ∈ us, u ∈ tree.leaves)
    (hvs : vs.map unplaced = (us.flatMap plan.spotOf).map unplaced) :
    List.Forall₂ SameWord us vs := by
  induction us generalizing vs with
  | nil => simpa using hvs
  | cons u us ih =>
    obtain ⟨hu, hrest⟩ := List.forall_mem_cons.1 hus
    rw [List.flatMap_cons, List.map_append] at hvs
    rcases spot_recased h hmade hu with ⟨hshown, -, k, hspot⟩ | ⟨hspot, -⟩
    · rw [hspot, List.map_singleton, List.singleton_append, List.map_eq_cons_iff] at hvs
      obtain ⟨v, vs, rfl, hv, hvs⟩ := hvs
      have type := (mem_wordsShown.1 hshown).2
      refine .cons (.inr ⟨type, style.apply u.raw, k, (hsteady u hu type style).2, ?_⟩)
        (ih hrest hvs)
      rw [hv, unplaced_edit]
    · rw [hspot, List.map_singleton, List.singleton_append, List.map_eq_cons_iff] at hvs
      obtain ⟨v, vs, rfl, hv, hvs⟩ := hvs
      exact .cons (.inl hv) (ih hrest hvs)

include stands

theorem sameButCase_recased : tree.SameButCase fixed := by
  refine forall₂_sameWord h hmade hsteady (fun _ hu => hu) ?_
  rw [← leaves_unplaced, stands.unplaced_eq, leaves_unplaced, hmade.leaves_remade h fun p hp =>
    (admits_recased h).takes p hp ?_]
  obtain ⟨w, -, -, rfl, -⟩ := mem_recased.1 hp
  rfl

/-- Every word of the tree that is left has the style. It stood in the tree before, in the style or
not. -/
theorem style_recased {v : Segment} (hv : v ∈ wordsShown fixed) (hcased : isCasedWord v = true) :
    style.apply v.raw = v.raw := by
  obtain ⟨hshown, htype⟩ := mem_wordsShown.1 hv
  have member := List.mem_map_of_mem (f := fun e : Segment × Bool => (e.1.unplaced, e.2)) hshown
  rw [stands.exhibits_eq, hmade.exhibits_remade h fun p hp =>
    (admits_recased h).takes p hp ?_] at member
  swap
  · obtain ⟨w, -, -, rfl, -⟩ := mem_recased.1 hp
    rfl
  obtain ⟨e, he, heq⟩ := List.mem_map.1 member
  obtain ⟨⟨w, shown⟩, hw, he⟩ := List.mem_flatMap.1 he
  obtain ⟨t, ht, rfl⟩ := List.mem_map.1 he
  obtain ⟨hsame, rfl⟩ := Prod.mk.inj heq
  have leaf : w ∈ tree.leaves := mem_leaves_of_mem_exhibits hw
  have raws : v.raw = t.raw := by rw [← raw_unplaced v, ← raw_unplaced t, hsame]
  have types : t.isAnyType wordTypes = true := by
    rw [← htype, isAnyType, isAnyType]
    refine congrArg wordTypes.any (funext fun type => ?_)
    rw [← isType_unplaced t, hsame, isType_unplaced]
  rw [raws]
  rcases spot_recased h hmade leaf with ⟨hshown', hcased', k, hspot⟩ | ⟨hspot, hstyle⟩
  · rw [hspot] at ht
    obtain rfl := List.mem_singleton.1 ht
    rw [raw_edit (isAlphabetic_of_isCasedWord hcased').1 (isMarker_of_isCasedWord hcased')]
    exact (hsteady w leaf (mem_wordsShown.1 hshown').2 style).1
  · rw [hspot] at ht
    obtain rfl := List.mem_singleton.1 ht
    refine hstyle (mem_wordsShown.2 ⟨hw, types⟩) (isCasedWord_of_mem h leaf ?_)
    rw [← raws]
    exact (isAlphabetic_of_isCasedWord hcased).2

end OneRound

/-- Keywords are brought into one style in one round. -/
theorem settlesIn_keywordCase (h : Ordinary n tree)
    (hsteady : ∀ w ∈ tree.leaves, w.isAnyType wordTypes = true → LetterCase.Steady w.raw)
    (policy : CasePolicy) (p : Parser) (source name : String) :
    (keywordCase policy).SettlesIn p (.ofString source name) tree n tree.SameButCase := by
  obtain ⟨style, hpolicy, proposals⟩ := exists_style policy (wordsShown tree)
  have proposed : proposalsFrom (fun s m => wordTells policy s.segment m) .empty
      ((keywordCase policy).sites tree) = recased style tree :=
    (proposals_keywordCase h.isTree).trans proposals
  refine (tells_keywordCase policy).settlesIn rfl h (proposed ▸ admits_recased h)
    (proposed ▸ respects_recased) (fun plan fixed hmade stands => ?_) p source name
  rw [proposed] at hmade
  refine ⟨sameButCase_recased h hmade stands hsteady, ?_⟩
  rw [proposals_keywordCase stands.isTree]
  exact proposalsFrom_eq_nil hpolicy (fun v hv => style_recased h hmade stands hsteady hv) .empty
    (by simp [knownStyles])

end Rule

namespace Text

/-! ## 4. Characters that are in ASCII in upper case -/

/-- Characters that become one letter of ASCII in upper case. -/
def looseLetters : List Char := ['ı', 'ſ']

/-- Characters that become several letters of ASCII in upper case. -/
def ligatures : List Char := ['ß', 'ﬀ', 'ﬁ', 'ﬂ', 'ﬃ', 'ﬄ', 'ﬅ', 'ﬆ']

/-- A code point of a character. -/
theorem toNat_ofNat {n : Nat} (h : n.isValidChar) : (Char.ofNat n).toNat = n := by
  unfold Char.ofNat
  rw [dif_pos h]
  rfl

/-- Beyond ASCII, the shifts of two characters lead there. -/
theorem upperShifts_ascii : ∀ e ∈ upperShifts, e.2.1 < 0x80 ∨
    (e.1 = e.2.1 ∧ Char.ofNat e.1 ∈ looseLetters) ∨
    0x80 ≤ e.2.2.2 ∧ e.2.2.2.isValidChar ∧ (e.2.1 - e.1 + e.2.2.2).isValidChar ∧
      (e.2.2.2 < 0xD800 → e.2.1 - e.1 + e.2.2.2 < 0xD800) := by
  decide +kernel

/-- The expansions of some characters lead there. -/
theorem upperExpansions_ascii : ∀ e ∈ upperExpansions,
    Char.ofNat e.1 ∈ ligatures ∨ ∃ n ∈ e.2, 0x80 ≤ n ∧ n.isValidChar := by
  decide +kernel

/-- What is in ASCII in upper case is in ASCII, or one of a few characters. -/
theorem mem_of_upperChar_ascii {c : Char} (h : ∀ d ∈ upperChar c, d.toNat < 0x80) :
    c.toNat < 0x80 ∨ c ∈ looseLetters ∨ c ∈ ligatures := by
  unfold upperChar at h
  split at h
  · next hascii => exact .inl hascii
  next hbeyond =>
  unfold mapped at h
  split at h
  · next n hshifted =>
    obtain ⟨⟨low, high, step, target⟩, hfound, rfl⟩ := Option.map_eq_some_iff.1 hshifted
    have inside := List.find?_some hfound
    simp only [Bool.and_eq_true, decide_eq_true_eq] at inside
    rcases upperShifts_ascii _ (List.mem_of_find?_eq_some hfound) with hhigh | ⟨heq, hloose⟩ |
        ⟨htarget, hstart, hvalid, hgap⟩
    · dsimp only at hhigh
      omega
    · dsimp only at heq hloose
      rw [show low = c.toNat by omega, Char.ofNat_toNat] at hloose
      exact .inr (.inl hloose)
    · dsimp only at htarget hstart hvalid hgap
      have valid : (c.toNat - low + target).isValidChar := by
        unfold Nat.isValidChar at hstart hvalid ⊢
        omega
      have small := h _ (List.mem_singleton_self _)
      rw [toNat_ofNat valid] at small
      omega
  · split at h
    · next ns hlookup =>
      obtain ⟨front, back, heq, -⟩ := List.lookup_eq_some_iff.1 hlookup
      have member : (c.toNat, ns) ∈ upperExpansions := by simp [heq]
      rcases upperExpansions_ascii _ member with hligature | ⟨n, hn, hlarge, hvalid⟩
      · rw [Char.ofNat_toNat] at hligature
        exact .inr (.inr hligature)
      · have small := h _ (List.mem_map_of_mem hn)
        rw [toNat_ofNat hvalid] at small
        omega
    · exact absurd (h c (by simp)) hbeyond

/-- A character of ASCII, or one that is there in upper case. -/
def IsNearAscii (c : Char) : Prop := c.toNat < 0x80 ∨ c ∈ looseLetters ∨ c ∈ ligatures

/-- What holds of the characters of ASCII. -/
theorem of_ascii {P : Char → Prop} (h : ∀ n : Fin 0x80, P (Char.ofNat n)) {c : Char}
    (hc : c.toNat < 0x80) : P c := by
  have := h ⟨c.toNat, hc⟩
  rwa [Char.ofNat_toNat] at this

/-- What a test finds of some characters. -/
theorem forall_mem_of_all {cs : List Char} {P : Char → Prop} [DecidablePred P]
    (h : (cs.all fun c => decide (P c)) = true) : ∀ c ∈ cs, P c :=
  fun c hc => of_decide_eq_true (List.all_eq_true.1 h c hc)

theorem toLower_toLower (c : Char) : c.toLower.toLower = c.toLower :=
  toLower_invariant (by decide) c

namespace IsNearAscii

variable {c : Char} {cs : List Char}

theorem toLower (h : IsNearAscii c) : IsNearAscii c.toLower := by
  rcases h with hascii | hloose | hligature
  · exact .inl (of_ascii (P := fun c => c.toLower.toNat < 0x80) (by decide) hascii)
  · have same : ∀ c ∈ looseLetters, c.toLower = c := forall_mem_of_all (by decide)
    rw [same c hloose]
    exact .inr (.inl hloose)
  · have same : ∀ c ∈ ligatures, c.toLower = c := forall_mem_of_all (by decide)
    rw [same c hligature]
    exact .inr (.inr hligature)

/-- In lower case it is a single character. -/
theorem lowerChar_eq (h : IsNearAscii c) : lowerChar c = [c.toLower] := by
  rcases h with hascii | hloose | hligature
  · exact if_pos hascii
  · have single : ∀ c ∈ looseLetters, lowerChar c = [c.toLower] :=
      forall_mem_of_all (by decide +kernel)
    exact single c hloose
  · have single : ∀ c ∈ ligatures, lowerChar c = [c.toLower] :=
      forall_mem_of_all (by decide +kernel)
    exact single c hligature

theorem ne_sigma (h : IsNearAscii c) : c ≠ 'Σ' := by
  rintro rfl
  revert h
  unfold IsNearAscii
  decide

theorem lowerAfter_eq (h : ∀ c ∈ cs, IsNearAscii c) (before : List Char) :
    lowerAfter before cs = cs.map Char.toLower := by
  induction cs generalizing before with
  | nil => rfl
  | cons c cs ih =>
    obtain ⟨hc, hcs⟩ := List.forall_mem_cons.1 h
    rw [lowerAfter, if_neg hc.ne_sigma, hc.lowerChar_eq, ih hcs]
    rfl

end IsNearAscii

/-- Upper case does not tell characters from their lower case in ASCII. -/
theorem flatMap_upperChar_map_toLower (cs : List Char) :
    (cs.map Char.toLower).flatMap upperChar = cs.flatMap upperChar := by
  rw [List.flatMap_map]
  exact List.flatMap_congr fun c _ => upperChar_toLower c

end Text

namespace LetterCase

open Text

/-! ## 5. Words that keep every style -/

/-- Pairs of letters that a ligature may stand for. -/
def ligaturePairs : List (List Char) := ["FF", "FI", "FL", "SS", "ST"].map (·.toList)

/-- The letters that other characters of a word may stand for. -/
def looseTargets : List Char := "FILST".toList

/-- Texts that keywords may have in upper case: letters of ASCII, or signs. If one starts with
letters that a ligature may stand for, there is a letter in it that nothing else stands for. -/
def isPlainWord (text : String) : Bool :=
  text.toList.all (fun c => decide (c.toNat < 0x80) && c.toUpper == c) &&
    (!ligaturePairs.contains (text.toList.take 2) ||
      text.toList.any fun c => c.isAlpha && !looseTargets.contains c)

/-- A word of ASCII in upper case is in upper case. -/
theorem upper_of_ascii {cs : List Char} (h : ∀ c ∈ cs, c.toNat < 0x80 ∧ c.toUpper = c) :
    cs.flatMap upperChar = cs := by
  conv_rhs => rw [← List.flatMap_singleton' cs]
  refine List.flatMap_congr fun c hc => ?_
  rw [upperChar, if_pos (h c hc).1, (h c hc).2]

/-- What is in the upper case of a character near ASCII that is no letter of ASCII. -/
theorem mem_looseTargets {c d : Char} (h : IsNearAscii c) (hletter : c.isAlpha = false)
    (hd : d ∈ upperChar c) (halpha : d.isAlpha = true) : d ∈ looseTargets := by
  rcases h with hascii | hloose | hligature
  · rw [upperChar, if_pos hascii, List.mem_singleton] at hd
    have alpha : ∀ c : Char, c.toNat < 0x80 → c.toUpper.isAlpha = true → c.isAlpha = true :=
      fun c => of_ascii (P := fun c => c.toUpper.isAlpha = true → c.isAlpha = true) (by decide)
    rw [alpha c hascii (hd ▸ halpha)] at hletter
    cases hletter
  · have targets : ∀ d ∈ looseLetters.flatMap upperChar, d ∈ looseTargets :=
      forall_mem_of_all (by decide +kernel)
    exact targets d (List.mem_flatMap.2 ⟨c, hloose, hd⟩)
  · have targets : ∀ d ∈ ligatures.flatMap upperChar, d ∈ looseTargets :=
      forall_mem_of_all (by decide +kernel)
    exact targets d (List.mem_flatMap.2 ⟨c, hligature, hd⟩)

/-- In a word whose upper case is spelled plainly, no ligature at the start is followed by
characters that are no letters of ASCII only. -/
theorem not_mem_ligatures {c : Char} {cs : List Char}
    (h : isPlainWord (String.ofList ((c :: cs).flatMap upperChar)) = true)
    (hnear : ∀ d ∈ c :: cs, IsNearAscii d) (hrest : c ∈ ligatures → ∀ d ∈ cs, d.isAlpha = false) :
    c ∉ ligatures := by
  intro hligature
  have start : ∀ c ∈ ligatures,
      ligaturePairs.contains ((upperChar c).take 2) = true ∧ 2 ≤ (upperChar c).length ∧
        c.isAlpha = false :=
    forall_mem_of_all (by decide +kernel)
  obtain ⟨hpair, hlength, hsign⟩ := start c hligature
  rw [isPlainWord, String.toList_ofList, Bool.and_eq_true, List.flatMap_cons,
    List.take_append_of_le_length hlength, hpair] at h
  obtain ⟨d, hd, htarget⟩ := List.any_eq_true.1 h.2
  rw [Bool.and_eq_true, Bool.not_eq_true'] at htarget
  have target : d ∈ looseTargets := by
    rcases List.mem_append.1 hd with hd | hd
    · exact mem_looseTargets (hnear c (by simp)) hsign hd htarget.1
    · obtain ⟨e, he, hd⟩ := List.mem_flatMap.1 hd
      exact mem_looseTargets (hnear e (by simp [he])) (hrest hligature e he) hd htarget.1
  rw [List.contains_iff_mem.2 target] at htarget
  cases htarget.2

theorem upper_ofList (cs : List Char) :
    Text.upper (String.ofList cs) = String.ofList (cs.flatMap upperChar) := by
  rw [Text.upper, String.toList_ofList]

theorem lower_ofList {cs : List Char} (h : ∀ c ∈ cs, IsNearAscii c) :
    Text.lower (String.ofList cs) = String.ofList (cs.map Char.toLower) := by
  rw [Text.lower, String.toList_ofList, IsNearAscii.lowerAfter_eq h]

theorem capitalise_ofList {c d : Char} {cs : List Char} (hc : upperChar c = [d])
    (h : ∀ c ∈ cs, IsNearAscii c) :
    capitalise.apply (String.ofList (c :: cs)) = String.ofList (d :: cs.map Char.toLower) := by
  have rest : cs.flatMap lowerChar = cs.map Char.toLower := by
    rw [List.map_eq_flatMap]
    exact List.flatMap_congr fun c hc => (h c hc).lowerChar_eq
  rw [← rest, LetterCase.apply, String.toList_ofList]
  show String.ofList (upperChar c ++ cs.flatMap lowerChar) = _
  rw [hc]
  rfl

theorem map_toLower_map_toLower (cs : List Char) :
    (cs.map Char.toLower).map Char.toLower = cs.map Char.toLower := by
  rw [List.map_map]
  exact List.map_congr_left fun c _ => toLower_toLower c

/-- The words whose upper case is spelled plainly keep every style, if no ligature at the start of
one is followed by letters. -/
theorem steady_of_isPlainWord {word : String} (h : isPlainWord (Text.upper word) = true)
    (hstart : ∀ c cs, word.toList = c :: cs → c ∈ ligatures → ∀ d ∈ cs, d.isAlpha = false) :
    Steady word := by
  have whole : String.ofList word.toList = word := String.ofList_toList
  generalize word.toList = cs at whole hstart
  subst whole
  rw [upper_ofList] at h
  have plain : ∀ d ∈ cs.flatMap upperChar, d.toNat < 0x80 ∧ d.toUpper = d := by
    rw [isPlainWord, String.toList_ofList, Bool.and_eq_true, List.all_eq_true] at h
    simpa using h.1
  have near : ∀ c ∈ cs, IsNearAscii c := fun c hc =>
    mem_of_upperChar_ascii fun d hd => (plain d (List.mem_flatMap.2 ⟨c, hc, hd⟩)).1
  have near_lower : ∀ c ∈ cs.map Char.toLower, IsNearAscii c :=
    List.forall_mem_map.2 fun c hc => (near c hc).toLower
  intro style
  cases style with
  | upper =>
    show Text.upper (Text.upper _) = Text.upper _ ∧ Text.upper (Text.upper _) = Text.upper _
    rw [upper_ofList, upper_ofList, upper_of_ascii plain]
    exact ⟨rfl, rfl⟩
  | lower =>
    show Text.lower (Text.lower _) = Text.lower _ ∧ Text.upper (Text.lower _) = Text.upper _
    rw [lower_ofList near, lower_ofList near_lower, map_toLower_map_toLower, upper_ofList,
      upper_ofList, flatMap_upperChar_map_toLower]
    exact ⟨rfl, rfl⟩
  | capitalise =>
    cases cs with
    | nil => exact ⟨rfl, rfl⟩
    | cons c cs =>
      obtain ⟨hc, hcs⟩ := List.forall_mem_cons.1 near
      -- the first character becomes a single one
      obtain ⟨d, hd⟩ : ∃ d, upperChar c = [d] := by
        rcases hc with hascii | hloose | hligature
        · exact ⟨c.toUpper, if_pos hascii⟩
        · have single : ∀ c ∈ looseLetters, upperChar c = ['I'] ∨ upperChar c = ['S'] :=
            forall_mem_of_all (by decide +kernel)
          exact (single c hloose).elim (⟨_, ·⟩) (⟨_, ·⟩)
        · exact absurd hligature (not_mem_ligatures h near (hstart c cs rfl))
      have capital : d.toNat < 0x80 ∧ d.toUpper = d := plain d (by simp [hd])
      have upper_d : upperChar d = [d] := by rw [upperChar, if_pos capital.1, capital.2]
      rw [capitalise_ofList hd hcs,
        capitalise_ofList upper_d (List.forall_mem_cons.1 near_lower).2, map_toLower_map_toLower,
        upper_ofList, upper_ofList, List.flatMap_cons, List.flatMap_cons, upper_d, hd,
        flatMap_upperChar_map_toLower]
      exact ⟨rfl, rfl⟩

/-- The empty word has every style. -/
theorem steady_empty : Steady "" := by
  intro style
  cases style <;> decide

end LetterCase

end QueryLint
