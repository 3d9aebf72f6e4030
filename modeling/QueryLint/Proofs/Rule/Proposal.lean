import QueryLint.Proofs.Rule.View

/-!
QueryLint.Proofs.Rule.Proposal — what the rules ask for, without the identities that they draw.

The changes that the rules of the library ask for are of four kinds. A proposal is such a change to
one segment; it becomes a fix as soon as there is an identity for what it brings in. What a rule
proposes at a site, and what it remembers from there on, is then a function of the site and the
memory, and what it asks for in a tree is read off the sites one after the other. A rule that
proposes nothing in a tree finds nothing in it.

* `Proposal`, `Proposal.fixAt` — changes, and the fixes that they become.
* `proposalsFrom` — the proposals along some places, each told by what is remembered there.
* `Rule.Tells` — what a rule proposes and remembers is such a function.
* `Rule.Tells.crawl`, `Rule.Tells.findsNothing` — so is what it finds in a tree.
* `Rule.tells_trailingWhitespace`, … — the rules of the library.
-/

namespace QueryLint

open Segment

/-! ## 1. Changes without identities -/

/-- A change to one segment, but for the identity of what it brings in. -/
inductive Proposal where
  /-- The segment is taken away. -/
  | drop (s : Segment)
  /-- The segment gets another text. -/
  | respell (s : Segment) (text : String)
  /-- A space is put in front of the segment. -/
  | spaceBefore (s : Segment)
  /-- A line end is put behind the segment. -/
  | newlineAfter (s : Segment)

namespace Proposal

/-- The segment that is changed. -/
def anchor : Proposal → Segment
  | drop s | respell s _ | spaceBefore s | newlineAfter s => s

/-- The fix that is made when the counter of identities stands at `k`. -/
def fixAt (k : Nat) : Proposal → Fix
  | drop s => .delete s
  | respell s text => .replace s [((s.edit (some text) none).run k).1]
  | spaceBefore s => .insertBefore s [((Segment.whitespace " ").run k).1]
  | newlineAfter s => .insertAfter s [((Segment.newline "\n").run k).1]

/-- A fix is what the proposal becomes at some time after the counter stood at `n`. -/
def Becomes (n : Nat) (d : Proposal) (x : Fix) : Prop := ∃ k, n ≤ k ∧ x = d.fixAt k

theorem Becomes.mono {n m : Nat} {d : Proposal} {x : Fix} (h : d.Becomes m x) (hnm : n ≤ m) :
    d.Becomes n x := by
  obtain ⟨k, hk, hx⟩ := h
  exact ⟨k, Nat.le_trans hnm hk, hx⟩

theorem anchor_fixAt (d : Proposal) (k : Nat) : (d.fixAt k).anchor = d.anchor := by
  cases d <;> rfl

/-- Leaves are taken away, one after the other. -/
theorem becomes_drops (n : Nat) (ss : List Segment) :
    List.Forall₂ (Becomes n) (ss.map drop) (ss.map .delete) := by
  induction ss with
  | nil => exact .nil
  | cons s ss ih => exact .cons ⟨n, Nat.le_refl n, rfl⟩ ih

end Proposal

variable {α : Type}

/-- The proposals along some places, where what is said at each depends on what is remembered. -/
def proposalsFrom (tells : α → Memory → List Proposal × Memory) (m : Memory) :
    List α → List Proposal
  | [] => []
  | s :: rest => (tells s m).1 ++ proposalsFrom tells (tells s m).2 rest

/-- Places where nothing is said and nothing remembered do not matter. -/
theorem proposalsFrom_filter {tells : α → Memory → List Proposal × Memory} {keep : α → Bool}
    (h : ∀ s m, keep s = false → tells s m = ([], m)) (m : Memory) (places : List α) :
    proposalsFrom tells m (places.filter keep) = proposalsFrom tells m places := by
  induction places generalizing m with
  | nil => rfl
  | cons s places ih =>
    rw [List.filter_cons]
    cases hs : keep s with
    | true => simp only [if_true, proposalsFrom, ih]
    | false => simp [proposalsFrom, h s m hs, ih]

/-- Where nothing is remembered, the proposals are those of each place. -/
theorem proposalsFrom_eq_flatMap (proposals : α → List Proposal) (m : Memory) (places : List α) :
    proposalsFrom (fun s m => (proposals s, m)) m places = places.flatMap proposals := by
  induction places with
  | nil => rfl
  | cons s places ih => simp [proposalsFrom, ih]

theorem proposalsFrom_map {β : Type} (f : β → α) (tells : α → Memory → List Proposal × Memory)
    (m : Memory) (places : List β) :
    proposalsFrom tells m (places.map f) = proposalsFrom (fun s m => tells (f s) m) m places := by
  induction places generalizing m with
  | nil => rfl
  | cons s places ih => simp [proposalsFrom, ih]

/-! ## 2. Rules told by their proposals -/

/-- The fixes of a finding that is about something. -/
def Finding.told (x : Finding) : List Fix := if x.anchor.isSome then x.fixes else []

namespace Rule

/-- What a rule asks for and remembers at a site is a function of the site and of what it
remembers, except that white space that comes next must be a token. -/
def Tells (r : Rule) (tells : Site → Memory → List Proposal × Memory) : Prop :=
  ∀ (c : RuleContext) n, c.view.blankIsToken = true →
    n ≤ ((r.eval c).run n).2 ∧ ∃ xs, ((r.eval c).run n).1 = .ok xs ∧
      List.Forall₂ (Proposal.Becomes n) (tells c.toSite c.memory).1 (xs.flatMap (·.told)) ∧
      memoryAfter c.memory xs = (tells c.toSite c.memory).2 ∧
      ((tells c.toSite c.memory).1 = [] → ∀ x ∈ xs, x.anchor = none)

variable {r : Rule} {d : Dialect} {source name : String}
  {tells : Site → Memory → List Proposal × Memory}

/-- The fixes of what is found are all told, since no fix is unsafe in a file without markup. -/
theorem fixes_violations (xs : List Finding) :
    (xs.filterMap (r.violation? (.ofString source name))).flatMap (·.fixes) =
      xs.flatMap (·.told) := by
  induction xs with
  | nil => rfl
  | cons x xs ih =>
    rw [List.filterMap_cons, List.flatMap_cons, ← ih]
    unfold violation? Finding.told
    cases x.anchor with
    | none => rfl
    | some anchor =>
      simp only [Option.map_some, List.flatMap_cons, Option.isSome_some, if_true]
      congr 1
      show safeFixes _ x.fixes = x.fixes
      rw [safeFixes, isUnsafe_ofString, if_neg Bool.false_ne_true]

/-- What a rule finds in a file without markup is what it proposes at the sites, one after the
other. -/
theorem Tells.crawlSites (h : r.Tells tells) (sites : List Site)
    (hsites : ∀ s ∈ sites, s.view.blankIsToken = true) (m : Memory) (n : Nat) :
    let c := ((r.crawlSites d (.ofString source name) m sites).run n).1
    c.failure = none ∧
      List.Forall₂ (Proposal.Becomes n) (proposalsFrom tells m sites)
        (c.violations.flatMap (·.fixes)) ∧
      (proposalsFrom tells m sites = [] → c.violations = []) := by
  induction sites generalizing m n with
  | nil => exact ⟨rfl, .nil, fun _ => rfl⟩
  | cons s sites ih =>
    obtain ⟨hs, hrest⟩ := List.forall_mem_cons.1 hsites
    obtain ⟨hn, xs, hxs, becomes, memory, quiet⟩ := h ⟨s, m, d, .ofString source name⟩ n hs
    have run : ((r.crawlSites d (.ofString source name) m (s :: sites)).run n).1 =
        let later := ((r.crawlSites d (.ofString source name) (memoryAfter m xs) sites).run
          ((r.eval ⟨s, m, d, .ofString source name⟩).run n).2).1
        { later with
          violations := xs.filterMap (r.violation? (.ofString source name)) ++
            later.violations } := by
      rw [Rule.crawlSites, StateT.run_bind]
      generalize (r.eval ⟨s, m, d, .ofString source name⟩).run n = found at hxs
      obtain ⟨found, k⟩ := found
      cases hxs
      rfl
    dsimp only at memory
    rw [run, memory]
    obtain ⟨failure, later, none⟩ := ih hrest (tells s m).2
      ((r.eval ⟨s, m, d, .ofString source name⟩).run n).2
    refine ⟨failure, ?_, fun hnone => ?_⟩
    · rw [proposalsFrom, List.flatMap_append, fixes_violations]
      exact List.rel_append becomes (later.imp fun _ _ hx => hx.mono hn)
    · rw [proposalsFrom, List.append_eq_nil_iff] at hnone
      dsimp only
      rw [none hnone.2, List.append_nil, List.filterMap_eq_nil_iff]
      intro x hx
      rw [violation?, quiet hnone.1 x hx]
      rfl

/-- What a rule finds in a tree. -/
theorem Tells.crawl (h : r.Tells tells) {tree : Segment}
    (hsites : ∀ s ∈ r.sites tree, s.view.blankIsToken = true) (n : Nat) :
    let c := ((r.crawl d (.ofString source name) tree).run n).1
    c.failure = none ∧
      List.Forall₂ (Proposal.Becomes n) (proposalsFrom tells .empty (r.sites tree))
        (c.violations.flatMap (·.fixes)) :=
  ⟨(h.crawlSites _ hsites .empty n).1, (h.crawlSites _ hsites .empty n).2.1⟩

/-- A rule that proposes nothing finds nothing. -/
theorem Tells.findsNothing (h : r.Tells tells) {tree : Segment}
    (hsites : ∀ s ∈ r.sites tree, s.view.blankIsToken = true)
    (hnone : proposalsFrom tells .empty (r.sites tree) = []) :
    r.FindsNothing d (.ofString source name) tree :=
  fun n => (h.crawlSites _ hsites .empty n).2.2 hnone

/-! ## 3. The rules of the library -/

/-- Nothing is found and nothing changes. -/
theorem tells_nothing {c : RuleContext} {n : Nat} {e : Fresh (Except RuleFault (List Finding))}
    (he : e = pure (.ok [])) :
    n ≤ (e.run n).2 ∧ ∃ xs, (e.run n).1 = .ok xs ∧
      List.Forall₂ (Proposal.Becomes n) [] (xs.flatMap (·.told)) ∧
      memoryAfter c.memory xs = c.memory ∧
      (([] : List Proposal) = [] → ∀ x ∈ xs, x.anchor = none) := by
  subst he
  exact ⟨Nat.le_refl n, [], rfl, .nil, rfl, by simp⟩

/-- What taking white space away from the ends of lines asks for. -/
def trailingProposals (s : Site) : List Proposal :=
  (beforeLineEnds (s.segment.leaves.filter isVisible)).map .drop

theorem tells_trailingWhitespace :
    trailingWhitespace.Tells fun s m => (trailingProposals s, m) := by
  intro c n _
  refine ⟨Nat.le_refl n, _, rfl, ?_, ?_, ?_⟩
  · show List.Forall₂ _ ((beforeLineEnds (c.segment.leaves.filter isVisible)).map Proposal.drop) _
    generalize beforeLineEnds (c.segment.leaves.filter isVisible) = ss
    induction ss with
    | nil => exact .nil
    | cons s ss ih => exact .cons ⟨n, Nat.le_refl n, rfl⟩ ih
  · have silent (ss : List Segment) : (ss.map fun s =>
        (Finding.about s).withFixes [.delete s]).filterMap (·.memory) = [] := by
      rw [List.filterMap_map]
      exact List.filterMap_eq_nil_iff.2 fun _ _ => rfl
    rw [memoryAfter, silent]
    rfl
  · intro hnone
    have none : beforeLineEnds (c.segment.leaves.filter isVisible) = [] :=
      List.map_eq_nil_iff.1 hnone
    simp [none]

/-- The space that comes last, unless it indents a line. What comes last is first in the list. -/
def lastBlank : List Segment → List Segment
  | x :: before :: _ => if x.isType "whitespace" && !before.isType "newline" then [x] else []
  | _ => []

theorem tells_spaceBeforeComma :
    spaceBeforeComma.Tells fun s m => ((lastBlank s.tokensBefore).map .drop, m) := by
  intro c n _
  unfold spaceBeforeComma
  dsimp only
  generalize c.toSite.tokensBefore = before
  match before with
  | [] | [_] => exact tells_nothing rfl
  | x :: before :: _ =>
    rw [lastBlank]
    dsimp only
    split
    · exact ⟨Nat.le_refl n, _, rfl, .cons ⟨n, Nat.le_refl n, rfl⟩ .nil, rfl, by simp⟩
    · exact tells_nothing rfl

/-- What the space after a comma asks for, given what comes after it. -/
def spaceProposals : List Segment → List Proposal
  | [] => []
  | s :: rest =>
    if endsLine (s :: rest) then []
    else if s.isType "whitespace" then
      if s.raw == " " || endsLine rest then [] else [.respell s " "]
    else [.spaceBefore s]

theorem tells_spaceAfterComma :
    spaceAfterComma.Tells fun s m => (spaceProposals s.nextSiblings, m) := by
  intro c n hblank
  unfold spaceAfterComma
  dsimp only
  cases hnext : c.nextSiblings with
  | nil => exact tells_nothing rfl
  | cons s rest =>
    have token : s.isType "whitespace" = true → s.isLeaf = true := by
      intro hs
      have after : c.view.after = ((s :: rest).take 2).map look := by rw [← hnext]; rfl
      rw [View.blankIsToken, after, List.take_succ_cons, List.map_cons, List.head?_cons,
        Option.all_some] at hblank
      have types : s.look.types.contains "whitespace" = true := hs
      rw [types] at hblank
      exact hblank
    have plain : s.isMarker = false := by
      have mem : s ∈ c.nextSiblings := by rw [hnext]; exact List.mem_cons_self ..
      simpa using (List.mem_filter.1 mem).2
    dsimp only
    rw [spaceProposals]
    split
    · exact tells_nothing rfl
    split
    · next hs =>
      split
      · exact tells_nothing rfl
      · next hraw =>
        have hraw : " " ≠ s.raw := fun h => hraw (by simp [← h])
        have told : ((Finding.respell s " ").run n).1.told =
            [(Proposal.respell s " ").fixAt n] := by
          show [Fix.replace s [((s.edit (some " ") none).run n).1]].filter (!·.isTrivial) = _
          rw [List.filter_cons_of_pos]
          · rfl
          · simp [Fix.isTrivial, Fix.replace, s.raw_edit (token hs) plain " " n, hraw]
        refine ⟨Nat.le_succ n, [((Finding.respell s " ").run n).1], rfl, ?_, rfl, by simp⟩
        rw [List.flatMap_singleton, told]
        exact .cons ⟨n, Nat.le_refl n, rfl⟩ .nil
    · exact ⟨Nat.le_succ n, _, rfl, .cons ⟨n, Nat.le_refl n, rfl⟩ .nil, rfl, by simp⟩

/-- What the line ends at the end of a file ask for, given its tokens. -/
def finalProposals (leaves : List Segment) : List Proposal :=
  if !leaves.any (fun s => s.isCode || s.isComment) then []
  else
    match finalNewlines leaves, leaves.getLast? with
    | [], some last => [.newlineAfter last]
    | _ :: first :: rest, _ => (first :: rest).map .drop
    | _, _ => []

theorem tells_finalNewline :
    finalNewline.Tells fun s m => (finalProposals (s.segment.leaves.filter (!·.isMarker)), m) := by
  intro c n _
  unfold finalNewline
  dsimp only
  generalize c.segment.leaves.filter (!·.isMarker) = leaves
  rw [finalProposals]
  split
  · exact tells_nothing rfl
  generalize finalNewlines leaves = ends, leaves.getLast? = last
  match ends, last with
  | [], some last =>
    exact ⟨Nat.le_succ n, _, rfl, .cons ⟨n, Nat.le_refl n, rfl⟩ .nil, rfl, by simp⟩
  | _ :: first :: rest, _ =>
    refine ⟨Nat.le_refl n, _, rfl, ?_, rfl, by simp⟩
    rw [List.flatMap_singleton]
    show List.Forall₂ _ _ ((Finding.about first).withFixes ((first :: rest).map .delete)).fixes
    rw [Finding.withFixes_deletes]
    exact Proposal.becomes_drops n _
  | [], none | [_], _ => exact tells_nothing rfl

/-- What a word asks for that should be in a style. -/
def recaseProposals (style : LetterCase) (s : Segment) : List Proposal :=
  if style.apply s.raw = s.raw then [] else [.respell s (style.apply s.raw)]

/-- The styles that some word does not have, and the last that all words had. -/
def knownStyles : Memory → List LetterCase × Option LetterCase
  | .cases refuted latest => (refuted, latest)
  | _ => ([], none)

/-- What a word asks for, and what is remembered of it. -/
def wordTells (policy : CasePolicy) (s : Segment) (m : Memory) : List Proposal × Memory :=
  if !isCasedWord s then ([], m)
  else
    let refuted := LetterCase.refutedWith s.raw (knownStyles m).1
    let latest := (knownStyles m).2
    match policy with
    | .fixed style => (recaseProposals style s, .cases refuted latest)
    | .consistent =>
      match LetterCase.all.find? (!refuted.contains ·) with
      | some style => ([], .cases refuted (some style))
      | none => (recaseProposals (latest.getD .upper) s, .cases refuted latest)

/-- A word that should be in a style. -/
theorem tells_recase {s : Segment} (hs : isCasedWord s = true) (policy : CasePolicy)
    (style : LetterCase) (m m' : Memory) (n : Nat) :
    n ≤ ((recase policy style m' s).run n).2 ∧
      List.Forall₂ (Proposal.Becomes n) (recaseProposals style s)
        (((recase policy style m' s).run n).1.flatMap (·.told)) ∧
      memoryAfter m ((recase policy style m' s).run n).1 = m' ∧
      (recaseProposals style s = [] →
        ∀ x ∈ ((recase policy style m' s).run n).1, x.anchor = none) := by
  have leaf : s.isLeaf = true := by
    rw [isCasedWord, Bool.and_eq_true, Bool.and_eq_true] at hs
    exact hs.1.1
  unfold recase recaseProposals
  dsimp only
  split
  · refine ⟨Nat.le_refl n, .nil, rfl, fun _ x hx => ?_⟩
    rw [List.mem_singleton.1 hx]
    rfl
  · next hword =>
    have raw := s.raw_edit leaf (isMarker_of_isCasedWord hs) (style.apply s.raw) n
    refine ⟨Nat.le_succ n, ?_, rfl, by simp⟩
    have told : [Fix.replace s [((s.edit (some (style.apply s.raw)) none).run n).1]].filter
        (!·.isTrivial) = [(Proposal.respell s (style.apply s.raw)).fixAt n] := by
      rw [List.filter_cons_of_pos]
      · rfl
      · simp [Fix.isTrivial, Fix.replace, raw, hword]
    have proposed : List.Forall₂ (Proposal.Becomes n) [.respell s (style.apply s.raw)]
        [(Proposal.respell s (style.apply s.raw)).fixAt n] := .cons ⟨n, Nat.le_refl n, rfl⟩ .nil
    rw [← told] at proposed
    show List.Forall₂ _ _ (_ ++ [])
    rw [List.append_nil]
    exact proposed

/-- How the rule goes on at a word, with the styles that are known. -/
theorem keywordCase_eval {policy : CasePolicy} {c : RuleContext}
    (h : isCasedWord c.segment = true) :
    (keywordCase policy).eval c =
      let refuted := LetterCase.refutedWith c.segment.raw (knownStyles c.memory).1
      let latest := (knownStyles c.memory).2
      match policy with
      | .fixed style => do return .ok (← recase policy style (.cases refuted latest) c.segment)
      | .consistent =>
        match LetterCase.all.find? (!refuted.contains ·) with
        | some style => return .ok [.remember (.cases refuted (some style))]
        | none =>
          return .ok (← recase policy (latest.getD .upper) (.cases refuted latest) c.segment) := by
  unfold keywordCase
  dsimp only
  rw [h, Bool.not_true, if_neg Bool.false_ne_true]
  cases c.memory <;> rfl

theorem tells_keywordCase (policy : CasePolicy) :
    (keywordCase policy).Tells fun s m => wordTells policy s.segment m := by
  intro c n _
  unfold wordTells
  dsimp only
  cases hcased : isCasedWord c.segment with
  | false =>
    refine tells_nothing ?_
    simp [keywordCase, hcased]
  | true =>
    have recased (style : LetterCase) (m : Memory) := tells_recase hcased policy style c.memory m n
    rw [keywordCase_eval hcased, Bool.not_true, if_neg Bool.false_ne_true]
    generalize LetterCase.refutedWith c.segment.raw (knownStyles c.memory).1 = refuted,
      (knownStyles c.memory).2 = latest
    cases policy with
    | fixed style =>
      obtain ⟨hn, becomes, memory, quiet⟩ := recased style (.cases refuted latest)
      exact ⟨hn, _, rfl, becomes, memory, quiet⟩
    | consistent =>
      dsimp only
      cases LetterCase.all.find? (!refuted.contains ·) with
      | some style =>
        refine ⟨Nat.le_refl n, _, rfl, .nil, rfl, fun _ x hx => ?_⟩
        rw [List.mem_singleton.1 hx]
        rfl
      | none =>
        obtain ⟨hn, becomes, memory, quiet⟩ :=
          recased (latest.getD .upper) (.cases refuted latest)
        exact ⟨hn, _, rfl, becomes, memory, quiet⟩

end Rule

end QueryLint
