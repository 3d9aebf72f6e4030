import Mathlib.Data.List.Forall2
import Mathlib.Data.List.Induction
import QueryLint.Proofs.Segment.Listing
import QueryLint.Rule.Crawl
import QueryLint.Rule.Probe

/-!
QueryLint.Proofs.Rule.Visits — what a rule is asked about, and what it is told.

The crawl goes along a tree with a few lists in its hands: the segments it is inside of, those
passed in each of them, the leaves passed in all. Some parts of the tree are left out on the way,
because the rule does not want them or since they could not be parsed. What the lists hold at any
moment is said here by the path of the segment alone, so it does not depend on what was left out.

* `Site.IsAt` — a site shows what is around the segment at a path.
* `Rule.AsksAt` — a rule is to be asked about the segment at a path.
* `Rule.Remembers` — the memory that a rule has after some findings.
* `Rule.Call`, `Rule.IsAsked` — the questions that a rule is asked, one after the other.
* `Rule.exists_calls` — a crawl asks these questions, and finds what is answered.
-/

namespace QueryLint

open Segment

/-! ## 1. Sites by their paths -/

/-- A site shows the segment at a path of a tree with all that is around it: the segments on the way
there, the root first, the other children of the last of them, and the leaves before it. -/
structure Site.IsAt (tree : Segment) (p : List Nat) (s : Site) : Prop where
  segment_eq : tree.at? p = some s.segment
  parents_eq : s.parents.map some = (List.range p.length).map fun k => tree.at? (p.take k)
  root : p = [] → s.siblingsBefore = [] ∧ s.siblingsAfter = []
  siblings_eq : ∀ q k, p = q ++ [k] → s.siblingsBefore.length = k ∧ ∃ parent,
    tree.at? q = some parent ∧
      parent.children = s.siblingsBefore.reverse ++ s.segment :: s.siblingsAfter
  leaves_eq : s.leavesBefore.reverse = tree.leavesBefore p

namespace Site.IsAt

variable {tree : Segment} {p : List Nat}

theorem nil (tree : Segment) : IsAt tree [] ⟨tree, [], [], [], []⟩ where
  segment_eq := rfl
  parents_eq := rfl
  root _ := ⟨rfl, rfl⟩
  siblings_eq := by simp
  leaves_eq := by simp

theorem length_parents {s : Site} (h : s.IsAt tree p) : s.parents.length = p.length := by
  simpa using congrArg List.length h.parents_eq

/-- From a site to one of the children of its segment. -/
theorem child {s : Segment} {parents before after leaves : List Segment}
    (h : IsAt tree p ⟨s, parents, before, after, leaves⟩) (htree : tree.isTree = true)
    {passed rest : List Segment} {c : Segment} (hc : s.children = passed.reverse ++ c :: rest)
    {leaves' : List Segment}
    (hleaves : leaves'.reverse = leaves.reverse ++ leavesAll passed.reverse) :
    IsAt tree (p ++ [passed.length]) ⟨c, parents ++ [s], passed, rest, leaves'⟩ where
  segment_eq := by
    rw [at?_append, h.segment_eq, Option.bind_some, at?_cons, hc,
      List.getElem?_append_right (by simp)]
    simp
  parents_eq := by
    have before (k : Nat) (hk : k ∈ List.range p.length) :
        tree.at? ((p ++ [passed.length]).take k) = tree.at? (p.take k) := by
      rw [List.take_append_of_le_length (Nat.le_of_lt (List.mem_range.1 hk))]
    rw [List.map_append, h.parents_eq, List.length_append, List.length_singleton,
      List.range_succ, List.map_append, List.map_congr_left before, List.map_singleton,
      List.map_singleton, List.take_left, h.segment_eq]
  root := by simp
  siblings_eq q k hpath := by
    obtain ⟨rfl, hk⟩ := List.append_inj' hpath rfl
    exact ⟨List.singleton_inj.1 hk, s, h.segment_eq, hc⟩
  leaves_eq := by
    have reverse := leavesBefore_concat htree h.segment_eq hc
    rw [List.length_reverse] at reverse
    rw [hleaves, h.leaves_eq, reverse]

end Site.IsAt

/-- A site shows a listed segment. -/
def Site.Shows (tree : Segment) (e : List Nat × Segment) (s : Site) : Prop :=
  s.segment = e.2 ∧ s.IsAt tree e.1

namespace Segment

variable {tree : Segment}

mutual

/-- The sites of a segment in a tree show what is listed of it. -/
theorem shows_sitesIn (htree : tree.isTree = true) (whole : Bool) {p : List Nat}
    {parents before after leaves : List Segment} (s : Segment)
    (h : Site.IsAt tree p ⟨s, parents, before, after, leaves⟩) :
    List.Forall₂ (Site.Shows tree) ((s.listing whole).map fun e => (p ++ e.1, e.2))
      (sitesIn whole parents before after leaves s) := by
  match s with
  | mk i cs =>
    rw [listing, sitesIn]
    split
    · exact .nil
    · rw [List.map_cons, List.append_nil]
      exact .cons ⟨rfl, h⟩ (shows_sitesInAll htree whole [] leaves cs h rfl (by simp))
termination_by structural s

/-- The sites of children show what is listed of them. -/
theorem shows_sitesInAll (htree : tree.isTree = true) (whole : Bool) {p : List Nat} {s : Segment}
    {parents before after leaves : List Segment} (passed leaves' rest : List Segment)
    (h : Site.IsAt tree p ⟨s, parents, before, after, leaves⟩)
    (hrest : s.children = passed.reverse ++ rest)
    (hleaves : leaves'.reverse = leaves.reverse ++ leavesAll passed.reverse) :
    List.Forall₂ (Site.Shows tree)
      ((listingFrom whole passed.length rest).map fun e => (p ++ e.1, e.2))
      (sitesInAll whole (parents ++ [s]) passed leaves' rest) := by
  match rest with
  | [] => rw [listingFrom, sitesInAll]; exact .nil
  | c :: rest =>
    have first := shows_sitesIn htree whole c (h.child htree hrest hleaves)
    have later := shows_sitesInAll htree whole (c :: passed) (c.leaves.reverse ++ leaves') rest h
      (by simpa using hrest) (by simp [hleaves])
    rw [listingFrom, sitesInAll, List.map_append, List.map_map]
    refine List.rel_append ?_ later
    simpa [Function.comp_def] using first
termination_by structural rest

end

theorem shows_sites (htree : tree.isTree = true) (whole : Bool) :
    List.Forall₂ (Site.Shows tree) (tree.listing whole) (tree.sites whole) := by
  simpa [sites] using shows_sitesIn htree whole tree (.nil tree)

end Segment

/-! ## 2. Questions -/

namespace Rule

/-- A rule wants the segment at a path. -/
def wantsAt (r : Rule) (p : List Nat) (s : Segment) : Bool :=
  match r.target with
  | .all => true
  | .root => p.isEmpty
  | .types names => s.isAnyType names

/-- A rule is to be asked about what is at a path: it wants the segment there, and looks at what
could not be parsed unless nothing there or around it is of that kind. -/
def AsksAt (r : Rule) (tree : Segment) (p : List Nat) : Prop :=
  ∃ s, tree.at? p = some s ∧ r.wantsAt p s = true ∧ (r.worksOnUnparsable = true ∨ tree.ParsedTo p)

/-- The memory that a rule has after some findings: that of the last of them that asks for one. As
long as none has, there is nothing in it. -/
inductive Remembers : List Finding → Memory → Prop where
  | nothing {found : List Finding} (silent : ∀ x ∈ found, x.memory = none) :
      Remembers found .empty
  | last {before after : List Finding} {x : Finding} {m : Memory} (asked : x.memory = some m)
      (silent : ∀ y ∈ after, y.memory = none) : Remembers (before ++ x :: after) m

/-- A question that a rule was asked, where it was asked, and the answer. The counter of identities
stood at `start` before and at `stop` after it. -/
structure Call where
  path : List Nat
  context : RuleContext
  start : Nat
  found : List Finding
  stop : Nat

/-- Where the counter stood after some calls, from `n` on. -/
def Call.stopAfter (n : Nat) (calls : List Call) : Nat := ((calls.getLast?).map (·.stop)).getD n

theorem Call.stopAfter_cons (n : Nat) (c : Call) (calls : List Call) :
    Call.stopAfter n (c :: calls) = Call.stopAfter c.stop calls := by
  rw [stopAfter, stopAfter, List.getLast?_cons]
  cases calls.getLast? <;> rfl

variable (r : Rule) (d : Dialect) (f : TemplatedFile)

/-- The calls that a rule should get over a tree: one for each segment to be asked about, in the
order of the text, with what is around it, the dialect and the file, and the memory of the last
finding before that has one. Nothing draws identities between them. -/
structure IsAsked (tree : Segment) (n : Nat) (calls : List Call) : Prop where
  sorted : (calls.map (·.path)).Pairwise (· < ·)
  mem_iff : ∀ p, p ∈ calls.map (·.path) ↔ r.AsksAt tree p
  isAt : ∀ c ∈ calls, c.context.IsAt tree c.path
  given : ∀ c ∈ calls, c.context.dialect = d ∧ c.context.file = f
  answer : ∀ c ∈ calls, (r.eval c.context).run c.start = (.ok c.found, c.stop)
  memory : ∀ before c after, calls = before ++ c :: after →
    Remembers (before.flatMap (·.found)) c.context.memory
  start : ∀ before c after, calls = before ++ c :: after → c.start = Call.stopAfter n before

/-- Whatever it is asked, a rule gives an answer. -/
def NeverGivesUp : Prop := ∀ c m, ∃ found, ((r.eval c).run m).1 = .ok found

variable {r d f} {tree : Segment}

theorem wants_eq {p : List Nat} {s : Site} (h : s.IsAt tree p) :
    r.wants s = r.wantsAt p s.segment := by
  have empty : s.parents.isEmpty = p.isEmpty := by
    rw [Bool.eq_iff_iff, List.isEmpty_iff_length_eq_zero, List.isEmpty_iff_length_eq_zero,
      h.length_parents]
  cases htarget : r.target <;> simp [wants, wantsAt, htarget, empty]

/-- The sites that a rule looks at show the segments that it is to be asked about. -/
theorem shows_sites (r : Rule) (htree : tree.isTree = true) :
    List.Forall₂ (Site.Shows tree)
      ((tree.listing r.worksOnUnparsable).filter fun e => r.wantsAt e.1 e.2) (r.sites tree) :=
  List.rel_filter (fun e s h => by
    show r.wantsAt e.1 e.2 = true ↔ r.wants s = true
    rw [wants_eq h.2, h.1]) (Segment.shows_sites htree _)

theorem mem_filter_listing {p : List Nat} :
    p ∈ ((tree.listing r.worksOnUnparsable).filter fun e => r.wantsAt e.1 e.2).map (·.1) ↔
      r.AsksAt tree p := by
  simp only [AsksAt, List.mem_map, List.mem_filter, Prod.exists, mem_listing]
  constructor
  · rintro ⟨q, s, ⟨⟨hs, hparsed⟩, hwants⟩, rfl⟩
    exact ⟨s, hs, hwants, hparsed⟩
  · rintro ⟨s, hs, hwants, hparsed⟩
    exact ⟨p, s, ⟨⟨hs, hparsed⟩, hwants⟩, rfl⟩

theorem memoryAfter_append (m : Memory) (found later : List Finding) :
    memoryAfter (memoryAfter m found) later = memoryAfter m (found ++ later) := by
  simp [memoryAfter, List.getLast?_append, Option.getD_or]

/-- After findings a rule has the memory of the last of them that asks for one. -/
theorem remembers_memoryAfter (found : List Finding) :
    Remembers found (memoryAfter .empty found) := by
  induction found using List.reverseRecOn with
  | nil => exact .nothing nofun
  | append_singleton found x ih =>
    rw [← memoryAfter_append]
    cases hx : x.memory with
    | some m =>
      have kept : memoryAfter (memoryAfter .empty found) [x] = m := by simp [memoryAfter, hx]
      rw [kept]
      exact .last hx nofun
    | none =>
      have kept : memoryAfter (memoryAfter .empty found) [x] = memoryAfter .empty found := by
        simp [memoryAfter, hx]
      have silent {ys : List Finding} (h : ∀ y ∈ ys, y.memory = none) :
          ∀ y ∈ ys ++ [x], y.memory = none := by
        simpa [or_imp, forall_and, hx] using h
      rw [kept]
      generalize memoryAfter .empty found = m at ih
      cases ih with
      | nothing quiet => exact .nothing (silent quiet)
      | last asked quiet =>
        rw [List.append_assoc, List.cons_append]
        exact .last asked (silent quiet)

/-- There is one memory after findings. -/
theorem Remembers.eq_memoryAfter {found : List Finding} {m : Memory} (h : Remembers found m) :
    m = memoryAfter .empty found := by
  cases h with
  | nothing silent =>
    have none : found.filterMap (·.memory) = [] := List.filterMap_eq_nil_iff.2 silent
    rw [memoryAfter, none]
    rfl
  | @last before after x _ asked silent =>
    have none : after.filterMap (·.memory) = [] := List.filterMap_eq_nil_iff.2 silent
    rw [memoryAfter, List.filterMap_append, List.filterMap_cons_some asked, none,
      List.getLast?_append_of_ne_nil _ (by simp)]
    rfl

/-- A rule that does not give up is asked at site after site. -/
theorem exists_calls_of_shows (hr : r.NeverGivesUp) (d : Dialect) (f : TemplatedFile)
    {listed : List (List Nat × Segment)} {sites : List Site}
    (h : List.Forall₂ (Site.Shows tree) listed sites) (m : Memory) (n : Nat) :
    ∃ calls : List Call, calls.map (·.path) = listed.map (·.1) ∧
      (∀ c ∈ calls, c.context.IsAt tree c.path ∧ (c.context.dialect = d ∧ c.context.file = f) ∧
        (r.eval c.context).run c.start = (.ok c.found, c.stop)) ∧
      (∀ before c after, calls = before ++ c :: after →
        c.context.memory = memoryAfter m (before.flatMap (·.found)) ∧
          c.start = Call.stopAfter n before) ∧
      (r.crawlSites d f m sites).run n =
        (⟨calls.flatMap fun c => c.found.filterMap (r.violation? f), none⟩,
          Call.stopAfter n calls) := by
  induction h generalizing m n with
  | nil => exact ⟨[], rfl, by simp, by simp, rfl⟩
  | @cons e s listed sites hs _ ih =>
    obtain ⟨found, hfound⟩ := hr ⟨s, m, d, f⟩ n
    let stop := ((r.eval ⟨s, m, d, f⟩).run n).2
    have answer : (r.eval ⟨s, m, d, f⟩).run n = (.ok found, stop) := Prod.ext hfound rfl
    obtain ⟨calls, hpaths, heach, hchain, hrun⟩ := ih (memoryAfter m found) stop
    refine ⟨⟨e.1, ⟨s, m, d, f⟩, n, found, stop⟩ :: calls, ?_, ?_, ?_, ?_⟩
    · rw [List.map_cons, List.map_cons, hpaths]
    · exact List.forall_mem_cons.2 ⟨⟨hs.2, ⟨rfl, rfl⟩, answer⟩, heach⟩
    · rintro (_ | ⟨first, before⟩) c after heq
      · obtain ⟨rfl, -⟩ := List.cons.inj heq
        exact ⟨rfl, rfl⟩
      · obtain ⟨rfl, hrest⟩ := List.cons.inj heq
        obtain ⟨hmemory, hstart⟩ := hchain before c after hrest
        refine ⟨?_, ?_⟩
        · rw [hmemory, memoryAfter_append, List.flatMap_cons]
        · rw [hstart, Call.stopAfter_cons]
    · rw [crawlSites, run_bind_of_run answer]
      dsimp only
      rw [run_bind_of_run hrun, Call.stopAfter_cons]
      rfl

/-- What a rule finds in a tree is what it answers to the questions that it is to be asked there: a
crawl asks each of them once, in the order of the text, and no others. -/
theorem exists_calls (hr : r.NeverGivesUp) (htree : tree.isTree = true) (d : Dialect)
    (f : TemplatedFile) (n : Nat) :
    ∃ calls, r.IsAsked d f tree n calls ∧ (r.crawl d f tree).run n =
      (⟨calls.flatMap fun c => c.found.filterMap (r.violation? f), none⟩,
        Call.stopAfter n calls) := by
  obtain ⟨calls, hpaths, heach, hchain, hrun⟩ :=
    exists_calls_of_shows hr d f (r.shows_sites htree) .empty n
  refine ⟨calls, ?_, hrun⟩
  exact {
    sorted := by
      rw [hpaths]
      exact List.pairwise_map.2 ((sorted_listing _ tree).filter _)
    mem_iff := fun p => by rw [hpaths, mem_filter_listing]
    isAt := fun c hc => (heach c hc).1
    given := fun c hc => (heach c hc).2.1
    answer := fun c hc => (heach c hc).2.2
    memory := fun before c after heq =>
      (hchain before c after heq).1 ▸ remembers_memoryAfter _
    start := fun before c after heq => (hchain before c after heq).2 }

/-! ## 3. Words in and beside what could not be parsed -/

/-- A rule that counts words, except those that could not be parsed. -/
def wordCount : Rule :=
  { code := "L900", description := "Counts words.", target := .types ["word"]
    eval := Probe.count.eval }

/-- A word. -/
def wordNamed (id : Nat) : Segment :=
  .mk ⟨.token "a" .ofCode none, "word", ["word"], id, none, []⟩ []

/-- A word, another that could not be parsed, and a third in a node. -/
def threeWords : Segment :=
  .mk ⟨.file, "file", ["file"], 0, none, []⟩
    [wordNamed 1, .mk ⟨.unparsable none, "unparsable", ["unparsable"], 2, none, []⟩ [wordNamed 3],
      .mk ⟨.node none, "node", ["node"], 4, none, []⟩ [wordNamed 5]]

/-- A dialect without anything in it. -/
def bareDialect : Dialect := ⟨"bare", {}, [], [], []⟩

theorem neverGivesUp_wordCount : wordCount.NeverGivesUp := fun _ _ => ⟨_, rfl⟩

theorem asksAt_wordCount {p : List Nat} : wordCount.AsksAt threeWords p ↔ p = [0] ∨ p = [2, 0] := by
  rw [← mem_filter_listing]
  have : ((threeWords.listing wordCount.worksOnUnparsable).filter fun e =>
      wordCount.wantsAt e.1 e.2).map (·.1) = [[0], [2, 0]] := by decide
  simp [this]

/-- The paths of the words that are counted, in their order. -/
theorem paths_wordCount {d : Dialect} {f : TemplatedFile} {n : Nat} {calls : List Call}
    (h : wordCount.IsAsked d f threeWords n calls) : calls.map (·.path) = [[0], [2, 0]] := by
  have distinct : (calls.map (·.path)).Nodup := by
    refine h.sorted.imp ?_
    rintro p _ hlt rfl
    exact List.lt_irrefl p hlt
  have perm : (calls.map (·.path)).Perm [[0], [2, 0]] :=
    (List.perm_ext_iff_of_nodup distinct (by decide)).2 fun p => by
      rw [h.mem_iff, asksAt_wordCount]
      simp
  exact perm.eq_of_pairwise (fun _ _ _ _ hlt hgt => absurd hgt (List.lt_asymm hlt)) h.sorted (by decide)

/-- The first and the third word are counted, and the first is remembered at the third. Before that
come two leaves, one of them in what could not be parsed. -/
theorem exists_calls_wordCount :
    wordCount.NeverGivesUp ∧ threeWords.isTree = true ∧
      ∃ first second, wordCount.IsAsked bareDialect (.ofString "aaa") threeWords 6
          [first, second] ∧
        first.path = [0] ∧ first.context.memory = .empty ∧
        first.found.map (·.memory) = [some (.count 1)] ∧
        second.path = [2, 0] ∧ second.context.memory = .count 1 ∧
        second.context.leavesBefore = [wordNamed 3, wordNamed 1] ∧
        (wordCount.crawl bareDialect (.ofString "aaa") threeWords).run 6 =
          (⟨[first, second].flatMap fun c =>
              c.found.filterMap (wordCount.violation? (.ofString "aaa")), none⟩,
            Call.stopAfter 6 [first, second]) := by
  have tree : threeWords.isTree = true := by decide
  obtain ⟨calls, asked, hrun⟩ :=
    exists_calls neverGivesUp_wordCount tree bareDialect (.ofString "aaa") 6
  obtain ⟨first, second, rfl⟩ : ∃ first second, calls = [first, second] :=
    List.length_eq_two.1 (by simpa using congrArg List.length (paths_wordCount asked))
  obtain ⟨path₁, path₂⟩ : first.path = [0] ∧ second.path = [2, 0] := by
    simpa using paths_wordCount asked
  have memory₁ : first.context.memory = .empty :=
    (asked.memory [] first [second] rfl).eq_memoryAfter
  have found₁ : first.found.map (·.memory) = [some (.count 1)] := by
    have answer : (wordCount.eval first.context).run first.start = (.ok [_], first.start) := rfl
    rw [asked.answer first (by simp)] at answer
    rw [Except.ok.inj (congrArg Prod.fst answer), List.map_singleton, memory₁]
    rfl
  have memory₂ : second.context.memory = .count 1 := by
    obtain ⟨x, hx, remembered⟩ := List.map_eq_singleton_iff.1 found₁
    rw [(asked.memory [first] second [] rfl).eq_memoryAfter, List.flatMap_singleton, hx]
    simp [memoryAfter, remembered]
  have leaves := (asked.isAt second (by simp)).leaves_eq
  rw [path₂] at leaves
  exact ⟨neverGivesUp_wordCount, tree, first, second, asked, path₁, memory₁, found₁, path₂, memory₂,
    List.reverse_injective leaves, hrun⟩

end Rule

end QueryLint
