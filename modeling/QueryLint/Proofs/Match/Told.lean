import QueryLint.Proofs.Grammar.Told
import QueryLint.Proofs.Match.Transparent

/-!
QueryLint.Proofs.Match.Told — what is told of a grammar is what it matches.

Terminators make a match hard to foresee: what a grammar matches depends on those around it, and
they are grammars themselves. Grammars that match nowhere end nothing, so among terminators of which
that is known a grammar matches what it would match alone. Where it is not known, a match that
leaves nothing behind it is the same whatever the terminators.

Each level that is looked at takes two levels of matching. What is told is told without the memo; if
the levels are enough, the memo makes no difference.

* `MatchContext.Misses` — a grammar matches nowhere; searches for such grammars find nothing.
* `MatchContext.answers_matchOver` — what is told is what is matched without the memo.
* `MatchContext.matchGrammar_of_tell` — it is what is matched with the memo.
* `Parser.rootMatch_of_tell` — so it is of the grammar of a file.
* `Parser.exists_run_parse` — the tree of a file by that match.
-/

namespace QueryLint

/-- What does not match is no longer than anything. -/
theorem Match.isLongerThan_of_not_isMatch {m : Match} (h : m.isMatch = false) (other : Match) :
    m.isLongerThan other = false := by
  unfold isMatch at h
  rw [Bool.or_eq_false_iff, Bool.not_eq_false', isEmpty, decide_eq_true_eq] at h
  unfold isLongerThan length
  exact decide_eq_false (by omega)

namespace MatchContext

/-! ## 1. Grammars that match nowhere -/

variable {c : MatchContext} {b : GrammarBook} {limit : Nat} {I : MatchState → Prop}

/-- Wherever it is tried before the limit, a grammar does not match. -/
def Misses (I : MatchState → Prop) (run : Matcher) (limit : Nat) (g : GrammarId) : Prop :=
  ∀ ts place, place < limit → Meets I (run ts limit place g) fun m => m.isMatch = false

theorem mem_of_mem_pushTerminators {hide : Bool} {more around : List GrammarId} {g : GrammarId}
    (h : g ∈ pushTerminators hide more around) : g ∈ more ∨ g ∈ around := by
  unfold pushTerminators at h
  have start : g ∈ (if hide then [] else around) → g ∈ around := by
    split
    · exact fun h => by cases h
    · exact id
  generalize (if hide then [] else around) = ts at h start
  induction more generalizing ts with
  | nil => exact .inr (start h)
  | cons x more ih =>
    rw [List.foldl_cons] at h
    by_cases hx : g = x
    · exact .inl (by simp [hx])
    refine (ih _ h fun hg => ?_).imp_left (List.mem_cons_of_mem x)
    split at hg
    · exact start hg
    · exact start (by simpa [hx] using hg)

theorem mem_of_mem_allTerminators {own ts : List GrammarId} {reset : Bool} {g : GrammarId}
    (h : g ∈ allTerminators own reset ts) : g ∈ own ∨ g ∈ ts := by
  unfold allTerminators at h
  refine (List.mem_append.1 h).imp_right fun h => ?_
  split at h
  · cases h
  · exact (List.mem_filter.1 h).1

section Misses

variable {run here below : Matcher} {ts gs : List GrammarId} {i : Nat}

theorem anyMatches_of_misses (h : ∀ g ∈ gs, Misses I run limit g) (hi : i < limit) :
    Meets I (anyMatches run ts limit i gs) fun r => r = false := by
  induction gs with
  | nil => exact .pure rfl
  | cons g gs ih =>
    unfold anyMatches
    refine (h g (by simp) ts i hi).bind fun m hm => ?_
    rw [if_neg (by simp [hm])]
    exact ih fun x hx => h x (by simp [hx])

theorem nextMatch_of_misses (h : ∀ g ∈ gs, Misses I run limit g) :
    Meets I (c.nextMatch run ts limit i gs) fun r => r = none := by
  refine (meets_nextMatch (P := fun _ _ m => m.isMatch = false) i gs
    fun g hg place hplace => h g hg ts place hplace).mono fun r hr => ?_
  cases r with
  | none => rfl
  | some x =>
    obtain ⟨g, place, -, -, -, hmatch, hmiss⟩ := hr x rfl
    rw [hmatch] at hmiss
    cases hmiss

/-- Where no terminator and no bracket matches, a greedy grammar may take all there is. -/
theorem trimToTerminator_of_misses (h : ∀ g ∈ gs, Misses I run limit g)
    (hbrackets : ∀ p ∈ c.tables.bracketPairs,
      Misses I run limit p.opening ∧ Misses I run limit p.closing) :
    Meets I (c.trimToTerminator run ts limit i gs) fun stop => stop = limit := by
  unfold trimToTerminator
  refine .ite (fun _ => .pure rfl) fun hguard => ?_
  rw [Bool.or_eq_true, decide_eq_true_eq, not_or, Nat.not_le] at hguard
  refine (anyMatches_of_misses (fun g hg => h g (mem_of_mem_prune hg)) hguard.1).bind
    fun found hfound => ?_
  rw [hfound, if_neg Bool.false_ne_true]
  have outside : Meets I (c.nextOutsideBrackets run ts limit i gs) fun found =>
      found.hit = none := by
    unfold nextOutsideBrackets outsideFrom
    refine (nextMatch_of_misses fun g hg => ?_).bind fun r hr => ?_
    · rcases List.mem_append.1 hg with hg | hg
      · exact h g hg
      · exact forall_mem_bracketGrammars hbrackets g hg
    · rw [hr]
      exact .pure rfl
  refine outside.bind fun found hfound => ?_
  rw [hfound]
  exact .pure rfl

/-- What does not match is no better than what has been found. -/
theorem longestFrom_of_misses
    (h : ∀ g ∈ gs, Meets I (below ts limit i g) fun m => m.isMatch = false)
    (best : Match × Option GrammarId) :
    Meets I (c.longestFrom here below ts limit i best gs) fun r => r = best := by
  induction gs with
  | nil => exact .pure rfl
  | cons g gs ih =>
    unfold longestFrom
    refine (h g (by simp)).bind fun m hm => ?_
    rw [if_neg (by simp [hm]), Match.isLongerThan_of_not_isMatch hm, if_pos (by simp)]
    exact ih fun x hx => h x (by simp [hx])

theorem longest_of_misses (h : ∀ g ∈ gs, Meets I (below ts limit i g) fun m => m.isMatch = false) :
    Meets I (c.longest here below ts limit i gs) fun r => r.1 = .empty i := by
  unfold longest
  refine .ite (fun _ => .pure rfl) fun _ => ?_
  refine (longestFrom_of_misses (fun g hg => h g (mem_of_mem_prune hg)) _).mono fun r hr => ?_
  rw [hr]

/-- The only grammar that matches is the one that matches most. Terminators behind it change nothing
about that; they are not even looked for if it leaves nothing behind it. -/
theorem longestFrom_of_only {m : Match} {g : GrammarId} {before after : List GrammarId}
    (hbefore : ∀ x ∈ before, Meets I (below ts limit i x) fun m => m.isMatch = false)
    (hafter : ∀ x ∈ after, Meets I (below ts limit i x) fun m => m.isMatch = false)
    (hg : Meets I (below ts limit i g) fun x => x = m) (hlt : m.start < m.stop)
    (hstop : m.stop ≤ limit)
    (hends : m.stop = limit ∨ ∀ x ∈ ts, Misses I here limit x) :
    Meets I (c.longestFrom here below ts limit i (.empty i, none) (before ++ g :: after)) fun r =>
      r.1 = m := by
  induction before with
  | nil =>
    rw [List.nil_append]
    unfold longestFrom
    refine hg.bind fun x hx => ?_
    subst hx
    have longer : x.isLongerThan (.empty i) = true := by
      unfold Match.isLongerThan Match.length
      exact decide_eq_true (by simp only [Match.empty, Match.stop_mk, Match.start_mk]; omega)
    have rest : Meets I (c.longestFrom here below ts limit i (x, some g) after) fun r => r.1 = x :=
      (longestFrom_of_misses hafter _).mono fun r hr => by rw [hr]
    refine .ite (fun _ => .pure rfl) fun hwhole => ?_
    dsimp only
    rw [longer, if_neg (by simp)]
    refine .ite (fun _ => .pure rfl) fun _ => .ite (fun _ => rest) fun _ => ?_
    refine .ite (fun _ => .pure rfl) fun hnext => ?_
    have ends := hends.resolve_left fun h => hwhole (by simp [Match.isMatch_of_lt hlt, h])
    have next : c.skipToCode x.stop limit < limit := by
      have := skipToCode_le (c := c) x.stop limit
      omega
    refine (anyMatches_of_misses ends next).bind fun found hfound => ?_
    rw [hfound, if_neg Bool.false_ne_true]
    exact rest
  | cons x before ih =>
    rw [List.cons_append]
    unfold longestFrom
    refine (hbefore x (by simp)).bind fun y hy => ?_
    dsimp only
    rw [if_neg (by simp [hy]), Match.isLongerThan_of_not_isMatch hy, if_pos (by simp)]
    exact ih fun z hz => hbefore z (by simp [hz])

/-- So it is at code that its hint admits. -/
theorem longest_of_only (hi : i < limit) {v : TokenView} (hv : c.tokens[i]? = some v)
    (hblank : v.isAllBlank = false) {m : Match} {g : GrammarId}
    (hadmits : c.tables.admits g v.upper v.segment.classTypes = true)
    {before after : List GrammarId}
    (hbefore : ∀ x ∈ before, Meets I (below ts limit i x) fun m => m.isMatch = false)
    (hafter : ∀ x ∈ after, Meets I (below ts limit i x) fun m => m.isMatch = false)
    (hg : Meets I (below ts limit i g) fun x => x = m) (hlt : m.start < m.stop)
    (hstop : m.stop ≤ limit) (hends : m.stop = limit ∨ ∀ x ∈ ts, Misses I here limit x) :
    Meets I (c.longest here below ts limit i (before ++ g :: after)) fun r => r.1 = m := by
  have solid : c.nextSolid? limit i = some v := by
    rw [nextSolid?, dif_pos hi, hv]
    simp [hblank]
  unfold longest prune
  rw [if_neg (Nat.not_le.2 hi), solid]
  dsimp only
  rw [List.filter_append, List.filter_cons_of_pos (by simpa using hadmits)]
  exact longestFrom_of_only (fun y hy => hbefore y (List.mem_filter.1 hy).1)
    (fun y hy => hafter y (List.mem_filter.1 hy).1) hg hlt hstop hends

end Misses

/-! ## 2. Repetitions and lists -/

section Repetitions

variable {below below2 : Matcher} {ts : List GrammarId} {i : Nat} {options : List GrammarId}

/-- Where no option matches, a repetition takes nothing. -/
theorem repeatFrom_of_none (hi : i < limit) (allowGaps : Bool) (r : Repetition)
    (h : Meets I (c.longest below below2 ts limit i options) fun x => x.1 = .empty i) :
    Meets I (c.repeatFrom below below2 ts limit i allowGaps r options (limit + 1)
      { matched := .empty i, place := i, next := i })
      fun x => ∃ s, x = some s ∧ s.matched = .empty i := by
  unfold repeatFrom
  refine .ite (fun _ => .pure ⟨_, rfl, rfl⟩) fun _ => ?_
  refine .ite (fun hle => absurd hi (Nat.not_lt.2 hle)) fun _ => ?_
  refine h.bind fun x hx => ?_
  obtain ⟨m, option⟩ := x
  dsimp only at hx ⊢
  rw [hx, if_pos (by simp [Match.isEmpty, Match.empty, Match.start, Match.stop])]
  refine .pure ⟨_, rfl, ?_⟩
  split <;> rfl

/-- A choice takes what its options match most. -/
theorem repeatFrom_of_once (hi : i < limit) (allowGaps : Bool) {m : Match}
    (h : Meets I (c.longest below below2 ts limit i options) fun x => x.1 = m)
    (hm : m = .empty i ∨ m.start < m.stop) :
    Meets I (c.repeatFrom below below2 ts limit i allowGaps ⟨1, some 1, none⟩ options (limit + 1)
      { matched := .empty i, place := i, next := i })
      fun x => ∃ s, x = some s ∧ s.matched = m := by
  rcases hm with rfl | hlt
  · exact repeatFrom_of_none hi allowGaps _ h
  obtain ⟨k, hk⟩ : ∃ k, limit = k + 1 := ⟨limit - 1, by omega⟩
  unfold repeatFrom
  refine .ite (fun h => by simp at h) fun _ => ?_
  refine .ite (fun hle => absurd hi (Nat.not_lt.2 hle)) fun _ => ?_
  refine h.bind fun x hx => ?_
  obtain ⟨x, option⟩ := x
  dsimp only at hx ⊢
  subst hx
  rw [if_neg (by simpa [Match.isEmpty] using hlt), if_neg (by simp)]
  have once : (Match.empty i).append x = x := Match.append_of_not_isMatch x (by simp)
  rw [hk]
  unfold repeatFrom
  rw [if_pos (by simp), once]
  exact .pure ⟨_, rfl, rfl⟩

/-- A repetition that is not greedy takes what its rounds take, unless what it excludes matches. -/
theorem matchAnyNumberOf_of_rounds {id : GrammarId} {r : Repetition} {x? : Option GrammarId}
    {excluded : Bool} {m : Match} (hmode : (c.tables.instruction id).mode ≠ .greedy)
    (hexcluded : Meets I (matchesExcluded below ts limit i x?) fun y => y = excluded)
    (hrounds : excluded = false →
      Meets I (c.repeatFrom below below2 (c.repetitionTerminators ts id) limit i
        (c.tables.instruction id).flags.allowGaps r (c.tables.parts id) (limit + 1)
        { matched := .empty i, place := i, next := i })
        fun x => ∃ s, x = some s ∧ s.matched = m) :
    Meets I (c.matchAnyNumberOf below below2 ts limit i id r x?)
      fun x => x = if excluded then .empty i else m := by
  rw [matchAnyNumberOf_eq]
  refine hexcluded.bind fun y hy => ?_
  subst hy
  refine .ite (fun hx => .pure (by rw [if_pos hx])) fun hx => ?_
  rw [repetitionLimit, if_neg hmode, pure_bind, if_neg hx]
  refine (hrounds (by simpa using hx)).bind fun rounds h => .pure ?_
  obtain ⟨s, rfl, hs⟩ := h
  unfold finishRepetition
  dsimp only
  rw [if_neg hmode]
  exact hs

end Repetitions

section Lists

variable {below below2 : Matcher} {ts : List GrammarId} {i : Nat} {spec : DelimitedSpec}

/-- Behind a part that no delimiter follows a list ends. -/
theorem delimitedFrom_of_part (hoptional : spec.optionalDelimiter = false)
    (hends : ∀ g ∈ spec.terminators, Misses I below2 limit g)
    (hdelimiter : Misses I below2 limit spec.delimiter) (fuel : Nat) {s : DelimitedState}
    (hwants : s.wantsDelimiter = true) :
    Meets I (c.delimitedFrom below below2 ts limit i spec fuel s) fun s' =>
      ∃ place, s' = { s with place := place } := by
  cases fuel with
  | zero => exact .pure ⟨s.place, rfl⟩
  | succ fuel =>
    unfold delimitedFrom
    dsimp only
    refine .ite (fun _ => .pure ⟨_, rfl⟩) fun hguard => ?_
    rw [Bool.or_eq_true, decide_eq_true_eq, not_or, Nat.not_le] at hguard
    refine (longest_of_misses fun g hg => hends g hg ts _ hguard.1).bind fun ending hending => ?_
    rw [hending, if_neg (by simp), if_pos hwants]
    refine (longest_of_misses (List.forall_mem_singleton.2 (hdelimiter ts _ hguard.1))).bind
      fun found hfound => ?_
    obtain ⟨m, option⟩ := found
    dsimp only at hfound ⊢
    rw [hfound, if_neg (by simp), hoptional, if_neg Bool.false_ne_true]
    exact .pure ⟨_, rfl⟩

/-- A list that nothing delimits or ends takes one part, if there is one. -/
theorem delimitedFrom_of_only (hi : i < limit) (hcode : c.isCodeAt i = true)
    (hoptional : spec.optionalDelimiter = false)
    (hends : ∀ g ∈ spec.terminators, Misses I below2 limit g)
    (hdelimiter : Misses I below2 limit spec.delimiter) {m : Match}
    (hpart : Meets I (c.longest below below2 (pushTerminators false [spec.delimiter] ts) limit i
      spec.parts) fun x => x.1 = m) (hm : m = .empty i ∨ m.start < m.stop) :
    Meets I (c.delimitedFrom below below2 ts limit i spec (2 * limit + 2)
      { matched := .empty i, place := i })
      fun s => s.matched = m ∧ s.pending = none ∧ s.delimiters = 0 := by
  unfold delimitedFrom
  dsimp only
  simp only [Nat.lt_irrefl, decide_false, Bool.and_false, Bool.false_eq_true, if_false]
  rw [if_neg (by simp [hcode, hi])]
  refine (longest_of_misses fun g hg => hends g hg ts _ hi).bind fun ending hending => ?_
  rw [hending, if_neg (by simp)]
  refine hpart.bind fun found hfound => ?_
  obtain ⟨x, option⟩ := found
  dsimp only at hfound ⊢
  subst hfound
  rcases hm with rfl | hlt
  · rw [if_neg (by simp)]
    exact .pure ⟨rfl, rfl, rfl⟩
  · rw [if_pos (Match.isMatch_of_lt hlt)]
    refine (delimitedFrom_of_part hoptional hends hdelimiter _ rfl).mono fun s hs => ?_
    obtain ⟨place, rfl⟩ := hs
    exact ⟨Match.append_of_not_isMatch x (by simp), rfl, rfl⟩

end Lists

/-! ## 3. What is known of terminators -/

/-- What is said to be silent matches nowhere. -/
def Silences (c : MatchContext) (b : GrammarBook) (limit : Nat) (I : MatchState → Prop) (e : Enders)
    (run : Matcher) : Prop :=
  e.known = true → ∀ g id, e.isSilent g = true → c.tables.Reads b g id →
    c.tables.IsAnonymous id → Misses I run limit id

/-- Terminators are grammars that are said to be silent, if anything is known of them. -/
def Knows (c : MatchContext) (b : GrammarBook) (e : Enders) (ts : List GrammarId) : Prop :=
  e.known = true → ∀ id ∈ ts, ∃ g, e.isSilent g = true ∧ c.tables.Reads b g id ∧
    c.tables.IsAnonymous id

section Known

variable {e : Enders} {run : Matcher} {ts own : List GrammarId} {terminators : List Grammar}

theorem Silences.misses (h : c.Silences b limit I e run) (hts : c.Knows b e ts)
    (he : e.known = true) : ∀ g ∈ ts, Misses I run limit g := by
  intro id hid
  obtain ⟨g, hsilent, hreads, hanonymous⟩ := hts he id hid
  exact h he g id hsilent hreads hanonymous

theorem Silences.within (h : c.Silences b limit I e run) (terminators : List Grammar) :
    c.Silences b limit I (e.within terminators) run := by
  unfold Enders.within
  split
  · exact h
  · intro he
    cases he

/-- With the terminators of a grammar, those around it are known as far as before, or nothing is. -/
theorem Knows.within (h : c.Knows b e ts) (hown : c.tables.ReadsAll b terminators own)
    {ts' : List GrammarId} (hts' : ∀ g ∈ ts', g ∈ own ∨ g ∈ ts) :
    c.Knows b (e.within terminators) ts' := by
  unfold Enders.within
  split
  · next hsilent =>
    intro he id hid
    rcases hts' id hid with hid | hid
    · obtain ⟨g, hg, hanonymous, hreads⟩ := hown.exists_of_mem hid
      exact ⟨g, List.all_eq_true.1 hsilent g hg, hreads, hanonymous⟩
    · exact h he id hid
  · intro he
    cases he

end Known

/-! ## 4. Parts that are told of -/

/-- What is told of grammars is what they match, among terminators that are known. -/
def Answers (c : MatchContext) (b : GrammarBook) (limit : Nat) (I : MatchState → Prop) (e : Enders)
    (run : Matcher) (told : Telling) : Prop :=
  ∀ ts, c.Knows b e ts → ∀ i < limit, ∀ g id m, c.tables.Reads b g id → told g i = some m →
    Meets I (run ts limit i id) fun x =>
      x = m.wrap? ((c.tables.segmentType? id).map (.node · id))

/-- A match that is told of the part of a grammar is put into no segment. -/
theorem Answers.inner {e : Enders} {run : Matcher} {told : Telling}
    (h : c.Answers b limit I e run told) {ts : List GrammarId} (hts : c.Knows b e ts) {i : Nat}
    (hi : i < limit) {g : Grammar} {id : GrammarId} {m : Match} (hid : c.tables.IsAnonymous id)
    (hreads : c.tables.Reads b g id) (htold : told g i = some m) :
    Meets I (run ts limit i id) fun x => x = m := by
  have same := h ts hts i hi g id m hreads htold
  rwa [hid.1] at same

section Choice

variable {e : Enders} {below below2 : Matcher} {told : Telling} {ts : List GrammarId} {i : Nat}
  (hanswers : c.Answers b limit I e below told) (hts : c.Knows b e ts) (hi : i < limit)

include hanswers hts hi

/-- None of several grammars matches. -/
theorem misses_of_tellOnly {gs : List Grammar} {ids : List GrammarId}
    (hreads : c.tables.ReadsAll b gs ids) (htold : tellOnly told i gs = some none) :
    ∀ id ∈ ids, Meets I (below ts limit i id) fun m => m.isMatch = false := by
  induction gs generalizing ids with
  | nil =>
    unfold Tables.ReadsAll at hreads
    subst hreads
    intro id hid
    cases hid
  | cons g gs ih =>
    unfold Tables.ReadsAll at hreads
    obtain ⟨id, more, rfl, hid, hg, hmore⟩ := hreads
    obtain ⟨m, found, hm, hfound, hcase⟩ := tellOnly_cons htold
    rcases hcase with ⟨hmiss, rfl⟩ | ⟨-, -, hr⟩
    · intro x hx
      rcases List.mem_cons.1 hx with rfl | hx
      · exact (hanswers.inner hts hi hid hg hm).mono fun y hy => by rw [hy, hmiss]
      · exact ih hmore hfound x hx
    · cases hr

theorem matchesExcluded_of_tell {x : Option Grammar} {x? : Option GrammarId}
    (hreads : c.tables.ReadsOption b x x?) {r : Bool} (htold : tellExcluded told i x = some r) :
    Meets I (matchesExcluded below ts limit i x?) fun y => y = r := by
  cases x with
  | none =>
    unfold Tables.ReadsOption at hreads
    subst hreads
    cases htold
    exact .pure rfl
  | some g =>
    unfold Tables.ReadsOption at hreads
    obtain ⟨id, rfl, hid, hg⟩ := hreads
    obtain ⟨m, hm, rfl⟩ := Option.map_eq_some_iff.1 htold
    exact (hanswers.inner hts hi hid hg hm).bind fun y hy => .pure (by rw [hy])

omit hanswers in
/-- What is told to match most is what matches most. -/
theorem longest_of_tell (hanswers2 : c.Answers b limit I e below2 told)
    (hsilent : c.Silences b limit I e below) (hopens : c.OpensAsTold b told) {gs : List Grammar}
    {ids : List GrammarId} {m : Match} (hreads : c.tables.ReadsAll b gs ids)
    (htold : c.tellLongest limit e told i gs = some m) :
    Meets I (c.longest below below2 ts limit i ids) (fun r => r.1 = m) ∧
      (m = .empty i ∨ m.start < m.stop) := by
  unfold tellLongest at htold
  obtain ⟨found, hfound, htold⟩ := Option.bind_eq_some_iff.1 htold
  cases found with
  | none =>
    cases htold
    exact ⟨longest_of_misses (misses_of_tellOnly hanswers2 hts hi hreads hfound), .inl rfl⟩
  | some x =>
    dsimp only at htold
    split at htold
    · next hsettles =>
      cases htold
      unfold settles at hsettles
      simp only [Bool.and_eq_true, Bool.or_eq_true, decide_eq_true_eq, beq_iff_eq] at hsettles
      obtain ⟨⟨⟨hcode, hlt⟩, hstop⟩, hends⟩ := hsettles
      refine ⟨?_, .inr hlt⟩
      obtain ⟨first, g, last, before, id, after, rfl, hbefore, hfirst, hafter, hlast, hid, hg,
        htold⟩ := split_of_tellOnly hreads hfound
      have missed := misses_of_tellOnly hanswers2 hts hi hbefore hfirst
      have missing := misses_of_tellOnly hanswers2 hts hi hafter hlast
      cases hv : c.tokens[i]? with
      | none =>
        rw [hv] at hcode
        cases hcode
      | some v =>
        rw [hv, Option.any_some, Bool.and_eq_true, Bool.not_eq_true'] at hcode
        have admitted := hopens i g id m hg htold hlt v hv hcode.1
        exact longest_of_only hi hv hcode.2 admitted missed missing
          (hanswers2.inner hts hi hid hg htold) hlt hstop
          (hends.symm.imp_right (hsilent.misses hts))
    · cases htold

end Choice

/-! ## 5. Sequences -/

/-- The brackets of the tables read as those of the book. -/
def HasBracketsOf (c : MatchContext) (b : GrammarBook) : Prop :=
  ∀ p ∈ c.tables.bracketPairs, ∃ q ∈ b.brackets,
    c.tables.ReadsReference b p.opening q.opening ∧ c.tables.ReadsReference b p.closing q.closing

theorem Silences.brackets {e : Enders} {run : Matcher} (h : c.Silences b limit I e run)
    (hpairs : c.HasBracketsOf b) (he : e.passesBrackets b = true) :
    ∀ p ∈ c.tables.bracketPairs, Misses I run limit p.opening ∧ Misses I run limit p.closing := by
  unfold Enders.passesBrackets at he
  rw [Bool.and_eq_true, List.all_eq_true] at he
  intro p hp
  obtain ⟨q, hq, hopening, hclosing⟩ := hpairs p hp
  have silent := he.2 q hq
  rw [Bool.and_eq_true] at silent
  exact ⟨h he.1 _ _ silent.1 (hopening.reads) hopening.anonymous,
    h he.1 _ _ silent.2 (hclosing.reads) hclosing.anonymous⟩

section Sequences

variable {e : Enders} {below : Matcher} {told : Telling} {ts : List GrammarId} {start : Nat}
  {s : GrammarSettings} {spec : SequenceSpec}
  (hanswers : c.Answers b limit I e below told) (hsilent : c.Silences b limit I e below)
  (hpairs : c.HasBracketsOf b) (hmode : spec.mode = s.mode) (hgaps : spec.allowGaps = s.allowGaps)
  (hgreedy : s.mode ≠ .greedy)

include hmode in
theorem finishSequence_of_tell {st : SequenceState} (hlimit : st.limit = limit)
    (h : s.mode = .strict ∨ c.leftover st.place limit = none) :
    c.finishSequence spec start st =
      .mk start st.place none (st.placed st.place) st.children := by
  have nothing : (if spec.mode ≠ .strict then c.leftover st.place st.limit else none) = none := by
    rw [hmode, hlimit]
    split
    · next hstrict => exact h.resolve_left hstrict
    · rfl
  unfold finishSequence
  rw [nothing]

include hmode in
theorem endedSequence_of_tell {st : SequenceState} (h : s.mode = .strict ∨ st.place = start)
    (part : GrammarId) : c.endedSequence spec start st part = .empty start := by
  unfold endedSequence
  rw [hmode, if_pos (by simpa using h)]

include hmode hgreedy in
theorem failedSequence_of_tell {st : SequenceState} (h : s.mode = .strict ∨ st.place = start)
    (part : GrammarId) (i : Nat) : c.failedSequence spec start st part i = .empty start := by
  unfold failedSequence
  rw [hmode]
  cases hs : s.mode with
  | strict => rfl
  | greedy => exact absurd hs hgreedy
  | greedyOnceStarted =>
    rw [decide_eq_true (h.resolve_left (by simp [hs]))]

include hsilent hpairs hmode in
/-- No terminator is found behind the first part, where one is looked for. -/
theorem nextLimit_of_tell (hall : c.Knows b e (allTerminators spec.terminators spec.reset ts))
    {st : SequenceState} (hgo : !st.isFirst || s.mode = .strict || e.passesBrackets b)
    (m : Match) :
    Meets I (c.nextLimit below ts limit spec { st with limit := limit } m) fun r => r = limit := by
  unfold nextLimit
  refine .ite (fun hfirst => ?_) fun _ => .pure rfl
  rw [hmode, Bool.and_eq_true, beq_iff_eq] at hfirst
  have first : st.isFirst = true := hfirst.1
  have passes : e.passesBrackets b = true := by simpa [first, hfirst.2] using hgo
  have known : e.known = true := (Bool.and_eq_true_iff.1 passes).1
  exact trimToTerminator_of_misses (hsilent.misses hall known) (hsilent.brackets hpairs passes)

include hanswers hsilent hpairs hmode hgaps hgreedy

/-- What is told of the parts of a sequence that are left is what they match. -/
theorem sequenceFrom_of_tell (hpush : c.Knows b e (pushTerminators spec.reset spec.terminators ts))
    (hall : c.Knows b e (allTerminators spec.terminators spec.reset ts)) {gs : List Grammar}
    {ids : List GrammarId} {st : SequenceState} {m : Match} (hreads : c.tables.ReadsAll b gs ids)
    (hlimit : st.limit = limit)
    (htold : c.tellParts b limit e told s start st gs = some m) :
    Meets I (c.sequenceFrom below ts limit start spec st ids) fun x => x = m := by
  induction gs generalizing ids st with
  | nil =>
    unfold Tables.ReadsAll at hreads
    subst hreads
    unfold tellParts at htold
    split at htold
    · next hend =>
      cases htold
      refine .pure (finishSequence_of_tell hmode hlimit ?_)
      simpa using hend
    · cases htold
  | cons g gs ih =>
    unfold Tables.ReadsAll at hreads
    obtain ⟨id, more, rfl, hid, hg, hmore⟩ := hreads
    unfold tellParts at htold
    unfold sequenceFrom
    cases hm : g.marker? with
    | some marker =>
      rw [hm] at htold
      dsimp only at htold ⊢
      have enabled : c.enabledMarker? id = c.enabled? marker := hg.enabledMarker?_eq rfl hm
      rw [if_pos (hg.kind_eq_marker_iff.2 (by rw [hm]; rfl)), enabled]
      exact ih hmore hlimit htold
    | none =>
      rw [hm] at htold
      dsimp only at htold ⊢
      rw [if_neg (by rw [hg.kind_eq_marker_iff, hm]; exact Bool.false_ne_true), hgaps, hlimit,
        hg.isOptional_eq]
      have without {x : Match} (hx : s.mode = .strict ∨ st.place = start → x = .empty start)
          (h : (if g.isOptional then c.tellParts b limit e told s start st gs
            else if (decide (s.mode = .strict) || decide (st.place = start)) = true then
              some (.empty start) else none) = some m) :
          Meets I (if g.isOptional then c.sequenceFrom below ts limit start spec st more
            else pure x) fun x => x = m := by
        split at h
        · next hoptional =>
          rw [if_pos hoptional]
          exact ih hmore hlimit h
        · next hrequired =>
          rw [if_neg hrequired]
          split at h
          · next hfails =>
            cases h
            exact .pure (hx (by simpa using hfails))
          · cases h
      generalize (if s.allowGaps = true then c.skipToCode st.place limit else st.place) = i
        at htold ⊢
      refine .ite (fun hle => ?_) fun hlt => ?_
      · rw [if_pos hle] at htold
        exact without (endedSequence_of_tell hmode · id) htold
      rw [if_neg hlt] at htold
      obtain ⟨x, hx, htold⟩ := Option.bind_eq_some_iff.1 htold
      refine (hanswers.inner hpush (Nat.lt_of_not_le hlt) hid hg hx).bind fun y hy => ?_
      subst hy
      split at htold
      · next hmiss =>
        rw [if_pos hmiss]
        exact without (failedSequence_of_tell hmode hgreedy · id i) htold
      · next hmatch =>
        rw [if_neg hmatch]
        split at htold
        · next hgo =>
          rw [bind_ite]
          refine (nextLimit_of_tell hsilent hpairs hmode hall
            (Bool.and_eq_true_iff.1 hgo).2 y).bind fun r hr => ?_
          subst hr
          exact ih hmore rfl htold
        · cases htold

end Sequences

/-! ## 6. All levels -/

section Levels

variable {here below below2 : Matcher} {told : Enders → Telling} {e : Enders} {ts : List GrammarId}
  {i : Nat} {id : GrammarId} {m : Match} {form : GrammarForm}
  {parts terminators : List Grammar} {exclude delimiter : Option Grammar} {s : GrammarSettings}

/-- What a pattern is told not to match it does not match, whatever else it must not match. -/
theorem matchPattern_of_tell {p : TablePattern} {type : String}
    (h : (c.matchPattern limit i (some p) none type).isMatch = false)
    (anti : Option TablePattern) : c.matchPattern limit i (some p) anti type = .empty i := by
  unfold matchPattern matchCode at h ⊢
  dsimp only at h ⊢
  split
  · next v hv =>
    rw [hv] at h
    dsimp only at h
    split at h
    · have matched : (Match.token i type none).isMatch = true :=
        Match.isMatch_of_lt (Nat.lt_succ_self i)
      rw [matched] at h
      cases h
    · next hfails =>
      rw [if_neg]
      intro htest
      refine hfails ?_
      simp only [Bool.and_eq_true, Option.any_none, Bool.not_false, and_true] at htest ⊢
      exact ⟨htest.1, htest.2.1⟩
  · rfl

/-- A list that is told of takes one part, if there is one. -/
theorem matchDelimited_of_tell {told : Telling} {delimiter : Grammar} {d : GrammarId}
    (hi : i < limit) (hanswers2 : c.Answers b limit I e below2 told)
    (hsilent : c.Silences b limit I e below) (hsilent2 : c.Silences b limit I e below2)
    (hopens : c.OpensAsTold b told) (hknown : c.Knows b e ts)
    (hends : c.Knows b e (c.delimitedSpec ts id d).terminators)
    (hoptional : (c.tables.instruction id).flags.optionalDelimiter = s.optionalDelimiter)
    (hparts : c.tables.ReadsAll b parts (c.tables.parts id)) (hd : c.tables.Reads b delimiter d)
    (hanonymous : c.tables.IsAnonymous d)
    (htold : c.tellDelimited limit e told i parts delimiter s = some m) :
    Meets I (c.matchDelimited below below2 ts limit i id d 0) fun x => x = m := by
  unfold tellDelimited at htold
  split at htold
  · next h =>
    simp only [Bool.and_eq_true, Bool.not_eq_true'] at h
    obtain ⟨⟨⟨known, silent⟩, hcode⟩, hgiven⟩ := h
    have pushed : c.Knows b e (pushTerminators false [d] ts) := by
      intro he g hg
      rcases mem_of_mem_pushTerminators hg with hg | hg
      · rw [List.mem_singleton.1 hg]
        exact ⟨delimiter, silent, hd, hanonymous⟩
      · exact hknown he g hg
    obtain ⟨longest, taken⟩ := longest_of_tell pushed hi hanswers2 hsilent hopens hparts htold
    unfold matchDelimited
    refine (delimitedFrom_of_only hi hcode
      (hoptional.trans hgiven) (hsilent2.misses hends known)
      (hsilent2 known delimiter d silent hd hanonymous) longest taken).bind fun st hst => ?_
    obtain ⟨matched, pending, count⟩ := hst
    rw [count, if_neg (Nat.lt_irrefl 0), pending, matched]
    split <;> exact .pure rfl
  · cases htold

/-- A reference that is told of matches what the grammar does that it names, unless what it excludes
matches. -/
theorem matchReference_of_tell {told : Telling} (hmemo : c.memoize = false) (hi : i < limit)
    (hanswers : c.Answers b limit I e below told)
    (hpush : c.Knows b e (pushTerminators (c.tables.instruction id).flags.resetTerminators
      (c.tables.terminatorsOf id) ts))
    {x? : Option GrammarId} (hexclude : c.tables.ReadsOption b exclude x?) {g : Grammar}
    {target : GrammarId} (hreads : c.tables.Reads b g target)
    (htold : tellUnless told i exclude
      ((told g i).map (·.wrap? ((c.tables.segmentType? target).map (.node · target)))) = some m) :
    Meets I (c.matchReference below ts limit i id target x?) fun x => x = m := by
  obtain ⟨excluded, hexcluded, htold⟩ := tellUnless_eq_some htold
  unfold matchReference
  refine (matchesExcluded_of_tell hanswers hpush hi hexclude hexcluded).bind fun y hy => ?_
  subst hy
  refine .ite (fun hx => ?_) fun hx => ?_
  · rw [if_pos hx] at htold
    exact .pure htold.symm
  · rw [if_neg hx] at htold
    obtain ⟨x, hx', rfl⟩ := Option.map_eq_some_iff.1 htold
    rw [hmemo]
    exact hanswers _ hpush i hi g target x hreads hx'

/-- A repetition that is told of takes what its rounds take, unless what it excludes matches. -/
theorem matchAnyNumberOf_of_tell {told : Telling} (hi : i < limit)
    (hanswers : c.Answers b limit I e below told) (hknown : c.Knows b e ts)
    (hmode : (c.tables.instruction id).mode ≠ .greedy) {r : Repetition} {x? : Option GrammarId}
    (hexclude : c.tables.ReadsOption b exclude x?) {taken : Option Match}
    (htold : tellUnless told i exclude taken = some m)
    (hrounds : taken = some m →
      Meets I (c.repeatFrom below below2 (c.repetitionTerminators ts id) limit i
        (c.tables.instruction id).flags.allowGaps r (c.tables.parts id) (limit + 1)
        { matched := .empty i, place := i, next := i })
        fun x => ∃ s, x = some s ∧ s.matched = m) :
    Meets I (c.matchAnyNumberOf below below2 ts limit i id r x?) fun x => x = m := by
  obtain ⟨excluded, hexcluded, htold⟩ := tellUnless_eq_some htold
  refine (matchAnyNumberOf_of_rounds (m := m) hmode
    (matchesExcluded_of_tell hanswers hknown hi hexclude hexcluded) fun hx => ?_).mono
      fun y hy => ?_
  · rw [hx, if_neg Bool.false_ne_true] at htold
    exact hrounds htold
  · rw [hy]
    split
    · next hx =>
      rw [if_pos hx] at htold
      exact htold.symm
    · rfl

/-- Brackets of which the first is told not to match do not match. -/
theorem matchBracketed_of_tell {told : Telling} (hi : i < limit)
    (hanswers : c.Answers b limit I e below told) (hknown : c.Knows b e ts)
    {opening closing : GrammarId} {persists : Bool} (hanonymous : c.tables.IsAnonymous opening)
    {g : Grammar} (hreads : c.tables.Reads b g opening) (htold : told g i = some m)
    (hmiss : m.isMatch = false) :
    Meets I (c.matchBracketed here below below2 ts limit i id opening closing persists) fun x =>
      x = .empty i := by
  unfold matchBracketed
  refine (hanswers.inner hknown hi hanonymous hreads htold).bind fun y hy => ?_
  subst hy
  rw [if_pos (by rw [hmiss]; rfl)]
  exact .pure rfl

variable (hbook : b.ReadsBack c.tables)
  (hfit : b.definitions.all (·.body.limitsFit) = true) (hpairs : c.HasBracketsOf b)
  (hmemo : c.memoize = false)
  (hopens : ∀ e, c.OpensAsTold b (told e))
  (hbelow : ∀ terminators, c.Answers b limit I (e.within terminators) below
    (told (e.within terminators)))
  (hbelow2 : ∀ terminators, c.Answers b limit I (e.within terminators) below2
    (told (e.within terminators)))
  (hsilent : c.Silences b limit I e below) (hsilent2 : c.Silences b limit I e below2)

include hbook hfit hpairs hmemo hopens hbelow hbelow2 hsilent hsilent2

/-- What is told of a grammar is what it matches, if that is so two levels deeper. -/
theorem matchShape_of_tell (hts : c.Knows b e ts) (hi : i < limit) {g : Grammar}
    (hreads : c.tables.Reads b g id) (htold : c.tellLevel b limit told e g i = some m) :
    Meets I (c.matchShape here below below2 ts limit i id) fun x => x = m := by
  cases g with
  | mk form parts terminators exclude delimiter s =>
    unfold tellLevel at htold
    dsimp only at htold
    unfold Tables.Reads at hreads
    obtain ⟨settings, shape, hparts, hown, hexclude, hdelimiter⟩ := hreads
    obtain ⟨hinted, hflags⟩ := settings.flags_eq
    -- inside the grammar its own terminators are looked for beside those around it
    have knows {ts' : List GrammarId} (h : ∀ g ∈ ts', g ∈ c.tables.terminatorsOf id ∨ g ∈ ts) :
        c.Knows b (e.within terminators) ts' := hts.within hown h
    have answers := hbelow terminators
    have answers2 := hbelow2 terminators
    have silent := hsilent.within terminators
    have silent2 := hsilent2.within terminators
    generalize e.within terminators = e at htold knows answers answers2 silent silent2
    have known : c.Knows b e ts := knows fun _ => .inr
    have pushed : c.Knows b e (pushTerminators (c.tables.instruction id).flags.resetTerminators
        (c.tables.terminatorsOf id) ts) := knows fun _ => mem_of_mem_pushTerminators
    unfold matchShape
    cases form with
    | ref name =>
      obtain ⟨n, hn, shape⟩ := shape
      rw [shape]
      dsimp only at htold ⊢
      obtain ⟨k, hk, htold⟩ := Option.bind_eq_some_iff.1 htold
      obtain rfl : n = k := Option.some.inj (hn.symm.trans hk)
      obtain ⟨d, hd, htold⟩ := Option.bind_eq_some_iff.1 htold
      have fits := List.all_eq_true.1 hfit d (List.mem_of_getElem? hd)
      rw [← (hbook.segments n d hd).1] at htold
      exact matchReference_of_tell hmemo hi answers pushed (hexclude rfl) (hbook.body n d hd fits)
        htold
    | sequence =>
      rw [show c.tables.shape id = .sequence from shape]
      dsimp only at htold ⊢
      split at htold
      · cases htold
      next hmode =>
      have mode : (c.sequenceSpec id).mode = s.mode := settings.mode_eq
      have gaps : (c.sequenceSpec id).allowGaps = s.allowGaps := by
        unfold sequenceSpec
        dsimp only
        rw [hflags]
      unfold matchSequence
      rw [if_neg (by rw [mode]; exact hmode), pure_bind]
      exact sequenceFrom_of_tell answers silent hpairs mode gaps hmode pushed
        (knows fun _ => mem_of_mem_allTerminators) hparts rfl htold
    | oneOf =>
      rw [show c.tables.shape id = .oneOf _ from shape]
      dsimp only at htold ⊢
      split at htold
      · cases htold
      next hmode =>
      refine matchAnyNumberOf_of_tell hi answers known (by rwa [settings.mode_eq]) (hexclude rfl)
        htold fun hlongest => ?_
      obtain ⟨longest, taken⟩ :=
        longest_of_tell pushed hi answers2 silent (hopens e) hparts hlongest
      exact repeatFrom_of_once hi _ longest taken
    | anyNumberOf most perPart =>
      rw [show c.tables.shape id = .anyNumberOf _ _ _ from shape]
      dsimp only at htold ⊢
      split at htold
      · cases htold
      next hmode =>
      refine matchAnyNumberOf_of_tell hi answers known (by rwa [settings.mode_eq]) (hexclude rfl)
        htold fun hnone => ?_
      obtain ⟨found, hfound, hnone⟩ := Option.bind_eq_some_iff.1 hnone
      split at hnone
      · next hempty =>
        cases hnone
        obtain rfl : found = none := by simpa using hempty
        exact repeatFrom_of_none hi _ _
          (longest_of_misses (misses_of_tellOnly answers2 pushed hi hparts hfound))
      · cases hnone
    | delimited least =>
      rw [show c.tables.shape id = .delimited _ _ from shape]
      dsimp only at htold ⊢
      split at htold
      · next hleast =>
        subst hleast
        obtain ⟨x, rfl, htold⟩ := Option.bind_eq_some_iff.1 htold
        have hdelimiter := hdelimiter rfl
        unfold Tables.ReadsOption at hdelimiter
        obtain ⟨d, hd, anonymous, hx⟩ := hdelimiter
        rw [hd]
        refine matchDelimited_of_tell hi answers2 silent silent2 (hopens e) known
          (knows fun g hg => ?_) (by rw [hflags]) hparts hx anonymous htold
        exact (List.mem_append.1 hg).imp_right fun hg => (List.mem_filter.1 hg).1
      · cases htold
    | bracketed type persists =>
      obtain ⟨pair, opening, closing, hpair, shape, hopening, -⟩ := shape
      rw [shape]
      dsimp only at htold ⊢
      obtain ⟨q, hq, htold⟩ := Option.bind_eq_some_iff.1 htold
      obtain rfl : pair = q := Option.some.inj (hpair.symm.trans hq)
      obtain ⟨x, hx, htold⟩ := Option.bind_eq_some_iff.1 htold
      split at htold
      · cases htold
      next hmiss =>
      cases htold
      exact matchBracketed_of_tell hi answers known hopening.anonymous hopening.reads hx
        (by simpa using hmiss)
    | string template type =>
      rw [show c.tables.shape id = .string _ _ from shape]
      cases htold
      exact .pure rfl
    | multiString templates type =>
      rw [show c.tables.shape id = .multiString _ _ from shape]
      cases htold
      exact .pure rfl
    | typed template type fold trim =>
      rw [show c.tables.shape id = .typed _ _ from shape]
      cases htold
      refine .pure ?_
      unfold matchTyped tellTyped
      rw [settings.casefold_eq, settings.trim_eq]
      rfl
    | pattern text anti type =>
      obtain ⟨p, a, hp, -, shape⟩ := shape
      rw [shape]
      dsimp only at htold ⊢
      rw [hp] at htold
      dsimp only at htold
      split at htold
      · cases htold
      next hmiss =>
      cases htold
      exact .pure (matchPattern_of_tell (by simpa using hmiss) a)
    | nothing =>
      rw [show c.tables.shape id = .nothing from shape]
      cases htold
      exact .pure rfl
    | missing =>
      rw [show c.tables.shape id = .missing from shape]
      cases htold
      exact .pure rfl
    | anything | token | marker => cases htold

/-- What is told of grammars is what they match, if that is so two levels deeper. -/
theorem answers_matchOne : c.Answers b limit I e (c.matchOne here below below2)
    (c.tellLevel b limit told e) := by
  intro ts hts i hi g id m hreads htold
  refine (matchShape_of_tell hbook hfit hpairs hmemo hopens hbelow hbelow2 hsilent hsilent2 hts hi
    hreads htold).bind fun x hx => .pure ?_
  rw [hx]

end Levels

section Whole

variable (hexplained : c.tables.HintsExplained) (hbook : b.ReadsBack c.tables)
  (hfit : b.definitions.all (·.body.limitsFit) = true)
  (hpairs : c.HasBracketsOf b) (hmemo : c.memoize = false) {beyond : Matcher}

include hexplained hbook hfit hpairs hmemo

/-- Each level that is looked at takes two levels of matching, besides those for terminators. -/
theorem answers_matchOver {k : Nat} {e : Enders}
    (hsilent : ∀ N, k ≤ N → c.Silences b limit I e (c.matchOver beyond N)) {n N : Nat}
    (hN : 2 * n + k ≤ N) : c.Answers b limit I e (c.matchOver beyond N) (c.tell b limit n e) := by
  induction n generalizing N e with
  | zero =>
    intro ts _ i _ g id m _ htold
    cases htold
  | succ n ih =>
    obtain ⟨N, rfl⟩ : ∃ N', N = N' + 1 := ⟨N - 1, by omega⟩
    rw [matchOver_succ]
    have deeper (terminators : List Grammar) {N : Nat} (hN : 2 * n + k ≤ N) :=
      ih (e := e.within terminators) (fun N hN => (hsilent N hN).within terminators) hN
    exact answers_matchOne hbook hfit hpairs hmemo (opensAsTold_tell hexplained hbook hfit n)
      (fun terminators => deeper terminators (by omega))
      (fun terminators => deeper terminators (by omega)) (hsilent N (by omega))
      (hsilent (N - 1) (by omega))

/-- What is told to match nowhere matches nowhere. -/
theorem silences_enders {n N : Nat} (hN : 2 * n ≤ N) :
    c.Silences b limit I (c.enders b limit n) (c.matchOver beyond N) := by
  intro _ g id hsilent hreads hanonymous ts place hplace
  have told := List.all_eq_true.1 hsilent place (List.mem_range.2 hplace)
  cases hm : c.tell b limit n .unknown g place with
  | none =>
    rw [hm] at told
    cases told
  | some m =>
    rw [hm, Option.any_some, Bool.not_eq_true'] at told
    have answers :
        c.Answers b limit I .unknown (c.matchOver beyond N) (c.tell b limit n .unknown) :=
      answers_matchOver hexplained hbook hfit hpairs hmemo (k := 0) (fun _ _ he => by cases he) hN
    refine (answers.inner (fun he => by cases he) hplace hanonymous hreads hm).mono fun x hx => ?_
    rw [hx, told]

end Whole

/-- What is told without the memo is what is matched with it, if the levels are enough. -/
theorem matchGrammar_of_tell (hexplained : c.tables.HintsExplained) (hbook : b.ReadsBack c.tables)
    (hfit : b.definitions.all (·.body.limitsFit) = true) (hpairs : c.HasBracketsOf b)
    {k n N : Nat} (hN : 2 * n + 2 * k ≤ N) {i : Nat} (hi : i < limit) {g : Grammar}
    {id : GrammarId} (hreads : c.tables.Reads b g id) {m : Match}
    (htold : c.unmemoized.tell b limit n (c.unmemoized.enders b limit k) g i = some m) :
    ((c.matchGrammar N [] limit i id).run {}).1 =
      m.wrap? ((c.tables.segmentType? id).map (.node · id)) := by
  have answers : c.unmemoized.Answers b limit (fun s => ¬ s.Tripped) (c.unmemoized.enders b limit k)
      (c.unmemoized.guarded N) (c.unmemoized.tell b limit n (c.unmemoized.enders b limit k)) :=
    answers_matchOver (c := c.unmemoized) hexplained hbook hfit hpairs rfl
      (fun _ hN => silences_enders (c := c.unmemoized) hexplained hbook hfit hpairs rfl hN) hN
  have untripped : ¬ MatchState.Tripped {} := List.not_mem_nil
  obtain ⟨hmatch, hlimit⟩ := answers [] (fun _ _ h => by cases h) i hi g id m hreads htold {}
    untripped
  rw [run_unmemoized_of_sincere .empty hlimit, (run_guarded N [] limit i id rfl).1, hmatch]
  rfl

end MatchContext

namespace Parser

variable {p : Parser} {tokens : List Segment} {b : GrammarBook}

/-- What is told of the grammar of a file is what is made of it. -/
theorem rootMatch_of_tell (hwhole : b.isWhole = true) (hb : b.weight < GrammarId.absent)
    (hfit : b.definitions.all (·.body.limitsFit) = true)
    (hbook : b.compile = .ok p.dialect.tables) {d : Definition} (hd : d ∈ b.definitions)
    (hroot : d.name = b.root) (hanonymous : d.segmentType = none) {n k : Nat}
    (hlevels : 2 * n + 2 * k ≤ p.maxDepth + 1) {m : Match}
    (hcode : p.firstCode tokens < p.lastCode tokens)
    (htold : (p.context tokens).unmemoized.tell b (p.lastCode tokens) n
      ((p.context tokens).unmemoized.enders b (p.lastCode tokens) k) d.body
      (p.firstCode tokens) = some m) :
    p.rootMatch tokens = m := by
  have reads := (GrammarBook.compile_reads b hwhole hb).2 _ hbook
  obtain ⟨r, hr⟩ := List.getElem?_of_mem hd
  have root : p.dialect.root = ⟨r⟩ := by
    have named := reads.name r d hr
    rw [hroot, reads.root] at named
    exact Option.some.inj named
  have fits := List.all_eq_true.1 hfit d hd
  have matched := MatchContext.matchGrammar_of_tell (c := p.context tokens)
    (GrammarBook.hintsExplained_of_compile hbook) reads hfit
    (GrammarBook.readsReference_of_compile hwhole hb hbook) hlevels hcode (reads.body r d hr fits)
    htold
  have anonymous : (p.context tokens).tables.segmentType? ⟨r⟩ = none := by
    rw [← hanonymous]
    exact (reads.segments r d hr).1
  rw [anonymous] at matched
  rw [rootMatch, matchAlone, root]
  exact matched

/-- The tree of a list of tokens, given the match of the grammar of a file. -/
def grow (p : Parser) (tokens : List Segment) (m : Match) : Fresh Segment := do
  let code ← p.code tokens (p.firstCode tokens) (p.lastCode tokens) m
  Segment.file (tokens.take (p.firstCode tokens) ++ code ++ tokens.drop (p.lastCode tokens))

/-- Parsing makes the tree of the match of the grammar of a file. -/
theorem exists_run_parse (h : p.firstCode tokens < p.lastCode tokens) {m : Match}
    (hm : p.rootMatch tokens = m) (n : Nat) :
    ∃ notes, (p.parse tokens).run n =
      (⟨((p.grow tokens m).run n).1, unparsableErrors ((p.grow tokens m).run n).1, notes⟩,
        ((p.grow tokens m).run n).2) := by
  rw [parse_eq, if_neg (Nat.ne_of_lt h), hm]
  exact ⟨_, rfl⟩

end Parser

end QueryLint
