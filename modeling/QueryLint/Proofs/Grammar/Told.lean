import QueryLint.Proofs.Grammar.Balance
import QueryLint.Proofs.Grammar.Hints
import QueryLint.Proofs.Match.Prune

/-!
QueryLint.Proofs.Grammar.Told — matches told from a book of grammars.

The tables of a dialect are too large to be worked out in a proof. What a grammar matches of a few
tokens can often be told without them, from the grammar as it is written: of several grammars only
one matches, and the grammars that might end what is matched match nowhere.

Nothing is told where more would have to be looked at: of greedy grammars and of brackets that are
there, of lists of two parts, of two grammars that match at one place.

* `MatchContext.tell` — what a grammar matches, told from the book.
* `MatchContext.enders` — the grammars that are told to match nowhere.
* `MatchContext.opensAsTold_tell` — what is told of a grammar with a hint opens as its hint says.
-/

namespace QueryLint

/-! ## 1. Matches and grammars that are read back -/

theorem Match.not_lt_of_empty {m : Match} {i : Nat} (h : some (empty i) = some m) :
    ¬ m.start < m.stop := by
  cases h
  exact Nat.lt_irrefl i

theorem Match.start_wrap? (m : Match) (k : Option MatchClass) : (m.wrap? k).start = m.start := by
  cases k with
  | none => rfl
  | some k => exact Match.start_wrap m k

theorem Match.stop_wrap? (m : Match) (k : Option MatchClass) : (m.wrap? k).stop = m.stop := by
  cases k with
  | none => rfl
  | some k => exact Match.stop_wrap m k

/-- A sequence may leave it out. -/
def Grammar.isOptional : Grammar → Bool
  | mk form _ _ _ _ s => s.optional || (form.instructionKind == .anyNumberOf && s.least == 0)

namespace Tables

variable {b : GrammarBook} {t : Tables} {id : GrammarId}

/-- What is among instructions that read as grammars reads as one of them. -/
theorem ReadsAll.exists_of_mem {gs : List Grammar} {ids : List GrammarId}
    (h : t.ReadsAll b gs ids) (hid : id ∈ ids) :
    ∃ g ∈ gs, t.IsAnonymous id ∧ t.Reads b g id := by
  induction gs generalizing ids with
  | nil =>
    unfold ReadsAll at h
    subst h
    cases hid
  | cons g gs ih =>
    unfold ReadsAll at h
    obtain ⟨x, more, rfl, hanonymous, hreads, hmore⟩ := h
    rcases List.mem_cons.1 hid with rfl | hid
    · exact ⟨g, by simp, hanonymous, hreads⟩
    · obtain ⟨g', hg', rest⟩ := ih hmore hid
      exact ⟨g', by simp [hg'], rest⟩

theorem Reads.isOptional_eq {g : Grammar} (h : t.Reads b g id) :
    (t.instruction id).isOptional = g.isOptional := by
  cases g with
  | mk form parts terminators exclude delimiter s =>
    unfold Reads at h
    obtain ⟨hinted, hflags⟩ := h.1.flags_eq
    unfold Instruction.isOptional Grammar.isOptional
    rw [hflags, h.1.kind_eq, h.1.least_eq]

/-- A reference to a bracket reads as the reference to its name. -/
theorem ReadsReference.reads {name : String} (h : t.ReadsReference b id name) :
    t.Reads b (.ref name) id := by
  obtain ⟨n, hn, hshape⟩ := h.shape
  have hexclude : t.exclude? id = none := by
    rw [exclude?, hshape]
  unfold Grammar.ref Grammar.ofForm Reads
  refine ⟨h.settings, ⟨n, hn, by rw [hexclude, hshape]⟩, ?_, ?_, ?_, ?_⟩
  · rw [h.parts, ReadsAll]
  · rw [h.terminators, ReadsAll]
  · intro _
    rw [hexclude, ReadsOption]
  · intro hkind
    cases hkind

end Tables

/-! ## 2. What grammars are told to match -/

/-- What is known of the grammars that end others. -/
structure Enders where
  /-- They may be looked for. -/
  known : Bool
  /-- A grammar matches nowhere. -/
  isSilent : Grammar → Bool

namespace Enders

/-- Nothing is known of them, so they must not be looked for. -/
def unknown : Enders := ⟨false, fun _ => true⟩

/-- With more of them. If one of these may match, nothing is known any more. -/
def within (e : Enders) (terminators : List Grammar) : Enders :=
  if terminators.all e.isSilent then e else unknown

/-- There are no brackets to be passed over on the way to them. -/
def passesBrackets (e : Enders) (b : GrammarBook) : Bool :=
  e.known && b.brackets.all fun p => e.isSilent (.ref p.opening) && e.isSilent (.ref p.closing)

end Enders

namespace MatchContext

/-- What is told of grammars: what each matches at a place, of as many as something is told of. -/
abbrev Telling := Grammar → Nat → Option Match

section Telling

variable (c : MatchContext) (b : GrammarBook) (limit : Nat) (e : Enders) (told : Telling)

/-- The marker that is put in, if the settings meet its condition. -/
def enabled? (m : MarkerPart) : Option MarkerKind :=
  if m.2.all (fun kv => c.setting? kv.1 == some kv.2) then some m.1 else none

/-- What a grammar excludes matches at a place. -/
def tellExcluded (i : Nat) : Option Grammar → Option Bool
  | none => some false
  | some x => (told x i).map (·.isMatch)

/-- Nothing where what a grammar excludes matches, and what is told otherwise. -/
def tellUnless (i : Nat) (exclude : Option Grammar) (otherwise : Option Match) : Option Match := do
  if ← tellExcluded told i exclude then some (.empty i) else otherwise

/-- The match of the only one of several grammars that matches, or that none does. -/
def tellOnly (i : Nat) : List Grammar → Option (Option Match)
  | [] => some none
  | g :: rest => do
    let m ← told g i
    let found ← tellOnly i rest
    if !m.isMatch then some found
    else if found.isNone then some (some m) else none

/-- A match takes code. If nothing is known of the grammars that end others, it must leave nothing
to be looked at behind it. -/
def settles (i : Nat) (m : Match) : Bool :=
  (c.tokens[i]?).any (fun v => v.isCode && !v.isAllBlank) && m.start < m.stop && m.stop ≤ limit &&
    (e.known || m.stop == limit)

/-- The one that matches most of several grammars, of which no two match. -/
def tellLongest (i : Nat) (options : List Grammar) : Option Match := do
  match ← tellOnly told i options with
  | none => some (.empty i)
  | some m => if c.settles limit e i m then some m else none

/-- The parts of a sequence that are left. -/
def tellParts (s : GrammarSettings) (start : Nat) : SequenceState → List Grammar → Option Match
  | st, [] =>
    if s.mode = .strict || (c.leftover st.place limit).isNone then
      some (.mk start st.place none (st.placed st.place) st.children)
    else none
  | st, g :: rest =>
    match g.marker? with
    | some m => tellParts s start { st with waiting := st.waiting ++ (c.enabled? m).toList } rest
    | none =>
      let i := if s.allowGaps then c.skipToCode st.place limit else st.place
      let without :=
        if g.isOptional then tellParts s start st rest
        else if s.mode = .strict || st.place = start then some (.empty start) else none
      if limit ≤ i then without
      else do
        let m ← told g i
        if !m.isMatch then without
        else if m.start < m.stop && (!st.isFirst || s.mode = .strict || e.passesBrackets b) then
          tellParts s start (st.withPart i limit m) rest
        else none

/-- A list of one part. -/
def tellDelimited (i : Nat) (parts : List Grammar) (delimiter : Grammar) (s : GrammarSettings) :
    Option Match :=
  if e.known && e.isSilent delimiter && c.isCodeAt i && !s.optionalDelimiter then
    c.tellLongest limit e told i parts
  else none

/-- A token by a type it counts as, with what the tables hold of a typed token as it is written. -/
def tellTyped (i : Nat) (template type : String) (fold : Casefold) (trim : List String) : Match :=
  match c.token? limit i with
  | some v =>
    if v.segment.isType template then
      .token i type
        (if trim.isEmpty && fold == .none then none
        else some (fold.apply (trim.foldl Text.trimCopies v.segment.raw)))
    else .empty i
  | none => .empty i

end Telling

/-- A grammar, told what others match. -/
def tellLevel (c : MatchContext) (b : GrammarBook) (limit : Nat) (told : Enders → Telling)
    (e : Enders) : Telling
  | .mk form parts terminators exclude delimiter s, i =>
    let e := e.within terminators
    let tell := told e
    match form with
    | .ref name => do
      let k ← b.slot? name
      let d ← b.definitions[k]?
      tellUnless tell i exclude
        ((tell d.body i).map (·.wrap? (d.segmentType.map (.node · ⟨k⟩))))
    | .sequence =>
      if s.mode = .greedy then none
      else c.tellParts b limit e tell s i { place := i, limit := limit } parts
    | .oneOf =>
      if s.mode = .greedy then none
      else tellUnless tell i exclude (c.tellLongest limit e tell i parts)
    | .anyNumberOf _ _ =>
      if s.mode = .greedy then none
      else tellUnless tell i exclude
        ((tellOnly tell i parts).bind fun found => if found.isNone then some (.empty i) else none)
    | .delimited least =>
      if least = 0 then delimiter.bind fun x => c.tellDelimited limit e tell i parts x s else none
    | .bracketed type _ => do
      let pair ← b.brackets.find? (·.type == type)
      let m ← tell (.ref pair.opening) i
      if m.isMatch then none else some (.empty i)
    | .string template type => some (c.matchCode limit i type (·.upper == template))
    | .multiString templates type =>
      some (c.matchCode limit i type fun v => templates.contains v.upper)
    | .typed template type fold trim => some (c.tellTyped limit i template type fold trim)
    | .pattern text _ type =>
      match TablePattern.read? text with
      | .ok p =>
        if (c.matchPattern limit i (some p) none type).isMatch then none else some (.empty i)
      | .error _ => none
    | .nothing | .missing => some (.empty i)
    | .anything | .token | .marker _ _ => none

/-- What is told of a grammar when so many levels are looked at. -/
def tell (c : MatchContext) (b : GrammarBook) (limit : Nat) : Nat → Enders → Telling
  | 0, _ => fun _ _ => none
  | n + 1, e => c.tellLevel b limit (tell c b limit n) e

/-- It is told of a grammar at every place that it does not match. -/
def missesAll (c : MatchContext) (b : GrammarBook) (limit n : Nat) (g : Grammar) : Bool :=
  (List.range limit).all fun i => (c.tell b limit n .unknown g i).any (!·.isMatch)

/-- The grammars that end others are known by what is told of them. -/
def enders (c : MatchContext) (b : GrammarBook) (limit n : Nat) : Enders :=
  ⟨true, c.missesAll b limit n⟩

/-! ## 3. Of several grammars one -/

variable {c : MatchContext} {b : GrammarBook} {limit : Nat} {told : Telling} {i : Nat} {m : Match}

theorem tellUnless_eq_some {exclude : Option Grammar} {otherwise : Option Match}
    (h : tellUnless told i exclude otherwise = some m) :
    ∃ excluded, tellExcluded told i exclude = some excluded ∧
      if excluded then m = .empty i else otherwise = some m := by
  obtain ⟨excluded, hexcluded, h⟩ := Option.bind_eq_some_iff.1 h
  refine ⟨excluded, hexcluded, ?_⟩
  split at h
  · next hx =>
    rw [if_pos hx]
    exact (Option.some.inj h).symm
  · next hx => rwa [if_neg hx]

/-- A match that takes something is not one of nothing. -/
theorem told_of_tellUnless {exclude : Option Grammar} {otherwise : Option Match}
    (h : tellUnless told i exclude otherwise = some m) (hlt : m.start < m.stop) :
    otherwise = some m := by
  obtain ⟨excluded, -, h⟩ := tellUnless_eq_some h
  split at h
  · exact absurd hlt (Match.not_lt_of_empty (congrArg some h.symm))
  · exact h

theorem tellOnly_cons {g : Grammar} {gs : List Grammar} {r : Option Match}
    (h : tellOnly told i (g :: gs) = some r) :
    ∃ m found, told g i = some m ∧ tellOnly told i gs = some found ∧
      (m.isMatch = false ∧ r = found ∨ m.isMatch = true ∧ found = none ∧ r = some m) := by
  unfold tellOnly at h
  obtain ⟨m, hm, h⟩ := Option.bind_eq_some_iff.1 h
  obtain ⟨found, hfound, h⟩ := Option.bind_eq_some_iff.1 h
  refine ⟨m, found, hm, hfound, ?_⟩
  cases hmatch : m.isMatch with
  | false =>
    rw [hmatch] at h
    exact .inl ⟨rfl, (Option.some.inj h).symm⟩
  | true =>
    rw [hmatch] at h
    cases found with
    | none => exact .inr ⟨rfl, rfl, (Option.some.inj h).symm⟩
    | some x => cases h

/-- Of several grammars that are told of, the only one that matches stands between others that do
not. -/
theorem split_of_tellOnly {gs : List Grammar} {ids : List GrammarId} {m : Match}
    (hreads : c.tables.ReadsAll b gs ids) (htold : tellOnly told i gs = some (some m)) :
    ∃ first g last before id after, ids = before ++ id :: after ∧
      c.tables.ReadsAll b first before ∧ tellOnly told i first = some none ∧
      c.tables.ReadsAll b last after ∧ tellOnly told i last = some none ∧
      c.tables.IsAnonymous id ∧ c.tables.Reads b g id ∧ told g i = some m := by
  induction gs generalizing ids with
  | nil => cases htold
  | cons g gs ih =>
    unfold Tables.ReadsAll at hreads
    obtain ⟨id, more, rfl, hid, hg, hmore⟩ := hreads
    obtain ⟨x, found, hx, hfound, hcase⟩ := tellOnly_cons htold
    rcases hcase with ⟨hmiss, rfl⟩ | ⟨-, rfl, hr⟩
    · obtain ⟨first, g', last, before, id', after, rfl, hbefore, hfirst, rest⟩ := ih hmore hfound
      refine ⟨g :: first, g', last, id :: before, id', after, rfl, ?_, ?_, rest⟩
      · unfold Tables.ReadsAll
        exact ⟨id, before, rfl, hid, hg, hbefore⟩
      · simp [tellOnly, hx, hfirst, hmiss]
    · cases hr
      refine ⟨[], g, gs, [], id, more, rfl, ?_, rfl, hmore, hfound, hid, hg, hx⟩
      rw [Tables.ReadsAll]

/-! ## 4. What a match opens with -/

/-- What is told of grammars takes a token first that their hints admit, if it takes any. -/
def OpensAsTold (c : MatchContext) (b : GrammarBook) (told : Telling) : Prop :=
  ∀ i g id m, c.tables.Reads b g id → told g i = some m → m.start < m.stop → c.AdmittedAt id i

section Opening

variable {id : GrammarId}

/-- Without a hint a grammar is tried at any token. -/
theorem admittedAt_of_hinted (h : (c.tables.hint? id).isSome = true → c.AdmittedAt id i) :
    c.AdmittedAt id i := by
  cases hhint : c.tables.hint? id with
  | none =>
    intro v _ _
    unfold Tables.admits
    rw [hhint]
  | some hint => exact h (by rw [hhint]; rfl)

/-- The only grammar that matches opens a choice. -/
theorem admittedAt_of_tellLongest {e : Enders} (hopens : c.OpensAsTold b told) {gs : List Grammar}
    {ids : List GrammarId} (hreads : c.tables.ReadsAll b gs ids)
    (hbegins : ∀ g ∈ ids, c.tables.Begins id g)
    (htold : c.tellLongest limit e told i gs = some m) (hlt : m.start < m.stop) :
    c.AdmittedAt id i := by
  unfold tellLongest at htold
  obtain ⟨found, hfound, htold⟩ := Option.bind_eq_some_iff.1 htold
  cases found with
  | none => exact absurd hlt (Match.not_lt_of_empty htold)
  | some x =>
    dsimp only at htold
    split at htold
    · cases htold
      obtain ⟨first, g, last, before, id', after, rfl, -, -, -, -, -, hg, htold⟩ :=
        split_of_tellOnly hreads hfound
      exact (hopens i g id' m hg htold hlt).of_begins (hbegins id' (by simp))
    · cases htold

/-- The first part that takes a token opens a sequence. -/
theorem admittedAt_of_tellParts {e : Enders} {s : GrammarSettings} (hopens : c.OpensAsTold b told)
    {gs : List Grammar} {ids : List GrammarId} {st : SequenceState}
    (hreads : c.tables.ReadsAll b gs ids) (hbegins : c.tables.BeginsSequence id ids)
    (hplace : st.place = i) (htold : c.tellParts b limit e told s i st gs = some m)
    (hlt : m.start < m.stop) : c.AdmittedAt id i := by
  induction gs generalizing ids st with
  | nil =>
    unfold tellParts at htold
    split at htold
    · cases htold
      rw [Match.start_mk, Match.stop_mk, hplace] at hlt
      exact absurd hlt (Nat.lt_irrefl i)
    · cases htold
  | cons g gs ih =>
    unfold Tables.ReadsAll at hreads
    obtain ⟨part, more, rfl, hid, hg, hmore⟩ := hreads
    unfold tellParts at htold
    unfold Tables.BeginsSequence at hbegins
    cases hm : g.marker? with
    | some marker =>
      rw [hm] at htold
      rw [if_pos (hg.kind_eq_marker_iff.2 (by rw [hm]; rfl))] at hbegins
      dsimp only at htold
      exact ih hmore hbegins (by exact hplace) htold
    | none =>
      rw [hm] at htold
      rw [if_neg (by rw [hg.kind_eq_marker_iff, hm]; exact Bool.false_ne_true)] at hbegins
      dsimp only at htold
      have without (h : (if g.isOptional then c.tellParts b limit e told s i st gs
          else if (decide (s.mode = .strict) || decide (st.place = i)) = true then
            some (.empty i) else none) = some m) : c.AdmittedAt id i := by
        split at h
        · next hoptional =>
          exact ih hmore (hbegins.2 (by rw [hg.isOptional_eq, hoptional])) hplace h
        · split at h
          · exact absurd hlt (Match.not_lt_of_empty h)
          · cases h
      -- the part that matches is asked for behind blanks, where the hint of the sequence counts too
      generalize hj : (if s.allowGaps = true then c.skipToCode st.place limit else st.place) = j
        at htold
      split at htold
      · exact without htold
      obtain ⟨x, hx, htold⟩ := Option.bind_eq_some_iff.1 htold
      split at htold
      · exact without htold
      split at htold
      · next hgo =>
        have taken : x.start < x.stop := by simpa using (Bool.and_eq_true_iff.1 hgo).1
        have admitted := hopens j g part x hg hx taken
        rw [← hj, hplace] at admitted
        exact admitted.of_skipToCode.of_begins hbegins.1
      · cases htold

theorem admittedAt_of_matchCode {type : String} {test : TokenView → Bool}
    (h : ∀ v, test v = true → c.tables.admits id v.upper v.segment.classTypes = true)
    (hlt : (c.matchCode limit i type test).start < (c.matchCode limit i type test).stop) :
    c.AdmittedAt id i := by
  refine (opens_matchCode h (Match.isMatch_of_lt hlt)).sound ?_
  unfold matchCode
  split
  · split <;> rfl
  · rfl

theorem admittedAt_of_tellTyped {template type : String} {fold : Casefold} {trim : List String}
    (h : ∀ raw types, types.contains template = true → c.tables.admits id raw types = true)
    (hlt : (c.tellTyped limit i template type fold trim).start <
      (c.tellTyped limit i template type fold trim).stop) : c.AdmittedAt id i := by
  unfold tellTyped at hlt
  split at hlt
  · next v hv =>
    split at hlt
    · next htype =>
      intro w hw _
      rw [(token?_eq_some limit i hv).2] at hw
      cases hw
      exact h _ _ htype
    · exact absurd hlt (Nat.lt_irrefl i)
  · exact absurd hlt (Nat.lt_irrefl i)

end Opening

section Levels

variable (hexplained : c.tables.HintsExplained) (hbook : b.ReadsBack c.tables)
  (hfit : b.definitions.all (·.body.limitsFit) = true)

include hexplained hbook hfit

/-- What is told of a grammar opens as its hint says, if what is told of its parts does. -/
theorem opensAsTold_tellLevel {told : Enders → Telling} (hopens : ∀ e, c.OpensAsTold b (told e))
    (e : Enders) : c.OpensAsTold b (c.tellLevel b limit told e) := by
  intro i g id m hreads htold hlt
  refine admittedAt_of_hinted fun hhint => ?_
  have explained := hexplained id hhint
  unfold Tables.HintExplained at explained
  cases g with
  | mk form parts terminators exclude delimiter s =>
    unfold tellLevel at htold
    dsimp only at htold
    generalize e.within terminators = e at htold
    unfold Tables.Reads at hreads
    obtain ⟨-, shape, hparts, -, -, hdelimiter⟩ := hreads
    cases form with
    | ref name =>
      obtain ⟨n, hn, shape⟩ := shape
      rw [shape] at explained
      dsimp only at htold
      obtain ⟨k, hk, htold⟩ := Option.bind_eq_some_iff.1 htold
      obtain rfl : n = k := Option.some.inj (hn.symm.trans hk)
      obtain ⟨d, hd, htold⟩ := Option.bind_eq_some_iff.1 htold
      obtain ⟨x, hx, rfl⟩ := Option.map_eq_some_iff.1 (told_of_tellUnless htold hlt)
      rw [Match.start_wrap?, Match.stop_wrap?] at hlt
      have fits := List.all_eq_true.1 hfit d (List.mem_of_getElem? hd)
      exact (hopens e i d.body ⟨n⟩ x (hbook.body n d hd fits) hx hlt).of_begins
        (explained ⟨n⟩ rfl)
    | sequence =>
      rw [show c.tables.shape id = .sequence from shape] at explained
      dsimp only at htold
      split at htold
      · cases htold
      · exact admittedAt_of_tellParts (hopens e) hparts explained rfl htold hlt
    | oneOf =>
      rw [show c.tables.shape id = .oneOf _ from shape] at explained
      dsimp only at htold
      split at htold
      · cases htold
      · exact admittedAt_of_tellLongest (hopens e) hparts explained
          (told_of_tellUnless htold hlt) hlt
    | anyNumberOf most perPart =>
      dsimp only at htold
      split at htold
      · cases htold
      obtain ⟨found, -, htold⟩ := Option.bind_eq_some_iff.1 (told_of_tellUnless htold hlt)
      split at htold
      · exact absurd hlt (Match.not_lt_of_empty htold)
      · cases htold
    | delimited least =>
      rw [show c.tables.shape id = .delimited _ _ from shape] at explained
      dsimp only at htold
      split at htold
      · obtain ⟨x, -, htold⟩ := Option.bind_eq_some_iff.1 htold
        unfold tellDelimited at htold
        split at htold
        · exact admittedAt_of_tellLongest (hopens e) hparts explained htold hlt
        · cases htold
      · cases htold
    | bracketed type persists =>
      dsimp only at htold
      obtain ⟨pair, -, htold⟩ := Option.bind_eq_some_iff.1 htold
      obtain ⟨x, -, htold⟩ := Option.bind_eq_some_iff.1 htold
      split at htold
      · cases htold
      · exact absurd hlt (Match.not_lt_of_empty htold)
    | string template type =>
      rw [show c.tables.shape id = .string _ _ from shape] at explained
      cases htold
      refine admittedAt_of_matchCode (fun v hv => ?_) hlt
      rw [eq_of_beq hv]
      exact explained _
    | multiString templates type =>
      rw [show c.tables.shape id = .multiString _ _ from shape] at explained
      cases htold
      exact admittedAt_of_matchCode (fun v hv => explained _ (by simpa using hv) _) hlt
    | typed template type fold trim =>
      rw [show c.tables.shape id = .typed _ _ from shape] at explained
      cases htold
      exact admittedAt_of_tellTyped explained hlt
    | pattern text anti type =>
      dsimp only at htold
      split at htold
      · split at htold
        · cases htold
        · exact absurd hlt (Match.not_lt_of_empty htold)
      · cases htold
    | nothing | missing => exact absurd hlt (Match.not_lt_of_empty htold)
    | anything | token | marker => cases htold

theorem opensAsTold_tell (n : Nat) (e : Enders) : c.OpensAsTold b (c.tell b limit n e) := by
  induction n generalizing e with
  | zero =>
    intro i g id m _ htold
    cases htold
  | succ n ih => exact opensAsTold_tellLevel hexplained hbook hfit ih e

end Levels

end MatchContext

end QueryLint
