import QueryLint.Proofs.Grammar.Balance
import QueryLint.Proofs.Match.TrimmedGrammar

/-!
QueryLint.Proofs.Grammar.Trimmed — books whose grammars match from code to code.

That a grammar takes code first and last can be seen as it is written. What is asked behind another
part without a gap must be code by itself, as a symbol or a word is, or be made of such grammars;
their names are given, and the book is looked through for whether they are right. So are the types
that a book gives: some are kept for white space, some mark nodes only, and some are given to tokens
for their texts, of which something may be asked.

* `Labelling` — the types and names that a book is looked through for.
* `Grammar.isTrimmed`, `Grammar.isSolid` — what a grammar is seen to be.
* `GrammarBook.trimGrammars_of_compile` — the tables of such a book make trimmed matches.
-/

namespace QueryLint

/-- What a book is looked through for. -/
structure Labelling where
  /-- Types that no node has. -/
  nodes : List String
  /-- Types that no token is given. -/
  tokens : List String
  /-- Types that tokens are given for their texts. -/
  words : List String
  /-- Texts that these may have, in upper case. -/
  isWord : String → Bool
  /-- Types that only code has before it is matched. -/
  codes : List String
  /-- Names of grammars that match nothing at a place without code. -/
  solid : List String

namespace Labelling

variable (L : Labelling)

/-- A match may be put into something. -/
def Allows (c : MatchContext) : MatchClass → Nat → Nat → Prop
  | .node type _, _, _ => L.nodes.contains type = false
  | .token type _, a, b => b = a + 1 ∧ L.tokens.contains type = false ∧
      (L.words.contains type = true → ∃ v, c.tokens[a]? = some v ∧ L.isWord v.upper = true)
  | _, _, _ => True

/-- Tokens that have some of the texts may be given a type. -/
def allowsTexts (templates : List String) (type : String) : Bool :=
  !L.tokens.contains type && (!L.words.contains type || templates.all L.isWord)

/-- Tokens may be given a type whatever their text. -/
def allowsAll (type : String) : Bool := !L.tokens.contains type && !L.words.contains type

variable {L : Labelling} {c : MatchContext} {type : String}

theorem allows_of_texts {templates : List String} (h : L.allowsTexts templates type = true) :
    c.Allows (L.Allows c) type fun v => v.isCode = true ∧ v.upper ∈ templates := by
  rw [allowsTexts, Bool.and_eq_true, Bool.not_eq_true', Bool.or_eq_true, Bool.not_eq_true'] at h
  refine fun k v hv htest normalized => ⟨rfl, h.1, fun hwords => ⟨v, hv, ?_⟩⟩
  exact List.all_eq_true.1 (h.2.resolve_left (by rw [hwords]; decide)) _ htest.2

theorem allows_of_all (h : L.allowsAll type = true) (test : TokenView → Prop) :
    c.Allows (L.Allows c) type test := by
  rw [allowsAll, Bool.and_eq_true, Bool.not_eq_true', Bool.not_eq_true'] at h
  refine fun k v hv htest normalized => ⟨rfl, h.1, fun hwords => ?_⟩
  cases h.2.symm.trans hwords

end Labelling

/-! ## 1. Grammars as they are written -/

namespace Grammar

variable (L : Labelling)

/-- A sequence must not leave it out. -/
def isRequired : Grammar → Bool
  | mk form _ _ _ _ s =>
    form.instructionKind != .marker &&
      !(s.optional || (form.instructionKind == .anyNumberOf && s.least == 0))

mutual

/-- It matches nothing at a place without code. -/
def isSolid : Grammar → Bool
  | mk form parts _ _ _ s =>
    match form with
    | .ref name => L.solid.contains name
    | .sequence => !s.allowGaps && allSolid parts
    | .oneOf | .anyNumberOf _ _ | .delimited _ => allSolid parts
    | _ => true

/-- The same of several grammars. -/
def allSolid : List Grammar → Bool
  | [] => true
  | g :: rest => isSolid g && allSolid rest

end

/-- What is asked of a grammar beside what is asked of its parts. -/
def isTrimmedForm (parts : List Grammar) (s : GrammarSettings) : GrammarForm → Bool
  | .sequence => parts.any isRequired && (s.allowGaps || s.mode == .strict && allSolid L parts)
  | .oneOf | .anyNumberOf _ _ => s.mode == .strict && (s.allowGaps || allSolid L parts)
  | .bracketed _ _ => s.allowGaps
  | .string template type => L.allowsTexts [template] type
  | .multiString templates type => L.allowsTexts templates type
  | .typed template type _ _ => L.codes.contains template && L.allowsAll type
  | .pattern _ _ type => L.allowsAll type
  | .anything | .marker _ _ => false
  | .ref _ | .delimited _ | .nothing | .token | .missing => true

mutual

/-- It takes code first and last, and makes what it may make. -/
def isTrimmed : Grammar → Bool
  | mk form parts _ _ delimiter s =>
    isTrimmedForm L parts s form && allTrimmed (takesMarkers form) parts &&
      isTrimmedOption delimiter

/-- The same for parts, of which some may be markers. -/
def allTrimmed (markers : Bool) : List Grammar → Bool
  | [] => true
  | g :: rest => (markers && g.marker?.isSome || isTrimmed g) && allTrimmed markers rest

/-- The same for a grammar that may be missing. -/
def isTrimmedOption : Option Grammar → Bool
  | none => true
  | some g => isTrimmed g

end

end Grammar

/-- All grammars of a book are as they should be, and the names are right. -/
def GrammarBook.isTrimmed (L : Labelling) (b : GrammarBook) : Bool :=
  (b.definitions.all fun x => x.body.isTrimmed L && x.segmentType.all (!L.nodes.contains ·) &&
    (!L.solid.contains x.name || x.body.isSolid L)) &&
  b.brackets.all fun q => L.solid.contains q.opening && L.solid.contains q.closing

/-! ## 2. Tables of a book -/

namespace Tables

variable {L : Labelling} {b : GrammarBook} {t : Tables} {c : MatchContext} {id : GrammarId}

/-- An instruction reads as a grammar that is as it should be, or as a reference. -/
structure ReadsTrimmed (t : Tables) (b : GrammarBook) (L : Labelling) (id : GrammarId) : Prop where
  node : ∀ type, t.segmentType? id = some type → L.nodes.contains type = false
  reads : (∃ g : Grammar, g.isTrimmed L = true ∧ t.Reads b g id) ∨
    ∃ name, t.ReadsReference b id name

/-- An instruction reads as a grammar that matches nothing at a place without code. -/
def ReadsSolid (t : Tables) (b : GrammarBook) (L : Labelling) (id : GrammarId) : Prop :=
  (∃ g : Grammar, g.isSolid L = true ∧ t.Reads b g id) ∨
    ∃ name, L.solid.contains name = true ∧ t.ReadsReference b id name

theorem ReadsTrimmed.of_anonymous (h : t.IsAnonymous id)
    (hreads : (∃ g : Grammar, g.isTrimmed L = true ∧ t.Reads b g id) ∨
      ∃ name, t.ReadsReference b id name) : t.ReadsTrimmed b L id where
  node type htype := by
    rw [h.1] at htype
    cases htype
  reads := hreads

/-- A reference to what is solid. -/
theorem ReadsReference.readsTrimmed {name : String} (h : t.ReadsReference b id name)
    (hname : L.solid.contains name = true) : t.ReadsTrimmed b L id ∧ t.ReadsSolid b L id :=
  ⟨.of_anonymous h.anonymous (.inr ⟨name, h⟩), .inr ⟨name, hname, h⟩⟩

/-- A part that a grammar must not leave out reads as such a part. -/
theorem Reads.required {g : Grammar} (h : t.Reads b g id) (hg : g.isRequired = true) :
    (t.instruction id).kind ≠ .marker ∧ (t.instruction id).isOptional = false := by
  cases g with
  | mk form parts terminators exclude delimiter s =>
    unfold Reads at h
    obtain ⟨hinted, hflags⟩ := h.1.flags_eq
    unfold Grammar.isRequired at hg
    rw [Bool.and_eq_true, bne_iff_ne, Bool.not_eq_true'] at hg
    refine ⟨by rw [h.1.kind_eq]; exact hg.1, ?_⟩
    unfold Instruction.isOptional
    rw [hflags, h.1.kind_eq, h.1.least_eq]
    exact hg.2

theorem ReadsAll.hasRequired {gs : List Grammar} {ids : List GrammarId} (h : t.ReadsAll b gs ids)
    (hgs : gs.any Grammar.isRequired = true) : MatchContext.HasRequired t ids := by
  induction gs generalizing ids with
  | nil => cases hgs
  | cons g gs ih =>
    unfold ReadsAll at h
    obtain ⟨id, more, rfl, -, hg, hmore⟩ := h
    rw [List.any_cons, Bool.or_eq_true] at hgs
    rcases hgs with hrequired | hlater
    · exact ⟨id, List.mem_cons_self .., hg.required hrequired⟩
    · obtain ⟨x, hx, hrest⟩ := ih hmore hlater
      exact ⟨x, List.mem_cons_of_mem _ hx, hrest⟩

theorem ReadsAll.readsSolid {gs : List Grammar} {ids : List GrammarId} (h : t.ReadsAll b gs ids)
    (hgs : Grammar.allSolid L gs = true) : ∀ id ∈ ids, t.ReadsSolid b L id := by
  induction gs generalizing ids with
  | nil =>
    unfold ReadsAll at h
    simp [h]
  | cons g gs ih =>
    unfold ReadsAll at h
    unfold Grammar.allSolid at hgs
    obtain ⟨id, more, rfl, -, hg, hmore⟩ := h
    rw [Bool.and_eq_true] at hgs
    exact List.forall_mem_cons.2 ⟨.inl ⟨g, hgs.1, hg⟩, ih hmore hgs.2⟩

theorem ReadsAll.readsTrimmed {markers : Bool} {gs : List Grammar} {ids : List GrammarId}
    (h : t.ReadsAll b gs ids) (hgs : Grammar.allTrimmed L markers gs = true) :
    ∀ id ∈ ids, (markers = true → (t.instruction id).kind ≠ .marker) → t.ReadsTrimmed b L id := by
  induction gs generalizing ids with
  | nil =>
    unfold ReadsAll at h
    simp [h]
  | cons g gs ih =>
    unfold ReadsAll at h
    unfold Grammar.allTrimmed at hgs
    obtain ⟨id, more, rfl, anonymous, hg, hmore⟩ := h
    rw [Bool.and_eq_true] at hgs
    refine List.forall_mem_cons.2 ⟨fun hpart => .of_anonymous anonymous (.inl ⟨g, ?_, hg⟩),
      ih hmore hgs.2⟩
    have own := hgs.1
    rw [Bool.or_eq_true, Bool.and_eq_true] at own
    exact own.resolve_left fun ⟨hmarkers, hsome⟩ => hpart hmarkers (hg.kind_eq_marker_iff.2 hsome)

theorem ReadsOption.readsTrimmed {g : Option Grammar} (h : t.ReadsOption b g (some id))
    (hg : Grammar.isTrimmedOption L g = true) : t.ReadsTrimmed b L id := by
  cases g with
  | none =>
    unfold ReadsOption at h
    cases h
  | some g =>
    unfold ReadsOption at h
    unfold Grammar.isTrimmedOption at hg
    obtain ⟨id', hid, anonymous, hreads⟩ := h
    cases hid
    exact .of_anonymous anonymous (.inl ⟨g, hg, hreads⟩)

/-- What reads as a solid grammar of parts has solid parts. -/
theorem ReadsSolid.parts (h : t.ReadsSolid b L id)
    (hkind : (t.instruction id).kind = .oneOf ∨ (t.instruction id).kind = .anyNumberOf ∨
      (t.instruction id).kind = .delimited) : ∀ g ∈ t.parts id, t.ReadsSolid b L g := by
  rcases h with ⟨g, hg, hid⟩ | ⟨name, -, hid⟩
  · cases g with
    | mk form parts terminators exclude delimiter s =>
      unfold Reads at hid
      rw [hid.1.kind_eq] at hkind
      unfold Grammar.isSolid at hg
      cases form with
      | oneOf | anyNumberOf | delimited => exact hid.2.2.1.readsSolid hg
      | _ => simp [GrammarForm.instructionKind] at hkind
  · rw [hid.settings.kind_eq] at hkind
    simp [GrammarForm.instructionKind] at hkind

/-- What reads as a solid sequence allows no gaps. -/
theorem ReadsSolid.gapless (h : t.ReadsSolid b L id)
    (hkind : (t.instruction id).kind = .sequence) :
    (t.instruction id).flags.allowGaps = false := by
  rcases h with ⟨g, hg, hid⟩ | ⟨name, -, hid⟩
  · cases g with
    | mk form parts terminators exclude delimiter s =>
      unfold Reads at hid
      rw [hid.1.kind_eq] at hkind
      unfold Grammar.isSolid at hg
      cases form with
      | sequence =>
        obtain ⟨hinted, hflags⟩ := hid.1.flags_eq
        dsimp only at hg
        rw [Bool.and_eq_true, Bool.not_eq_true'] at hg
        rw [hflags]
        exact hg.1
      | _ => simp [GrammarForm.instructionKind] at hkind
  · rw [hid.settings.kind_eq] at hkind
    simp [GrammarForm.instructionKind] at hkind

/-- The options of a choice, which may start with any of them. -/
theorem ReadsAll.options {gs : List Grammar} (h : t.ReadsAll b gs (t.parts id))
    (hgs : Grammar.allTrimmed L false gs = true)
    (hgaps : (t.instruction id).flags.allowGaps = true ∨ Grammar.allSolid L gs = true)
    (hkind : (t.instruction id).kind = .oneOf ∨ (t.instruction id).kind = .anyNumberOf) :
    (∀ g ∈ t.parts id, t.ReadsTrimmed b L g) ∧
      (t.ReadsSolid b L id ∨ (t.instruction id).flags.allowGaps = false →
        ∀ g ∈ t.parts id, t.ReadsSolid b L g) := by
  refine ⟨fun g hg => h.readsTrimmed hgs g hg (by simp), ?_⟩
  rintro (hsolid | hgapless)
  · exact hsolid.parts (hkind.imp_right .inl)
  · exact h.readsSolid (hgaps.resolve_left (by simp [hgapless]))

/-- The parts of a sequence. -/
theorem ReadsAll.trimParts {gs : List Grammar} {spec : MatchContext.SequenceSpec}
    (h : t.ReadsAll b gs spec.parts) (hc : c.tables = t)
    (hgs : Grammar.allTrimmed L true gs = true)
    (hgaps : spec.allowGaps = true ∨ spec.mode = .strict ∧ Grammar.allSolid L gs = true) :
    c.TrimParts (t.ReadsTrimmed b L) (t.ReadsSolid b L) spec where
  parts g hg hpart := h.readsTrimmed hgs g hg fun _ => hc ▸ hpart
  gapless hgapless :=
    have tight := hgaps.resolve_left (by simp [hgapless])
    ⟨tight.1, fun g hg _ => h.readsSolid tight.2 g hg⟩

end Tables

/-! ## 3. Books -/

namespace GrammarBook

open Tables

variable {L : Labelling} {b : GrammarBook} {t : Tables} {c : MatchContext} {id : GrammarId}

/-- What a book says of one of its definitions. -/
theorem isTrimmed_definition (htrim : b.isTrimmed L = true) {x : Definition}
    (hx : x ∈ b.definitions) : x.body.isTrimmed L = true ∧
      (∀ type, x.segmentType = some type → L.nodes.contains type = false) ∧
      (L.solid.contains x.name = true → x.body.isSolid L = true) := by
  unfold isTrimmed at htrim
  rw [Bool.and_eq_true] at htrim
  have own := List.all_eq_true.1 htrim.1 x hx
  rw [Bool.and_eq_true, Bool.and_eq_true, Bool.or_eq_true, Bool.not_eq_true'] at own
  refine ⟨own.1.1, fun type htype => ?_, fun hname =>
    own.2.resolve_left (by rw [hname]; decide)⟩
  have nodes := own.1.2
  rw [htype] at nodes
  simpa using nodes

/-- The names of declared brackets are known to be solid. -/
theorem isTrimmed_bracket (htrim : b.isTrimmed L = true) {q : BracketDefinition}
    (hq : q ∈ b.brackets) :
    L.solid.contains q.opening = true ∧ L.solid.contains q.closing = true := by
  unfold isTrimmed at htrim
  rw [Bool.and_eq_true] at htrim
  exact (Bool.and_eq_true ..).mp (List.all_eq_true.1 htrim.2 q hq)

section

variable (hreads : b.ReadsBack t) (hfit : b.definitions.all (·.body.limitsFit) = true)
  (htrim : b.isTrimmed L = true)

include hreads hfit htrim

/-- The slot of a name reads as the grammar of the name. -/
theorem readsTrimmed_of_slot {name : String} {n : Nat} (hn : b.slot? name = some n) :
    t.ReadsTrimmed b L ⟨n⟩ ∧ (L.solid.contains name = true → t.ReadsSolid b L ⟨n⟩) := by
  obtain ⟨x, hx, hname⟩ := slot?_eq_some hn
  have mem := List.mem_of_getElem? hx
  obtain ⟨body, nodes, solid⟩ := isTrimmed_definition htrim mem
  have reads := hreads.body n x hx (List.all_eq_true.1 hfit x mem)
  refine ⟨⟨fun type htype => nodes type ?_, .inl ⟨x.body, body, reads⟩⟩, fun hsolid =>
    .inl ⟨x.body, solid (by rwa [hname]), reads⟩⟩
  rw [← htype, (hreads.segments n x hx).1]

/-- A reference that is solid leads to a solid grammar. -/
theorem readsSolid_target (h : t.ReadsSolid b L id) (hkind : (t.instruction id).kind = .ref)
    {name : String} {target : GrammarId} {exclude : Option GrammarId}
    (hshape : t.shape id = .ref name (some target) exclude) : t.ReadsSolid b L target := by
  rcases h with ⟨g, hg, hid⟩ | ⟨name', hname, hid⟩
  · cases g with
    | mk form parts terminators exclude delimiter s =>
      unfold Reads at hid
      rw [hid.1.kind_eq] at hkind
      unfold Grammar.isSolid at hg
      cases form with
      | ref name' =>
        obtain ⟨n, hn, shape⟩ := hid.2.1
        rw [shape] at hshape
        cases hshape
        exact (readsTrimmed_of_slot hreads hfit htrim hn).2 hg
      | _ => simp [GrammarForm.instructionKind] at hkind
  · obtain ⟨n, hn, shape⟩ := hid.shape
    rw [shape] at hshape
    cases hshape
    exact (readsTrimmed_of_slot hreads hfit htrim hn).2 hname

/-- A reference names the grammar of its name. -/
theorem namesTrimmed_of_ref (hc : c.tables = t) {name : String} {n : Nat}
    {exclude : Option GrammarId} (hn : b.slot? name = some n)
    (hkind : (t.instruction id).kind = .ref)
    (hshape : t.shape id = .ref name (some ⟨n⟩) exclude) :
    c.NamesTrimmed (t.ReadsTrimmed b L) (t.ReadsSolid b L) (L.Allows c) id := by
  unfold MatchContext.NamesTrimmed
  rw [hc, hshape]
  exact ⟨(readsTrimmed_of_slot hreads hfit htrim hn).1,
    fun hsolid => readsSolid_target hreads hfit htrim hsolid hkind hshape⟩

theorem namesTrimmed_of_readsTrimmed (hc : c.tables = t)
    (hcodes : ∀ (k : Nat) (v : TokenView), c.tokens[k]? = some v →
      ∀ type, L.codes.contains type = true → v.segment.isType type = true → v.isCode = true)
    (h : t.ReadsTrimmed b L id) :
    c.NamesTrimmed (t.ReadsTrimmed b L) (t.ReadsSolid b L) (L.Allows c) id := by
  rcases h.reads with ⟨⟨form, parts, terminators, exclude, delimiter, s⟩, hg, hid⟩ | ⟨name, hid⟩
  swap
  · obtain ⟨n, hn, shape⟩ := hid.shape
    exact namesTrimmed_of_ref hreads hfit htrim hc hn hid.settings.kind_eq shape
  unfold Grammar.isTrimmed at hg
  unfold Reads at hid
  simp only [Bool.and_eq_true] at hg
  obtain ⟨⟨hform, hparts⟩, hdelimiter⟩ := hg
  obtain ⟨settings, shape, partsRead, -, -, delimiterRead⟩ := hid
  have kind := settings.kind_eq
  obtain ⟨hinted, hflags⟩ := settings.flags_eq
  have gaps : (t.instruction id).flags.allowGaps = s.allowGaps := by rw [hflags]
  have spec : c.sequenceSpec id = ⟨t.parts id, s.mode, s.allowGaps, t.terminatorsOf id,
      s.resetTerminators⟩ := by
    unfold MatchContext.sequenceSpec
    dsimp only
    rw [hc, settings.mode_eq, hflags]
  unfold Grammar.isTrimmedForm at hform
  cases form with
  | ref name =>
    obtain ⟨n, hn, shape⟩ := shape
    exact namesTrimmed_of_ref hreads hfit htrim hc hn kind shape
  | sequence =>
    rw [Bool.and_eq_true, Bool.or_eq_true, Bool.and_eq_true, beq_iff_eq] at hform
    unfold MatchContext.NamesTrimmed
    rw [hc, show t.shape id = .sequence from shape, spec]
    exact ⟨partsRead.trimParts hc hparts hform.2, partsRead.hasRequired hform.1,
      fun hsolid => gaps ▸ hsolid.gapless kind⟩
  | oneOf =>
    rw [Bool.and_eq_true, beq_iff_eq, Bool.or_eq_true, ← gaps] at hform
    unfold MatchContext.NamesTrimmed
    rw [hc, show t.shape id = .oneOf _ from shape]
    exact ⟨settings.mode_eq.trans hform.1, partsRead.options hparts hform.2 (.inl kind)⟩
  | anyNumberOf most perPart =>
    rw [Bool.and_eq_true, beq_iff_eq, Bool.or_eq_true, ← gaps] at hform
    unfold MatchContext.NamesTrimmed
    rw [hc, show t.shape id = .anyNumberOf most perPart _ from shape]
    exact ⟨settings.mode_eq.trans hform.1, partsRead.options hparts hform.2 (.inr kind)⟩
  | delimited least =>
    have delimiterRead := delimiterRead rfl
    unfold MatchContext.NamesTrimmed
    rw [hc, show t.shape id = .delimited (t.delimiter? id) least from shape]
    cases hd : t.delimiter? id with
    | none => trivial
    | some d =>
      rw [hd] at delimiterRead
      exact ⟨delimiterRead.readsTrimmed hdelimiter,
        fun g hg => partsRead.readsTrimmed hparts g hg (by simp [Grammar.takesMarkers]),
        fun hsolid => hsolid.parts (.inr (.inr kind))⟩
  | bracketed type persists =>
    obtain ⟨pair, opening, closing, hpair, shape, openingRead, closingRead⟩ := shape
    have known := isTrimmed_bracket htrim (List.mem_of_find?_eq_some hpair)
    unfold MatchContext.NamesTrimmed
    rw [hc, shape, spec]
    exact ⟨openingRead.readsTrimmed known.1, closingRead.readsTrimmed known.2,
      partsRead.trimParts hc hparts (.inl hform), hform⟩
  | string template type =>
    unfold MatchContext.NamesTrimmed
    rw [hc, show t.shape id = .string template type from shape]
    exact fun k v hv htest => Labelling.allows_of_texts hform k v hv ⟨htest.1, by simp [htest.2]⟩
  | multiString templates type =>
    unfold MatchContext.NamesTrimmed
    rw [hc, show t.shape id = .multiString templates type from shape]
    exact Labelling.allows_of_texts hform
  | typed template type fold trim =>
    rw [Bool.and_eq_true] at hform
    unfold MatchContext.NamesTrimmed
    rw [hc, show t.shape id = .typed template type from shape]
    exact ⟨fun k v hv => hcodes k v hv template hform.1, Labelling.allows_of_all hform.2 _⟩
  | pattern text anti type =>
    obtain ⟨p, a, -, -, shape⟩ := shape
    unfold MatchContext.NamesTrimmed
    rw [hc, shape]
    exact Labelling.allows_of_all hform _
  | anything | marker => cases hform
  | nothing | token | missing =>
    unfold MatchContext.NamesTrimmed
    rw [hc, show t.shape id = _ from shape]
    trivial

end

/-- In the tables of a book that is as it should be, its grammars make trimmed matches. -/
theorem trimGrammars_of_compile (hwhole : b.isWhole = true) (hb : b.weight < GrammarId.absent)
    (hfit : b.definitions.all (·.body.limitsFit) = true) (htrim : b.isTrimmed L = true)
    (h : b.compile = .ok t) (hc : c.tables = t)
    (hcodes : ∀ (k : Nat) (v : TokenView), c.tokens[k]? = some v →
      ∀ type, L.codes.contains type = true → v.segment.isType type = true → v.isCode = true) :
    c.TrimGrammars (t.ReadsTrimmed b L) (t.ReadsSolid b L) (L.Allows c) where
  names id hid := namesTrimmed_of_readsTrimmed ((compile_reads b hwhole hb).2 t h) hfit htrim hc
    hcodes hid
  nodes id hid type htype _ _ := hid.node type (by rwa [hc] at htype)
  brackets p hp := by
    rw [hc] at hp
    obtain ⟨q, hq, opening, closing⟩ := readsReference_of_compile hwhole hb h p hp
    have known := isTrimmed_bracket htrim hq
    exact ⟨opening.readsTrimmed known.1, closing.readsTrimmed known.2⟩
  bracketed _ _ := trivial
  unparsable _ _ _ := trivial

/-- The root of such a book is one of these grammars. -/
theorem readsTrimmed_root (hwhole : b.isWhole = true) (hb : b.weight < GrammarId.absent)
    (hfit : b.definitions.all (·.body.limitsFit) = true) (htrim : b.isTrimmed L = true)
    (h : b.compile = .ok t) : t.ReadsTrimmed b L t.root := by
  obtain ⟨-, d', hrun⟩ := run_compileSteps h
  obtain ⟨σ, d, pairs, root, laid, hroot, hfinish⟩ := laidOut_of_run hwhole hrun
  rw [(filed_of_run hfinish).root_eq]
  exact (readsTrimmed_of_slot ((compile_reads b hwhole hb).2 t h) hfit htrim hroot).1

end GrammarBook

end QueryLint
