import QueryLint.Proofs.Parse.Ordinary
import QueryLint.Proofs.Token.Plain
import QueryLint.Proofs.Token.Spaced

/-!
QueryLint.Proofs.Parse.Tokens — the tokens that ordinary trees are made of.

Every lexeme makes one token, with its text, its type and its flags, and between the tokens there
are markers only. So what is known of the lexemes of a text is known of its tokens. If the rules for
tokens give flags to types as they should, and do not cut white space in two, then the tokens of a
file without markup are such that an ordinary tree is made of them.

* `Lexeme.Makes`, `AreMadeOf` — the tokens that lexemes make, and segments that are such.
* `mints_lex` — no two tokens of a file have the same identity.
* `Labelling.Suits` — types with the flags that they should have.
* `areOrdinary_lex` — the tokens of a file without markup.
-/

namespace QueryLint

open Segment

/-! ## 1. Tokens of lexemes -/

/-- A token with the text, the type and the flags of a lexeme. -/
structure Lexeme.Makes (l : Lexeme) (t : Segment) : Prop where
  kind : t.kind = .token (String.ofList l.text) l.flags none
  types : t.classTypes = [l.type]
  children : t.children = []

namespace Lexeme.Makes

variable {l : Lexeme} {t : Segment} (h : l.Makes t)
include h

theorem isType_iff (type : String) : t.isType type = true ↔ l.type = type := by
  rw [isType, h.types]
  simp [eq_comm]

theorem raw_eq : t.raw = String.ofList l.text := by
  obtain ⟨i, cs⟩ := t
  have kind : i.kind = .token (String.ofList l.text) l.flags none := h.kind
  rw [raw, kind]

theorem isCode_eq : t.isCode = l.flags.code := by
  obtain ⟨i, cs⟩ := t
  have kind : i.kind = .token (String.ofList l.text) l.flags none := h.kind
  rw [isCode, kind]

theorem isBlank_eq : t.isBlank = l.flags.blank := by
  obtain ⟨i, cs⟩ := t
  have kind : i.kind = .token (String.ofList l.text) l.flags none := h.kind
  rw [isBlank, kind]

end Lexeme.Makes

/-- A marker that counts as what it is only. -/
def Segment.IsPlainMarker (s : Segment) : Prop :=
  ∃ (k : MarkerKind) (m : Marker) (i : Nat) (p : Option Position),
    s = .mk ⟨.marker m, k.name, withOwnType k.name ["meta"], i, p, []⟩ []

/-- Tokens that lexemes make, in their order, with markers in between. -/
structure AreMadeOf (ls : List Lexeme) (ss : List Segment) : Prop where
  tokens : List.Forall₂ Lexeme.Makes ls (textTokens ss)
  markers : ∀ s ∈ ss, s.isMarker = true → s.IsPlainMarker

namespace AreMadeOf

variable {ls ms : List Lexeme} {ss ts : List Segment}

theorem append (h : AreMadeOf ls ss) (h' : AreMadeOf ms ts) : AreMadeOf (ls ++ ms) (ss ++ ts) where
  tokens := by
    rw [textTokens, List.filter_append]
    exact List.rel_append h.tokens h'.tokens
  markers := List.forall_mem_append.2 ⟨h.markers, h'.markers⟩

theorem of_plainMarkers (h : ∀ s ∈ ss, s.IsPlainMarker) : AreMadeOf [] ss where
  tokens := by
    have markers : ∀ s ∈ ss, s.isMarker = true := by
      intro s hs
      obtain ⟨k, m, i, p, rfl⟩ := h s hs
      rfl
    rw [textTokens_eq_nil markers]
    exact .nil
  markers s hs _ := h s hs

theorem indentBlocks (h : AreMadeOf ls ss) (b : Bool) : AreMadeOf ls (indentBlocks ss b) where
  tokens := by
    rw [textTokens_indentBlocks]
    exact h.tokens
  markers := by
    cases b with
    | true => exact h.markers
    | false =>
      intro s hs
      obtain ⟨t, ht, rfl⟩ := List.mem_map.1 hs
      split
      · next htemplate =>
        rw [Bool.and_eq_true] at htemplate
        obtain ⟨k, m, i, p, rfl⟩ := h.markers t ht (Option.isSome_of_any htemplate.1)
        exact fun _ => ⟨k, _, i, p, rfl⟩
      · exact h.markers t ht

/-- What holds of markers, and of the tokens that lexemes make. -/
theorem forall_mem (h : AreMadeOf ls ss) {P : Segment → Prop}
    (markers : ∀ t : Segment, t.IsPlainMarker → P t)
    (tokens : ∀ l ∈ ls, ∀ t, l.Makes t → P t) : ∀ t ∈ ss, P t := by
  intro t ht
  cases hmarker : t.isMarker with
  | true => exact markers t (h.markers t ht hmarker)
  | false =>
    have token : t ∈ textTokens ss := List.mem_filter.2 ⟨ht, by simp [hmarker]⟩
    obtain ⟨i, hi, rfl⟩ := List.mem_iff_getElem.1 token
    obtain ⟨hlength, hmakes⟩ := List.forall₂_iff_get.1 h.tokens
    exact tokens _ (List.getElem_mem _) _ (hmakes i (Nat.lt_of_lt_of_eq hi hlength.symm) hi)

end AreMadeOf

variable {f : TemplatedFile} {n : Nat}

theorem meets_templateMarker_plain (k : MarkerKind) (text : String) (block : SliceKind)
    (p : Option Position) :
    Meets (n ≤ ·) (templateMarker k text block p) IsPlainMarker :=
  meets_freshId.bind fun id _ => .pure ⟨k, _, id, p, rfl⟩

theorem meets_endMarker_plain (f : TemplatedFile) :
    Meets (n ≤ ·) f.endMarker IsPlainMarker :=
  meets_freshId.bind fun id _ => .pure ⟨.endOfFile, _, id, _, rfl⟩

theorem meets_markup_plain (f : TemplatedFile) (s : RenderedSlice) :
    Meets (n ≤ ·) (f.markup s) fun ss => ∀ t ∈ ss, t.IsPlainMarker := by
  unfold TemplatedFile.markup
  refine (meets_templateMarker_plain _ _ _ _).bind fun whole hwhole => ?_
  have pair {s t : Segment} (hs : s.IsPlainMarker) (ht : t.IsPlainMarker) :
      ∀ u ∈ [s, t], u.IsPlainMarker := by simp [hs, ht]
  split
  · exact (meets_templateMarker_plain _ _ _ _).bind fun t ht => .pure (pair hwhole ht)
  · exact (meets_templateMarker_plain _ _ _ _).bind fun t ht => .pure (pair ht hwhole)
  · exact .pure (List.forall_mem_singleton.2 hwhole)

/-- A piece makes a token of its lexeme, or markers. -/
theorem meets_segments_areMadeOf (x : Piece) :
    Meets (n ≤ ·) (x.segments f) (AreMadeOf x.lexeme?.toList) := by
  cases x with
  | markup s => exact (meets_markup_plain f s).mono fun ss hss => .of_plainMarkers hss
  | text start l =>
    refine meets_freshId.bind fun id _ => .pure ⟨.cons ⟨rfl, rfl, rfl⟩ .nil, ?_⟩
    exact List.forall_mem_singleton.2 fun h => nomatch h

theorem meets_mapM_segments_areMadeOf (pieces : List Piece) :
    Meets (n ≤ ·) (pieces.mapM (·.segments f)) fun woven =>
      AreMadeOf (pieces.filterMap (·.lexeme?)) woven.flatten := by
  induction pieces with
  | nil => exact .pure (.of_plainMarkers (by simp))
  | cons x pieces ih =>
    rw [List.mapM_cons]
    refine (meets_segments_areMadeOf x).bind fun ss hss => ih.bind fun later hlater => .pure ?_
    have both := hss.append hlater
    rw [List.flatten_cons, List.filterMap_cons]
    cases hx : x.lexeme? <;> simpa [hx] using both

/-- The tokens of a file are made of its lexemes. -/
theorem meets_lex_areMadeOf (rules : List LexRule) (blocks : BlocksIndent) (f : TemplatedFile) :
    Meets (n ≤ ·) (lex rules blocks f) fun l =>
      AreMadeOf ((f.pieces rules).filterMap (·.lexeme?)) l.segments := by
  unfold lex
  refine (meets_mapM_segments_areMadeOf _).bind fun woven hwoven =>
    (meets_endMarker_plain f).bind fun last hlast => .pure (.indentBlocks ?_ _)
  have whole := hwoven.append (.of_plainMarkers (List.forall_mem_singleton.2 hlast))
  rwa [List.append_nil] at whole

/-! ## 2. Identities -/

theorem mints_markup (s : RenderedSlice) {l : Nat} :
    Draws l (fun m ss => Minted 0 l m (idsAll ss)) (f.markup s) := by
  unfold TemplatedFile.markup
  refine (mints_leaf 0 _ _ _ _).bind fun m whole hm hwhole => ?_
  have pair {k : Nat} {t : Segment} (hk : m ≤ k) (ht : Minted 0 m k t.ids) :
      Minted 0 l k (idsAll [whole, t]) := by
    rw [idsAll, idsAll_singleton]
    exact hwhole.append ht hm hk
  split
  · exact (mints_leaf 0 _ _ _ _).map fun k t hk ht => pair hk ht
  · exact (mints_leaf 0 _ _ _ _).map fun k t hk ht =>
      (pair hk ht).perm (by simpa [idsAll_eq_flatMap] using List.perm_append_comm)
  · refine .pure fun k hk => ?_
    rw [idsAll_singleton]
    exact hwhole.later hk

theorem mints_segments (x : Piece) {l : Nat} :
    Draws l (fun m ss => Minted 0 l m (idsAll ss)) (x.segments f) := by
  cases x with
  | markup s => exact mints_markup s
  | text start l =>
    refine (mints_leaf 0 _ _ _ _).map fun m t _ ht => ?_
    rwa [idsAll_singleton]

theorem mints_mapM_segments (pieces : List Piece) {l : Nat} :
    Draws l (fun m woven => Minted 0 l m (idsAll woven.flatten))
      (pieces.mapM (·.segments f)) := by
  induction pieces generalizing l with
  | nil => exact .pure fun m _ => .nil 0 l m
  | cons x pieces ih =>
    rw [List.mapM_cons]
    refine (mints_segments x).bind fun m ss hm hss => ih.map fun k later hk hlater => ?_
    rw [List.flatten_cons, idsAll_append]
    exact hss.append hlater hm hk

theorem map_id_indentBlocks (ss : List Segment) (b : Bool) :
    (indentBlocks ss b).map (·.id) = ss.map (·.id) := by
  cases b with
  | true => rfl
  | false =>
    show (ss.map _).map _ = _
    rw [List.map_map]
    refine List.map_congr_left fun s _ => ?_
    rw [Function.comp_apply]
    split
    · unfold withIndentation
      split <;> rfl
    · rfl

/-- No two tokens of a file have the same identity. -/
theorem mints_lex (rules : List LexRule) (blocks : BlocksIndent) (f : TemplatedFile) {l : Nat} :
    Draws l (fun m lexed => Minted 0 l m (lexed.segments.map (·.id))) (lex rules blocks f) := by
  unfold lex
  refine (mints_mapM_segments _).bind fun m woven hm hwoven =>
    (mints_leaf 0 _ _ _ _).map fun k last hk hlast => ?_
  rw [map_id_indentBlocks]
  refine (hwoven.append hlast hm hk).sublist ?_
  rw [← idsAll_singleton, ← idsAll_append]
  exact map_id_sublist _

/-! ## 3. Files without markup -/

/-- A type and the flags that it should have: line ends and white space are blank, and nothing else
is. Commas are code, and so is what only code may be. No token has a type of words yet. -/
def Labelling.Suits (L : Labelling) (type : String) (flags : TokenFlags) : Prop :=
  flags ∈ [TokenFlags.ofCode, .ofComment, .ofBlank] ∧
    (type ∈ ["whitespace", "newline"] ↔ flags = .ofBlank) ∧
    (type ∈ "comma" :: L.codes → flags = .ofCode) ∧ type ∉ L.words

instance (L : Labelling) (type : String) (flags : TokenFlags) : Decidable (L.Suits type flags) :=
  inferInstanceAs (Decidable (_ ∧ _))

namespace Lexeme.Makes

variable {L : Labelling} {l : Lexeme} {t : Segment} (h : l.Makes t)
  (hsuits : L.Suits l.type l.flags)
include h hsuits

/-- A token says of itself what its lexeme is. -/
theorem isLabelled (hline : l.type = "whitespace" → '\n' ∉ l.text) : t.info.IsLabelled L := by
  obtain ⟨hflags, hblank, hcode, hwords⟩ := hsuits
  have types (type : String) (hcounts : t.isType type = true) : type = l.type :=
    ((h.isType_iff type).1 hcounts).symm
  have token {text : String} {flags : TokenFlags} {norm : Option String}
      (hkind : t.kind = .token text flags norm) :
      text = String.ofList l.text ∧ flags = l.flags := by
    have same := h.kind.symm.trans hkind
    cases same
    exact ⟨rfl, rfl⟩
  refine ⟨⟨fun hcounts => ?_, fun hcounts => ?_, fun text flags norm hkind code => ?_⟩,
    fun text flags norm hkind hcounts => ?_, fun hcounts text flags norm hkind => ?_⟩
  · have blank : l.flags = .ofBlank := by
      rcases hcounts with hcounts | hcounts
      · exact hblank.1 (types _ hcounts ▸ by simp)
      · exact hblank.1 (types _ hcounts ▸ by simp)
    exact ⟨_, none, blank ▸ h.kind⟩
  · have code : l.flags = .ofCode := hcode (types _ hcounts ▸ by simp)
    exact ⟨_, none, code ▸ h.kind⟩
  · obtain ⟨-, rfl⟩ := token hkind
    have solid : ∀ flags ∈ [TokenFlags.ofCode, .ofComment, .ofBlank],
        flags.code = true → flags.comment = false := by decide
    exact solid _ hflags code
  · obtain ⟨type, hmem, hcounts⟩ := hcounts
    exact absurd (types type hcounts ▸ hmem) hwords
  · obtain ⟨rfl, -⟩ := token hkind
    rw [String.toList_ofList]
    exact hline (types _ hcounts).symm

/-- A token of code is flagged as such and as nothing else. -/
theorem kind_of_isCode (hcode : t.isCode = true) :
    ∃ text norm, t.kind = .token text .ofCode norm := by
  rw [h.isCode_eq] at hcode
  have code : ∀ flags ∈ [TokenFlags.ofCode, .ofComment, .ofBlank],
      flags.code = true → flags = .ofCode := by decide
  exact ⟨_, none, code _ hsuits.1 hcode ▸ h.kind⟩

/-- White space in one line is a lexeme of white space. -/
theorem type_of_isSpace (hline : l.type = "newline" → '\n' ∈ l.text) (hspace : t.IsSpace) :
    l.type = "whitespace" := by
  obtain ⟨hblank, hraw⟩ := hspace
  rw [h.isBlank_eq] at hblank
  rw [h.raw_eq, String.toList_ofList] at hraw
  have blank : ∀ flags ∈ [TokenFlags.ofCode, .ofComment, .ofBlank],
      flags.blank = true → flags = .ofBlank := by decide
  have type := hsuits.2.1.2 (blank _ hsuits.1 hblank)
  simp only [List.mem_cons, List.not_mem_nil, or_false] at type
  exact type.resolve_right fun newline => hraw (hline newline)

end Lexeme.Makes

/-- What follows from how lexemes follow each other is so of their tokens. -/
theorem isChain_of_forall₂ {α β : Type} {P : α → β → Prop} {R : α → α → Prop} {S : β → β → Prop}
    {ls : List α} {ts : List β} (h : List.Forall₂ P ls ts) (hchain : ls.IsChain R)
    (step : ∀ l ∈ ls, ∀ m ∈ ls, ∀ t u, P l t → P m u → R l m → S t u) : ts.IsChain S := by
  obtain ⟨hlength, hmakes⟩ := List.forall₂_iff_get.1 h
  rw [List.isChain_iff_getElem] at hchain ⊢
  intro i hi
  have fits : i + 1 < ls.length := by omega
  exact step _ (List.getElem_mem _) _ (List.getElem_mem _) _ _ (hmakes i (by omega) (by omega))
    (hmakes (i + 1) fits hi) (hchain i fits)

variable {L : Labelling} {rules : List LexRule} {source name : String}

/-- Without markup nothing is woven between the lexemes of a text. -/
theorem filterMap_lexeme?_pieces (h : ∀ l ∈ scan rules source.toList, l.text ≠ []) :
    ((TemplatedFile.ofString source name).pieces rules).filterMap (·.lexeme?) =
      scan rules source.toList := by
  have woven (start : Nat) (ls : List Lexeme) (h : ∀ l ∈ ls, l.text ≠ []) :
      (weave start [] ls).filterMap (·.lexeme?) = ls := by
    induction ls generalizing start with
    | nil => rfl
    | cons l ls ih =>
      obtain ⟨hl, hrest⟩ := List.forall_mem_cons.1 h
      rw [weave, weaveLexeme, Piece.ofLexeme, if_neg (by simpa using hl)]
      exact congrArg _ (ih _ hrest)
  rw [TemplatedFile.pieces, TemplatedFile.points_ofString]
  exact woven 0 _ h

/-- The tokens of a file without markup are such that an ordinary tree is made of them, if the rules
for tokens give types the flags that they should have, and keep white space together. -/
theorem areOrdinary_lex (hsuits : ∀ r ∈ rules, ∀ t ∈ r.tokenRules, L.Suits t.type t.flags)
    (hunlexable : L.Suits unlexable .ofCode)
    (hmarkers : ∀ k : MarkerKind, ∀ type ∈ withOwnType k.name ["meta"], type ∉ L.codes)
    (hspaces : ∀ r ∈ rules, r.KeepsSpaces)
    (blocks : BlocksIndent) (source name : String) (n : Nat) :
    let lexed := (lex rules blocks (.ofString source name)).run n
    AreOrdinary L lexed.2 lexed.1.segments ∧
      ∀ t ∈ lexed.1.segments, (∀ type ∈ L.codes, t.isType type = true → t.isCode = true) ∧
        (t.isMarker = false → ∃ l ∈ scan rules source.toList, l.Makes t) := by
  intro lexed
  have spaced : Spaced (scan rules source.toList) [] := spaced_scan hspaces _
  have suits : ∀ l ∈ scan rules source.toList, L.Suits l.type l.flags := by
    refine forall_mem_scan (fun r hr c cs k _ l hl => ?_) (fun _ _ _ => trivial)
      (fun run _ => hunlexable)
    obtain ⟨t, ht, heq⟩ := LexRule.exists_tokenRule_divide l hl
    rw [heq]
    exact hsuits r hr t ht
  have made := (meets_lex_areMadeOf (n := n) rules blocks (.ofString source name) n
    (Nat.le_refl n)).1
  rw [filterMap_lexeme?_pieces spaced.solid] at made
  obtain ⟨words, last, hsegments, hwords, hlast, -, -⟩ :=
    (meets_lex_ofString (n := n) rules blocks source name n (Nat.le_refl n)).1
  have sits : ∀ t ∈ lexed.1.segments, ∃ k, SitsAt k t := by
    intro t ht
    rw [show lexed.1.segments = _ from hsegments, List.mem_append, List.mem_singleton] at ht
    rcases ht with ht | rfl
    · obtain ⟨k, -, hk, -⟩ := hwords.abut.sitsAt ht
      exact ⟨k, hk⟩
    · exact ⟨_, hlast⟩
  have ids := (mints_lex (l := n) rules blocks (.ofString source name) n (Nat.le_refl n)).2
  have words : AreWords L lexed.2 lexed.1.segments := by
    refine ⟨isLexed_of_lex rfl, fun t ht => ?_, made.forall_mem ?_ fun l hl t hmakes => ?_,
      made.forall_mem ?_ fun l hl t hmakes => hmakes.kind_of_isCode (suits l hl)⟩
    · obtain ⟨k, hk⟩ := sits t ht
      exact hk.children
    · rintro _ ⟨k, m, i, p, rfl⟩
      exact isLabelled_marker k m i p
    · refine hmakes.isLabelled (suits l hl) fun hblank hline => ?_
      exact absurd (spaced.blank l hl hblank _ hline) (by decide)
    · rintro _ ⟨k, m, i, p, rfl⟩ hcode
      cases hcode
  refine ⟨⟨words, ?_, fun t ht => ?_, ?_⟩, made.forall_mem ?_ fun l hl t hmakes => ⟨?_, fun _ =>
    ⟨l, hl, hmakes⟩⟩⟩
  · refine List.nodup_iff_count_le_one.2 fun i => Nat.le_trans (ids i (Nat.zero_le i)) ?_
    split <;> decide
  · obtain ⟨k, hk⟩ := sits t ht
    obtain ⟨q, hq, -, hliteral, -⟩ := hk.position
    rw [hq, Option.any_some, hliteral]
  · refine isChain_of_forall₂ made.tokens spaced.apart
      fun l hl m hm t u hlt hmu hlm hspace hmore => ?_
    exact hlm (hlt.type_of_isSpace (suits l hl) (spaced.lineEnd l hl) hspace)
      (hmu.type_of_isSpace (suits m hm) (spaced.lineEnd m hm) hmore)
  · rintro _ ⟨k, m, i, p, rfl⟩
    refine ⟨fun type htype hcounts => ?_, fun hno => by cases hno⟩
    exact absurd htype (hmarkers k type (List.contains_iff_mem.1 hcounts))
  · intro type htype hcounts
    obtain rfl := (hmakes.isType_iff type).1 hcounts
    rw [hmakes.isCode_eq, (suits l hl).2.2.1 (List.mem_cons_of_mem _ htype)]
    rfl

end QueryLint
