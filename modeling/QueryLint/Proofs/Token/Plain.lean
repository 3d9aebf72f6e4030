import QueryLint.Proofs.Segment.Region
import QueryLint.Proofs.Text.Bytes
import QueryLint.Token.Stream

/-!
QueryLint.Proofs.Token.Plain — the tokens of a file without markup.

In a file without markup the templated text is the source, and every span of it is its own source.
The tokens of such a file stand one after the other, each at its own place, from the start to the
end.

* `TemplatedFile.toSource?_ofString` — a span of a file without markup is its own source.
* `Segment.Abut` — tokens one after the other between two offsets.
* `meets_lex_ofString` — the tokens of a file without markup are such.
-/

namespace QueryLint

open Segment

/-! ## 1. Files without markup -/

namespace TemplatedFile

variable {source name : String}

/-- A span of a file without markup is its own source. -/
theorem toSource?_ofString {s : Span} (h : s.stop ≤ source.utf8ByteSize) :
    (ofString source name).toSource? s = .ok s := by
  have hle := s.start_le_stop
  unfold toSource?
  rw [if_neg (by show ¬ source.utf8ByteSize < s.stop; omega), if_neg (by simp [ofString])]
  split
  · next hempty =>
    rw [Span.isEmpty_iff] at hempty
    have point : (ofString source name).pointToSource? s.start = .ok s.start := by
      unfold pointToSource?
      by_cases hzero : s.start = 0
      · simp [ofString, hzero]
        split <;> simp
      · by_cases hend : source.utf8ByteSize = s.start
        · simp [ofString, hend, Ne.symm hzero]
        · have hlt : 0 < s.start ∧ s.start < source.utf8ByteSize := by omega
          simp [ofString, hend, Ne.symm hzero, hlt, SliceKind.isLiteral]
    rw [point]
    cases s
    simp_all [Span.point, Except.map]
  · next hempty =>
    have hlt : s.start < s.stop := by
      rw [Span.isEmpty_iff] at hempty
      omega
    have first : (ofString source name).sourceStart? s.start s = .ok s.start := by
      have : s.start < source.utf8ByteSize := by omega
      simp [sourceStart?, ofString, this, SliceKind.isLiteral]
    have last : (ofString source name).sourceStop? s.stop s = .ok s.stop := by
      have : 0 < s.stop := by omega
      simp only [sourceStop?, ofString, List.find?_cons, this, h, decide_true, Bool.and_self]
      simp only [SliceKind.isLiteral, beq_self_eq_true, if_true, Except.ok.injEq]
      omega
    rw [first, last]
    show (if h : s.start ≤ s.stop then (.ok ⟨s.start, s.stop, h⟩ : Except MappingError Span)
      else .ok ((ofString source name).widest s.start s.stop)) = .ok s
    rw [dif_pos hle]

theorem isLiteralSource_ofString (s : Span) : (ofString source name).isLiteralSource s = true := by
  simp [isLiteralSource, ofString, literalFrom, SliceKind.isLiteral]

theorem points_ofString : (ofString source name).points = [] := by
  simp [points, ofString, Span.isEmpty]

end TemplatedFile

/-! ## 2. Tokens one after the other -/

namespace Segment

/-- A token with its own place in a file without markup. -/
structure SitsAt (n : Nat) (t : Segment) : Prop where
  sourceFixes : t.info.sourceFixes = []
  children : t.children = []
  position : ∃ q, t.position = some q ∧ q.source = q.templated ∧ q.isLiteral = true ∧
    q.templated.start = n ∧ q.templated.stop = n + t.raw.utf8ByteSize

/-- Tokens one after the other between two offsets. -/
inductive Abut : Nat → List Segment → Nat → Prop where
  | nil (n : Nat) : Abut n [] n
  | cons {n b : Nat} {t : Segment} {ts : List Segment} (first : SitsAt n t)
      (rest : Abut (n + t.raw.utf8ByteSize) ts b) : Abut n (t :: ts) b

namespace Abut

variable {a b m : Nat} {t : Segment} {ts us : List Segment}

theorem append (h : Abut a ts m) (h' : Abut m us b) : Abut a (ts ++ us) b := by
  induction h with
  | nil n => exact h'
  | cons first _ ih => exact .cons first (ih h')

theorem split (h : Abut a (ts ++ us) b) : ∃ m, Abut a ts m ∧ Abut m us b := by
  induction ts generalizing a with
  | nil => exact ⟨a, .nil a, h⟩
  | cons t ts ih =>
    cases h with
    | cons first rest =>
      obtain ⟨m, hts, hus⟩ := ih rest
      exact ⟨m, .cons first hts, hus⟩

/-- The tokens have the width between the offsets. -/
theorem width (h : Abut a ts b) : a + (rawAll ts).utf8ByteSize = b := by
  induction h with
  | nil n => simp [rawAll]
  | cons first _ ih =>
    rw [rawAll, String.utf8ByteSize_append]
    omega

theorem sitsAt (h : Abut a ts b) (ht : t ∈ ts) :
    ∃ n, a ≤ n ∧ SitsAt n t ∧ n + t.raw.utf8ByteSize ≤ b := by
  induction h with
  | nil n => cases ht
  | @cons n b u us first rest ih =>
    rcases List.mem_cons.1 ht with rfl | ht
    · have := rest.width
      exact ⟨n, Nat.le_refl n, first, by omega⟩
    · obtain ⟨k, hk, hsits, hend⟩ := ih ht
      exact ⟨k, by omega, hsits, hend⟩

end Abut

end Segment

/-! ## 3. Reading tokens -/

/-- The tokens of lexemes: one after the other, with their text, none of them empty, and no marker
among them. -/
structure IsWords (a : Nat) (text : List Char) (ts : List Segment) : Prop where
  abut : Abut a ts (a + Text.byteCount text)
  raw : rawAll ts = String.ofList text
  solid : ∀ t ∈ ts, t.raw ≠ ""
  unmarked : ∀ t ∈ ts, t.isMarker = false

namespace IsWords

variable {a : Nat} {text text' : List Char} {ts us : List Segment}

theorem nil (a : Nat) : IsWords a [] [] := ⟨.nil a, rfl, by simp, by simp⟩

theorem append (h : IsWords a text ts) (h' : IsWords (a + Text.byteCount text) text' us) :
    IsWords a (text ++ text') (ts ++ us) where
  abut := by
    rw [Text.byteCount_append, ← Nat.add_assoc]
    exact h.abut.append h'.abut
  raw := by rw [rawAll_append, h.raw, h'.raw, String.ofList_append]
  solid t ht := (List.mem_append.1 ht).elim (h.solid t) (h'.solid t)
  unmarked t ht := (List.mem_append.1 ht).elim (h.unmarked t) (h'.unmarked t)

end IsWords

variable {source name : String} {n : Nat}

theorem tokenPosition_ofString {s : Span} (h : s.stop ≤ source.utf8ByteSize) :
    (TemplatedFile.ofString source name).tokenPosition s =
      .ofSpans s s ((TemplatedFile.ofString source name).place s.start) true := by
  unfold TemplatedFile.tokenPosition
  rw [TemplatedFile.toSource?_ofString h]
  dsimp only
  rw [TemplatedFile.isLiteralSource_ofString]

/-- A lexeme makes one token with its text, or none if it is empty. -/
theorem meets_ofLexeme {start : Nat} {l : Lexeme}
    (h : start + Text.byteCount l.text ≤ source.utf8ByteSize) :
    Meets (n ≤ ·) ((Piece.ofLexeme start l).mapM (·.segments (.ofString source name))) fun woven =>
      IsWords start l.text woven.flatten := by
  unfold Piece.ofLexeme
  split
  · next hempty =>
    rw [List.isEmpty_iff] at hempty
    rw [hempty]
    exact .pure (.nil start)
  · next hsolid =>
    rw [List.mapM_cons]
    refine (meets_freshId.bind fun id _ => .pure ?_ : Meets (n ≤ ·)
      ((Piece.text start l).segments (.ofString source name)) (IsWords start l.text)).bind
      fun ss hss => .pure ?_
    · have raw : (Segment.mk ⟨.token (String.ofList l.text) l.flags none, l.type, [l.type], id,
          some ((TemplatedFile.ofString source name).tokenPosition (Piece.span start l)), []⟩
          []).raw = String.ofList l.text := by rw [Segment.raw]
      have sits : SitsAt start (Segment.mk ⟨.token (String.ofList l.text) l.flags none, l.type,
          [l.type], id, some ((TemplatedFile.ofString source name).tokenPosition
            (Piece.span start l)), []⟩ []) := by
        refine ⟨rfl, rfl, _, rfl, ?_⟩
        rw [raw, Text.utf8ByteSize_ofList, tokenPosition_ofString h]
        exact ⟨rfl, rfl, rfl, rfl⟩
      refine ⟨?_, ?_, ?_, ?_⟩
      · have whole := Abut.cons sits (.nil _)
        rwa [raw, Text.utf8ByteSize_ofList] at whole
      · rw [rawAll, rawAll, raw, String.append_empty]
      · intro t ht
        rw [List.mem_singleton.1 ht, raw, Ne, String.ofList_eq_empty_iff]
        simpa using hsolid
      · intro t ht
        rw [List.mem_singleton.1 ht]
        rfl
    · simpa using hss

/-- Lexemes make tokens one after the other. -/
theorem meets_weave {start : Nat} {ls : List Lexeme}
    (h : start + Text.byteCount (textOf ls) ≤ source.utf8ByteSize) :
    Meets (n ≤ ·) ((weave start [] ls).mapM (·.segments (.ofString source name))) fun woven =>
      IsWords start (textOf ls) woven.flatten := by
  induction ls generalizing start with
  | nil => exact .pure (.nil start)
  | cons l ls ih =>
    rw [textOf_cons, Text.byteCount_append] at h
    rw [weave, weaveLexeme, List.mapM_append]
    refine (meets_ofLexeme (by omega)).bind fun first hfirst =>
      (ih (by omega)).bind fun rest hrest => .pure ?_
    rw [List.flatten_append, textOf_cons]
    exact hfirst.append hrest

/-- Where no marker stands for markup, blocks of markup change nothing. -/
theorem indentBlocks_of_unmarked {ss : List Segment} (h : ∀ s ∈ ss, s.isTemplateMarker = false)
    (b : Bool) : indentBlocks ss b = ss := by
  cases b with
  | true => rfl
  | false =>
    show ss.map _ = ss
    refine (List.map_congr_left fun s hs => ?_).trans (List.map_id ss)
    rw [h s hs]
    rfl

/-- The tokens of a file without markup: words one after the other that make up its text, and a
marker at its end. -/
theorem meets_lex_ofString (rules : List LexRule) (blocks : BlocksIndent) (source name : String) :
    Meets (n ≤ ·) (lex rules blocks (.ofString source name)) fun l =>
      ∃ words last, l.segments = words ++ [last] ∧ IsWords 0 source.toList words ∧
        SitsAt source.utf8ByteSize last ∧ last.raw = "" ∧ last.isMarker = true := by
  unfold lex
  dsimp only
  have pieces : (TemplatedFile.ofString source name).pieces rules =
      weave 0 [] (scan rules source.toList) := by
    rw [TemplatedFile.pieces, TemplatedFile.points_ofString]
    rfl
  rw [pieces]
  have fits : 0 + Text.byteCount (textOf (scan rules source.toList)) ≤ source.utf8ByteSize := by
    rw [text_scan, Text.byteCount_toList]
    omega
  refine (meets_weave fits).bind fun woven hwoven => meets_freshId.bind fun id _ => .pure ?_
  rw [text_scan] at hwoven
  refine ⟨woven.flatten, _, indentBlocks_of_unmarked (fun s hs => ?_) _, hwoven,
    ⟨rfl, rfl, _, rfl, rfl, rfl, rfl, ?_⟩, ?_, rfl⟩
  · rcases List.mem_append.1 hs with hs | hs
    · have := hwoven.unmarked s hs
      unfold isMarker at this
      unfold isTemplateMarker
      rw [Option.isSome_eq_false_iff, Option.isNone_iff_eq_none] at this
      rw [this]
      rfl
    · rw [List.mem_singleton.1 hs]
      rfl
  · show source.utf8ByteSize = _
    rw [Segment.raw]
    simp
  · rw [Segment.raw]

end QueryLint
