import QueryLint.Proofs.Template.Consistent
import QueryLint.Proofs.Template.Loop

/-!
QueryLint.Proofs.Template.Blocks — what the numbers of blocks tell.

The slices of a template are numbered by the tags in front of them. So literal text has the same
number on both sides of an expression or a comment, and another one behind a tag.

The loops that render the same in every round are found by the numbers of the text in them, in one
pass along the slices with the blocks that are open. Since tags nest, slices from a tag up to its
end change nothing for the blocks around them, but that the innermost of these has a tag in its
body. So a block is closed as a loop without markup only if all of its body is literal text and
comments.

* `RawSlice.Numbered` — slices are numbered by the tags before them.
* `RawSlice.LoopsOver` — literal text with a number stands in a loop without markup.
* `RawSlice.Scans` — what slices are to the blocks around them.
* `RawSlice.Nested.exists_scans` — slices whose tags nest yield the loops among them.
* `TemplatedFile.process_blocks` — when two texts have one number, and which numbers are of loops.
-/

namespace QueryLint

open Markup

/-! ## 1. Numbers -/

namespace RawSlice

/-- The start or the end of a block. -/
def isTag (s : RawSlice) : Bool := s.kind == .blockStart || s.kind == .blockEnd

/-- Slices are numbered from `n` on by the tags before them, and an end tag as what follows it. -/
inductive Numbered : Nat → List RawSlice → Prop where
  | nil (n : Nat) : Numbered n []
  | cons {n : Nat} {s : RawSlice} {rest : List RawSlice}
      (hown : s.block = if s.kind = .blockEnd then n + 1 else n)
      (hrest : Numbered (if s.isTag then n + 1 else n) rest) : Numbered n (s :: rest)

theorem Numbered.block_eq {n : Nat} {s : RawSlice} {before after : List RawSlice}
    (h : Numbered n (before ++ s :: after)) (hkind : s.kind = .literal) :
    s.block = n + before.countP (·.isTag) := by
  induction before generalizing n with
  | nil =>
    cases h with
    | cons hown _ => simpa [hkind] using hown
  | cons t before ih =>
    cases h with
    | cons _ hrest =>
      rw [ih hrest, List.countP_cons]
      split
      · omega
      · omega

/-- A slice lies between two others. -/
def Between (u s t : RawSlice) : Prop :=
  s.stop ≤ u.start ∧ u.stop ≤ t.start ∨ t.stop ≤ u.start ∧ u.stop ≤ s.start

instance (u s t : RawSlice) : Decidable (u.Between s t) := inferInstanceAs (Decidable (_ ∨ _))

theorem Between.symm {u s t : RawSlice} (h : u.Between s t) : u.Between t s := Or.symm h

end RawSlice

open RawSlice

theorem Markup.numbered_marksFrom {offset block : Nat} {ps : List (Shape × List Char)}
    {ms : List Marked} (h : marksFrom offset block ps = .ok ms) :
    Numbered block (ms.map (·.slice)) := by
  induction ps generalizing offset block ms with
  | nil =>
    rw [marksFrom, Except.ok.injEq] at h
    rw [← h]
    exact .nil block
  | cons p ps ih =>
    rw [marksFrom] at h
    cases hread : Mark.read p.1 p.2 offset with
    | error e =>
      rw [hread] at h
      cases h
    | ok mark =>
      simp only [hread, bind, Except.bind] at h
      split at h
      · cases h
      · next later hlater =>
        obtain rfl := Except.ok.inj h
        refine .cons rfl ?_
        have rest := ih hlater
        -- Behind either tag the number is one more.
        cases hkind : mark.kind <;> simpa [isTag, hkind] using rest

namespace TemplatedFile

variable {f : TemplatedFile}

/-- Between two slices of a file are those that stand between them in the list. -/
theorem between_iff_mem (htext : ∀ s ∈ f.raw, s.start < s.stop) {s t u : RawSlice}
    {before middle after : List RawSlice} (hraw : f.raw = before ++ s :: (middle ++ t :: after))
    (hu : u ∈ f.raw) : u.Between s t ↔ u ∈ middle := by
  have sorted := f.raw_tiles.pairwise
  have solid := htext u hu
  have hs := htext s (by simp [hraw])
  have ht := htext t (by simp [hraw])
  rw [hraw, List.pairwise_append, List.pairwise_cons, List.pairwise_append,
    List.pairwise_cons] at sorted
  obtain ⟨-, ⟨hlater, -, ⟨hafter, -⟩, hmiddle⟩, hbefore⟩ := sorted
  have := hlater t (by simp)
  have inMiddle (hu : u ∈ middle) : s.stop ≤ u.start ∧ u.stop ≤ t.start :=
    ⟨hlater u (by simp [hu]), hmiddle u hu t (by simp)⟩
  unfold Between
  constructor
  · intro hbetween
    rw [hraw] at hu
    simp only [List.mem_append, List.mem_cons] at hu
    rcases hu with hu | rfl | hu | rfl | hu
    · have := hbefore u hu s (by simp)
      omega
    · omega
    · exact hu
    · omega
    · have := hafter u hu
      omega
  · intro hu
    exact .inl (inMiddle hu)

/-- Of two literal slices of a file the second has the number of the first exactly if there is no
tag between them. -/
theorem block_eq_iff_of_split (hnumbered : Numbered 0 f.raw)
    (htext : ∀ s ∈ f.raw, s.start < s.stop) {s t : RawSlice} {before middle after : List RawSlice}
    (hraw : f.raw = before ++ s :: (middle ++ t :: after)) (hs : s.kind = .literal)
    (ht : t.kind = .literal) :
    s.block = t.block ↔ ∀ u ∈ f.raw, u.isTag = true → ¬ u.Between s t := by
  have first := hnumbered
  rw [hraw] at first
  have second := first
  rw [← List.cons_append, ← List.append_assoc] at second
  have hcount := second.block_eq ht
  rw [List.countP_append, List.countP_cons, show s.isTag = false by simp [isTag, hs]] at hcount
  rw [first.block_eq hs, hcount]
  have none : middle.countP (·.isTag) = 0 ↔ ∀ u ∈ middle, ¬ u.isTag = true := List.countP_eq_zero
  have count : 0 + before.countP (·.isTag) =
      0 + (before.countP (·.isTag) + (middle.countP (·.isTag) + if false = true then 1 else 0)) ↔
        middle.countP (·.isTag) = 0 := by
    simp
  rw [count, none]
  constructor
  · intro hmiddle u hu htag hbetween
    exact hmiddle u ((between_iff_mem htext hraw hu).1 hbetween) htag
  · intro hbetween u hu htag
    have hmem : u ∈ f.raw := by simp [hraw, hu]
    exact hbetween u hmem htag ((between_iff_mem htext hraw hmem).2 hu)

/-- Two literal slices of a file have the same number exactly if there is no tag between them. -/
theorem block_eq_iff (hnumbered : Numbered 0 f.raw) (htext : ∀ s ∈ f.raw, s.start < s.stop)
    {s t : RawSlice} (hs : s ∈ f.raw) (ht : t ∈ f.raw) (hs' : s.kind = .literal)
    (ht' : t.kind = .literal) :
    s.block = t.block ↔ ∀ u ∈ f.raw, u.isTag = true → ¬ u.Between s t := by
  obtain ⟨before, after, hraw⟩ := List.append_of_mem hs
  have hmem := ht
  rw [hraw] at hmem
  rcases List.mem_append.1 hmem with hmem | hmem
  · obtain ⟨front, middle, rfl⟩ := List.append_of_mem hmem
    rw [List.append_assoc, List.cons_append] at hraw
    rw [eq_comm, block_eq_iff_of_split hnumbered htext hraw ht' hs']
    exact forall₃_congr fun u _ _ => not_congr ⟨Between.symm, Between.symm⟩
  · rcases List.mem_cons.1 hmem with rfl | hmem
    · have solid := htext t ht
      refine iff_of_true rfl fun u hu _ hbetween => ?_
      have := htext u hu
      unfold Between at hbetween
      omega
    · obtain ⟨middle, back, rfl⟩ := List.append_of_mem hmem
      exact block_eq_iff_of_split hnumbered htext hraw hs' ht'

end TemplatedFile

/-! ## 2. Loops without markup -/

/-- The innermost open block has in its body what some slices hold: literal text with the given
numbers and, unless they are plain, other markup. -/
def noteBody (plain : Bool) (texts : List Nat) : List OpenBlock → List OpenBlock
  | [] => []
  | b :: bs => { b with literalOnly := b.literalOnly && plain, body := b.body ++ texts } :: bs

section NoteBody

variable (plain : Bool) (texts : List Nat) (open_ : List OpenBlock)

@[simp] theorem noteBody_nothing : noteBody true [] open_ = open_ := by
  cases open_ <;> simp [noteBody]

@[simp] theorem noteBody_noteBody (plain' : Bool) (texts' : List Nat) :
    noteBody plain' texts' (noteBody plain texts open_) =
      noteBody (plain && plain') (texts ++ texts') open_ := by
  cases open_ <;> simp [noteBody, Bool.and_assoc]

theorem spoil_eq_noteBody : spoil open_ = noteBody false [] open_ := by
  cases open_ <;> simp [noteBody, spoil]

theorem noteLiteral_eq_noteBody (n : Nat) : noteLiteral n open_ = noteBody true [n] open_ := by
  cases open_ <;> simp [noteBody, noteLiteral]

end NoteBody

namespace RawSlice

/-- Literal text or a comment, which renders the same in every round of a loop. -/
def isPlain (s : RawSlice) : Bool := s.kind == .literal || s.kind == .comment

/-- The number of literal text. -/
def textBlock (s : RawSlice) : List Nat := if s.kind = .literal then [s.block] else []

open TemplatedFile.LiteralLoop in
/-- A slice that is no tag is a part of the body of the innermost open block. -/
theorem literalLoops_leaf {s : RawSlice} (hstart : s.kind ≠ .blockStart)
    (hend : s.kind ≠ .blockEnd) (open_ : List OpenBlock) (rest : List RawSlice) :
    literalLoops open_ (s :: rest) =
      literalLoops (noteBody s.isPlain s.textBlock open_) rest := by
  unfold isPlain textBlock
  cases hkind : s.kind with
  | blockStart => exact absurd hkind hstart
  | blockEnd => exact absurd hkind hend
  | literal =>
    rw [literalLoops_of_literal hkind, noteLiteral_eq_noteBody]
    rfl
  | templated =>
    rw [literalLoops_of_templated hkind, spoil_eq_noteBody]
    rfl
  | comment =>
    rw [literalLoops_of_comment hkind, ← noteBody_nothing open_]
    simp

/-- Literal text with a number stands in the body of a loop that is literal text and comments. -/
inductive LoopsOver (n : Nat) (ss : List RawSlice) : Prop where
  | intro {before body after : List RawSlice} {opening closing s : RawSlice}
      (split : ss = before ++ opening :: (body ++ closing :: after))
      (pair : Pairs opening closing) (tag : opening.tag = some "for")
      (plain : ∀ s ∈ body, s.isPlain = true) (text : s ∈ body) (literal : s.kind = .literal)
      (block : s.block = n)

theorem LoopsOver.within {n : Nat} {ss : List RawSlice} (h : LoopsOver n ss)
    (front back : List RawSlice) : LoopsOver n (front ++ (ss ++ back)) := by
  obtain ⟨rfl, pair, tag, plain, text, literal, block⟩ := h
  exact .intro (by simp only [List.append_assoc, List.cons_append]; rw [← List.append_assoc])
    pair tag plain text literal block

/-- To the blocks around them slices are a part of the body of the innermost, in which literal text
with the given numbers is theirs, and they yield numbers of loops among them. -/
structure Scans (ss : List RawSlice) (texts : List Nat) : Prop where
  own : ∀ n ∈ texts, ∃ s ∈ ss, s.kind = .literal ∧ s.block = n
  yields : ∀ open_ rest, ∃ found, (∀ n ∈ found, LoopsOver n ss) ∧
    literalLoops open_ (ss ++ rest) =
      found ++ literalLoops (noteBody (ss.all (·.isPlain)) texts open_) rest

namespace Scans

variable {s opening closing : RawSlice} {ss body : List RawSlice} {texts bodyTexts : List Nat}

theorem nil : Scans [] [] where
  own := by simp
  yields open_ rest := ⟨[], by simp, by simp⟩

theorem leaf (hstart : s.kind ≠ .blockStart) (hend : s.kind ≠ .blockEnd) (h : Scans ss texts) :
    Scans (s :: ss) (s.textBlock ++ texts) where
  own := by
    intro n hn
    rcases List.mem_append.1 hn with hn | hn
    · unfold textBlock at hn
      split at hn
      · next hkind => exact ⟨s, List.mem_cons_self .., hkind, (List.mem_singleton.1 hn).symm⟩
      · cases hn
    · obtain ⟨t, ht, hliteral, hblock⟩ := h.own n hn
      exact ⟨t, List.mem_cons_of_mem _ ht, hliteral, hblock⟩
  yields := by
    intro open_ rest
    obtain ⟨found, hfound, heq⟩ := h.yields (noteBody s.isPlain s.textBlock open_) rest
    refine ⟨found, fun n hn => ?_, ?_⟩
    · simpa using (hfound n hn).within [s] []
    · rw [List.cons_append, literalLoops_leaf hstart hend, heq, noteBody_noteBody, List.all_cons]

open TemplatedFile.LiteralLoop in
/-- A tag with its end yields what is in it, and the text directly in it if it is a loop without
markup. -/
theorem block (hpair : Pairs opening closing) (hbody : Scans body bodyTexts)
    (h : Scans ss texts) : Scans (opening :: (body ++ closing :: ss)) texts where
  own := by
    intro n hn
    obtain ⟨t, ht, hliteral, hblock⟩ := h.own n hn
    exact ⟨t, by simp [ht], hliteral, hblock⟩
  yields := by
    intro open_ rest
    obtain ⟨inner, hinner, heq⟩ := hbody.yields (⟨opening.tag, true, []⟩ :: spoil open_)
      (closing :: (ss ++ rest))
    obtain ⟨found, hfound, heq'⟩ := h.yields (spoil open_) rest
    refine ⟨inner ++ ((if opening.tag = some "for" && body.all (·.isPlain) then bodyTexts else [])
      ++ found), ?_, ?_⟩
    · intro n hn
      simp only [List.mem_append] at hn
      rcases hn with hn | hn | hn
      · simpa using (hinner n hn).within [opening] (closing :: ss)
      · split at hn
        · next hloop =>
          simp only [Bool.and_eq_true, decide_eq_true_eq, List.all_eq_true] at hloop
          obtain ⟨s, hs, hliteral, hblock⟩ := hbody.own n hn
          have split : opening :: (body ++ closing :: ss) =
              [] ++ opening :: (body ++ closing :: ss) := rfl
          exact .intro split hpair hloop.1 hloop.2 hs hliteral hblock
        · cases hn
      · simpa using (hfound n hn).within (opening :: (body ++ [closing])) []
    · have markup : opening.isPlain = false := by
        rw [isPlain, hpair.opens]
        rfl
      rw [List.cons_append, List.append_assoc, List.cons_append,
        literalLoops_of_blockStart hpair.opens, heq, noteBody,
        literalLoops_of_blockEnd hpair.closes, heq', spoil_eq_noteBody, noteBody_noteBody]
      simp [markup]

end Scans

/-- Slices whose tags nest yield numbers of the loops among them. -/
theorem Nested.exists_scans {ss : List RawSlice} (h : Nested ss) : ∃ texts, Scans ss texts := by
  induction h with
  | nil => exact ⟨_, .nil⟩
  | leaf hstart hend _ ih =>
    obtain ⟨texts, hscans⟩ := ih
    exact ⟨_, .leaf hstart hend hscans⟩
  | block hpair _ _ ihbody ih =>
    obtain ⟨bodyTexts, hbody⟩ := ihbody
    obtain ⟨texts, hscans⟩ := ih
    exact ⟨_, .block hpair hbody hscans⟩

end RawSlice

namespace TemplatedFile

variable {f : TemplatedFile}

/-- The numbers that are found for loops are those of the text in loops without markup. -/
theorem mem_literalLoopBlocks_iff (hnested : Nested f.raw) {n : Nat} :
    n ∈ f.literalLoopBlocks ↔
      ∃ loop : f.LiteralLoop, Pairs loop.opening loop.closing ∧
        ∃ s ∈ loop.body, s.kind = .literal ∧ s.block = n := by
  constructor
  · intro hn
    obtain ⟨texts, hscans⟩ := hnested.exists_scans
    obtain ⟨found, hfound, heq⟩ := hscans.yields [] []
    rw [List.append_nil, ← literalLoopBlocks] at heq
    have hn : n ∈ found := by simpa [heq, noteBody, literalLoops] using hn
    obtain @⟨before, body, after, opening, closing, s, split, pair, tag, plain, text, literal,
      block⟩ := hfound n hn
    let loop : f.LiteralLoop :=
      { before, opening, body, closing, after
        raw_eq := split
        opening_kind := pair.opens
        opening_tag := tag
        closing_kind := pair.closes
        body_kind := fun s hs => by simpa [isPlain] using plain s hs }
    exact ⟨loop, pair, s, text, literal, block⟩
  · rintro ⟨loop, -, s, hs, hkind, rfl⟩
    exact loop.block_mem_literalLoopBlocks hs hkind

/-- Two literal slices of a template have the same number exactly if there is no tag between them,
and the numbers that are found for loops are those of literal slices in the body of a loop that is
literal text and comments. -/
theorem process_blocks {values : List (String × String)} {source name : String}
    (hfile : (Templater.placeholder values).process source name = .ok f) :
    (∀ s ∈ f.raw, ∀ t ∈ f.raw, s.kind = .literal → t.kind = .literal →
      (f.blockOf s = f.blockOf t ↔ ∀ u ∈ f.raw, u.isTag = true → ¬ u.Between s t)) ∧
    ∀ n, n ∈ f.literalLoopBlocks ↔
      ∃ loop : f.LiteralLoop, Pairs loop.opening loop.closing ∧
        ∃ s ∈ loop.body, s.kind = .literal ∧ f.blockOf s = n := by
  obtain ⟨ms, bs, hrenders⟩ := Templater.exists_renders hfile
  have htext := hrenders.start_lt_stop
  have blockOf_eq {s : RawSlice} (hs : s ∈ f.raw) : f.blockOf s = s.block := by
    rw [blockOf, blockAt?_eq_some htext hs]
    rfl
  have numbered : Numbered 0 f.raw := by
    rw [hrenders.raw_eq]
    exact numbered_marksFrom hrenders.marks_eq
  constructor
  · intro s hs t ht hs' ht'
    rw [blockOf_eq hs, blockOf_eq ht]
    exact block_eq_iff numbered htext hs ht hs' ht'
  · intro n
    rw [mem_literalLoopBlocks_iff hrenders.isConsistent.nested]
    constructor
    · rintro ⟨loop, hpair, s, hs, hkind, hblock⟩
      have hraw : s ∈ f.raw := by simp [loop.raw_eq, hs]
      exact ⟨loop, hpair, s, hs, hkind, (blockOf_eq hraw).trans hblock⟩
    · rintro ⟨loop, hpair, s, hs, hkind, hblock⟩
      have hraw : s ∈ f.raw := by simp [loop.raw_eq, hs]
      exact ⟨loop, hpair, s, hs, hkind, (blockOf_eq hraw).symm.trans hblock⟩

/-- A condition around a loop without markup, with a comment in its body, and a loop with an
expression. -/
def mixedSource : String :=
  "\x7b% if a %\x7dx\x7b% for i in b, c %\x7dy\x7b# n #\x7dz\x7b% endfor %\x7d" ++
    "\x7b% for i in b %\x7dv\x7b\x7b i \x7d\x7d\x7b% endfor %\x7d\x7b% endif %\x7d"

/-- The file of the template. -/
def mixedFile : TemplatedFile := rendered [("a", "1")] mixedSource

theorem process_mixedSource :
    (Templater.placeholder [("a", "1")]).process mixedSource "" = .ok mixedFile :=
  process_eq_rendered (by decide +kernel)

/-- Text on both sides of the comment has the number of the first loop, and that of the second loop
is not found. -/
theorem process_blocks_mixed :
    (∃ y ∈ mixedFile.raw, ∃ z ∈ mixedFile.raw, y.text = "y" ∧ z.text = "z" ∧
      mixedFile.blockOf y = mixedFile.blockOf z) ∧
    (∃ loop : mixedFile.LiteralLoop, Pairs loop.opening loop.closing ∧
      ∃ s ∈ loop.body, s.kind = .literal ∧ mixedFile.blockOf s = 2) ∧
    ∀ v ∈ mixedFile.raw, v.text = "v" → mixedFile.blockOf v ∉ mixedFile.literalLoopBlocks := by
  obtain ⟨same, loops⟩ := process_blocks process_mixedSource
  have facts : (∃ y ∈ mixedFile.raw, ∃ z ∈ mixedFile.raw, (y.text = "y" ∧ z.text = "z") ∧
      (y.kind = .literal ∧ z.kind = .literal) ∧
      ∀ u ∈ mixedFile.raw, u.isTag = true → ¬ u.Between y z) ∧
      2 ∈ mixedFile.literalLoopBlocks ∧
      ∀ v ∈ mixedFile.raw, v.text = "v" →
        mixedFile.blockOf v ∉ mixedFile.literalLoopBlocks := by
    decide +kernel
  obtain ⟨⟨y, hy, z, hz, ⟨hy', hz'⟩, ⟨hkind, hkind'⟩, hbetween⟩, found, missed⟩ := facts
  exact ⟨⟨y, hy, z, hz, hy', hz', (same y hy z hz hkind hkind').2 hbetween⟩, (loops 2).1 found,
    missed⟩

end TemplatedFile

end QueryLint
