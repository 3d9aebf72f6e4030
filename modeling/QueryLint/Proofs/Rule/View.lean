import QueryLint.Proofs.Rule.Standard
import QueryLint.Proofs.Template.Raw

/-!
QueryLint.Proofs.Rule.View — what the rules of the library look at.

These rules do not look at all that is around a segment. They ask what the segment counts as, for
the texts of tokens, what stands in the source as it is, and what comes right before and after it.
Where a segment came from, who it is and what is inside the nodes after it does not matter. So two
trees that show a rule the same have as many violations of it, at whatever time it is asked.

A rule that finds something at fault also says how to fix it. In a file without markup no such fix
is unsafe. There is one exception: a grammar could make nodes that count as white space, and these
have no text of their own that could be another.

* `Segment.look`, `Site.view` — what a rule is shown.
* `Rule.GoesByView` — what a rule finds fault with depends on that alone.
* `Rule.GivesFixes` — what it finds fault with it can fix.
* `RuleRegistry.goesByView_of_choose`, `RuleRegistry.givesFixes_of_choose` — the library's rules.
* `Rule.length_crawl`, `Rule.fixes_crawl` — what that means for a whole tree.
-/

namespace QueryLint

open Segment

/-! ## 1. What is shown -/

/-- What a rule goes by in a segment. The text of a node counts only if it is white space. -/
structure Look where
  types : List String
  marker : Option MarkerKind
  isLeaf : Bool
  isCode : Bool
  isComment : Bool
  text : Option String
  isLiteral : Option Bool
  deriving DecidableEq

/-- What a rule goes by at a site: the segment, its leaves, and the two neighbours on each side. -/
structure View where
  segment : Look
  leaves : List Look
  before : List Look
  after : List Look
  deriving DecidableEq

/-- The look of a segment. -/
def Segment.look (s : Segment) : Look where
  types := s.classTypes
  marker := s.marker?.map (·.kind)
  isLeaf := s.isLeaf
  isCode := s.isCode
  isComment := s.isComment
  text := if s.isLeaf || s.isType "whitespace" then some s.raw else none
  isLiteral := s.position.map (·.isLiteral)

/-- The view of a site. -/
def Site.view (s : Site) : View where
  segment := s.segment.look
  leaves := (s.segment.leaves.filter Rule.isVisible).map look
  before := (s.tokensBefore.take 2).map look
  after := (s.nextSiblings.take 2).map look

/-- White space that comes next is a token. -/
def View.blankIsToken (v : View) : Bool :=
  v.after.head?.all fun x => !x.types.contains "whitespace" || x.isLeaf

namespace Segment

variable {s t : Segment}

theorem isType_of_look (h : s.look = t.look) (type : String) : s.isType type = t.isType type := by
  have types : s.classTypes = t.classTypes := congrArg Look.types h
  rw [isType, isType, types]

theorem isMarker_look (s : Segment) : s.isMarker = s.look.marker.isSome := by
  rw [isMarker, look, Option.isSome_map]

theorem raw_of_look (h : s.look = t.look) (hs : (s.isLeaf || s.isType "whitespace") = true) :
    s.raw = t.raw := by
  have leaf : s.isLeaf = t.isLeaf := congrArg Look.isLeaf h
  have text : s.look.text = t.look.text := congrArg Look.text h
  have ht := hs
  rw [leaf, isType_of_look h] at ht
  simpa [look, hs, ht] using text

theorem isComment_of_look (h : s.look = t.look) : s.isComment = t.isComment :=
  congrArg Look.isComment h

end Segment

namespace Rule

variable {s t : Segment}

theorem isLineEnd_of_look (h : s.look = t.look) : isLineEnd s = isLineEnd t := by
  have marker : s.marker?.map (·.kind) = t.marker?.map (·.kind) := congrArg Look.marker h
  have ends (x : Segment) : x.marker?.any (·.kind == .endOfFile) =
      (x.marker?.map (·.kind)).any (· == .endOfFile) := by
    cases x.marker? <;> rfl
  rw [isLineEnd, isLineEnd, isType_of_look h, ends, ends, marker]

theorem isWrittenBlank_of_look (h : s.look = t.look) : isWrittenBlank s = isWrittenBlank t := by
  have literal : s.position.map (·.isLiteral) = t.position.map (·.isLiteral) :=
    congrArg Look.isLiteral h
  have written (x : Segment) :
      x.position.any (·.isLiteral) = (x.position.map (·.isLiteral)).any id := by
    cases x.position <;> rfl
  rw [isWrittenBlank, isWrittenBlank, isType_of_look h, written, written, literal]

theorem isCasedWord_of_look (h : s.look = t.look) : isCasedWord s = isCasedWord t := by
  have leaf : s.isLeaf = t.isLeaf := congrArg Look.isLeaf h
  have literal : s.position.map (·.isLiteral) = t.position.map (·.isLiteral) :=
    congrArg Look.isLiteral h
  have written (x : Segment) :
      x.position.all (·.isLiteral) = (x.position.map (·.isLiteral)).all id := by
    cases x.position <;> rfl
  cases hs : s.isLeaf with
  | false => simp [isCasedWord, ← leaf, hs]
  | true =>
    have raw : s.raw = t.raw := raw_of_look h (by rw [hs, Bool.true_or])
    rw [isCasedWord, isCasedWord, ← leaf, raw, written, written, literal]

end Rule

/-! ## 2. Rules that go by it -/

/-- What matters of a finding to the findings after it and to their number. -/
def Finding.gist (x : Finding) : Bool × Option Memory := (x.anchor.isSome, x.memory)

/-- What a rule says at two sites, at any two times, comes to the same. -/
def SameGist (x y : Fresh (Except RuleFault (List Finding))) : Prop :=
  ∀ n n', ∃ xs ys, (x.run n).1 = .ok xs ∧ (y.run n').1 = .ok ys ∧
    xs.map Finding.gist = ys.map Finding.gist

/-- What a rule finds fault with, and what it remembers, depends on the view of its site alone. -/
def Rule.GoesByView (r : Rule) : Prop :=
  ∀ c c' : RuleContext, c.view = c'.view → c.memory = c'.memory → SameGist (r.eval c) (r.eval c')

/-- What a rule finds fault with it says how to fix, unless that is white space in a node. -/
def Rule.GivesFixes (r : Rule) : Prop :=
  ∀ (c : RuleContext) n xs, c.view.blankIsToken = true → ((r.eval c).run n).1 = .ok xs →
    ∀ x ∈ xs, x.anchor.isSome = true → x.fixes ≠ []

theorem SameGist.ok {xs ys : List Finding} (h : xs.map Finding.gist = ys.map Finding.gist) :
    SameGist (pure (.ok xs)) (pure (.ok ys)) := fun _ _ => ⟨xs, ys, rfl, rfl, h⟩

theorem SameGist.nothing : SameGist (pure (.ok [])) (pure (.ok [])) := .ok rfl

@[simp] theorem Fix.isTrivial_delete (s : Segment) : (Fix.delete s).isTrivial = false := rfl

/-- Taking away is something to do. -/
theorem Finding.withFixes_deletes (s : Segment) (ss : List Segment) :
    ((about s).withFixes (ss.map .delete)).fixes = ss.map .delete := by
  simp [withFixes, List.filter_eq_self]

/-- A token takes the text that it is given. -/
theorem Segment.raw_edit {s : Segment} (hleaf : s.isLeaf = true) (hmarker : s.isMarker = false)
    (text : String) (n : Nat) : ((s.edit (some text) none).run n).1.raw = text := by
  obtain ⟨⟨kind, type, types, id, position, fixes⟩, cs⟩ := s
  cases kind with
  | token => rfl
  | marker => cases hmarker
  | node | bracketed | unparsable | file => cases hleaf

/-- Giving a token another text is something to do. -/
theorem Finding.fixes_respell {s : Segment} (hleaf : s.isLeaf = true) (hmarker : s.isMarker = false)
    {text : String} (h : text ≠ s.raw) (n : Nat) : ((respell s text).run n).1.fixes ≠ [] := by
  have raw := s.raw_edit hleaf hmarker text n
  have fixes : ((respell s text).run n).1.fixes =
      [Fix.replace s [((s.edit (some text) none).run n).1]].filter (!·.isTrivial) := rfl
  rw [fixes, List.filter_cons_of_pos]
  · exact List.cons_ne_nil _ _
  · simp [Fix.isTrivial, Fix.replace, raw, h]

/-! ## 3. The rules -/

namespace Rule

variable {ss ts : List Segment}

theorem length_beforeLineEnds (h : ss.map look = ts.map look) :
    (beforeLineEnds ss).length = (beforeLineEnds ts).length := by
  induction ss generalizing ts with
  | nil =>
    obtain rfl := List.map_eq_nil_iff.1 h.symm
    rfl
  | cons a ss ih =>
    obtain ⟨a', ts, rfl, ha, hss⟩ := List.map_eq_cons_iff.1 h.symm
    cases ss with
    | nil =>
      obtain rfl := List.map_eq_nil_iff.1 hss
      rfl
    | cons b ss =>
      have later := ih hss.symm
      obtain ⟨b', ts, rfl, hb, -⟩ := List.map_eq_cons_iff.1 hss
      rw [beforeLineEnds, beforeLineEnds, isLineEnd_of_look hb, isWrittenBlank_of_look ha]
      split
      · rw [List.length_cons, List.length_cons, later]
      · exact later

theorem goesByView_trailingWhitespace : trailingWhitespace.GoesByView := by
  intro c c' hview _
  have leaves := length_beforeLineEnds (congrArg View.leaves hview)
  have gists (ss : List Segment) : (ss.map fun s => (Finding.about s).withFixes [.delete s]).map
      Finding.gist = List.replicate ss.length (true, none) := by
    rw [List.map_map, ← List.map_const']
    rfl
  exact .ok (by rw [gists, gists, leaves])

theorem givesFixes_trailingWhitespace : trailingWhitespace.GivesFixes := by
  intro c n xs _ hxs x hx _
  cases hxs
  obtain ⟨s, -, rfl⟩ := List.mem_map.1 hx
  rw [show [Fix.delete s] = [s].map .delete from rfl, Finding.withFixes_deletes]
  exact List.cons_ne_nil _ _

theorem goesByView_spaceBeforeComma : spaceBeforeComma.GoesByView := by
  intro c c' hview _
  have before : (c.tokensBefore.take 2).map look = (c'.tokensBefore.take 2).map look :=
    congrArg View.before hview
  unfold spaceBeforeComma
  dsimp only
  generalize c.tokensBefore = ss, c'.tokensBefore = ts at before
  match ss, ts with
  | [], [] | [_], [_] => exact .nothing
  | [], _ :: _ | _ :: _, [] | [_], _ :: _ :: _ | _ :: _ :: _, [_] => simp at before
  | s :: b :: _, s' :: b' :: _ =>
    simp only [List.take_succ_cons, List.map_cons, List.cons.injEq] at before
    obtain ⟨hs, hb, -⟩ := before
    dsimp only
    rw [isType_of_look hs, isType_of_look hb]
    split
    · exact .ok rfl
    · exact .nothing

theorem givesFixes_spaceBeforeComma : spaceBeforeComma.GivesFixes := by
  intro c n xs _ hxs x hx _
  unfold spaceBeforeComma at hxs
  dsimp only at hxs
  split at hxs
  · next s _ _ _ =>
    split at hxs
    · cases hxs
      obtain rfl := List.mem_singleton.1 hx
      rw [show [Fix.delete s] = [s].map .delete from rfl, Finding.withFixes_deletes]
      exact List.cons_ne_nil _ _
    · cases hxs
      cases hx
  · cases hxs
    cases hx

/-- Whether a line goes on is seen from the first segment after the comma. -/
theorem endsLine_cons_of_look {s t : Segment} (h : s.look = t.look) (ss ts : List Segment) :
    endsLine (s :: ss) = endsLine (t :: ts) := by
  rw [endsLine, endsLine, isType_of_look h, isComment_of_look h]

theorem goesByView_spaceAfterComma : spaceAfterComma.GoesByView := by
  intro c c' hview _
  have after : (c.nextSiblings.take 2).map look = (c'.nextSiblings.take 2).map look :=
    congrArg View.after hview
  unfold spaceAfterComma
  dsimp only
  generalize c.nextSiblings = ss, c'.nextSiblings = ts at after
  match ss, ts with
  | [], [] => exact .nothing
  | [], _ :: _ | _ :: _, [] => simp at after
  | s :: ss, s' :: ts =>
    rw [List.take_succ_cons, List.take_succ_cons, List.map_cons, List.map_cons,
      List.cons.injEq] at after
    obtain ⟨hs, hrest⟩ := after
    have rest : endsLine ss = endsLine ts := by
      match ss, ts with
      | [], [] => rfl
      | [], _ :: _ | _ :: _, [] => simp at hrest
      | b :: _, b' :: _ => exact endsLine_cons_of_look (List.cons.inj hrest).1 _ _
    dsimp only
    rw [endsLine_cons_of_look hs ss ts, isType_of_look hs, rest]
    split
    · exact .nothing
    split
    · next hblank =>
      have raw : s.raw = s'.raw := raw_of_look hs (by
        rw [isType_of_look hs, hblank, Bool.or_true])
      rw [raw]
      split
      · exact .nothing
      · exact fun _ _ => ⟨_, _, rfl, rfl, rfl⟩
    · exact fun _ _ => ⟨_, _, rfl, rfl, rfl⟩

theorem givesFixes_spaceAfterComma : spaceAfterComma.GivesFixes := by
  intro c n xs hblank hxs x hx _
  have token : ∀ s rest, c.nextSiblings = s :: rest → s.isType "whitespace" = true →
      s.isLeaf = true := by
    intro s rest hnext hs
    have after : c.view.after = ((s :: rest).take 2).map look := by rw [← hnext]; rfl
    rw [View.blankIsToken, after] at hblank
    have types : s.look.types.contains "whitespace" = true := hs
    have first := hblank
    rw [List.take_succ_cons, List.map_cons, List.head?_cons, Option.all_some, types] at first
    exact first
  unfold spaceAfterComma at hxs
  dsimp only at hxs
  split at hxs
  · cases hxs
    cases hx
  next s rest hnext =>
  split at hxs
  · cases hxs
    cases hx
  split at hxs
  · next hs =>
    split at hxs
    · cases hxs
      cases hx
    next hraw =>
    cases hxs
    obtain rfl := List.mem_singleton.1 hx
    have plain : s.isMarker = false := by
      have mem : s ∈ c.nextSiblings := by rw [hnext]; exact List.mem_cons_self ..
      simpa using (List.mem_filter.1 mem).2
    have hraw : " " ≠ s.raw := fun h => hraw (by simp [← h])
    exact Finding.fixes_respell (token s rest hnext hs) plain hraw n
  · cases hxs
    obtain rfl := List.mem_singleton.1 hx
    exact List.cons_ne_nil _ _

theorem look_finalNewlines (ss : List Segment) : (finalNewlines ss).map look =
    ((ss.map look).reverse.takeWhile (·.types.contains "newline")).reverse := by
  rw [finalNewlines, List.map_reverse]
  congr 1
  rw [← List.map_reverse, List.takeWhile_map]
  rfl

/-- Leaves that are no markers are among those that are shown. -/
theorem look_tokens {s t : Segment}
    (h : (s.leaves.filter isVisible).map look = (t.leaves.filter isVisible).map look) :
    (s.leaves.filter (!·.isMarker)).map look = (t.leaves.filter (!·.isMarker)).map look := by
  have shown (s : Segment) : (s.leaves.filter (!·.isMarker)).map look =
      ((s.leaves.filter isVisible).map look).filter (!·.marker.isSome) := by
    rw [List.filter_map, List.filter_filter]
    congr 1
    refine List.filter_congr fun x _ => ?_
    rw [Function.comp_apply, ← isMarker_look, isVisible]
    cases x.isMarker <;> rfl
  rw [shown, shown, h]

theorem goesByView_finalNewline : finalNewline.GoesByView := by
  intro c c' hview _
  have leaves := look_tokens (congrArg View.leaves hview)
  unfold finalNewline
  dsimp only
  generalize c.segment.leaves.filter (!·.isMarker) = ss,
    c'.segment.leaves.filter (!·.isMarker) = ts at leaves
  have content (ss : List Segment) : ss.any (fun s => s.isCode || s.isComment) =
      (ss.map look).any fun x => x.isCode || x.isComment := by
    rw [List.any_map]
    rfl
  have newlines : (finalNewlines ss).map look = (finalNewlines ts).map look := by
    rw [look_finalNewlines, look_finalNewlines, leaves]
  have last : ss.getLast?.map look = ts.getLast?.map look := by
    rw [← List.getLast?_map, ← List.getLast?_map, leaves]
  rw [content, content, leaves]
  split
  · exact .nothing
  generalize finalNewlines ss = ns, finalNewlines ts = ns', ss.getLast? = e,
    ts.getLast? = e' at newlines last
  match ns, ns' with
  | [], [] =>
    match e, e' with
    | none, none => exact .nothing
    | none, some _ | some _, none => cases last
    | some _, some _ => exact fun _ _ => ⟨_, _, rfl, rfl, rfl⟩
  | [_], [_] => exact .nothing
  | _ :: _ :: _, _ :: _ :: _ => exact .ok rfl
  | [], _ :: _ | _ :: _, [] | [_], _ :: _ :: _ | _ :: _ :: _, [_] => simp at newlines

theorem givesFixes_finalNewline : finalNewline.GivesFixes := by
  intro c n xs _ hxs x hx _
  unfold finalNewline at hxs
  dsimp only at hxs
  split at hxs
  · cases hxs
    cases hx
  split at hxs
  · cases hxs
    obtain rfl := List.mem_singleton.1 hx
    exact List.cons_ne_nil _ _
  · cases hxs
    obtain rfl := List.mem_singleton.1 hx
    rw [Finding.withFixes_deletes]
    exact List.cons_ne_nil _ _
  · cases hxs
    cases hx

/-- A word that should be in a style, and what is remembered of it. -/
theorem gist_recase {s t : Segment} (hraw : s.raw = t.raw) (policy : CasePolicy)
    (style : LetterCase) (m : Memory) (n n' : Nat) :
    ((recase policy style m s).run n).1.map Finding.gist =
      ((recase policy style m t).run n').1.map Finding.gist := by
  unfold recase
  rw [hraw]
  dsimp only
  split <;> rfl

theorem goesByView_keywordCase (policy : CasePolicy) : (keywordCase policy).GoesByView := by
  intro c c' hview hmemory
  have segment : c.segment.look = c'.segment.look := congrArg View.segment hview
  unfold keywordCase
  dsimp only
  rw [isCasedWord_of_look segment, hmemory]
  cases hcased : isCasedWord c'.segment with
  | false => exact .nothing
  | true =>
    have leaf : c.segment.isLeaf = true := by
      have := isCasedWord_of_look segment
      rw [hcased, isCasedWord, Bool.and_eq_true, Bool.and_eq_true] at this
      exact this.1.1
    have raw : c.segment.raw = c'.segment.raw := raw_of_look segment (by rw [leaf, Bool.true_or])
    rw [raw]
    have recased (style : LetterCase) (m : Memory) :
        SameGist (do return .ok (← recase policy style m c.segment))
          (do return .ok (← recase policy style m c'.segment)) :=
      fun n n' => ⟨_, _, rfl, rfl, gist_recase raw policy style m n n'⟩
    rw [Bool.not_true, if_neg Bool.false_ne_true, if_neg Bool.false_ne_true]
    split
    · exact recased _ _
    · split
      · exact .ok rfl
      · exact recased _ _

/-- A word is no marker. -/
theorem isMarker_of_isCasedWord {s : Segment} (h : isCasedWord s = true) : s.isMarker = false := by
  obtain ⟨⟨kind, type, types, id, position, fixes⟩, cs⟩ := s
  cases kind with
  | marker m => simp [isCasedWord, raw] at h
  | _ => rfl

theorem fixes_recase {s : Segment} (hs : isCasedWord s = true) (policy : CasePolicy)
    (style : LetterCase) (m : Memory) (n : Nat) :
    ∀ x ∈ ((recase policy style m s).run n).1, x.anchor.isSome = true → x.fixes ≠ [] := by
  have leaf : s.isLeaf = true := by
    rw [isCasedWord, Bool.and_eq_true, Bool.and_eq_true] at hs
    exact hs.1.1
  unfold recase
  dsimp only
  split
  · intro x hx hanchor
    obtain rfl := List.mem_singleton.1 hx
    cases hanchor
  · next hword =>
    intro x hx _
    obtain rfl := List.mem_singleton.1 hx
    exact Finding.fixes_respell leaf (isMarker_of_isCasedWord hs) hword n

theorem givesFixes_keywordCase (policy : CasePolicy) : (keywordCase policy).GivesFixes := by
  intro c n xs _ hxs x hx hanchor
  unfold keywordCase at hxs
  dsimp only at hxs
  split at hxs
  · cases hxs
    cases hx
  next hcased =>
  have hcased : isCasedWord c.segment = true := by simpa using hcased
  split at hxs
  · cases hxs
    exact fixes_recase hcased _ _ _ n x hx hanchor
  · split at hxs
    · cases hxs
      obtain rfl := List.mem_singleton.1 hx
      cases hanchor
    · cases hxs
      exact fixes_recase hcased _ _ _ n x hx hanchor

end Rule

/-! ## 4. The library -/

namespace RuleRegistry

variable {c : RuleChoice} {rules : List Rule}

theorem goesByView_of_choose (h : standard.choose c = .ok rules) :
    ∀ rule ∈ rules, rule.GoesByView :=
  forall_of_choose Rule.goesByView_trailingWhitespace Rule.goesByView_spaceBeforeComma
    Rule.goesByView_spaceAfterComma Rule.goesByView_finalNewline Rule.goesByView_keywordCase h

theorem givesFixes_of_choose (h : standard.choose c = .ok rules) :
    ∀ rule ∈ rules, rule.GivesFixes :=
  forall_of_choose Rule.givesFixes_trailingWhitespace Rule.givesFixes_spaceBeforeComma
    Rule.givesFixes_spaceAfterComma Rule.givesFixes_finalNewline Rule.givesFixes_keywordCase h

end RuleRegistry

/-! ## 5. Files without markup -/

section

variable {source name : String}

/-- No fix reaches text that markup rendered. -/
theorem Fix.kind_of_mem_slicesOfAll {spans : List (Option Span)} {s : RawSlice}
    (h : s ∈ slicesOfAll (.ofString source name) spans) : s.kind = .literal := by
  obtain ⟨span, -, h⟩ := List.mem_flatMap.1 (List.mem_eraseDups.1 h)
  unfold slicesOf at h
  split at h
  · obtain rfl := List.mem_singleton.1 h
    rfl
  · cases hspan : span.bind (TemplatedFile.ofString source name).enclosing? with
    | none =>
      rw [hspan] at h
      cases h
    | some t =>
      rw [hspan] at h
      have mem : s ∈ (TemplatedFile.ofString source name).raw :=
        TemplatedFile.mem_raw_of_mem_rawSpanning h
      obtain rfl := List.mem_singleton.1 mem
      rfl

theorem Fix.conflicts_ofString (x : Fix) : x.conflicts (.ofString source name) = false := by
  have plain {spans : List (Option Span)} {s : RawSlice}
      (hs : s ∈ slicesOfAll (.ofString source name) spans) : (s.kind == .templated) = false := by
    rw [Fix.kind_of_mem_slicesOfAll hs]
    rfl
  have touched {s : RawSlice} (hs : s ∈ x.touched (.ofString source name) false) :
      (s.kind == .templated) = false := by
    unfold touched at hs
    split at hs
    · cases hs
    · exact plain hs
  have origins : (slicesOfAll (.ofString source name) (x.origins.filterMap fun s =>
      s.position.map (some ·.templated))).any (·.kind == .templated) = false :=
    List.any_eq_false.2 fun s hs => by rw [plain hs]; decide
  have any : (x.touched (.ofString source name) false).any (·.kind == .templated) = false :=
    List.any_eq_false.2 fun s hs => by rw [touched hs]; decide
  have all : (!(x.touched (.ofString source name) false).isEmpty &&
      (x.touched (.ofString source name) false).all (·.kind == .templated)) = false := by
    cases hx : x.touched (.ofString source name) false with
    | nil => rfl
    | cons s ss =>
      have first := touched (hx ▸ List.mem_cons_self .. : s ∈ x.touched _ false)
      rw [List.all_cons, first, Bool.false_and, Bool.and_false]
  unfold conflicts
  dsimp only
  rw [origins, any, all]
  cases x.isSourceOnly <;> cases x.edit.isInsertion <;> rfl

/-- All of a file without markup is in one block. -/
theorem Fix.eq_zero_of_mem_blocks {x : Fix} {b : Nat}
    (h : b ∈ x.blocks (.ofString source name)) : b = 0 := by
  obtain ⟨s, -, h⟩ := List.mem_filterMap.1 h
  split at h
  · cases h
  · obtain ⟨t, ht, rfl⟩ := Option.map_eq_some_iff.1 h
    obtain rfl := List.mem_singleton.1 (List.mem_reverse.1 (List.mem_of_find?_eq_some ht))
    rfl

/-- In a file without markup all fixes are safe. -/
theorem isUnsafe_ofString (fixes : List Fix) :
    isUnsafe (.ofString source name) fixes = false := by
  have zero {b : Nat} (h : b ∈ fixes.flatMap (·.blocks (.ofString source name))) : b = 0 := by
    obtain ⟨x, -, hb⟩ := List.mem_flatMap.1 h
    exact Fix.eq_zero_of_mem_blocks hb
  have loops : (TemplatedFile.ofString source name).literalLoopBlocks = [] := rfl
  unfold isUnsafe
  dsimp only
  rw [loops, Bool.or_eq_false_iff, Bool.or_eq_false_iff]
  refine ⟨⟨List.any_eq_false.2 fun x _ => by simp [Fix.conflicts_ofString], ?_⟩, ?_⟩
  · refine List.any_eq_false.2 fun a ha => ?_
    rw [Bool.not_eq_true, List.any_eq_false]
    intro b hb
    simp [zero ha, zero hb]
  · exact List.any_eq_false.2 fun b _ => by simp

end

/-! ## 6. Whole trees -/

namespace Rule

variable {r : Rule} {d d' : Dialect} {f f' : TemplatedFile}

/-- There are as many violations as findings with an anchor. -/
theorem length_violations (found : List Finding) :
    (found.filterMap (r.violation? f)).length = (found.map Finding.gist).countP (·.1) := by
  rw [List.length_filterMap_eq_countP, List.countP_map]
  refine List.countP_congr fun x _ => ?_
  simp [violation?, Finding.gist]

/-- What a rule says at a site, and what it finds at the others later. -/
theorem exists_run_crawlSites {s : Site} {m : Memory} {n : Nat} {xs : List Finding}
    (sites : List Site) (h : ((r.eval ⟨s, m, d, f⟩).run n).1 = .ok xs) :
    ∃ k, ((r.crawlSites d f m (s :: sites)).run n).1 =
      let later := ((r.crawlSites d f (memoryAfter m xs) sites).run k).1
      { later with violations := xs.filterMap (r.violation? f) ++ later.violations } := by
  refine ⟨((r.eval ⟨s, m, d, f⟩).run n).2, ?_⟩
  rw [crawlSites, StateT.run_bind]
  generalize (r.eval ⟨s, m, d, f⟩).run n = found at h
  obtain ⟨found, k⟩ := found
  cases h
  rfl

/-- A rule that is shown the same site by site finds as much at fault, at whatever time. -/
theorem length_crawlSites (hr : r.GoesByView) {sites sites' : List Site}
    (h : sites.map Site.view = sites'.map Site.view) (m : Memory) (n n' : Nat) :
    ((r.crawlSites d f m sites).run n).1.failure = none ∧
      ((r.crawlSites d' f' m sites').run n').1.failure = none ∧
      ((r.crawlSites d f m sites).run n).1.violations.length =
        ((r.crawlSites d' f' m sites').run n').1.violations.length := by
  induction sites generalizing sites' m n n' with
  | nil =>
    obtain rfl := List.map_eq_nil_iff.1 h.symm
    exact ⟨rfl, rfl, rfl⟩
  | cons s sites ih =>
    obtain ⟨s', sites', rfl, hs, hsites⟩ := List.map_eq_cons_iff.1 h.symm
    obtain ⟨xs, ys, hxs, hys, same⟩ := hr ⟨s, m, d, f⟩ ⟨s', m, d', f'⟩ hs.symm rfl n n'
    have memory : memoryAfter m xs = memoryAfter m ys := by
      have remembered (xs : List Finding) : xs.filterMap (·.memory) =
          (xs.map Finding.gist).filterMap (·.2) := by
        rw [List.filterMap_map]
        rfl
      rw [memoryAfter, memoryAfter, remembered, remembered, same]
    obtain ⟨k, hk⟩ := exists_run_crawlSites sites hxs
    obtain ⟨k', hk'⟩ := exists_run_crawlSites sites' hys
    rw [hk, hk', memory]
    obtain ⟨hnone, hnone', hlength⟩ := ih hsites.symm (memoryAfter m ys) k k'
    refine ⟨hnone, hnone', ?_⟩
    dsimp only
    rw [List.length_append, List.length_append, hlength, length_violations, length_violations, same]

/-- A rule that is shown the same in two trees finds as much at fault in both. -/
theorem length_crawl (hr : r.GoesByView) {tree tree' : Segment}
    (h : (r.sites tree).map Site.view = (r.sites tree').map Site.view) (n n' : Nat) :
    ((r.crawl d f tree).run n).1.failure = none ∧
      ((r.crawl d' f' tree').run n').1.failure = none ∧
      ((r.crawl d f tree).run n).1.violations.length =
        ((r.crawl d' f' tree').run n').1.violations.length :=
  length_crawlSites hr h .empty n n'

/-- Such a rule does not give up. -/
theorem failure_crawl (hr : r.GoesByView) (tree : Segment) (n : Nat) :
    ((r.crawl d f tree).run n).1.failure = none :=
  (@length_crawl r d d f f hr tree tree rfl n n).1

/-- A rule finds nothing at fault in a tree, at whatever time it is asked. -/
def FindsNothing (r : Rule) (d : Dialect) (f : TemplatedFile) (tree : Segment) : Prop :=
  ∀ n, ((r.crawl d f tree).run n).1.violations = []

/-- Asking once is enough. -/
theorem findsNothing_iff (hr : r.GoesByView) {tree : Segment} (n : Nat) :
    r.FindsNothing d f tree ↔ ((r.crawl d f tree).run n).1.violations = [] := by
  refine ⟨fun h => h n, fun h m => ?_⟩
  have same := (@length_crawl r d d f f hr tree tree rfl m n).2.2
  rwa [h, List.length_nil, List.length_eq_zero_iff] at same

/-- In trees that show it the same, a rule finds nothing in both or in none. -/
theorem findsNothing_congr (hr : r.GoesByView) {tree tree' : Segment}
    (h : (r.sites tree).map Site.view = (r.sites tree').map Site.view) :
    r.FindsNothing d f tree ↔ r.FindsNothing d' f' tree' := by
  rw [findsNothing_iff hr 0, findsNothing_iff hr 0, ← List.length_eq_zero_iff,
    ← List.length_eq_zero_iff, (length_crawl hr h 0 0).2.2]

/-- In a file without markup, a rule of the library gives fixes for all that it finds fault with. -/
theorem fixes_crawl (hr : r.GivesFixes) {source name : String} {tree : Segment}
    (h : ∀ s ∈ r.sites tree, s.view.blankIsToken = true) (n : Nat) :
    ∀ v ∈ ((r.crawl d (.ofString source name) tree).run n).1.violations, v.fixes ≠ [] := by
  have onSites (sites : List Site) (h : ∀ s ∈ sites, s.view.blankIsToken = true) (m : Memory)
      (n : Nat) : ∀ v ∈ ((r.crawlSites d (.ofString source name) m sites).run n).1.violations,
        v.fixes ≠ [] := by
    induction sites generalizing m n with
    | nil => exact List.forall_mem_nil _
    | cons s sites ih =>
      obtain ⟨hs, hsites⟩ := List.forall_mem_cons.1 h
      have asked := hr ⟨s, m, d, .ofString source name⟩ n
      cases hfound : ((r.eval ⟨s, m, d, .ofString source name⟩).run n).1 with
      | error fault =>
        have nothing :
            ((r.crawlSites d (.ofString source name) m (s :: sites)).run n).1.violations = [] := by
          rw [crawlSites, StateT.run_bind]
          generalize (r.eval ⟨s, m, d, .ofString source name⟩).run n = found at hfound
          obtain ⟨found, k⟩ := found
          cases hfound
          rfl
        simp [nothing]
      | ok xs =>
        obtain ⟨k, hk⟩ := exists_run_crawlSites sites hfound
        rw [hk]
        refine List.forall_mem_append.2 ⟨fun v hv => ?_, ih hsites _ k⟩
        obtain ⟨x, hx, hv⟩ := List.mem_filterMap.1 hv
        obtain ⟨anchor, hanchor, rfl⟩ := Option.map_eq_some_iff.1 hv
        show safeFixes _ x.fixes ≠ []
        rw [safeFixes, isUnsafe_ofString, if_neg Bool.false_ne_true]
        exact asked xs hs hfound x hx (by rw [hanchor]; rfl)
  exact onSites _ h .empty n

end Rule

end QueryLint
