import QueryLint.Proofs.Fix.Markup
import QueryLint.Proofs.Template.Consistent
import QueryLint.Proofs.Template.Rendered

/-!
QueryLint.Proofs.Fix.Splice — what splicing leaves of the markup.

Splicing copies the source between the patches, each tag by itself. So if no patch touches a tag,
every tag stands in the new source, and the tags stand there in their order.

Splicing copies the markup between two patches slice by slice. Slices tile the source, so what is
copied around them is the source itself, and nothing of this is left in the result: it is the source
with the text of each patch replaced. Only where a patch begins and ends is asked about, not in
which order the patches are given: one that begins before the end of the last one made is dropped,
wherever it stands in the list.

* `HoldsInOrder` — some texts stand in another, one after the other.
* `holdsInOrder_fixedSource` — the tags of a file stand in the source of a fixed tree.
* `sourcePatches_touchMarkup_iff` — which patches of a fixed tree touch markup, and what follows if
  there are none.
* `Patched` — a text, and what becomes of it when patches are made from left to right.
* `Patched.unique` — nothing else becomes of it.
* `copiedAround_append` — copying around slices of markup copies the source.
* `splice_eq_iff` — splicing makes the patches from left to right.
-/

namespace QueryLint

open Segment

/-! ## 1. Texts in order -/

/-- Texts that stand in another one after the other, with anything between them. -/
def HoldsInOrder : List String → String → Prop
  | [], _ => True
  | t :: ts, out => ∃ before after, out = before ++ t ++ after ∧ HoldsInOrder ts after

namespace HoldsInOrder

variable {ts us : List String} {a b : String}

theorem prepend (a : String) (h : HoldsInOrder ts b) : HoldsInOrder ts (a ++ b) := by
  cases ts with
  | nil => trivial
  | cons t ts =>
    obtain ⟨before, after, rfl, h⟩ := h
    exact ⟨a ++ before, after, by simp [String.append_assoc], h⟩

theorem append (h : HoldsInOrder ts a) (h' : HoldsInOrder us b) :
    HoldsInOrder (ts ++ us) (a ++ b) := by
  induction ts generalizing a with
  | nil => exact h'.prepend a
  | cons t ts ih =>
    obtain ⟨before, after, rfl, h⟩ := h
    exact ⟨before, after ++ b, by simp [String.append_assoc], ih h⟩

theorem sublist (hs : us.Sublist ts) (h : HoldsInOrder ts a) : HoldsInOrder us a := by
  induction hs generalizing a with
  | slnil => trivial
  | cons t _ ih =>
    obtain ⟨before, after, rfl, h⟩ := h
    exact (ih h).prepend (before ++ t)
  | cons_cons t _ ih =>
    obtain ⟨before, after, rfl, h⟩ := h
    exact ⟨before, after, rfl, ih h⟩

/-- Slices stand in their texts. -/
theorem of_slices (ss : List RawSlice) :
    HoldsInOrder (ss.map (·.text)) (String.ofList (ss.flatMap (·.text.toList))) := by
  induction ss with
  | nil => trivial
  | cons s ss ih =>
    refine ⟨"", String.ofList (ss.flatMap (·.text.toList)), ?_, ih⟩
    rw [List.flatMap_cons, String.ofList_append, String.ofList_toList, String.empty_append]

end HoldsInOrder

/-! ## 2. Tags in the source -/

variable {f : TemplatedFile}

/-- What is copied around tags holds them. -/
theorem holdsInOrder_copiedAround (source : String) (start : Nat) (ss : List RawSlice) :
    HoldsInOrder (ss.map (·.text)) (copiedAround source start ss).1 := by
  induction ss generalizing start with
  | nil => trivial
  | cons s ss ih => exact ⟨copied source start s.start, _, rfl, ih s.stop⟩

/-- The source from a cut on holds the tags that start behind the cut. -/
theorem holdsInOrder_from {start : Nat} {rest : List Char}
    (h : Text.dropBytes? f.source.toList start = some rest) :
    HoldsInOrder ((f.sourceOnly.filter (start ≤ ·.start)).map (·.text)) (String.ofList rest) := by
  obtain ⟨front, hfront, hcount⟩ := Text.exists_append_of_dropBytes? h
  have suffix (ss : List RawSlice) {o b : Nat} (tile : RawSlice.Tile o ss b) (before : List Char)
      (hss : f.source.toList = before ++ ss.flatMap (·.text.toList))
      (hbefore : Text.byteCount before = o) :
      HoldsInOrder (((ss.filter (·.isSourceOnly)).filter (start ≤ ·.start)).map (·.text))
        (String.ofList rest) := by
    induction ss generalizing o before with
    | nil => trivial
    | cons s ss ih =>
      have hs := tile.head
      by_cases hstart : start ≤ s.start
      · obtain ⟨between, hrest⟩ := Text.exists_append_of_cuts hfront hss (by omega)
        rw [hrest, String.ofList_append]
        have tags : (((s :: ss).filter (·.isSourceOnly)).filter (start ≤ ·.start)).Sublist
            (s :: ss) := List.filter_sublist.trans List.filter_sublist
        exact ((HoldsInOrder.of_slices (s :: ss)).sublist (tags.map _)).prepend _
      · have later := ih tile.tail (before ++ s.text.toList)
          (by rw [hss, List.flatMap_cons, List.append_assoc])
          (by rw [Text.byteCount_append, hbefore, Text.byteCount_toList, ← hs]; rfl)
        have dropped : ((s :: ss).filter (·.isSourceOnly)).filter (start ≤ ·.start) =
            (ss.filter (·.isSourceOnly)).filter (start ≤ ·.start) := by
          rw [List.filter_cons]
          split
          · rw [List.filter_cons_of_neg (by simpa using hstart)]
          · rfl
        rw [dropped]
        exact later
  exact suffix f.raw f.raw_tiles [] f.toList_source rfl

/-- Tags that start behind one place end before another or start behind a third, in order. -/
theorem filter_sublist_of_pairwise {ss : List RawSlice} (h : ss.Pairwise (·.stop ≤ ·.start))
    {start x y : Nat} (hy : start ≤ y) (hss : ∀ s ∈ ss, s.stop ≤ x ∨ y ≤ s.start) :
    (ss.filter (start ≤ ·.start)).Sublist
      (ss.filter (fun s => start ≤ s.start && s.stop ≤ x) ++ ss.filter (y ≤ ·.start)) := by
  induction ss with
  | nil => exact .slnil
  | cons s ss ih =>
    obtain ⟨hs, hss'⟩ := List.pairwise_cons.1 h
    have rest := ih hss' fun t ht => hss t (by simp [ht])
    by_cases hstart : start ≤ s.start
    · rw [List.filter_cons_of_pos (by simpa using hstart)]
      by_cases hstop : s.stop ≤ x
      · rw [List.filter_cons_of_pos (by simp [hstart, hstop]), List.cons_append]
        refine (rest.trans ?_).cons_cons s
        refine (List.Sublist.refl _).append ?_
        rw [List.filter_cons]
        split
        · exact List.sublist_cons_self ..
        · exact .refl _
      · have hys : y ≤ s.start := (hss s (by simp)).resolve_left hstop
        have none_before : ss.filter (fun t => start ≤ t.start && t.stop ≤ x) = [] := by
          rw [List.filter_eq_nil_iff]
          intro t ht
          have := hs t ht
          have := t.start_le_stop
          simp only [Bool.and_eq_true, decide_eq_true_eq, not_and]
          omega
        rw [none_before, List.nil_append] at rest
        rw [List.filter_cons_of_neg (by simp [hstop]), none_before, List.nil_append,
          List.filter_cons_of_pos (by simpa using hys)]
        exact rest.cons_cons s
    · have hys : ¬ y ≤ s.start := by omega
      rw [List.filter_cons_of_neg (by simpa using hstart),
        List.filter_cons_of_neg (by simp [hstart]),
        List.filter_cons_of_neg (by simpa using hys)]
      exact rest

/-! ## 3. Tags in the new source -/

/-- The source can be cut where it ends: between two characters. -/
def Patch.EndsAtCut (f : TemplatedFile) (q : Patch) : Prop :=
  (Text.dropBytes? f.source.toList q.source.stop).isSome = true

/-- Splicing keeps the tags that start behind a cut, if no patch touches markup. -/
theorem holdsInOrder_spliceFrom {start : Nat} {ps : List Patch}
    (hstart : (Text.dropBytes? f.source.toList start).isSome = true)
    (hps : ∀ q ∈ ps, ¬ q.TouchesMarkup f ∧ q.EndsAtCut f) :
    HoldsInOrder ((f.sourceOnly.filter (start ≤ ·.start)).map (·.text))
      (spliceFrom f start ps) := by
  induction ps generalizing start with
  | nil =>
    obtain ⟨rest, hrest⟩ := Option.isSome_iff_exists.1 hstart
    rw [spliceFrom, Text.sliceFrom?, hrest]
    exact holdsInOrder_from hrest
  | cons q ps ih =>
    have later : ∀ r ∈ ps, ¬ r.TouchesMarkup f ∧ r.EndsAtCut f :=
      fun r hr => hps r (List.mem_cons_of_mem _ hr)
    obtain ⟨hmarkup, hcut⟩ := hps q (List.mem_cons_self ..)
    rw [spliceFrom]
    split
    · exact ih hstart later
    · next hle =>
      have tags : f.sourceOnly.Pairwise (·.stop ≤ ·.start) := f.raw_tiles.pairwise.filter _
      have clear : ∀ s ∈ f.sourceOnly, s.stop ≤ q.source.start ∨ q.source.stop ≤ s.start := by
        intro s hs
        obtain ⟨hraw, honly⟩ := List.mem_filter.1 hs
        by_cases hbefore : s.stop ≤ q.source.start
        · exact .inl hbefore
        · refine .inr (Nat.le_of_not_lt fun hlt => hmarkup ⟨s, hraw, honly, ?_, hlt⟩)
          omega
      have q_le := q.source.start_le_stop
      have parts := filter_sublist_of_pairwise tags (show start ≤ q.source.stop by omega) clear
      have copies := holdsInOrder_copiedAround f.source start
        (f.sourceOnly.filter fun s => start ≤ s.start && s.stop ≤ q.source.start)
      have after := ((ih hcut later).prepend q.fixed).prepend (copied f.source
        (copiedAround f.source start
          (f.sourceOnly.filter fun s => start ≤ s.start && s.stop ≤ q.source.start)).2
        q.source.start)
      have whole := copies.append after
      rw [← List.map_append] at whole
      simpa only [String.append_assoc] using whole.sublist (parts.map _)

/-- The tags of a file stand in the source of a fixed tree, in order, if no patch touches markup. -/
theorem holdsInOrder_fixedSource {tree : Segment}
    (h : ∀ q ∈ sourcePatches f tree, ¬ q.TouchesMarkup f ∧ q.EndsAtCut f) :
    HoldsInOrder (f.sourceOnly.map (·.text)) (fixedSource f tree) := by
  have all : f.sourceOnly.filter (0 ≤ ·.start) = f.sourceOnly := by simp
  unfold fixedSource
  split
  · have whole := holdsInOrder_from (f := f) (Text.dropBytes?_zero f.source.toList)
    rwa [all, String.ofList_toList] at whole
  · next patches =>
    have start : (Text.dropBytes? f.source.toList 0).isSome = true := by simp
    have spliced := holdsInOrder_spliceFrom start h
    rwa [all] at spliced

/-! ## 4. Files with markup -/

/-- A template that renders literal text and a tag next to each other. -/
def tagSource : String := "a\x7b\x7bab\x7d\x7d"

/-- The file of the template. -/
def tagFile : TemplatedFile := rendered [("ab", "b")] tagSource

/-- A rule for one word. -/
def wordRule (text : String) : LexRule := ⟨.ofLiteral text text "word" .ofCode, none, none⟩

/-- A grammar that matches nothing, so that all code is unparsable. -/
def nothingBook : GrammarBook where
  root := "Root"
  definitions := [.grammar "Root" .nothing]

/-- The tree of the template: one word, which its literal text and its tag render together. -/
def tagTree : Segment :=
  (((Parser.ofBook nothingBook).parse
    ((lex [wordRule "ab"] .enabled tagFile).run 0).1.segments).run 10).1.tree

/-- Another word in place of the one with an identity. -/
def rewordPlan (id : Nat) (text : String) : FixPlan :=
  let word : Segment := .mk ⟨.token text .ofCode none, "word", ["word"], 100, none, []⟩ []
  [(id, { fixes := [⟨.replace [word], .mk ⟨.file, "", [], id, none, []⟩ [], []⟩] })]

/-- The tree of the template with another word. -/
def tagFixed : Segment :=
  ((tagTree.applyFixes (Parser.ofBook nothingBook) (rewordPlan 0 "c")).run 200).1.1.segment

theorem isPlain_rewordPlan (id : Nat) (text : String) : (rewordPlan id text).IsPlain := by
  intro g hg x hx
  rw [List.mem_singleton.1 hg] at hx
  rw [List.mem_singleton.1 hx]
  rfl

/-- Of the patches of a tree that fixes without source fixes lead to, those touch markup that stray
out of literal text to a copy of the text that they replace. If none does, and the source can be cut
where they end, the tags of the file stand in the new source as they stood in the old one, in
order. -/
theorem sourcePatches_touchMarkup_iff (p : Parser) (rules : List LexRule) (blocks : BlocksIndent)
    (f : TemplatedFile) (n m : Nat) {tree : Segment}
    (h : FixedFrom p ((p.parse ((lex rules blocks f).run n).1.segments).run m).1.tree tree) :
    (∀ q ∈ sourcePatches f tree, q.TouchesMarkup f ↔
      ∃ r ∈ (tree.patches f).filterMap (·.toSource? f), r.safe? f = some q ∧ r.Strays f q) ∧
    ((∀ q ∈ sourcePatches f tree, ¬ q.TouchesMarkup f ∧ q.EndsAtCut f) →
      HoldsInOrder (f.sourceOnly.map (·.text)) (fixedSource f tree)) := by
  have plain := h.isPlain (isPlain_parse p rules blocks f n m)
  refine ⟨fun q hq => ⟨fun htouch => ?_, ?_⟩, holdsInOrder_fixedSource⟩
  · obtain ⟨r, hr, hsafe⟩ := exists_of_mem_sourcePatches hq
    exact ⟨r, hr, hsafe, (Patch.touchesMarkup_iff_strays (isMapped_of_mem plain hr) hsafe).1 htouch⟩
  · rintro ⟨r, hr, hsafe, hstrays⟩
    exact (Patch.touchesMarkup_iff_strays (isMapped_of_mem plain hr) hsafe).2 hstrays

/-- The patch of a word that literal text and a tag render together can be traced to one that
strays. -/
theorem sourcePatches_touchMarkup_iff_tag :
    ∃ q ∈ sourcePatches tagFile tagFixed,
      ∃ r ∈ (tagFixed.patches tagFile).filterMap (·.toSource? tagFile),
        r.safe? tagFile = some q ∧ r.Strays tagFile q := by
  have touches : ∃ q ∈ sourcePatches tagFile tagFixed, q.TouchesMarkup tagFile := by
    decide +kernel
  obtain ⟨q, hq, htouch⟩ := touches
  have traced := sourcePatches_touchMarkup_iff (Parser.ofBook nothingBook) [wordRule "ab"] .enabled
    tagFile 0 10 (.step (rewordPlan 0 "c") 200 .refl (isPlain_rewordPlan 0 "c"))
  exact ⟨q, hq, (traced.1 q hq).1 htouch⟩

/-- The word is the name in the tag too, and there it is changed. -/
theorem sourcePatches_touch_tag :
    (Templater.placeholder [("ab", "b")]).process tagSource "" = .ok tagFile ∧
      FixedFrom (Parser.ofBook nothingBook) tagTree tagFixed ∧
      (∃ q ∈ sourcePatches tagFile tagFixed, q.TouchesMarkup tagFile) ∧
      fixedSource tagFile tagFixed = "a\x7b\x7bc\x7d\x7d" := by
  have accepted : ((Templater.placeholder [("ab", "b")]).process tagSource "").isOk = true := by
    decide +kernel
  have reached : FixedFrom (Parser.ofBook nothingBook) tagTree tagFixed :=
    .step (rewordPlan 0 "c") 200 .refl (isPlain_rewordPlan 0 "c")
  have touches : ∃ q ∈ sourcePatches tagFile tagFixed, q.TouchesMarkup tagFile := by
    decide +kernel
  have spliced : fixedSource tagFile tagFixed = "a\x7b\x7bc\x7d\x7d" := by decide +kernel
  exact ⟨process_eq_rendered accepted, reached, touches, spliced⟩

end QueryLint

namespace QueryLint

open Text

/-! ## 5. Patches from left to right -/

/-- The text of a source from an offset on, and what becomes of it when patches are made from left
to right. The offset is where the last patch ended. -/
inductive Patched : Nat → List Patch → List Char → List Char → Prop where
  /-- Behind all patches, the text stays as it is. -/
  | rest (start : Nat) (text : List Char) : Patched start [] text text
  /-- A patch that begins before the end of the last one is dropped. -/
  | dropped {start : Nat} {p : Patch} {ps : List Patch} {text out : List Char}
      (h : p.source.start < start) (hps : Patched start ps text out) :
      Patched start (p :: ps) text out
  /-- The text up to a patch stays as it is, and the text of the patch is replaced. -/
  | made {start : Nat} {p : Patch} {ps : List Patch} {gap old text out : List Char}
      (hgap : start + byteCount gap = p.source.start)
      (hold : p.source.start + byteCount old = p.source.stop)
      (hps : Patched p.source.stop ps text out) :
      Patched start (p :: ps) (gap ++ (old ++ text)) (gap ++ (p.fixed.toList ++ out))

/-- Only one text comes of a source and its patches. -/
theorem Patched.unique {start : Nat} {ps : List Patch} {text out out' : List Char}
    (h : Patched start ps text out) (h' : Patched start ps text out') : out = out' := by
  induction h generalizing out' with
  | rest start text => cases h' with
    | rest => rfl
  | dropped h _ ih => cases h' with
    | dropped _ hps' => exact ih hps'
    | made hgap' _ _ => omega
  | @made start p ps gap old text out hgap hold _ ih =>
    generalize htext : gap ++ (old ++ text) = whole at h'
    cases h' with
    | dropped h' _ => omega
    | made hgap' hold' hps' =>
      obtain ⟨rfl, hrest⟩ := append_inj_of_byteCount htext (by omega)
      obtain ⟨rfl, rfl⟩ := append_inj_of_byteCount hrest (by omega)
      rw [ih hps']

/-! ## 6. Copies around markup -/

theorem copied_of_slice? {source t : String} {a b : Nat} (h : slice? source a b = some t) :
    copied source a b = t := by
  rw [copied, h, Option.getD_some]

/-- What is copied around slices between two cuts, with the rest up to the second cut, is the source
between the two. -/
theorem copiedAround_append {source : String} {start stop : Nat} {ss : List RawSlice}
    (hcuts : (slice? source start stop).isSome = true) (order : ss.Pairwise (·.stop ≤ ·.start))
    (texts : ∀ s ∈ ss, s.span.text? source = some s.text)
    (within : ∀ s ∈ ss, start ≤ s.start ∧ s.stop ≤ stop) :
    (copiedAround source start ss).1 ++ copied source (copiedAround source start ss).2 stop =
      copied source start stop := by
  induction ss generalizing start with
  | nil => simp [copiedAround]
  | cons s ss ih =>
    obtain ⟨behind, order⟩ := List.pairwise_cons.1 order
    obtain ⟨hstart, hstop⟩ := within s (by simp)
    have text : slice? source s.start s.stop = some s.text := texts s (by simp)
    have cuts := isSome_slice?_iff.1 hcuts
    have ends := isSome_slice?_iff.1 (Option.isSome_iff_exists.2 ⟨_, text⟩)
    obtain ⟨before, hbefore⟩ := Option.isSome_iff_exists.1
      (isSome_slice?_iff.2 ⟨hstart, cuts.2.1, ends.2.1⟩)
    have hrest : (slice? source s.stop stop).isSome = true :=
      isSome_slice?_iff.2 ⟨hstop, ends.2.2, cuts.2.2⟩
    obtain ⟨after, hafter⟩ := Option.isSome_iff_exists.1 hrest
    have rest := ih hrest order (fun t ht => texts t (by simp [ht]))
      (fun t ht => ⟨behind t ht, (within t (by simp [ht])).2⟩)
    have whole := slice?_append (slice?_append hbefore text) hafter
    simp only [copiedAround]
    rw [String.append_assoc, rest, copied_of_slice? hbefore, copied_of_slice? hafter,
      copied_of_slice? whole]

/-! ## 7. Splicing -/

variable {f : TemplatedFile}

/-- Where a patch is made, all up to it is copied. -/
theorem spliceFrom_cons {start : Nat} {p : Patch} {ps : List Patch}
    (h : (slice? f.source start p.source.start).isSome = true) :
    spliceFrom f start (p :: ps) =
      copied f.source start p.source.start ++ p.fixed ++ spliceFrom f p.source.stop ps := by
  have hle := (isSome_slice?_iff.1 h).1
  have within : ∀ s ∈ f.sourceOnly.filter fun s => start ≤ s.start && s.stop ≤ p.source.start,
      start ≤ s.start ∧ s.stop ≤ p.source.start := by
    intro s hs
    simpa using (List.mem_filter.1 hs).2
  have texts : ∀ s ∈ f.sourceOnly.filter fun s => start ≤ s.start && s.stop ≤ p.source.start,
      s.span.text? f.source = some s.text := by
    intro s hs
    have tag := (List.mem_filter.1 hs).1
    exact TemplatedFile.text?_span_of_mem_raw (List.mem_filter.1 tag).1
  have order := (f.raw_tiles.pairwise.filter (·.isSourceOnly)).filter
    fun s => start ≤ s.start && s.stop ≤ p.source.start
  rw [← copiedAround_append h order texts within, spliceFrom, if_neg (by omega)]
  rfl

/-- Splicing from a cut on makes the patches from left to right. -/
theorem patched_spliceFrom {start : Nat} {text : List Char} {ps : List Patch}
    (hstart : dropBytes? f.source.toList start = some text)
    (hps : ∀ p ∈ ps, (p.source.text? f.source).isSome = true) :
    Patched start ps text (spliceFrom f start ps).toList := by
  induction ps generalizing start text with
  | nil =>
    rw [spliceFrom, sliceFrom?, hstart, Option.map_some, Option.getD_some, String.toList_ofList]
    exact .rest start text
  | cons p ps ih =>
    have later : ∀ q ∈ ps, (q.source.text? f.source).isSome = true :=
      fun q hq => hps q (List.mem_cons_of_mem p hq)
    by_cases hlt : p.source.start < start
    · rw [spliceFrom, if_pos hlt]
      exact .dropped hlt (ih hstart later)
    · have ends := isSome_slice?_iff.1 (hps p (List.mem_cons_self ..))
      have between : (slice? f.source start p.source.start).isSome = true :=
        isSome_slice?_iff.2 ⟨Nat.le_of_not_lt hlt, by rw [hstart]; rfl, ends.2.1⟩
      obtain ⟨gap, hgap⟩ := Option.isSome_iff_exists.1 between
      obtain ⟨old, hold⟩ := Option.isSome_iff_exists.1 (hps p (List.mem_cons_self ..))
      -- The text from the cut on is the gap, the text of the patch and the rest.
      obtain ⟨front, back, hsource, hfront, hwidth⟩ :=
        slice?_eq_some_iff.1 (slice?_append hgap hold)
      have hback : dropBytes? f.source.toList p.source.stop = some back :=
        dropBytes?_of_eq_append hsource (by rw [byteCount_append, byteCount_toList, hfront, hwidth])
      have htext : text = gap.toList ++ (old.toList ++ back) := by
        rw [String.toList_append, List.append_assoc, List.append_assoc] at hsource
        have cut := dropBytes?_of_eq_append hsource hfront
        rw [hstart] at cut
        exact Option.some.inj cut
      rw [spliceFrom_cons between, copied_of_slice? hgap, htext, String.toList_append,
        String.toList_append, List.append_assoc]
      refine .made ?_ ?_ (ih hback later)
      · rw [byteCount_toList, (le_of_slice? hgap).1]
      · rw [byteCount_toList, (le_of_slice? hold).1]

/-- Splicing patches that lie in the source, at cuts of it, makes them from left to right: what is
no patch is copied in its order, byte for byte, and a patch that begins before the end of the last
one made is dropped. -/
theorem splice_eq_iff (f : TemplatedFile) {ps : List Patch}
    (hps : ∀ p ∈ ps, (p.source.text? f.source).isSome = true) (out : String) :
    splice f ps = out ↔ Patched 0 ps f.source.toList out.toList := by
  have made : Patched 0 ps f.source.toList (splice f ps).toList :=
    patched_spliceFrom (dropBytes?_zero _) hps
  constructor
  · intro h
    exact h ▸ made
  · intro h
    exact String.toList_inj.1 (made.unique h)

/-- A patch of a span of the source. -/
def patchAt (start stop : Nat) (text : String) : Patch :=
  ⟨.literal, .between start stop, .point 0, text, "", ""⟩

/-- Two patches of one letter, and insertions on either side of the tag behind it. -/
def tagPatches : List Patch := [patchAt 0 1 "x", patchAt 0 1 "y", patchAt 1 1 "-", patchAt 7 7 "z"]

/-- The first of two patches that begin together is made, and the tag is left between two
insertions. -/
theorem splice_eq_iff_tag :
    (∀ p ∈ tagPatches, (p.source.text? tagFile.source).isSome = true) ∧
      splice tagFile tagPatches = "x-\x7b\x7bab\x7d\x7dz" := by
  have cuts : ∀ p ∈ tagPatches, (p.source.text? tagFile.source).isSome = true := by
    decide +kernel
  have source : tagFile.source.toList = [] ++ (['a'] ++ ([] ++ ([] ++
      (['\x7b', '\x7b', 'a', 'b', '\x7d', '\x7d'] ++ ([] ++ []))))) := by decide +kernel
  refine ⟨cuts, (splice_eq_iff tagFile cuts _).2 ?_⟩
  rw [source]
  refine .made rfl rfl (.dropped (by decide) ?_)
  exact .made rfl rfl (.made rfl rfl (.rest 7 []))

end QueryLint
