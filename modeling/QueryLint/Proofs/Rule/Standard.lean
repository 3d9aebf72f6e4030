import QueryLint.Proofs.Rule.Choice
import QueryLint.Proofs.Rule.Crawl

/-!
QueryLint.Proofs.Rule.Standard — the rules that come with the library are functions.

These rules find segments of their context at fault. They take such segments away, respell them or
put a new token beside them, and what they choose depends on nothing but the context. So they find
the same again at any time, but for the identities of copies and new tokens.

* `Finding.redraws_put` — a finding that puts a new segment somewhere.
* `RuleRegistry.forall_of_choose` — what holds of every rule of the library, whatever its settings.
* `RuleRegistry.isFunctional_of_choose` — every rule that a choice lets run.
-/

namespace QueryLint

open Segment

variable {ρ : Renaming} {n : Nat}

/-! ## 1. Findings -/

@[simp] theorem Fix.renamed_delete (s : Segment) :
    (Fix.delete s).renamed ρ = .delete (s.renamed ρ) := rfl

@[simp] theorem Fix.renamed_replace (s : Segment) (new : List Segment) :
    (Fix.replace s new).renamed ρ = .replace (s.renamed ρ) (new.map (Segment.renamed ρ)) := rfl

@[simp] theorem Fix.renamed_insertBefore (s : Segment) (new : List Segment) :
    (Fix.insertBefore s new).renamed ρ =
      .insertBefore (s.renamed ρ) (new.map (Segment.renamed ρ)) := by
  simp [Fix.insertBefore, Fix.renamed, Edit.renamed, Function.comp_def]

@[simp] theorem Fix.renamed_insertAfter (s : Segment) (new : List Segment) :
    (Fix.insertAfter s new).renamed ρ =
      .insertAfter (s.renamed ρ) (new.map (Segment.renamed ρ)) := by
  simp [Fix.insertAfter, Fix.renamed, Edit.renamed, Function.comp_def]

theorem Fix.drawnBefore_delete (s : Segment) : (Fix.delete s).DrawnBefore n :=
  fun _ h => by cases h

theorem Fix.drawnBefore_replace {s t : Segment} (h : t.DrawnBefore n) :
    (Fix.replace s [t]).DrawnBefore n :=
  List.forall_mem_singleton.2 h

theorem Fix.drawnBefore_insertBefore {s t : Segment} (h : t.DrawnBefore n) :
    (Fix.insertBefore s [t]).DrawnBefore n :=
  List.forall_mem_singleton.2 (.mk h.own h.inside)

theorem Fix.drawnBefore_insertAfter {s t : Segment} (h : t.DrawnBefore n) :
    (Fix.insertAfter s [t]).DrawnBefore n :=
  List.forall_mem_singleton.2 (.mk h.own h.inside)

namespace Finding

@[simp] theorem renamed_about (s : Segment) : (about s).renamed ρ = about (s.renamed ρ) := rfl

@[simp] theorem renamed_withFixes (x : Finding) (fixes : List Fix) :
    (x.withFixes fixes).renamed ρ = (x.renamed ρ).withFixes (fixes.map (Fix.renamed ρ)) := by
  simp [withFixes, Finding.renamed, List.filter_map, Function.comp_def]

theorem drawnBefore_withFixes {x : Finding} {fixes : List Fix}
    (h : ∀ y ∈ fixes, y.DrawnBefore n) : (x.withFixes fixes).DrawnBefore n :=
  fun y hy => h y (List.mem_filter.1 hy).1

/-- A finding that takes segments away brings none in. -/
theorem drawnBefore_deletes (s : Segment) (ss : List Segment) :
    ((about s).withFixes (ss.map .delete)).DrawnBefore n := by
  refine drawnBefore_withFixes fun y hy => ?_
  obtain ⟨t, -, rfl⟩ := List.mem_map.1 hy
  exact Fix.drawnBefore_delete t

theorem renamed_later_deletes {s : Segment} {ss : List Segment} (hs : s.DrawnBefore n)
    (hss : ∀ t ∈ ss, t.DrawnBefore n) (distance : Nat) :
    ((about s).withFixes (ss.map .delete)).renamed (.later n distance) =
      (about s).withFixes (ss.map .delete) := by
  have same : ss.map (Fix.renamed (.later n distance) ∘ .delete) = ss.map .delete :=
    List.map_congr_left fun t ht => by
      rw [Function.comp_apply, Fix.renamed_delete, renamed_later distance t (hss t ht)]
  rw [renamed_withFixes, renamed_about, renamed_later distance s hs, List.map_map, same]

/-- A segment that is drawn is put somewhere, as `put` says. -/
theorem redraws_put {s : Segment} (hs : s.DrawnBefore n) {x : Fresh Segment}
    (hx : Redraws n Segment.renamed Segment.DrawnBefore x) {put : Segment → List Segment → Fix}
    (hput : ∀ ρ t, (put s [t]).renamed ρ = put (s.renamed ρ) [t.renamed ρ])
    (hnew : ∀ {m t}, t.DrawnBefore m → (put s [t]).DrawnBefore m) :
    Redraws n Finding.renamed DrawnBefore (do return (about s).withFixes [put s [← x]]) := by
  refine hx.map (fun distance t => ?_) fun m t _ ht => ?_
  · rw [renamed_withFixes, renamed_about, List.map_singleton, hput, renamed_later distance s hs]
  · exact drawnBefore_withFixes (List.forall_mem_singleton.2 (hnew ht))

/-- A new text is proposed again, with the copy that is made then. -/
theorem redraws_respell {s : Segment} (hs : s.DrawnBefore n) (text : String) :
    Redraws n Finding.renamed DrawnBefore (respell s text) :=
  redraws_put hs (redraws_edit hs (some text) none) (fun _ t => Fix.renamed_replace s [t])
    Fix.drawnBefore_replace

end Finding

/-! ## 2. What rules say -/

theorem drawnFindings_ok {xs : List Finding} (h : ∀ x ∈ xs, x.DrawnBefore n) :
    DrawnFindings n (.ok xs) := by
  intro ys hys
  cases hys
  exact h

/-- Nothing new is found. -/
theorem redraws_ok {xs : List Finding}
    (hsame : ∀ x ∈ xs, ∀ distance, x.renamed (.later n distance) = x)
    (hxs : ∀ x ∈ xs, ∀ m, x.DrawnBefore m) :
    Redraws n renamedFindings DrawnFindings (Pure.pure (.ok xs)) := by
  refine .pure (fun distance => ?_) fun m _ => drawnFindings_ok fun x hx => hxs x hx m
  have same : xs.map (Finding.renamed (.later n distance)) = xs :=
    (List.map_congr_left fun x hx => hsame x hx distance).trans (List.map_id xs)
  rw [renamedFindings, Except.map, same]

theorem redraws_nothing :
    Redraws n renamedFindings DrawnFindings (Pure.pure (.ok [])) :=
  redraws_ok (by simp) (by simp)

/-- Segments are to be taken away. -/
theorem redraws_deletes {s : Segment} {ss : List Segment} (hs : s.DrawnBefore n)
    (hss : ∀ t ∈ ss, t.DrawnBefore n) :
    Redraws n renamedFindings DrawnFindings
      (Pure.pure (.ok [(Finding.about s).withFixes (ss.map .delete)])) :=
  redraws_ok (List.forall_mem_singleton.2 (Finding.renamed_later_deletes hs hss))
    (List.forall_mem_singleton.2 fun _ => Finding.drawnBefore_deletes s ss)

/-- One segment is found at fault. -/
theorem redraws_one {x : Fresh Finding} (hx : Redraws n Finding.renamed Finding.DrawnBefore x) :
    Redraws n renamedFindings DrawnFindings (do return .ok [← x]) :=
  hx.map (fun _ _ => rfl) fun _ _ _ ha => drawnFindings_ok (List.forall_mem_singleton.2 ha)

/-! ## 3. The rules -/

namespace Rule

theorem mem_of_mem_beforeLineEnds {ss : List Segment} {s : Segment}
    (h : s ∈ beforeLineEnds ss) : s ∈ ss := by
  fun_induction beforeLineEnds ss with
  | case1 a b rest _ ih =>
    rcases List.mem_cons.1 h with rfl | h
    · exact List.mem_cons_self ..
    · exact List.mem_cons_of_mem a (ih h)
  | case2 a b rest _ ih => exact List.mem_cons_of_mem a (ih h)
  | case3 => cases h

theorem isFunctional_trailingWhitespace : trailingWhitespace.IsFunctional n := by
  intro c m _ hc
  have leaf (s : Segment) (h : s ∈ beforeLineEnds (c.segment.leaves.filter isVisible)) :
      s.DrawnBefore m :=
    Every.leaves (hc c.segment (by simp [Site.segments])) s
      (List.mem_filter.1 (mem_of_mem_beforeLineEnds h)).1
  refine redraws_ok (fun x hx => ?_) fun x hx => ?_
  · obtain ⟨s, hs, rfl⟩ := List.mem_map.1 hx
    exact Finding.renamed_later_deletes (leaf s hs) (List.forall_mem_singleton.2 (leaf s hs))
  · obtain ⟨s, hs, rfl⟩ := List.mem_map.1 hx
    exact fun _ => Finding.drawnBefore_deletes s [s]

theorem isFunctional_spaceBeforeComma : spaceBeforeComma.IsFunctional n := by
  intro c m _ hc
  have before (s : Segment) (h : s ∈ c.tokensBefore) : s.DrawnBefore m :=
    hc s (by simp [Site.segments, (List.mem_filter.1 h).1])
  unfold spaceBeforeComma
  dsimp only
  split
  · next s _ _ hbefore =>
    have hs := before s (by simp [hbefore])
    exact .ite (fun _ => redraws_deletes hs (List.forall_mem_singleton.2 hs)) fun _ =>
      redraws_nothing
  · exact redraws_nothing

theorem isFunctional_spaceAfterComma : spaceAfterComma.IsFunctional n := by
  intro c m _ hc
  have after (s : Segment) (h : s ∈ c.nextSiblings) : s.DrawnBefore m :=
    hc s (by simp [Site.segments, (List.mem_filter.1 h).1])
  unfold spaceAfterComma
  dsimp only
  split
  · exact redraws_nothing
  · next s rest hnext =>
    have hs := after s (by simp [hnext])
    refine .ite (fun _ => redraws_nothing) fun _ => .ite (fun _ => ?_) fun _ => ?_
    · exact .ite (fun _ => redraws_nothing) fun _ => redraws_one (Finding.redraws_respell hs " ")
    · exact redraws_one (Finding.redraws_put hs (redraws_token " " "whitespace" .ofBlank none)
        (fun _ t => Fix.renamed_insertBefore s [t]) Fix.drawnBefore_insertBefore)

theorem isFunctional_finalNewline : finalNewline.IsFunctional n := by
  intro c m _ hc
  have leaf (s : Segment) (h : s ∈ c.segment.leaves.filter (!·.isMarker)) : s.DrawnBefore m :=
    Every.leaves (hc c.segment (by simp [Site.segments])) s (List.mem_filter.1 h).1
  unfold finalNewline
  dsimp only
  refine .ite (fun _ => redraws_nothing) fun _ => ?_
  generalize c.segment.leaves.filter (!·.isMarker) = leaves at leaf
  split
  · next last _ hlast =>
    have hlast := leaf last (List.mem_of_getLast? hlast)
    exact redraws_one (Finding.redraws_put hlast (redraws_token "\n" "newline" .ofBlank none)
      (fun _ t => Fix.renamed_insertAfter last [t]) Fix.drawnBefore_insertAfter)
  · next first rest hnewlines =>
    have newline (s : Segment) (h : s ∈ finalNewlines leaves) : s.DrawnBefore m :=
      leaf s (List.mem_reverse.1
        ((List.takeWhile_sublist _).subset (List.mem_reverse.1 h)))
    have extra (s : Segment) (h : s ∈ first :: rest) : s.DrawnBefore m :=
      newline s (by rw [hnewlines]; exact List.mem_cons_of_mem _ h)
    exact redraws_deletes (extra first (List.mem_cons_self ..)) extra
  · exact redraws_nothing

/-- A word that should be in a style, and what is remembered. -/
theorem redraws_recase {s : Segment} (hs : s.DrawnBefore n) (policy : CasePolicy)
    (style : LetterCase) (memory : Memory) :
    Redraws n (fun ρ => List.map (Finding.renamed ρ)) (fun m xs => ∀ x ∈ xs, x.DrawnBefore m)
      (recase policy style memory s) := by
  unfold recase
  refine .ite (fun _ => ?_) fun _ => ?_
  · exact .pure (fun _ => rfl) fun _ _ => List.forall_mem_singleton.2 fun _ h => by cases h
  · exact (Finding.redraws_respell hs _).map (fun _ _ => rfl) fun m x _ hx =>
      List.forall_mem_singleton.2 hx

theorem isFunctional_keywordCase (policy : CasePolicy) : (keywordCase policy).IsFunctional n := by
  intro c m _ hc
  have hs : c.segment.DrawnBefore m := hc c.segment (by simp [Site.segments])
  have recased (style : LetterCase) (memory : Memory) :
      Redraws m renamedFindings DrawnFindings
        (do return .ok (← recase policy style memory c.segment)) :=
    (redraws_recase hs policy style memory).map (fun _ _ => rfl) fun _ _ _ h => drawnFindings_ok h
  unfold keywordCase
  dsimp only
  refine .ite (fun _ => redraws_nothing) fun _ => ?_
  split
  · exact recased _ _
  · split
    · exact redraws_ok (by simp [Finding.remember, Finding.renamed])
        (by simp [Finding.remember, Finding.DrawnBefore])
    · exact recased _ _

end Rule

/-! ## 4. The library -/

namespace RuleRegistry

/-- What holds of the five rules of the library, whatever their settings, holds of all that a choice
lets run. -/
theorem forall_of_choose {P : Rule → Prop} (hblank : P Rule.trailingWhitespace)
    (hbefore : P Rule.spaceBeforeComma) (hafter : P Rule.spaceAfterComma)
    (hend : P Rule.finalNewline) (hcase : ∀ policy, P (Rule.keywordCase policy)) {c : RuleChoice}
    {rules : List Rule} (h : standard.choose c = .ok rules) : ∀ rule ∈ rules, P rule := by
  intro rule hrule
  obtain ⟨e, he, hbuild⟩ := exists_of_forall₂ (choose_eq.1 h).2.flip hrule
  have he := (List.mem_filter.1 he).1
  have hmake := (build_eq_ok_iff.1 hbuild).2
  simp only [standard, List.mem_cons, List.not_mem_nil, or_false] at he
  rcases he with rfl | rfl | rfl | rfl | rfl
  · cases hmake
    exact hblank
  · cases hmake
    exact hbefore
  · cases hmake
    exact hafter
  · cases hmake
    exact hend
  · dsimp only [Rule.keywordCaseOf] at hmake
    split at hmake
    · cases hmake
      exact hcase _
    · cases hmake

/-- Every rule that a choice of the library's rules lets run is a function of its context. -/
theorem isFunctional_of_choose {c : RuleChoice} {rules : List Rule}
    (h : standard.choose c = .ok rules) : ∀ rule ∈ rules, rule.IsFunctional n :=
  forall_of_choose Rule.isFunctional_trailingWhitespace Rule.isFunctional_spaceBeforeComma
    Rule.isFunctional_spaceAfterComma Rule.isFunctional_finalNewline Rule.isFunctional_keywordCase h

end RuleRegistry

end QueryLint
