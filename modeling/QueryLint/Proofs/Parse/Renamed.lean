import QueryLint.Parse
import QueryLint.Proofs.Match.Renamed

/-!
QueryLint.Proofs.Parse.Renamed — parsing tokens with other identities.

A match says which tokens go where; making segments of it takes them as they are, retypes some of
them and draws identities for nodes and markers. So of tokens with other identities the same tree is
made with other identities, and the same errors are found.

* `Match.carries_apply` — the segments of a match.
* `Parser.carries_parse` — the tree of a list of tokens.
* `Parser.revalidate_renamed` — segments match the grammar that made them, whatever their identity.
-/

namespace QueryLint

variable {ρ : Renaming}

namespace Match

open Segment

/-! ## 1. Inlays -/

/-- Segments with other identities that go between tokens. -/
def Inlay.renamed (ρ : Renaming) (x : Inlay) : Inlay :=
  { x with segments := x.segments.map (Segment.renamed ρ) }

theorem tokensIn_map_renamed (tokens : Array Segment) (start stop : Nat) :
    tokensIn (tokens.map (Segment.renamed ρ)) start stop =
      (tokensIn tokens start stop).map (Segment.renamed ρ) := by
  simp [tokensIn]

theorem insertInlay_renamed (x : Inlay) (ys : List Inlay) :
    insertInlay (x.renamed ρ) (ys.map (Inlay.renamed ρ)) =
      (insertInlay x ys).map (Inlay.renamed ρ) := by
  induction ys with
  | nil => rfl
  | cons y ys ih =>
    have starts : (x.renamed ρ).start ≤ (y.renamed ρ).start ↔ x.start ≤ y.start := Iff.rfl
    rw [List.map_cons, insertInlay, insertInlay]
    simp only [starts, ih]
    split <;> rfl

theorem sortInlays_renamed (xs : List Inlay) :
    sortInlays (xs.map (Inlay.renamed ρ)) = (sortInlays xs).map (Inlay.renamed ρ) := by
  induction xs with
  | nil => rfl
  | cons x xs ih =>
    have head (ys : List Inlay) : sortInlays (x :: ys) = insertInlay x (sortInlays ys) := rfl
    rw [head, ← insertInlay_renamed, ← ih]
    rfl

theorem layOut_renamed (tokens : Array Segment) (stop i : Nat) (xs : List Inlay) :
    layOut (tokens.map (Segment.renamed ρ)) stop i (xs.map (Inlay.renamed ρ)) =
      (layOut tokens stop i xs).map (Segment.renamed ρ) := by
  induction xs generalizing i with
  | nil => exact tokensIn_map_renamed tokens i stop
  | cons x xs ih =>
    rw [List.map_cons, layOut, layOut, List.map_append, List.map_append, ← ih,
      tokensIn_map_renamed]
    rfl

/-! ## 2. Segments of a match -/

theorem carries_retypeToken (type : String) (normalized : Option String) (s : Segment) :
    ρ.Carries (Segment.renamed ρ) (retypeToken type normalized s)
      (retypeToken type normalized (s.renamed ρ)) := by
  unfold retypeToken
  rw [isLeaf_renamed, isMarker_renamed]
  refine .ite .rfl (fun _ => .pure rfl) fun _ => (carries_retyped s type []).map fun s => ?_
  cases normalized with
  | none => rfl
  | some text => exact (renamed_withNormalized s text).symm

theorem carries_build (content : List Segment) (k : Option MatchClass) :
    ρ.Carries (List.map (Segment.renamed ρ)) (build content k)
      (build (content.map (Segment.renamed ρ)) k) := by
  have single {x y : Fresh Segment} (h : ρ.Carries (Segment.renamed ρ) x y) :
      ρ.Carries (List.map (Segment.renamed ρ)) (do return [← x]) (do return [← y]) :=
    h.map fun _ => rfl
  cases k with
  | none => exact .pure rfl
  | some k =>
    cases k with
    | token type normalized =>
      exact .mapM content fun s _ => carries_retypeToken type normalized s
    | node type grammar =>
      have markers : (content.map (Segment.renamed ρ)).all (·.isMarker) =
          content.all (·.isMarker) := by
        simp [List.all_map, Function.comp_def]
      refine .ite (by rw [markers]) (fun _ => .pure rfl) fun _ => ?_
      exact single (carries_branch (.node (some grammar)) type content)
    | bracketed => exact single (carries_branch .bracketed "bracketed" content)
    | unparsable expected =>
      exact single (carries_branch (.unparsable (some expected)) "unparsable" content)

theorem carries_newMarkers (is : List (Nat × MarkerKind)) :
    ρ.Carries (List.map (Segment.renamed ρ)) (newMarkers is) (newMarkers is) := by
  induction is with
  | nil => exact .pure rfl
  | cons i is ih => exact (carries_marker i.2 none).bind fun s => ih.map fun ss => rfl

theorem carries_markerInlays (is : List (Nat × MarkerKind)) :
    ρ.Carries (List.map (Inlay.renamed ρ)) (markerInlays is) (markerInlays is) := by
  induction is with
  | nil => exact .pure rfl
  | cons i is ih => exact (carries_marker i.2 none).bind fun s => ih.map fun xs => rfl

mutual

/-- Of tokens with other identities a match makes the same segments with other identities. -/
theorem carries_apply (tokens : Array Segment) (m : Match) :
    ρ.Carries (List.map (Segment.renamed ρ)) (m.apply tokens)
      (m.apply (tokens.map (Segment.renamed ρ))) := by
  match m with
  | mk start stop k inserts children =>
    rw [apply, apply]
    refine .ite .rfl (fun _ => carries_newMarkers inserts) fun _ => ?_
    refine (carries_markerInlays inserts).bind fun markers =>
      (carries_applyAll tokens children).bind fun inner => ?_
    rw [← List.map_append, sortInlays_renamed, layOut_renamed]
    exact carries_build _ k

theorem carries_applyAll (tokens : Array Segment) (ms : List Match) :
    ρ.Carries (List.map (Inlay.renamed ρ)) (applyAll tokens ms)
      (applyAll (tokens.map (Segment.renamed ρ)) ms) := by
  match ms with
  | [] =>
    rw [applyAll, applyAll]
    exact .pure rfl
  | m :: rest =>
    rw [applyAll, applyAll]
    exact (carries_apply tokens m).bind fun ss => (carries_applyAll tokens rest).map fun xs => rfl

end

end Match

/-! ## 3. Errors -/

theorem unparsableErrors_renamed (tree : Segment) :
    unparsableErrors (tree.renamed ρ) = unparsableErrors tree := by
  have error (s : Segment) : unparsableError? (s.renamed ρ) = unparsableError? s := by
    simp [unparsableError?]
  rw [unparsableErrors, unparsableErrors, Segment.crawl_renamed, List.filterMap_map]
  simp only [Function.comp_def, error]

/-! ## 4. Parsing -/

/-- The result of parsing tokens with other identities. -/
def Parsed.renamed (ρ : Renaming) (r : Parsed) : Parsed := { r with tree := r.tree.renamed ρ }

namespace Parser

open Segment

variable {p : Parser}

theorem context_renamed (tokens : List Segment) :
    p.context (tokens.map (renamed ρ)) = (p.context tokens).renamed ρ :=
  MatchContext.ofSegments_renamed _ tokens _

theorem matchAlone_renamed (c : MatchContext) :
    p.matchAlone (c.renamed ρ) = p.matchAlone c := by
  funext start stop g
  rw [matchAlone, matchAlone, MatchContext.matchGrammar_renamed]

theorem carries_unmatched (tokens : List Segment) :
    ρ.Carries (List.map (renamed ρ)) (unmatched tokens) (unmatched (tokens.map (renamed ρ))) := by
  have code : ((!·.isCode) ∘ renamed ρ) = fun s : Segment => !s.isCode := by
    funext s
    simp
  unfold unmatched
  rw [List.takeWhile_map, List.dropWhile_map, code]
  cases tokens.dropWhile (!·.isCode) with
  | nil => exact .pure rfl
  | cons s rest =>
    exact (carries_branch _ _ (s :: rest)).map fun t => by rw [List.map_append]; rfl

theorem carries_code (tokens : List Segment) (start stop : Nat) (m : Match) :
    ρ.Carries (List.map (renamed ρ)) (p.code tokens start stop m)
      (p.code (tokens.map (renamed ρ)) start stop m) := by
  have between (a : Nat) : ((tokens.map (renamed ρ)).take stop).drop a =
      ((tokens.take stop).drop a).map (renamed ρ) := by
    rw [← List.map_take, ← List.map_drop]
  unfold code
  dsimp only
  rw [between, between, ← List.map_toArray]
  refine .ite .rfl (fun _ => ?_) fun _ => (carries_branch _ _ _).map fun _ => rfl
  exact (Match.carries_apply tokens.toArray m).bind fun ss =>
    (carries_unmatched _).map fun rest => (List.map_append ..).symm

/-- The tree of tokens with other identities is their tree with other identities. -/
theorem carries_parse (p : Parser) (tokens : List Segment) :
    ρ.Carries (Parsed.renamed ρ) (p.parse tokens) (p.parse (tokens.map (renamed ρ))) := by
  unfold parse
  rw [context_renamed]
  dsimp only
  rw [MatchContext.size_renamed, MatchContext.skipToCode_renamed, MatchContext.trimToCode_renamed,
    matchAlone_renamed]
  refine .ite .rfl (fun _ => (carries_branch .file "file" tokens).map fun _ => rfl) fun _ => ?_
  refine (carries_code tokens _ _ _).bind fun ss => ?_
  rw [← List.map_take, ← List.map_drop, ← List.map_append, ← List.map_append]
  exact (carries_branch .file "file" _).map fun tree => by
    rw [unparsableErrors_renamed]
    rfl

/-- The tokens that are parsed again keep other identities. -/
theorem parsedAgain_renamed (s : Segment) :
    (s.renamed ρ).leaves.filter (fun x => !x.isMarker || x.isTemplateMarker) =
      (s.leaves.filter fun x => !x.isMarker || x.isTemplateMarker).map (renamed ρ) := by
  rw [leaves_renamed, List.filter_map]
  congr 2
  funext x
  simp

/-- Whether a segment matches the grammar that made it does not depend on identities. -/
theorem revalidate_renamed (p : Parser) (s : Segment) :
    p.revalidate (s.renamed ρ) = p.revalidate s := by
  unfold revalidate
  rw [grammar?_renamed, parsedAgain_renamed, context_renamed]
  dsimp only
  rw [MatchContext.size_renamed, MatchContext.skipToCode_renamed, MatchContext.trimToCode_renamed,
    matchAlone_renamed]

end Parser

end QueryLint
