import Mathlib.Data.Fintype.Pigeonhole
import Mathlib.Logic.Relation
import QueryLint.Proofs.Grammar.Fits
import QueryLint.Proofs.Parse

/-!
QueryLint.Proofs.Grammar.Rings — references that lead round in a ring.

In compiled tables a reference leads to the grammar of its name, which may be a reference again.
Following goes on in the tables just as in the book, from name to name. The tables are finite: what
is still a reference after as many steps as there are instructions has come round to where it was
before. So following ends in a grammar that is no reference if and only if no ring is ever reached.

What compiling checks is that no name is a reference to itself. A ring of two names passes.

* `GrammarBook.Forwards` — the grammar of a name is a reference to another.
* `GrammarBook.exists_refersTo` — the tables follow references as the book does.
* `GrammarBook.resolve_iff_no_ring` — which references come to an end.
-/

namespace QueryLint

open Relation

/-! ## 1. Following references -/

theorem kind_of_shape_ref {t : Tables} {id : GrammarId} {name : String}
    {target x : Option GrammarId} (h : t.shape id = .ref name target x) :
    (t.instruction id).kind = .ref := by
  unfold Tables.shape at h
  dsimp only at h
  split at h <;> first | assumption | cases h

namespace MatchContext

open GrammarBook

variable {c : MatchContext} {id target : GrammarId} {n : Nat}

theorem follow_of_kind_ne (h : (c.tables.instruction id).kind ≠ .ref) (n : Nat) :
    resolve.follow c n id = id := by
  cases n with
  | zero => rfl
  | succ n =>
    rw [resolve.follow]
    split
    · next hshape => exact absurd (kind_of_shape_ref hshape) h
    · rfl

theorem follow_of_refersTo (h : RefersTo c.tables id target) (n : Nat) :
    resolve.follow c (n + 1) id = resolve.follow c n target := by
  obtain ⟨name, x, hshape⟩ := h
  rw [resolve.follow, hshape]

variable (leads : ∀ id, (c.tables.instruction id).kind = .ref → ∃ target,
  RefersTo c.tables id target)
include leads

/-- The last step of following is a step like the first. -/
theorem refersTo_follow (h : (c.tables.instruction (resolve.follow c n id)).kind = .ref) :
    RefersTo c.tables (resolve.follow c n id) (resolve.follow c (n + 1) id) := by
  induction n generalizing id with
  | zero =>
    obtain ⟨target, htarget⟩ := leads id h
    rw [follow_of_refersTo htarget]
    exact htarget
  | succ n ih =>
    by_cases hkind : (c.tables.instruction id).kind = .ref
    · obtain ⟨target, htarget⟩ := leads id hkind
      rw [follow_of_refersTo htarget] at h ⊢
      rw [follow_of_refersTo htarget]
      exact ih h
    · rw [follow_of_kind_ne hkind] at h
      exact absurd h hkind

/-- What is a reference after so many steps was one after every step before. -/
theorem kind_follow_of_le {k : Nat} (hk : k ≤ n)
    (h : (c.tables.instruction (resolve.follow c n id)).kind = .ref) :
    (c.tables.instruction (resolve.follow c k id)).kind = .ref := by
  induction n generalizing id k with
  | zero =>
    obtain rfl : k = 0 := by omega
    exact h
  | succ n ih =>
    by_cases hkind : (c.tables.instruction id).kind = .ref
    · cases k with
      | zero => exact hkind
      | succ k =>
        obtain ⟨target, htarget⟩ := leads id hkind
        rw [follow_of_refersTo htarget] at h ⊢
        exact ih (by omega) h
    · rw [follow_of_kind_ne hkind] at h
      exact absurd h hkind

theorem reaches_follow (n : Nat) :
    ReflTransGen (RefersTo c.tables) id (resolve.follow c n id) := by
  induction n generalizing id with
  | zero => exact .refl
  | succ n ih =>
    by_cases hkind : (c.tables.instruction id).kind = .ref
    · obtain ⟨target, htarget⟩ := leads id hkind
      rw [follow_of_refersTo htarget]
      exact .head htarget ih
    · rw [follow_of_kind_ne hkind]

theorem reaches_between {k : Nat} (hk : k < n)
    (h : (c.tables.instruction (resolve.follow c n id)).kind = .ref) :
    TransGen (RefersTo c.tables) (resolve.follow c k id) (resolve.follow c n id) := by
  induction n with
  | zero => omega
  | succ n ih =>
    have before := kind_follow_of_le leads (Nat.le_succ n) h
    have last := refersTo_follow leads before
    rcases Nat.lt_or_eq_of_le (Nat.lt_succ_iff.1 hk) with hk | rfl
    · exact .tail (ih hk before) last
    · exact .single last

/-- What cannot be resolved leads into a ring: of one more than there are instructions, two are the
same. -/
theorem exists_ring (h : (c.tables.instruction (c.resolve id)).kind = .ref) :
    ∃ g, ReflTransGen (RefersTo c.tables) id g ∧ TransGen (RefersTo c.tables) g g := by
  have ref (k : Fin (c.tables.size + 1)) :
      (c.tables.instruction (resolve.follow c k id)).kind = .ref :=
    kind_follow_of_le leads (Nat.lt_succ_iff.1 k.isLt) h
  have inside (k : Fin (c.tables.size + 1)) : (resolve.follow c k id).index < c.tables.size :=
    Tables.lt_size_of_kind (by simp [ref k])
  obtain ⟨i, j, hne, hsame⟩ := Fintype.exists_ne_map_eq_of_card_lt
    (fun k : Fin (c.tables.size + 1) =>
      (⟨(resolve.follow c k id).index, inside k⟩ : Fin c.tables.size)) (by simp)
  have same : resolve.follow c i id = resolve.follow c j id :=
    congrArg GrammarId.mk (Fin.ext_iff.1 hsame)
  -- The two are told apart by which of them comes first.
  wlog hlt : i < j generalizing i j with other
  · exact other j i hne.symm hsame.symm same.symm (by omega)
  refine ⟨resolve.follow c i id, reaches_follow leads i, ?_⟩
  have round : TransGen (RefersTo c.tables) (resolve.follow c i id) (resolve.follow c j id) :=
    reaches_between leads hlt (ref j)
  rwa [← same] at round

end MatchContext

/-! ## 2. References by name -/

namespace GrammarBook

variable {b : GrammarBook} {t : Tables} {c : MatchContext} {id target : GrammarId}
  {name other : String}

/-- The grammar of a name is a reference to another name. -/
def Forwards (b : GrammarBook) (name other : String) : Prop :=
  ∃ x ∈ b.definitions, x.name = name ∧ x.body.refersTo other = true

/-- Followed from name to name, references lead into a ring. -/
def LeadsIntoRing (b : GrammarBook) (name : String) : Prop :=
  ∃ again, ReflTransGen b.Forwards name again ∧ TransGen b.Forwards again again

/-- An instruction is a reference to a name, and leads to the slot of the name. -/
def Names (b : GrammarBook) (t : Tables) (id : GrammarId) (name : String) : Prop :=
  ∃ target x, t.shape id = .ref name (some target) x ∧ b.slot? name = some target.index

/-- What leads into a ring leads on to something that does. -/
theorem LeadsIntoRing.exists_forwards (h : b.LeadsIntoRing name) :
    ∃ other, b.Forwards name other ∧ b.LeadsIntoRing other := by
  obtain ⟨again, reaches, ring⟩ := h
  rcases reaches.cases_head with rfl | ⟨other, first, rest⟩
  · obtain ⟨other, first, rest⟩ := TransGen.head'_iff.1 ring
    exact ⟨other, first, name, rest, ring⟩
  · exact ⟨other, first, again, rest, ring⟩

theorem refersTo_unique {target' : GrammarId} (h : RefersTo t id target)
    (h' : RefersTo t id target') : target = target' := by
  obtain ⟨name, x, hshape⟩ := h
  obtain ⟨name', x', hshape'⟩ := h'
  rw [hshape] at hshape'
  exact Option.some.inj (Shape.ref.inj hshape').2.1

theorem Names.unique (h : b.Names t id name) (h' : b.Names t id other) : name = other := by
  obtain ⟨target, x, hshape, -⟩ := h
  obtain ⟨target', x', hshape', -⟩ := h'
  rw [hshape] at hshape'
  exact (Shape.ref.inj hshape').1

theorem Names.isReference (h : b.Names t id name) : (t.instruction id).kind = .ref := by
  obtain ⟨target, x, hshape, -⟩ := h
  exact kind_of_shape_ref hshape

/-- Tables whose references lead from name to name as those of a book do. -/
structure FollowsBook (b : GrammarBook) (t : Tables) : Prop where
  named : ∀ id, (t.instruction id).kind = .ref → ∃ name, b.Names t id name
  leads : ∀ id name, b.Names t id name → ∃ target, RefersTo t id target ∧
    ∀ other, b.Names t target other ↔ b.Forwards name other
  filed : ∀ name other, b.Forwards name other → ∃ id, b.Names t id other
  apart : ∀ name, ¬ b.Forwards name name

namespace FollowsBook

variable (hf : b.FollowsBook t)
include hf

theorem exists_refersTo (h : (t.instruction id).kind = .ref) : ∃ target, RefersTo t id target := by
  obtain ⟨name, hname⟩ := hf.named id h
  obtain ⟨target, htarget, -⟩ := hf.leads id name hname
  exact ⟨target, htarget⟩

/-- A step in the tables is a step in the book. -/
theorem forwards_of_refersTo (h : RefersTo t id target) (hid : b.Names t id name)
    (htarget : b.Names t target other) : b.Forwards name other := by
  obtain ⟨target', h', iff⟩ := hf.leads id name hid
  obtain rfl := refersTo_unique h h'
  exact (iff other).1 htarget

theorem reaches_of_transGen (h : TransGen (RefersTo t) id target) (hid : b.Names t id name)
    (htarget : b.Names t target other) : TransGen b.Forwards name other := by
  induction h generalizing other with
  | single h => exact .single (hf.forwards_of_refersTo h hid htarget)
  | tail _ h ih =>
    obtain ⟨_, _, hshape⟩ := h
    obtain ⟨between, hbetween⟩ := hf.named _ (kind_of_shape_ref hshape)
    exact .tail (ih hbetween) (hf.forwards_of_refersTo ⟨_, _, hshape⟩ hbetween htarget)

theorem reaches_of_reflTransGen (h : ReflTransGen (RefersTo t) id target)
    (hid : b.Names t id name) (htarget : b.Names t target other) :
    ReflTransGen b.Forwards name other := by
  rcases reflTransGen_iff_eq_or_transGen.1 h with rfl | h
  · rw [hid.unique htarget]
  · exact (hf.reaches_of_transGen h hid htarget).to_reflTransGen

/-- A reference that leads into a ring never comes to an end. -/
theorem kind_of_leadsIntoRing (hid : b.Names t id name) (hring : b.LeadsIntoRing name)
    {g : GrammarId} (h : ReflTransGen (RefersTo t) id g) : (t.instruction g).kind = .ref := by
  have kept : ∃ other, b.Names t g other ∧ b.LeadsIntoRing other := by
    induction h with
    | refl => exact ⟨name, hid, hring⟩
    | @tail g g' _ step ih =>
      obtain ⟨at_g, hg, hring⟩ := ih
      obtain ⟨other, forwards, again⟩ := hring.exists_forwards
      obtain ⟨target, htarget, iff⟩ := hf.leads g at_g hg
      obtain rfl := refersTo_unique step htarget
      exact ⟨other, (iff other).2 forwards, again⟩
  obtain ⟨other, hother, -⟩ := kept
  exact hother.isReference

/-- A reference that leads into no ring is resolved. -/
theorem kind_resolve_ne (hc : c.tables = t) (hid : b.Names t id name)
    (hring : ¬ b.LeadsIntoRing name) : (t.instruction (c.resolve id)).kind ≠ .ref := by
  subst hc
  intro h
  obtain ⟨g, reaches, round⟩ := MatchContext.exists_ring (fun _ => hf.exists_refersTo) h
  have href : (c.tables.instruction g).kind = .ref := by
    obtain ⟨_, ⟨_, _, hshape⟩, -⟩ := TransGen.head'_iff.1 round
    exact kind_of_shape_ref hshape
  obtain ⟨again, hagain⟩ := hf.named g href
  exact hring ⟨again, hf.reaches_of_reflTransGen reaches hid hagain,
    hf.reaches_of_transGen round hagain hagain⟩

end FollowsBook

/-! ## 3. Books -/

theorem eq_ref_of_refersTo {form : GrammarForm} (h : form.refersTo name = true) :
    form = .ref name := by
  cases form with
  | ref other => rw [eq_of_beq h]
  | _ => cases h

theorem exists_ref_of_kind {form : GrammarForm} (h : form.instructionKind = .ref) :
    ∃ name, form = .ref name := by
  cases form with
  | ref name => exact ⟨name, rfl⟩
  | _ => cases h

section
variable {σ : Draft.Layout} {d : Draft} {root : Nat} {pairs : List BracketPair} {n : Nat} {g : Grammar}
  (hvalid : t.validate = .ok ()) (hf : Filed b root pairs d t) (ho : LaidOut b σ d pairs)
include hvalid hf ho

/-- The slot of a reference names the slot of its name, which is another. -/
theorem names_of_refersTo (hn : σ n = some g) (hg : g.refersTo name = true) :
    b.Names t ⟨n⟩ name ∧ b.slot? name ≠ some n := by
  obtain ⟨form, parts, terminators, exclude, delimiter, settings⟩ := g
  obtain rfl := eq_ref_of_refersTo hg
  obtain ⟨s, ids, ends, i, j, x, y, held⟩ := ho.laid.holds n _ hn
  obtain ⟨listed, k, hk, hps⟩ := held.parameters
  obtain ⟨target, htarget, apart⟩ := ho.references _ listed
  rw [htarget, Option.getD_some] at hps
  have kind : (t.instruction ⟨n⟩).kind = .ref := hf.kind_eq held
  have hlt : (GrammarId.mk n).index < t.size := Tables.lt_size_of_kind (by simp [kind])
  have first : t.parameter ⟨n⟩ 0 = k := hf.parameter_eq held (by rw [hps]; rfl)
  obtain ⟨second, second'⟩ := hf.finished.parameter n s held.slot 1 target (by rw [hps]; rfl)
  have present := target_ne_absent hvalid hlt kind
  rw [second'] at present
  refine ⟨⟨⟨target⟩, t.excludeIn ⟨n⟩ 2, ?_, htarget⟩, by rw [htarget]; simpa using apart⟩
  unfold Tables.shape
  rw [kind]
  simp [first, second, hf.string_eq hk, GrammarId.ofSlot?, present]

/-- A slot that holds a reference holds that of a grammar. -/
theorem refersTo_of_kind (hn : σ n = some g) (href : (t.instruction ⟨n⟩).kind = .ref) :
    ∃ name, g.refersTo name = true ∧ b.Names t ⟨n⟩ name := by
  obtain ⟨form, parts, terminators, exclude, delimiter, settings⟩ := g
  obtain ⟨s, ids, ends, i, j, x, y, held⟩ := ho.laid.holds n _ hn
  obtain ⟨name, rfl⟩ := exists_ref_of_kind ((hf.kind_eq held).symm.trans href)
  have own : (GrammarForm.ref name).refersTo name = true := beq_self_eq_true name
  exact ⟨name, own, (names_of_refersTo hvalid hf ho hn own).1⟩

end

/-- Compiled tables follow references as the book does. -/
theorem followsBook_of_compile (hwhole : b.isWhole = true) (h : b.compile = .ok t) :
    b.FollowsBook t := by
  obtain ⟨hvalid, -⟩ := settled_of_compile h
  obtain ⟨hduplicate, d', hrun⟩ := run_compileSteps h
  obtain ⟨σ, d, pairs, root, laid, -, hfinish⟩ := laidOut_of_run hwhole hrun
  have filed := filed_of_run hfinish
  have defined {x : Definition} (hx : x ∈ b.definitions) :
      ∃ n, σ n = some x.body ∧ b.slot? x.name = some n := by
    obtain ⟨n, hn⟩ := List.mem_iff_getElem?.1 hx
    exact ⟨n, (laid.definitions n x hn).1, slot?_of_getElem? hduplicate hn⟩
  refine ⟨fun id href => ?named, fun id name hid => ?leads, ?filed, ?apart⟩
  case named =>
    have hlt : id.index < d.slots.size := by
      rw [← filed.size_eq]
      exact Tables.lt_size_of_kind (by simp [href])
    obtain ⟨g, hg⟩ := Option.isSome_iff_exists.1 (laid.all id.index hlt)
    obtain ⟨name, -, hname⟩ := refersTo_of_kind hvalid filed laid hg href
    exact ⟨name, hname⟩
  case leads =>
    obtain ⟨target, y, hshape, hslot⟩ := hid
    obtain ⟨x, hx, rfl⟩ := slot?_eq_some hslot
    refine ⟨target, ⟨_, y, hshape⟩, fun other => ⟨fun hother => ?_, ?_⟩⟩
    · obtain ⟨name, hbody, hname⟩ := refersTo_of_kind hvalid filed laid
        (laid.definitions target.index x hx).1 hother.isReference
      obtain rfl := hname.unique hother
      exact ⟨x, List.mem_of_getElem? hx, rfl, hbody⟩
    · rintro ⟨z, hz, hname, hbody⟩
      obtain ⟨n, hn, hslot'⟩ := defined hz
      rw [hname, hslot] at hslot'
      cases hslot'
      exact (names_of_refersTo hvalid filed laid hn hbody).1
  case filed =>
    rintro name other ⟨x, hx, rfl, hbody⟩
    obtain ⟨n, hn, -⟩ := defined hx
    exact ⟨⟨n⟩, (names_of_refersTo hvalid filed laid hn hbody).1⟩
  case apart =>
    rintro name ⟨x, hx, rfl, hbody⟩
    obtain ⟨n, hn, hslot⟩ := defined hx
    exact (names_of_refersTo hvalid filed laid hn hbody).2 hslot

/-- No grammar of a compiled book is a reference to itself. A reference is followed to a grammar
that is none if and only if it leads into no ring, and then resolving it gives that grammar; so
everything can be resolved if and only if no reference of the book comes round to itself. -/
theorem resolve_iff_no_ring (hwhole : b.isWhole = true) (h : b.compile = .ok t)
    (hc : c.tables = t) :
    (∀ name, ¬ b.Forwards name name) ∧
    (∀ id, (t.instruction id).kind = .ref → ∃ name, b.Names t id name ∧
      ReflTransGen (RefersTo t) id (c.resolve id) ∧
      ((t.instruction (c.resolve id)).kind ≠ .ref ↔ ¬ b.LeadsIntoRing name) ∧
      ((∃ g, ReflTransGen (RefersTo t) id g ∧ (t.instruction g).kind ≠ .ref) ↔
        ¬ b.LeadsIntoRing name)) ∧
    ((∀ id, (t.instruction (c.resolve id)).kind ≠ .ref) ↔
      ∀ name, ¬ TransGen b.Forwards name name) := by
  subst hc
  have follows := followsBook_of_compile hwhole h
  have reaches (id : GrammarId) : ReflTransGen (RefersTo c.tables) id (c.resolve id) :=
    MatchContext.reaches_follow (fun _ => follows.exists_refersTo) _
  refine ⟨follows.apart, fun id href => ?_, fun resolved name ring => ?_, fun noRing id href => ?_⟩
  · obtain ⟨name, hname⟩ := follows.named id href
    refine ⟨name, hname, reaches id, ⟨fun hkind ring => ?_, follows.kind_resolve_ne rfl hname⟩,
      ?_, fun noRing => ⟨_, reaches id, follows.kind_resolve_ne rfl hname noRing⟩⟩
    · exact hkind (follows.kind_of_leadsIntoRing hname ring (reaches id))
    · rintro ⟨g, hg, hkind⟩ ring
      exact hkind (follows.kind_of_leadsIntoRing hname ring hg)
  · obtain ⟨other, first, rest⟩ := TransGen.head'_iff.1 ring
    obtain ⟨id, hid⟩ := follows.filed name other first
    refine resolved id (follows.kind_of_leadsIntoRing hid ?_ (reaches id))
    exact ⟨name, rest, ring⟩
  · obtain ⟨g, -, round⟩ := MatchContext.exists_ring (fun _ => follows.exists_refersTo) href
    obtain ⟨_, ⟨_, _, hshape⟩, -⟩ := TransGen.head'_iff.1 round
    obtain ⟨name, hname⟩ := follows.named g (kind_of_shape_ref hshape)
    exact noRing name (follows.reaches_of_transGen round hname hname)

/-- Two names that are references to each other, and a chain of references that comes to an end. -/
def ringBook : GrammarBook where
  root := "A"
  definitions := [
    .grammar "A" (.ref "B"),
    .grammar "B" (.ref "A"),
    .grammar "List" (.ref "Item"),
    .grammar "Item" (.ref "Word"),
    .grammar "Word" (.keyword "a")]

theorem resolve_iff_no_ring_ringBook :
    ringBook.isWhole = true ∧
      ringBook.compile = .ok (Parser.ofBook ringBook).dialect.tables ∧
      (∃ name, ringBook.Names (Parser.ofBook ringBook).dialect.tables ⟨2⟩ name ∧
        ¬ ringBook.LeadsIntoRing name) ∧
      ∃ name, TransGen ringBook.Forwards name name := by
  have checked : ringBook.isWhole = true ∧ ringBook.compile.isOk = true := by decide +kernel
  have resolves : ((Parser.tablesOf ringBook).instruction ⟨2⟩).kind = .ref ∧
      ((Parser.tablesOf ringBook).instruction
        (((Parser.ofBook ringBook).context []).resolve ⟨2⟩)).kind ≠ .ref ∧
      ((Parser.tablesOf ringBook).instruction
        (((Parser.ofBook ringBook).context []).resolve ⟨0⟩)).kind = .ref := by decide +kernel
  have compiled := Parser.compile_eq_ofBook checked.2
  obtain ⟨-, each, all⟩ := resolve_iff_no_ring checked.1 compiled
    (rfl : ((Parser.ofBook ringBook).context []).tables = _)
  refine ⟨checked.1, compiled, ?_, ?_⟩
  · obtain ⟨name, hname, -, ends, -⟩ := each ⟨2⟩ resolves.1
    exact ⟨name, hname, ends.1 resolves.2.1⟩
  · by_contra none
    exact all.2 (by simpa using none) ⟨0⟩ resolves.2.2

/-- A ring of two references passes the check. From a reference to one of them no grammar is ever
reached that is no reference, and resolving it gives a reference. -/
theorem compile_ring :
    ringBook.compile = .ok (Parser.ofBook ringBook).dialect.tables ∧
      TransGen ringBook.Forwards "A" "A" ∧
      ∃ id, ((Parser.ofBook ringBook).dialect.tables.instruction id).kind = .ref ∧
        (∀ g, ReflTransGen (RefersTo (Parser.ofBook ringBook).dialect.tables) id g →
          ((Parser.ofBook ringBook).dialect.tables.instruction g).kind = .ref) ∧
        ((Parser.ofBook ringBook).dialect.tables.instruction
          (((Parser.ofBook ringBook).context []).resolve id)).kind = .ref := by
  have checked : ringBook.isWhole = true ∧ ringBook.compile.isOk = true := by decide +kernel
  have compiled := Parser.compile_eq_ofBook checked.2
  have follows := followsBook_of_compile checked.1 compiled
  have ahead : ringBook.Forwards "A" "B" := ⟨_, List.mem_cons_self, rfl, by decide⟩
  have back : ringBook.Forwards "B" "A" :=
    ⟨_, List.mem_cons_of_mem _ List.mem_cons_self, rfl, by decide⟩
  obtain ⟨id, hid⟩ := follows.filed "A" "B" ahead
  have stays (g : GrammarId) := follows.kind_of_leadsIntoRing hid
    ⟨"B", .refl, .tail (.single back) ahead⟩ (g := g)
  refine ⟨compiled, .tail (.single ahead) back, id, stays id .refl, stays, stays _ ?_⟩
  exact MatchContext.reaches_follow (c := (Parser.ofBook ringBook).context [])
    (fun _ => follows.exists_refersTo) _

end GrammarBook

end QueryLint
