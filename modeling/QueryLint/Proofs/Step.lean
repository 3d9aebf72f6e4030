/-!
QueryLint.Proofs.Step — what steps with a state promise.

Matching threads a memo and notes through all its steps; making segments threads a counter. A step
keeps its promise when, from every state with an invariant, it ends in a state with the invariant
and with a result of the kind that is promised. Promises of steps add up to promises of the steps
made of them, so the state is never looked at again outside the steps that change it.

* `Meets` — the promise of a step.
-/

namespace QueryLint

variable {σ α β : Type} {I : σ → Prop}

/-- From a state with the invariant, the step ends in one with the invariant, and its result is as
promised. -/
def Meets (I : σ → Prop) (x : StateM σ α) (Q : α → Prop) : Prop :=
  ∀ s, I s → Q (x.run s).1 ∧ I (x.run s).2

/-- A step that has been run is followed by the next from where it ended. -/
theorem run_bind_of_run {x : StateM σ α} {f : α → StateM σ β} {s s' : σ} {a : α}
    (h : x.run s = (a, s')) : (x >>= f).run s = (f a).run s' := by
  rw [StateT.run_bind, h]
  rfl

namespace Meets

/-- A run of the step keeps its promise. -/
theorem of_run {x : StateM σ α} {Q : α → Prop} (h : Meets I x Q) {s s' : σ} {a : α} (hs : I s)
    (hrun : x.run s = (a, s')) : Q a ∧ I s' := by
  have promise := h s hs
  rwa [hrun] at promise

theorem pure {Q : α → Prop} {a : α} (h : Q a) : Meets I (Pure.pure a) Q :=
  fun _ hs => ⟨h, hs⟩

theorem bind {x : StateM σ α} {f : α → StateM σ β} {Q : α → Prop} {R : β → Prop}
    (hx : Meets I x Q) (hf : ∀ a, Q a → Meets I (f a) R) : Meets I (x >>= f) R := by
  intro s hs
  obtain ⟨ha, hs'⟩ := hx s hs
  exact hf _ ha _ hs'

theorem ite {p : Prop} [Decidable p] {x y : StateM σ α} {Q : α → Prop} (hx : p → Meets I x Q)
    (hy : ¬p → Meets I y Q) : Meets I (if p then x else y) Q := by
  split
  · next h => exact hx h
  · next h => exact hy h

theorem mono {x : StateM σ α} {Q R : α → Prop} (h : Meets I x Q) (hQR : ∀ a, Q a → R a) :
    Meets I x R := by
  intro s hs
  obtain ⟨ha, hs'⟩ := h s hs
  exact ⟨hQR _ ha, hs'⟩

theorem and {x : StateM σ α} {Q R : α → Prop} (hQ : Meets I x Q) (hR : Meets I x R) :
    Meets I x fun a => Q a ∧ R a := by
  intro s hs
  exact ⟨⟨(hQ s hs).1, (hR s hs).1⟩, (hQ s hs).2⟩

/-- A promise that holds under a condition holds of every result under it. -/
theorem imp {x : StateM σ α} {p : Prop} {Q : α → Prop} (hx : Meets I x fun _ => True)
    (h : p → Meets I x Q) : Meets I x fun a => p → Q a := by
  intro s hs
  exact ⟨fun hp => (h hp s hs).1, (hx s hs).2⟩

/-- A step that runs in every state of the invariant leaves it. -/
theorem trivial {x : StateM σ α} {Q : α → Prop} (h : Meets I x Q) :
    Meets I x fun _ => True :=
  h.mono fun _ _ => True.intro

/-- Steps over a list promise of every result what each promises of its own. -/
theorem mapM {f : α → StateM σ β} {Q : β → Prop} (xs : List α)
    (h : ∀ x ∈ xs, Meets I (f x) Q) : Meets I (xs.mapM f) fun ys => ∀ y ∈ ys, Q y := by
  induction xs with
  | nil => exact .pure (by simp)
  | cons x xs ih =>
    rw [List.mapM_cons]
    refine (h x (by simp)).bind fun y hy =>
      (ih fun x hx => h x (by simp [hx])).bind fun ys hys => .pure ?_
    intro z hz
    rcases List.mem_cons.1 hz with rfl | hz
    · exact hy
    · exact hys z hz

end Meets

end QueryLint
