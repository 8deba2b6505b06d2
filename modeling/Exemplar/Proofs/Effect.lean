import Exemplar.Effect
import Mathlib.Data.List.Forall2

/-!
# Computations that succeed

A computation of several steps gives a value exactly when each step does,
each from the state that the one before it left. These equivalences take a
computation apart, results and states alike, without unfolding what its
steps do.

A loop whose steps never fail does not fail either, and what can be said of
its results one by one can be said of all of them (`exists_perform_forEach`).
-/

namespace Exemplar.Effect

variable {σ α β : Type} {s t : σ}

/-- **A step and what follows it** succeed together. -/
theorem perform_bind_eq_ok_iff {x : Effect σ α} {f : α → Effect σ β} {b : β} :
    (x >>= f).perform s = (.ok b, t) ↔
      ∃ a u, x.perform s = (.ok a, u) ∧ (f a).perform u = (.ok b, t) := by
  rw [perform_bind]
  rcases hx : x.perform s with ⟨r, u⟩
  cases r <;> simp [and_assoc]

/-- A result that is given at once leaves the state as it is. -/
theorem perform_pure_eq_ok_iff {a b : α} :
    (pure a : Effect σ α).perform s = (.ok b, t) ↔ a = b ∧ s = t := by
  simp

/-- So does a result or failure that comes from elsewhere. -/
theorem perform_ofExcept_eq_ok_iff {r : Except Fault α} {a : α} :
    (ofExcept r : Effect σ α).perform s = (.ok a, t) ↔ r = .ok a ∧ s = t := by
  simp

/-! ## Loops -/

/-- **A loop with results** takes its first step, and then the others. -/
theorem perform_forEach_cons_eq_ok_iff {f : α → Effect σ β} {a : α} {as : List α} {bs : List β} :
    (forEach f (a :: as)).perform s = (.ok bs, t) ↔
      ∃ b u rest, (f a).perform s = (.ok b, u) ∧ (forEach f as).perform u = (.ok rest, t)
        ∧ bs = b :: rest := by
  simp only [forEach, perform_bind_eq_ok_iff, perform_pure_eq_ok_iff]
  constructor
  · rintro ⟨b, u, hb, rest, _, hrest, rfl, rfl⟩
    exact ⟨b, u, rest, hb, hrest, rfl⟩
  · rintro ⟨b, u, rest, hb, hrest, rfl⟩
    exact ⟨b, u, hb, rest, t, hrest, rfl, rfl⟩

/-- **A loop with results never fails** if no step does, and the results
belong to the steps one by one. -/
theorem exists_perform_forEach {f : α → Effect σ β} {R : α → β → Prop} {as : List α}
    (h : ∀ a ∈ as, ∀ s, ∃ b t, (f a).perform s = (.ok b, t) ∧ R a b) (s : σ) :
    ∃ bs t, (forEach f as).perform s = (.ok bs, t) ∧ List.Forall₂ R as bs := by
  induction as generalizing s with
  | nil => exact ⟨[], s, rfl, .nil⟩
  | cons a as ih =>
    obtain ⟨b, u, hb, hab⟩ := h a List.mem_cons_self s
    obtain ⟨bs, t, hbs, hall⟩ := ih (fun x hx => h x (List.mem_cons_of_mem a hx)) u
    exact ⟨b :: bs, t, perform_forEach_cons_eq_ok_iff.mpr ⟨b, u, bs, hb, hbs, rfl⟩,
      .cons hab hall⟩

end Exemplar.Effect
