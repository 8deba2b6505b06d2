import Exemplar.Fault

/-!
# Computations with a state

A computation works on a state and gives a result or fails; a failure
keeps the state as it is then, so what was done before it stays done.
`Effect.perform` runs a computation from a state, and the lemmas below it
say, one for each operation, what comes of it. Statements about longer
computations follow from them and need not open the monad.
-/

namespace Exemplar

/-- **A computation** on states of type `σ` that gives a value or
fails. -/
abbrev Effect (σ α : Type) := ExceptT Fault (StateM σ) α

namespace Effect

variable {σ α β : Type}

/-- **Runs a computation** from a state: its outcome, and the state it
ends in. -/
def perform (x : Effect σ α) (s : σ) : Except Fault α × σ := (ExceptT.run x).run s

/-- Fails with a problem that is not attributed yet. -/
def raise (cause : Cause) : Effect σ α := throw (.ofCause cause)

/-- Fails with a breach. -/
def breach (b : Breach) : Effect σ α := throw (.breach b)

/-- A result or failure as a computation that does nothing. -/
def ofExcept (r : Except Fault α) : Effect σ α := liftExcept r

/-- **Tries a computation**: its failure becomes a result. -/
def try_ (x : Effect σ α) : Effect σ (Except Fault α) :=
  tryCatch (Except.ok <$> x) fun f => pure (.error f)

/-- The computation with its failure changed. -/
def mapFault (f : Fault → Fault) (x : Effect σ α) : Effect σ α :=
  tryCatch x fun e => throw (f e)

/-- Computations one after the other, in order, for the elements of a
list. -/
def forEach (f : α → Effect σ β) : List α → Effect σ (List β)
  | [] => pure []
  | a :: as => do
    let b ← f a
    return b :: (← forEach f as)

@[simp]
theorem perform_pure (a : α) (s : σ) : (pure a : Effect σ α).perform s = (.ok a, s) := rfl

@[simp]
theorem perform_throw (f : Fault) (s : σ) :
    (throw f : Effect σ α).perform s = (.error f, s) := rfl

/-- **One computation after another**: the second one starts where the
first one ends, if that gives a value. -/
theorem perform_bind (x : Effect σ α) (f : α → Effect σ β) (s : σ) :
    (x >>= f).perform s = match x.perform s with
      | (.ok a, t) => (f a).perform t
      | (.error e, t) => (.error e, t) := by
  simp only [perform, ExceptT.run_bind, StateT.run_bind]
  rcases h : StateT.run (ExceptT.run x) s with ⟨r, t⟩
  cases r <;> rfl

@[simp]
theorem perform_map (f : α → β) (x : Effect σ α) (s : σ) :
    (f <$> x).perform s = ((x.perform s).1.map f, (x.perform s).2) := by
  rw [map_eq_pure_bind, perform_bind]
  rcases x.perform s with ⟨r, t⟩
  cases r <;> rfl

@[simp]
theorem perform_modify (f : σ → σ) (s : σ) :
    (modify f : Effect σ PUnit).perform s = (.ok ⟨⟩, f s) := rfl

@[simp]
theorem perform_get (s : σ) : (get : Effect σ σ).perform s = (.ok s, s) := rfl

@[simp]
theorem perform_ofExcept (r : Except Fault α) (s : σ) :
    (ofExcept r : Effect σ α).perform s = (r, s) := by
  cases r <;> rfl

/-- **A computation with a way out**: it is taken from where the
computation fails. -/
theorem perform_tryCatch (x : Effect σ α) (g : Fault → Effect σ α) (s : σ) :
    (tryCatch x g).perform s = match x.perform s with
      | (.ok a, t) => (.ok a, t)
      | (.error e, t) => (g e).perform t := by
  simp only [perform, ExceptT.run_tryCatch, StateT.run_bind]
  rcases h : StateT.run (ExceptT.run x) s with ⟨r, t⟩
  cases r <;> rfl

/-- A tried computation never fails, and leaves the state as the
computation does. -/
@[simp]
theorem perform_try_ (x : Effect σ α) (s : σ) :
    (try_ x).perform s = (.ok (x.perform s).1, (x.perform s).2) := by
  rw [try_, perform_tryCatch, perform_map]
  rcases x.perform s with ⟨r, t⟩
  cases r <;> rfl

@[simp]
theorem perform_mapFault (f : Fault → Fault) (x : Effect σ α) (s : σ) :
    (mapFault f x).perform s = ((x.perform s).1.mapError f, (x.perform s).2) := by
  rw [mapFault, perform_tryCatch]
  rcases x.perform s with ⟨r, t⟩
  cases r <;> rfl

end Effect

end Exemplar
