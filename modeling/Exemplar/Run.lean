import Exemplar.Fault

/-!
# Runs

A computation of this library gives a result or fails, and says on the
way what it does. `Run α` is both: the **notices** in the order in which
they were given, those before a failure included, and the **outcome**.
The outcome of a sequence depends on the outcomes of its parts and on
nothing they said (`Run.outcome_bind`), so statements about results need
not mention the notices.
-/

namespace Exemplar

/-- How much a notice matters. -/
inductive Notice.Level where
  | debug
  | info
  | warning
  | error
  deriving DecidableEq, Repr

/-- The word for a level. -/
def Notice.Level.word : Notice.Level → String
  | .debug => "DEBUG"
  | .info => "INFO"
  | .warning => "WARNING"
  | .error => "ERROR"

/-- **A notice**: something said while computing. -/
structure Notice where
  level : Notice.Level
  text : String
  deriving DecidableEq, Repr

/-- The notice as a line. -/
def Notice.line (n : Notice) : String := s!"{n.level.word} {n.text}"

/-- **A run**: what was said, and how it ended. -/
structure Run (α : Type) where
  notices : List Notice
  outcome : Except Fault α

namespace Run

variable {α β : Type}

/-- A run that gives its result at once. -/
protected def pure (a : α) : Run α := ⟨[], .ok a⟩

/-- One run after another. -/
protected def bind (x : Run α) (f : α → Run β) : Run β :=
  match x.outcome with
  | .error e => ⟨x.notices, .error e⟩
  | .ok a => ⟨x.notices ++ (f a).notices, (f a).outcome⟩

instance : Monad Run where
  pure := Run.pure
  bind := Run.bind

/-- A run that fails. -/
def fail (e : Fault) : Run α := ⟨[], .error e⟩

/-- Fails with a problem that is not attributed yet. -/
def raise (cause : Cause) : Run α := fail (.ofCause cause)

/-- Fails with a breach. -/
def breach (b : Breach) : Run α := fail (.breach b)

/-- A run that says something. -/
def note (level : Notice.Level) (text : String) : Run Unit := ⟨[⟨level, text⟩], .ok ()⟩

/-- A run that says several things. -/
def notes (level : Notice.Level) (texts : List String) : Run Unit :=
  ⟨texts.map fun text => ⟨level, text⟩, .ok ()⟩

/-- A result or failure as a run that says nothing. -/
def ofExcept (r : Except Fault α) : Run α := ⟨[], r⟩

/-- The run with its failure changed. -/
def mapFault (f : Fault → Fault) (x : Run α) : Run α := ⟨x.notices, x.outcome.mapError f⟩

@[simp]
theorem outcome_pure (a : α) : (pure a : Run α).outcome = .ok a := rfl

@[simp]
theorem outcome_fail (e : Fault) : (fail e : Run α).outcome = .error e := rfl

@[simp]
theorem outcome_note (level : Notice.Level) (text : String) :
    (note level text).outcome = .ok () := rfl

@[simp]
theorem outcome_notes (level : Notice.Level) (texts : List String) :
    (notes level texts).outcome = .ok () := rfl

@[simp]
theorem outcome_ofExcept (r : Except Fault α) : (ofExcept r).outcome = r := rfl

@[simp]
theorem outcome_mapFault (f : Fault → Fault) (x : Run α) :
    (x.mapFault f).outcome = x.outcome.mapError f := rfl

/-- **The outcome of a sequence** is the sequence of the outcomes. -/
@[simp]
theorem outcome_bind (x : Run α) (f : α → Run β) :
    (x >>= f).outcome = x.outcome.bind fun a => (f a).outcome := by
  show (Run.bind x f).outcome = _
  unfold Run.bind
  cases h : x.outcome <;> rfl

/-- Runs one after the other, in order, up to the first failure. -/
def sequence : List (Run α) → Run (List α)
  | [] => pure []
  | x :: xs => do
    let a ← x
    let as ← sequence xs
    pure (a :: as)

end Run

end Exemplar
