import Exemplar.Catalog
import Exemplar.Effect
import Exemplar.Inference
import Exemplar.Override.Registry

/-!
# Schemas of a service

What is known about a service once its examples have been read: for each
action the schema of its responses and what paging makes of it, or the
problem that came up. A problem belongs to its action and leaves the
other actions alone; a problem of the service itself stands beside them.
-/

namespace Exemplar

/-- **The schemas of an action.** -/
structure ActionSchema where
  action : Action
  response : Field := .absent
  projection : Projection := {}
  problem : Option Problem := none
  deriving DecidableEq

namespace ActionSchema

/-- The schemas could be had. -/
def isOk (a : ActionSchema) : Bool := a.problem.isNone

/-- The message of a problem, or `null`. -/
def messageJson : Option Problem → Json
  | none => .null
  | some p => .str p.message

/-- **The schemas of an action as a document.** -/
def toJson (a : ActionSchema) : Except Fault Json := do
  let paged ← a.action.isPaged
  return .obj [("action", a.action.key), ("paging_capable", .bool paged),
    ("response", a.response.toJson),
    ("collection", a.projection.payload.elim .null Field.toJson),
    ("paging", a.projection.source.elim .null PagingSource.toJson),
    ("error", messageJson a.problem)]

/-! ### Learning -/

/-- **The schemas of an action as they are learned**: what is known so far,
and what was said on the way. -/
structure Learning where
  schema : ActionSchema
  notices : List Notice := []

namespace Learning

/-- A run as a step of learning. -/
def ofRun {α : Type} (x : Run α) : Effect Learning α := do
  modify fun l => { l with notices := l.notices ++ x.notices }
  Effect.ofExcept x.outcome

/-- Keeps what a step has found. -/
def keep (change : ActionSchema → ActionSchema) : Effect Learning Unit :=
  modify fun l => { l with schema := change l.schema }

@[simp]
theorem perform_ofRun {α : Type} (x : Run α) (l : Learning) :
    (ofRun x).perform l = (x.outcome, { l with notices := l.notices ++ x.notices }) := by
  rcases x with ⟨n, r⟩
  cases r <;> rfl

@[simp]
theorem perform_keep (change : ActionSchema → ActionSchema) (l : Learning) :
    (keep change).perform l = (.ok (), { l with schema := change l.schema }) := rfl

end Learning

/-- **Learns from an example** of the responses of an action, under the
override rules for it: first the response, and then, if the action is
paged, what paging makes of it. What one step has found is kept even if
the next one fails. A paged action without paged schemas is worth a
warning. -/
def learn (registry : OverrideRegistry) (endpoint example_ : Json) : Effect Learning Unit := do
  let action := (← get).schema.action
  let view ← Effect.ofExcept (registry.filter endpoint action.key)
  let response ← Learning.ofRun (infer view (.str action.responseName) example_)
  Learning.keep fun schema => { schema with response }
  let paged ← Effect.ofExcept action.isPaged
  let projection ← Learning.ofRun
    (Projection.of response (some (.str action.payloadName)) paged)
  Learning.keep fun schema => { schema with projection }
  if paged && !projection.isSupported then
    let scope := endpoint.display ++ "/" ++ action.key.display
    Learning.ofRun (Run.note .warning s!"Not generating paged variant for {scope}")

/-- **The schemas of an action** that an example is enough for, if nothing
goes wrong. -/
def ofExample (registry : OverrideRegistry) (endpoint : Json) (action : Action)
    (example_ : Json) : Run ActionSchema :=
  let (outcome, learned) := (learn registry endpoint example_).perform { schema := { action } }
  ⟨learned.notices, outcome.map fun _ => learned.schema⟩

end ActionSchema

/-- **The schemas of a service.** -/
structure ServiceSchema where
  service : Service
  actions : List ActionSchema := []
  /-- The service was left out on purpose. -/
  skipped : Bool := false
  /-- A problem outside the actions. -/
  problem : Option Problem := none
  deriving DecidableEq

namespace ServiceSchema

/-- The endpoint of the service. -/
def endpoint (s : ServiceSchema) : Except Fault String := s.service.endpoint

/-- **All problems**, those of the actions first. -/
def problems (s : ServiceSchema) : List Problem :=
  s.actions.filterMap (·.problem) ++ s.problem.toList

/-- Nothing went wrong. -/
def isOk (s : ServiceSchema) : Bool := s.problems.isEmpty

/-- **The schemas of a service as a document.** -/
def toJson (s : ServiceSchema) : Except Fault Json := do
  let endpoint ← s.endpoint
  let actions ← s.actions.mapM ActionSchema.toJson
  return .obj [("endpoint", .str endpoint), ("path", s.service.path), ("actions", .arr actions),
    ("error", ActionSchema.messageJson s.problem)]

end ServiceSchema

end Exemplar
