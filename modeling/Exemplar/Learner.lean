import Exemplar.Config
import Exemplar.ServiceSchema
import Exemplar.Session

/-!
# Learning the schemas of a service

A learner goes through the actions of a service, in the order of the
catalog, gets the example of each from a source, and learns its schemas.
Whatever goes wrong with an action is noted as the problem of that action
and of no other: what comes up for one action never depends on how
another one fared, only on the source and the rules.
-/

namespace Exemplar

/-- **A source of examples**: it gives the example of an action, known by
its endpoint and its key, or fails in whatever way. -/
abbrev ExampleSource := Json → Json → Session Json

/-- **What a learner works with.** -/
structure Learner where
  examples : ExampleSource
  registry : OverrideRegistry
  config : GeneratorConfig

namespace Learner

/-- The problem of an action, from what went wrong. -/
def problemOf (f : Fault) (endpoint : String) (action : Action) : Problem :=
  f.toProblem.attributeTo (.str endpoint) action.key

/-- What is said of an action that failed. -/
def failureText (f : Fault) (endpoint : String) (action : Action) : String :=
  let key := action.key.display
  match f with
  | .problem _ =>
    let message := (problemOf f endpoint action).message
    s!"Failed to generate {endpoint}/{key}: {message}"
  | .breach _ => s!"Unexpected error in {endpoint}/{key}"

/-- Ends an action that failed with what is known of it by then. -/
def failed (endpoint : String) (schema : ActionSchema) (f : Fault) : Session ActionSchema := do
  Session.say .error (failureText f endpoint schema.action)
  pure { schema with problem := some (problemOf f endpoint schema.action) }

/-- **Learns the schemas of an action.** It never fails: what goes wrong is
the problem of the action. An action without an example has an empty
schema. -/
def action (v : Learner) (endpoint : String) (a : Action) : Session ActionSchema := do
  let schema : ActionSchema := { action := a }
  if !a.hasExample.truthy then pure schema
  else
    match ← Effect.try_ (v.examples (.str endpoint) a.key) with
    | .error f => failed endpoint schema f
    | .ok found =>
      let (outcome, learned) :=
        (ActionSchema.learn v.registry (.str endpoint) found).perform { schema }
      match ← Effect.try_ (Session.ofRun ⟨learned.notices, outcome⟩) with
      | .ok () => pure learned.schema
      | .error f => failed endpoint learned.schema f

/-- Learns the schemas of the actions of an endpoint that are not left
out. -/
def actions (v : Learner) (endpoint : String) : List Action → Session (List ActionSchema)
  | [] => pure []
  | a :: rest => do
    let key := a.key.display
    if v.config.skipsAction endpoint a.key then
      Session.say .info s!"Skipping action '{endpoint}/{key}'"
      v.actions endpoint rest
    else
      Session.say .info s!"Processing '{endpoint}' - '{key}'"
      let schema ← v.action endpoint a
      return schema :: (← v.actions endpoint rest)

/-- **Learns the schemas of a service.** It fails only if the service has
no endpoint or has lost its actions. -/
def service (v : Learner) (s : Service) : Session ServiceSchema := do
  let endpoint ← Effect.ofExcept s.endpoint
  if v.config.skipsEndpoint endpoint then
    Session.say .info s!"Skipping endpoint '{endpoint}'"
    pure { service := s, skipped := true }
  else
    match s.actions with
    | none => Effect.breach (.notIterable .null)
    | some as => return { service := s, actions := ← v.actions endpoint as }

end Learner

end Exemplar
