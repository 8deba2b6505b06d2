import Exemplar.Fetch
import Exemplar.Learner

/-!
# Surveys

A survey learns the schemas of all services of a catalog, in order, from
the examples that a server has. What goes wrong with one service is noted
as the problem of that service, so that the others are surveyed all the
same.
-/

namespace Exemplar

/-- **What a survey works with.** -/
structure Survey where
  server : Server
  fetcher : Fetcher
  registry : OverrideRegistry
  config : GeneratorConfig

namespace Survey

/-- **The learner of a survey**: its examples are fetched from the
server. -/
def learner (v : Survey) : Learner where
  examples := Fetcher.fetchExample v.server v.fetcher
  registry := v.registry
  config := v.config

/-- **Surveys an action.** -/
def action (v : Survey) : String → Action → Session ActionSchema := v.learner.action

/-- **Surveys a service.** -/
def service (v : Survey) : Service → Session ServiceSchema := v.learner.service

/-- **Surveys a service of several.** What goes wrong outside the actions
is the problem of the service, so that the others are surveyed all the
same; a service without an endpoint still fails. -/
def oneOfMany (v : Survey) (s : Service) : Session ServiceSchema := do
  let path := s.path.display
  Session.say .info s!"Processing service at path {path}"
  match ← Effect.try_ (v.service s) with
  | .ok schema => pure schema
  | .error f =>
    Session.say .error s!"Unexpected error in service {path}"
    let endpoint ← Effect.ofExcept s.endpoint
    pure { service := s, problem := some (f.toProblem.attributeTo (.str endpoint) .null) }

/-- **Surveys all services of a catalog**, in order. All are surveyed
before the first failure counts. -/
def catalog (v : Survey) (c : Catalog) : Session (List ServiceSchema) := do
  let outcomes ← Effect.forEach (fun s => Effect.try_ (v.oneOfMany s)) c.services
  Effect.ofExcept (outcomes.mapM id)

end Survey

end Exemplar
