import Exemplar.Code.Request
import Exemplar.Code.Response
import Exemplar.ServiceSchema
import Exemplar.Template

/-!
# The module of a service

A module holds the definitions for all actions of a service, in the
order of the catalog; actions that failed are left out. The names of all
roots are taken before the first definition is drafted, so no nested
record can be called like a root of another action. The record for
flattened positions comes first, if any action needs it.
-/

namespace Exemplar.Code

/-! ## Definitions of an action -/

/-- The names of the roots of an action. -/
def rootNames (a : Action) : List String := [a.requestName, a.responseName, a.payloadName]

/-- **The definitions of an action**: the request, the response, and,
if the action is paged, the payload. -/
def actionDefinitions (a : ActionSchema) : Draft (List Definition) := do
  let action := a.action
  let paged := a.projection.isSupported
  Draft.take (rootNames action)
  let request ← Effect.ofExcept action.request
  let response ← rootOf action.responseName
    s!"{action.responseName} is the response for {action.requestName}"
    (if paged then a.projection.source else none) a.response
  let payload ← if paged then
      rootOf action.payloadName
        s!"{action.payloadName} is the collection for {action.requestName}" none
        (a.projection.payload.getD .absent)
    else pure []
  pure (.record request :: response ++ payload)

/-! ## Definitions of a service -/

/-- Some action has its position in flattened fields. -/
def needsPagingRecord (s : ServiceSchema) : Bool :=
  s.actions.any fun a => a.projection.isSupported && a.projection.source.any (!·.isNested)

/-- Takes the names of the roots, and gives the actions to be drafted.
Those that failed are left out. -/
def takeRoots (s : ServiceSchema) : List ActionSchema → Draft (List ActionSchema)
  | [] => pure []
  | a :: rest =>
    if a.problem.isSome then do
      let endpoint ← Effect.ofExcept s.endpoint
      let key := a.action.key.display
      Draft.say .debug s!"Not rendering failed action {endpoint}/{key}"
      takeRoots s rest
    else do
      Draft.take (rootNames a.action)
      return a :: (← takeRoots s rest)

/-- The definitions of several actions, in order. -/
def allDefinitions : List ActionSchema → Draft (List Definition)
  | [] => pure []
  | a :: rest => do
    let definitions ← actionDefinitions a
    return definitions ++ (← allDefinitions rest)

/-- **The definitions of a service.** -/
def serviceDefinitions (s : ServiceSchema) : Draft (List Definition) := do
  let helpers := if needsPagingRecord s then [pagingRecord] else []
  Draft.take (helpers.map Record.name)
  let actions ← takeRoots s s.actions
  return helpers.map .record ++ (← allDefinitions actions)

/-! ## Text of a module -/

/-- What stands at the top of every generated file. -/
def warning : String := "# AUTOMATICALLY GENERATED, DO NOT EDIT BY HAND!"

/-- How a module starts. -/
def headerTemplate : String :=
  "$\x7bwarning\x7d\n\"\"\"$\x7bdocstring\x7d\"\"\"\n\n$\x7bimports\x7d\n"

/-- **The header of a module**, with a description and lines of
imports. -/
def header (description : Json) (imports : List String) : String :=
  Template.text [("warning", .str warning),
      ("docstring", .str (String.ofList (Description.escape description))),
      ("imports", .str ("\n".intercalate imports))]
    (Template.pieces headerTemplate)

/-- The imports of every module. -/
def imports : List String := [
  "import dataclasses",
  "from dataclasses import dataclass",
  "from typing import Any, List, Optional"]

/-- What the module of a service says of itself. -/
def moduleDescription (s : Service) : String :=
  let title := "Types for " ++ s.path.display
  if s.description.truthy then title ++ "\n\n" ++ s.description.display else title

/-- **The text of a module.** -/
def moduleText (s : Service) (definitions : List Definition) : String :=
  header (.str (moduleDescription s)) imports ++ "\n\n"
    ++ "\n\n".intercalate (definitions.map Definition.render)

/-- **The module of a service**, with no name taken at the start. -/
def serviceModule (s : ServiceSchema) : Draft String := do
  Draft.release
  let definitions ← serviceDefinitions s
  pure (moduleText s.service definitions)

/-- The name of the module of an endpoint. -/
def moduleName (endpoint : String) : String := Naming.attributeName endpoint

end Exemplar.Code
