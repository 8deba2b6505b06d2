import Exemplar.Json.Key
import Exemplar.Naming
import Exemplar.Paging

/-!
# The catalog of a server

A server describes itself: services, their actions, and the parameters
and the history of each action. The catalog keeps the described fields as
the values they are. Only what the structure itself needs is asked for
when it is read – a service has a path, an action and a parameter have a
key, and whatever should be a list can be walked over – and everything
else is asked where it is used.
-/

namespace Exemplar

/-- **A parameter of an action.** -/
structure Param where
  key : Json
  description : Json := .str ""
  internal : Json := .bool false
  required : Json := .bool false
  since : Json := .str ""
  deprecatedSince : Json := .str ""
  deriving DecidableEq

/-- **An entry in the history of an action.** -/
structure Change where
  version : Json := .str ""
  description : Json := .str ""
  deriving DecidableEq

/-- **An action of a service.** -/
structure Action where
  key : Json
  description : Json := .str ""
  internal : Json := .bool false
  post : Json := .bool false
  /-- The server has an example of the response. -/
  hasExample : Json := .bool false
  params : List Param := []
  changes : List Change := []
  since : Json := .str ""
  deprecatedSince : Json := .str ""
  deriving DecidableEq

/-- **A service** and its actions. -/
structure Service where
  path : Json
  description : Json := .str ""
  /-- The actions, unless the list of them is lost. -/
  actions : Option (List Action) := some []
  deriving DecidableEq

/-- **The catalog**: all services of a server. -/
structure Catalog where
  services : List Service := []
  deriving DecidableEq

/-! ## Reading a catalog -/

namespace Catalog

/-- The member of an object, or a value for a member it lacks. -/
def memberOr (default : Json) (key : String) (members : List (String × Json)) : Json :=
  (Json.find? key members).getD default

/-- A member that an object must have. -/
def requiredMember (key : String) (members : List (String × Json)) : Except Fault Json :=
  match Json.find? key members with
  | some v => .ok v
  | none => .error (.breach (.missingKey key))

/-- The values of a member that is walked over; a member that an object
lacks has none. -/
def listMember (key : String) (members : List (String × Json)) : Except Fault (List Json) :=
  let v := memberOr (.arr []) key members
  match v.elements? with
  | some items => .ok items
  | none => .error (.breach (.notIterable v))

/-- What is said of a value that should be an object with a member. -/
def notObject (v : Json) : Fault :=
  .breach (.wrongType s!"'{v.typeWord}' object is not subscriptable")

end Catalog

open Catalog in
/-- Reads a parameter. -/
def Param.ofJson : Json → Except Fault Param
  | .obj ms => do
    let key ← requiredMember "key" ms
    return {
      key
      description := memberOr (.str "") "description" ms
      internal := memberOr (.bool false) "internal" ms
      required := memberOr (.bool false) "required" ms
      since := memberOr (.str "") "since" ms
      deprecatedSince := memberOr (.str "") "deprecatedSince" ms }
  | v => .error (notObject v)

open Catalog in
/-- Reads an entry of the history. -/
def Change.ofJson : Json → Except Fault Change
  | .obj ms => .ok {
      version := memberOr (.str "") "version" ms
      description := memberOr (.str "") "description" ms }
  | v => .error (.breach (.noAttribute v "get"))

open Catalog in
/-- Reads an action. -/
def Action.ofJson : Json → Except Fault Action
  | .obj ms => do
    let key ← requiredMember "key" ms
    let params ← (← listMember "params" ms).mapM Param.ofJson
    let changes ← (← listMember "changelog" ms).mapM Change.ofJson
    return {
      key, params, changes
      description := memberOr (.str "") "description" ms
      internal := memberOr (.bool false) "internal" ms
      post := memberOr (.bool false) "post" ms
      hasExample := memberOr (.bool false) "hasResponseExample" ms
      since := memberOr (.str "") "since" ms
      deprecatedSince := memberOr (.str "") "deprecatedSince" ms }
  | v => .error (notObject v)

open Catalog in
/-- Reads a service. -/
def Service.ofJson : Json → Except Fault Service
  | .obj ms => do
    let path ← requiredMember "path" ms
    let actions ← (← listMember "actions" ms).mapM Action.ofJson
    return { path, description := memberOr (.str "") "description" ms, actions := some actions }
  | v => .error (notObject v)

/-- Reads the services of a catalog. -/
def Catalog.parse : Json → Except Fault Catalog
  | .obj ms => do
    let services ← (← listMember "webServices" ms).mapM Service.ofJson
    return { services }
  | v => .error (.breach (.noAttribute v "get"))

/-- **Reads a catalog.** -/
def Catalog.ofJson (v : Json) : Run Catalog := do
  let catalog ← Run.ofExcept (Catalog.parse v)
  Run.note .info s!"Catalog lists {catalog.services.length} web services"
  pure catalog

/-! ## Actions -/

namespace Action

/-- The name of an action, from its key. -/
def id (a : Action) : String := Naming.toCamel a.key.display

/-- The name of the type of its requests. -/
def requestName (a : Action) : String := a.id ++ "Request"

/-- The name of the type of its responses. -/
def responseName (a : Action) : String := a.id ++ "Response"

/-- The name of the type of what its responses hold on all pages. -/
def payloadName (a : Action) : String := a.id ++ "ResponseAll"

/-- **An action is paged** if it takes a page index and a page size. -/
def isPaged (a : Action) : Except Fault Bool :=
  match a.params.find? (·.key.isContainer) with
  | some p => .error (.breach (.unhashable p.key))
  | none => .ok (a.params.any (·.key = .str Paging.indexKey)
      && a.params.any (·.key = .str Paging.sizeKey))

end Action

/-! ## Services -/

namespace Service

/-- The last part of a path, slashes at the end not counted. -/
def lastPart (path : List Char) : List Char :=
  ((Text.dropEndWhile (· == '/') path).reverse.takeWhile (· != '/')).reverse

/-- **The endpoint of a service**: the last part of its path. -/
def endpoint (s : Service) : Except Fault String :=
  match s.path with
  | .str p => .ok (String.ofList (lastPart p.toList))
  | v => .error (.breach (.noAttribute v "rstrip"))

/-- The name of what gives a client of the service. -/
def getterName (s : Service) : Except Fault String := Naming.toCamel <$> s.endpoint

/-- The action with a key. -/
def action? (s : Service) (key : Json) : Option Action :=
  (s.actions.getD []).find? (·.key.equals key)

end Service

/-- The first of some services with a given endpoint or path. -/
def Catalog.findIn (wanted : Json) : List Service → Except Fault (Option Service)
  | [] => .ok none
  | s :: rest => do
    if (Json.str (← s.endpoint)).equals wanted || s.path.equals wanted then return some s
    else findIn wanted rest

/-- **The service with an endpoint or path.** -/
def Catalog.find? (c : Catalog) (wanted : Json) : Except Fault (Option Service) :=
  Catalog.findIn wanted c.services

end Exemplar
