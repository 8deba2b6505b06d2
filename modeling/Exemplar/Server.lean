import Exemplar.Json.Reader

/-!
# The server

A server is asked two things: its catalog, and the example of one action.
What it answers is a reply with a status and a body, or nothing at all,
when the connection fails. A reply counts as a document if its status
does not say otherwise and its body reads as JSON (`Reply.document`).
-/

namespace Exemplar

/-- **What a server is asked.** An action is known by its key as the
catalog has it. -/
inductive Query where
  | catalog (internals : Bool)
  | example_ (controller : String) (action : Json)
  deriving DecidableEq

namespace Query

/-- Where a query goes on a server. -/
def path : Query → String
  | catalog _ => "/api/webservices/list"
  | example_ _ _ => "/api/webservices/response_example"

/-- The parameters of a query. -/
def params : Query → List (String × Json)
  | catalog internals => if internals then [("include_internals", .str "true")] else []
  | example_ controller action => [("action", action), ("controller", .str controller)]

end Query

/-- **A request** as it is sent. -/
structure Request where
  host : String
  query : Query
  /-- How many seconds to wait. -/
  timeout : Json
  /-- Who asks, `null` if that is not told. -/
  authorization : Json
  deriving DecidableEq

namespace Request

/-- The address that a request goes to. -/
def url (r : Request) : String := r.host ++ r.query.path

/-- What a request accepts as a reply. -/
def accept : String := "application/json"

end Request

/-- **A reply**: none, since the connection failed, or a status with its
reason and a body. -/
inductive Reply where
  | failed (message : String)
  | answered (status : Int) (reason body : String)
  deriving DecidableEq, Repr

/-- **A server**, by its replies. -/
abbrev Server := Query → Reply

/-- Why there is no document in a reply. -/
inductive ReplyTrouble where
  /-- There is no reply, or it says that something went wrong, or its body
  is no JSON. -/
  | unreachable (reason : String)
  /-- The body holds a number that is too long. -/
  | unreadable (reason : String)
  /-- The body is nested too deep. -/
  | tooDeep (reason : String)
  deriving DecidableEq, Repr

namespace Reply

/-- The reply asks who is there. -/
def isUnauthorized : Reply → Bool
  | answered status _ _ => status = 401
  | failed _ => false

/-- **The body of a reply**, unless its status says that something went
wrong: on the side of whoever asks, or on the side of the server. -/
def body? (url : String) : Reply → Except String String
  | failed message => .error message
  | answered status reason body =>
    if 400 ≤ status ∧ status < 500 then
      .error s!"{status} Client Error: {reason} for url: {url}"
    else if 500 ≤ status ∧ status < 600 then
      .error s!"{status} Server Error: {reason} for url: {url}"
    else .ok body

/-- **The document in a reply.** -/
def document (url : String) (r : Reply) : Except ReplyTrouble Json :=
  match r.body? url with
  | .error reason => .error (.unreachable reason)
  | .ok body =>
    match Json.decode body with
    | .ok v => .ok v
    | .error e =>
      match e with
      | .malformed _ _ _ _ => .error (.unreachable e.message)
      | .tooLong _ => .error (.unreadable e.message)
      | .tooDeep _ => .error (.tooDeep e.message)

end Reply

end Exemplar
