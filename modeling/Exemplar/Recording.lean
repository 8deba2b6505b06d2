import Exemplar.Json.Display
import Exemplar.Json.Writer
import Exemplar.Server

/-!
# Recorded servers

A recording is a document that holds the replies of a server: the one for
the catalog, and one for each example, by the name of the service and the
key of the action. A reply is a failed connection with its message, or a
status, a reason and a body, where the body may also be given as the
value that it is the text of. What a recording lacks was not found.
-/

namespace Exemplar.Recording

/-- The member of a value that is an object, `null` for what it lacks. -/
def member (key : String) : Json → Json
  | .obj ms => (Json.find? key ms).getD .null
  | _ => .null

/-- The reply to a query that the server knows nothing about. -/
def notFound : Reply := .answered 404 "Not Found" ""

/-- The body of a recorded reply. -/
def body (ms : List (String × Json)) : String :=
  match Json.find? "json" ms, Json.find? "body" ms with
  | some v, _ => v.write
  | none, some v => v.display
  | none, none => ""

/-- **A recorded reply.** -/
def reply : Json → Reply
  | .obj ms =>
    if (Json.find? "raise" ms).isSome then
      .failed ((Json.find? "message" ms).getD (.str "")).display
    else
      let status := match Json.find? "status" ms with
        | some (.int n) => n
        | _ => 200
      .answered status ((Json.find? "reason" ms).getD (.str "OK")).display (body ms)
  | _ => notFound

/-- **The server that a recording stands for.** -/
def server (recording : Json) : Server
  | .catalog _ => reply (member "catalog" recording)
  | .example_ controller action =>
    reply (member (controller ++ "/" ++ action.display) (member "examples" recording))

end Exemplar.Recording
