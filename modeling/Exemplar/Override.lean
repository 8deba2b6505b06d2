import Exemplar.Kind
import Exemplar.Run

/-!
# Override rules

An example may lie about its shape, and a rule corrects what is inferred
from it: at one dotted path of one action it forces a kind, gives a new
name, leaves the field out or makes it optional. The fields of a rule
are values of the document they come from. A rule is only made if its
endpoint, action and path are not empty and its value fits what it does
(`OverrideRule.make`), but nothing asks whether these are texts: a rule
addressed by anything else is kept and never met by a path.
-/

namespace Exemplar

/-- **What a rule does** to the field it addresses. -/
inductive OverrideKind where
  | forceType
  | rename
  | skip
  | optional
  deriving DecidableEq, Repr

namespace OverrideKind

/-- All there is to do. -/
def all : List OverrideKind := [forceType, rename, skip, optional]

/-- The word for what a rule does. -/
def word : OverrideKind → String
  | forceType => "force-type"
  | rename => "rename"
  | skip => "skip"
  | optional => "optional"

/-- The name that a rule told in full has for it. -/
def label : OverrideKind → String
  | forceType => "FORCE_TYPE"
  | rename => "RENAME"
  | skip => "SKIP"
  | optional => "OPTIONAL"

/-- What a word is for. -/
def ofJson? (v : Json) : Option OverrideKind := all.find? fun k => v = .str k.word

end OverrideKind

/-- **An override rule**, addressed by endpoint, action and path. -/
structure OverrideRule where
  endpoint : Json
  action : Json
  /-- The keys from the root of the response, joined by points; arrays
  add nothing. -/
  path : Json
  kind : OverrideKind
  /-- The forced kind or the new name. -/
  value : Json := .null
  deriving DecidableEq

namespace OverrideRule

/-- The rule in full, for a message. -/
def inFull (r : OverrideRule) : String :=
  s!"OverrideRule(endpoint={r.endpoint.quoted}, action={r.action.quoted}, "
    ++ s!"path={r.path.quoted}, kind=<OverrideAction.{r.kind.label}: '{r.kind.word}'>, "
    ++ s!"value={r.value.quoted})"

/-- The value, the empty text if it counts as false. -/
def token (r : OverrideRule) : Json := if r.value.truthy then r.value else .str ""

/-- What is wrong with a rule: it addresses nothing, forces a kind that
is none, or renames to nothing. -/
def flaw? (r : OverrideRule) : Option RuleFlaw :=
  if !r.endpoint.truthy || !r.action.truthy || !r.path.truthy then some (.incomplete r.inFull)
  else if r.kind = .forceType ∧ (Kind.ofToken? r.token).isNone then
    some (.unknownType r.path r.token)
  else if r.kind = .rename ∧ !r.value.truthy then some (.unnamed r.path)
  else none

/-- **Makes a rule**, if nothing is wrong with it. -/
def make (r : OverrideRule) : Except Fault OverrideRule :=
  match r.flaw? with
  | some flaw => .error (.ofCause (.override flaw))
  | none => .ok r

/-- The kind that a rule forces. -/
def forcedKind? (r : OverrideRule) : Option Kind :=
  if r.kind = .forceType then Kind.ofToken? r.value else none

/-- **A rule from a document.** It must say what it does; what else it
lacks is empty. -/
def ofJson : Json → Except Fault OverrideRule
  | .obj members =>
    let member (key : String) (default : Json) := (Json.find? key members).getD default
    match Json.find? "kind" members with
    | none => .error (.ofCause (.override (.kindMissing (.obj members))))
    | some v =>
      match OverrideKind.ofJson? v with
      | none => .error (.ofCause (.override (.kindUnknown (.obj members))))
      | some kind =>
        make ⟨member "endpoint" (.str ""), member "action" (.str ""),
          member "path" (.str ""), kind, member "value" .null⟩
  | v => .error (.breach (.wrongType s!"'{v.typeWord}' has no member 'kind'"))

/-- A rule as a document. -/
def toJson (r : OverrideRule) : Json :=
  .obj [("endpoint", r.endpoint), ("action", r.action), ("path", r.path),
    ("kind", .str r.kind.word), ("value", r.value)]

/-- A rule with texts in its address. -/
def of (endpoint action path : String) (kind : OverrideKind) (value : Json) : OverrideRule :=
  ⟨.str endpoint, .str action, .str path, kind, value⟩

/-- **The built-in rules**: corrections of examples that are known to lie
about their shape. -/
def builtIn : List OverrideRule := [
  of "issues" "search" "issues.flows.locations.msgFormattings" .optional .null,
  of "measures" "component" "component.measures.value" .forceType (.str "string"),
  of "measures" "search_history" "measures.history.value" .forceType (.str "string"),
  of "qualitygates" "project_status" "projectStatus.periods" .optional .null,
  of "system" "info" "System" .forceType (.str "opaque")]

end OverrideRule

end Exemplar
