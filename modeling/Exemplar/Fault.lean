import Exemplar.Json.Display

/-!
# What can go wrong

Two sorts of failure run through the library. A **problem** is one it
knows and names: an example whose shapes clash, two keys that would
render alike, an example that cannot be fetched. A problem carries the
endpoint and action it belongs to once these are known, so a report can
blame one action without touching its siblings. A **breach** is data
that breaks what the code relies on – a number where a text is needed, a
member that is not there – and is passed on as it is until somebody
turns it into the problem `Cause.unexpected`.

Causes are values and not wording; the wording is `Cause.message`.
-/

namespace Exemplar

/-! ## Breaches -/

/-- The sorts of breach. -/
inductive Breach.Sort where
  | wrongType
  | noAttribute
  | missingKey
  | badValue
  | badEncoding
  | tooDeep
  | pathTaken
  | fileMissing
  | notDirectory
  | isDirectory
  | fileTrouble
  /-- Another sort, by its label: what comes from outside the library may
  break in ways of its own. -/
  | other (label : String)
  deriving DecidableEq, Repr

/-- The label of a sort of breach in a report. -/
def Breach.Sort.label : Breach.Sort → String
  | .wrongType => "TypeError"
  | .noAttribute => "AttributeError"
  | .missingKey => "KeyError"
  | .badValue => "ValueError"
  | .badEncoding => "UnicodeDecodeError"
  | .tooDeep => "RecursionError"
  | .pathTaken => "FileExistsError"
  | .fileMissing => "FileNotFoundError"
  | .notDirectory => "NotADirectoryError"
  | .isDirectory => "IsADirectoryError"
  | .fileTrouble => "OSError"
  | .other label => label

/-- **A breach**: its sort, and what is said of it. -/
structure Breach where
  sort : Breach.Sort
  text : String
  deriving DecidableEq, Repr

namespace Breach

/-- A value of the wrong type. -/
def wrongType (text : String) : Breach := ⟨.wrongType, text⟩

/-- A value that is asked for something that values of its type do not
have. -/
def noAttribute (value : Json) (name : String) : Breach :=
  ⟨.noAttribute, s!"'{value.typeWord}' object has no attribute '{name}'"⟩

/-- An object without a member it must have. -/
def missingKey (key : String) : Breach := ⟨.missingKey, Text.quoted key⟩

/-- A value that cannot be walked over. -/
def notIterable (value : Json) : Breach :=
  ⟨.wrongType, s!"'{value.typeWord}' object is not iterable"⟩

/-- A container where a key of an index is needed. -/
def unhashable (value : Json) : Breach :=
  ⟨.wrongType, s!"unhashable type: '{value.typeWord}'"⟩

/-- Two values of which neither comes before the other. -/
def incomparable (a b : Json) : Breach :=
  ⟨.wrongType,
    s!"'<' not supported between instances of '{a.typeWord}' and '{b.typeWord}'"⟩

end Breach

/-! ## Problems -/

/-- What an array element or a field can be, for telling shapes apart. -/
inductive Shape where
  | map
  | collection
  | scalar
  | empty
  deriving DecidableEq, Repr

/-- The word for a shape. -/
def Shape.word : Shape → String
  | .map => "map"
  | .collection => "collection"
  | .scalar => "scalar"
  | .empty => "empty"

/-- **How shapes clash.** -/
inductive Clash where
  /-- An object meets something of another shape. -/
  | objectMet (other : Shape)
  /-- An array holds an object and, elsewhere, a scalar or an array. -/
  | arrayMixes (object : Nat) (other : String) (otherAt : Nat)
  /-- A clash that shows when the given element joins those before it. -/
  | inElement (clash : Clash) (index : Nat)
  /-- The example is nested too deep to be walked. -/
  | tooDeep
  deriving DecidableEq, Repr

/-- The wording of a clash. -/
def Clash.message : Clash → String
  | .objectMet other => s!"object mixed with {other.word}"
  | .arrayMixes object other otherAt =>
    s!"array mixes object (element {object}) with {other} (element {otherAt})"
  | .inElement clash index => s!"{clash.message} (element {index})"
  | .tooDeep => "nesting too deep (recursion limit 1000)"

/-- **Why a catalog or an example could not be had.** -/
inductive FetchFailure where
  | unauthorized (url : String)
  | catalogUnreachable (url reason : String)
  | catalogUnreadable (url reason : String)
  | exampleUnreachable (reason : String)
  | exampleUnreadable (reason : String)
  | exampleNotObject
  | exampleBlank
  | exampleMalformed (reason : String)
  deriving DecidableEq, Repr

/-- The wording of a fetch failure. -/
def FetchFailure.message : FetchFailure → String
  | .unauthorized url => s!"Authorization failed for {url}"
  | .catalogUnreachable url reason => s!"Could not fetch web services from {url}: {reason}"
  | .catalogUnreadable url reason => s!"Invalid JSON from {url}: {reason}"
  | .exampleUnreachable reason => s!"Could not fetch example: {reason}"
  | .exampleUnreadable reason => s!"Could not decode example body: {reason}"
  | .exampleNotObject => "Example body is not an object"
  | .exampleBlank => "Empty JSON example"
  | .exampleMalformed reason => s!"Could not decode JSON example: {reason}"

/-- **What is wrong with an override rule** or a file of them. -/
inductive RuleFlaw where
  /-- Endpoint, action or path is empty; the rule is told in full. -/
  | incomplete (rule : String)
  /-- A forced kind that is none. -/
  | unknownType (path token : Json)
  /-- A new name that is empty. -/
  | unnamed (path : Json)
  /-- The rule does not say what it does. -/
  | kindMissing (rule : Json)
  /-- The rule does something there is no word for. -/
  | kindUnknown (rule : Json)
  /-- The file cannot be read as a document. -/
  | unreadable (file reason : String)
  /-- The document is no list. -/
  | notList (file : String)
  deriving DecidableEq

/-- The wording of a flaw. -/
def RuleFlaw.message : RuleFlaw → String
  | .incomplete rule => s!"Override rule needs endpoint, action and path: {rule}"
  | .unknownType path token =>
    s!"Invalid force-type rule {path.display}: Unknown field type token: {token.quoted}"
  | .unnamed path => s!"Rename rule for {path.display} has no new name"
  | .kindMissing rule => s!"Override rule missing field 'kind': {rule.display}"
  | .kindUnknown rule => s!"Unknown override kind in {rule.display}"
  | .unreadable file reason => s!"Could not read overrides from {file}: {reason}"
  | .notList file => s!"Overrides file {file} must contain a JSON list"

/-- **The cause of a problem.** -/
inductive Cause where
  /-- Values at one path, or the elements of an array, have shapes that
  cannot be merged. -/
  | shapeConflict (path : String) (clash : Clash)
  /-- Several keys render as the same name. -/
  | accessorConflict (accessor : Json) (owners : List Json)
  /-- An example is in a format outside the known ones. -/
  | unsupportedFormat (tag : Json)
  | fetch (failure : FetchFailure)
  | override (flaw : RuleFlaw)
  /-- A breach that was caught. -/
  | unexpected (breach : Breach)
  deriving DecidableEq

/-- The wording of a cause. -/
def Cause.message : Cause → String
  | .shapeConflict path clash =>
    let place := if path = "" then "<root>" else path
    s!"shape conflict at '{place}': {clash.message}"
  | .accessorConflict accessor owners =>
    let keys := ", ".intercalate (owners.map Json.quoted)
    s!"keys {keys} all render as accessor '{accessor.display}'"
  | .unsupportedFormat tag => s!"unsupported response format '{tag.display}'"
  | .fetch failure => failure.message
  | .override flaw => flaw.message
  | .unexpected breach => s!"unexpected {breach.sort.label}: {breach.text}"

/-- **A problem**: a cause, and the endpoint and action it is attributed
to. Both are known by their keys as the catalog or whoever asks has them,
and `null` stands for no attribution. -/
structure Problem where
  cause : Cause
  endpoint : Json := .null
  action : Json := .null
  deriving DecidableEq

namespace Problem

/-- **Attributes a problem** to an endpoint and an action, so far as it is
not attributed yet. -/
def attributeTo (p : Problem) (endpoint action : Json) : Problem where
  cause := p.cause
  endpoint := if p.endpoint = .null then endpoint else p.endpoint
  action := if p.action = .null then action else p.action

/-- An attributed problem keeps its cause. -/
@[simp]
theorem cause_attributeTo (p : Problem) (endpoint action : Json) :
    (p.attributeTo endpoint action).cause = p.cause := rfl

/-- The endpoint and action in front of a message; a question mark for
what is not known. -/
def place (p : Problem) : String :=
  let shown (v : Json) := if v.truthy then v.display else "?"
  if p.endpoint = .null ∧ p.action = .null then ""
  else "[" ++ shown p.endpoint ++ "/" ++ shown p.action ++ "] "

/-- **The message of a problem.** -/
def message (p : Problem) : String := p.place ++ p.cause.message

end Problem

/-- **A failure**: a problem or a breach. -/
inductive Fault where
  | problem (p : Problem)
  | breach (b : Breach)
  deriving DecidableEq

/-- Results that can be compared, values and errors alike. -/
instance decidableEqResult {ε α : Type} [DecidableEq ε] [DecidableEq α] :
    DecidableEq (Except ε α)
  | .ok a, .ok b => decidable_of_iff (a = b) (by simp)
  | .error a, .error b => decidable_of_iff (a = b) (by simp)
  | .ok _, .error _ => isFalse (by simp)
  | .error _, .ok _ => isFalse (by simp)

namespace Fault

/-- A problem without attribution. -/
def ofCause (cause : Cause) : Fault := .problem (Problem.mk cause .null .null)

/-- Attributes the failure, if it is a problem. -/
def attributeTo (f : Fault) (endpoint action : Json) : Fault :=
  match f with
  | .problem p => .problem (p.attributeTo endpoint action)
  | .breach b => .breach b

/-- The failure as a problem: a breach becomes an unexpected one. -/
def toProblem : Fault → Problem
  | .problem p => p
  | .breach b => Problem.mk (.unexpected b) .null .null

end Fault

end Exemplar
