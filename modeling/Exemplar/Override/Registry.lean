import Exemplar.Files
import Exemplar.Json.Key
import Exemplar.Json.Reader
import Exemplar.Override
import Exemplar.Text.Utf8

/-!
# The registry of override rules

All rules of a run, in the order in which they were given. An action
looks at the registry through a **view**, the rules of its endpoint and
action; a path looks at a view through the rules addressed to it, and
the first rule of a kind decides. Listing a registry sorts it by
endpoint, action and path and keeps the order of rules with one address.

The parts of an address are keys of an index (`Json.key`), so they cannot
be arrays or objects, and they can be listed only if they can be
compared: texts with texts, and numbers with numbers.
-/

namespace Exemplar

/-! ## Views -/

/-- **The rules of one action.** -/
structure OverrideView where
  endpoint : Json
  action : Json
  rules : List OverrideRule
  deriving DecidableEq

namespace OverrideView

/-- The view without rules. -/
def empty : OverrideView := ⟨.str "", .str "", []⟩

/-- **The rules addressed to a path**, in their order. -/
def lookup (v : OverrideView) (path : Json) : List OverrideRule :=
  v.rules.filter fun r => r.path.key = path.key

/-- The first rule of a kind that is addressed to a path. -/
def first? (v : OverrideView) (path : Json) (kind : OverrideKind) : Option OverrideRule :=
  (v.lookup path).find? (·.kind = kind)

/-- The field at a path is left out. -/
def isSkipped (v : OverrideView) (path : Json) : Bool := (v.first? path .skip).isSome

/-- The kind forced on the field at a path. -/
def forcedKind? (v : OverrideView) (path : Json) : Option Kind :=
  (v.first? path .forceType).bind (·.forcedKind?)

/-- The new name of the field at a path. -/
def renamed? (v : OverrideView) (path : Json) : Option Json :=
  (v.first? path .rename).map (·.value)

/-- The field at a path may be absent. -/
def isOptional (v : OverrideView) (path : Json) : Bool := (v.first? path .optional).isSome

/-- Endpoint and action, for a notice. -/
def scope (v : OverrideView) : String := v.endpoint.display ++ "/" ++ v.action.display

/-- The number of rules. -/
def size (v : OverrideView) : Nat := v.rules.length

/-- The view in brief. -/
def summary (v : OverrideView) : String := s!"OverrideView({v.scope}, {v.size} rules)"

/-- **The paths with rules**, each once, in ascending order. -/
def paths (v : OverrideView) : Except Fault (List Json) :=
  Json.ascending (Json.distinct (v.rules.map (·.path)))

end OverrideView

/-! ## The registry -/

/-- **All rules**, in the order in which they were given. -/
structure OverrideRegistry where
  given : List OverrideRule

namespace OverrideRegistry

/-- A part of an address that is an array or an object. -/
def unusable? (r : OverrideRule) : Option Json :=
  [r.endpoint, r.action, r.path].find? (·.isContainer)

/-- The rule, if its address can be an index. -/
def checkAddress (r : OverrideRule) : Except Fault OverrideRule :=
  match unusable? r with
  | some v => .error (.breach (.unhashable v))
  | none => .ok r

/-- **The registry of some rules.** -/
def ofRules (rules : List OverrideRule) : Except Fault OverrideRegistry := do
  let given ← rules.mapM checkAddress
  return ⟨given⟩

/-- The registry of the rules of some documents. -/
def ofJsons (items : List Json) : Except Fault OverrideRegistry := do
  let given ← items.mapM fun item => do checkAddress (← OverrideRule.ofJson item)
  return ⟨given⟩

/-- The view of an endpoint and an action. -/
def view (g : OverrideRegistry) (endpoint action : Json) : OverrideView :=
  ⟨endpoint, action, g.given.filter fun r =>
    r.endpoint.key = endpoint.key ∧ r.action.key = action.key⟩

/-- **The view of one action**: the rules of its endpoint and action. -/
def filter (g : OverrideRegistry) (endpoint action : Json) : Except Fault OverrideView := do
  endpoint.checkKey
  action.checkKey
  return g.view endpoint action

/-! ## Listing -/

/-- One address comes before another: the first parts that differ decide. -/
def addressBefore? (a b : OverrideRule) : Option Bool :=
  if a.endpoint.key ≠ b.endpoint.key then a.endpoint.before? b.endpoint
  else if a.action.key ≠ b.action.key then a.action.before? b.action
  else a.path.before? b.path

/-- A part of the address is the undefined number, which no number comes
before or behind. -/
def hasUndefined (r : OverrideRule) : Bool :=
  [r.endpoint, r.action, r.path].any (·.isUndefined)

/-- The addresses have one order: they all compare with each other. -/
def isOrdered (rules : List OverrideRule) : Bool :=
  rules.all (fun r => !hasUndefined r) &&
    rules.all fun a => rules.all fun b => (addressBefore? a b).isSome

/-- The endpoints and actions with rules, each once. -/
def scopes (g : OverrideRegistry) : List (Json × Json) :=
  (g.given.map fun r => (r.endpoint, r.action)).eraseDupsBy fun a b =>
    a.1.key = b.1.key ∧ a.2.key = b.2.key

/-- One endpoint and action come before others: the first parts that
differ decide. -/
def scopeBefore (a b : Json × Json) : Except Breach Bool :=
  if a.1.key ≠ b.1.key then a.1.before b.1
  else if a.2.key ≠ b.2.key then a.2.before b.2
  else .ok false

/-- The rules action by action, and path by path for each action. -/
def listed (g : OverrideRegistry) : Except Fault (List OverrideRule) := do
  let scopes ← (Sorting.sort scopeBefore g.scopes).mapError Fault.breach
  let groups ← scopes.mapM fun (endpoint, action) => do
    let v := g.view endpoint action
    return (← v.paths).flatMap v.lookup
  return groups.flatten

/-- **The rules in order of their addresses**; rules with one address
stay in their order. Where the addresses have no order, how they are
sorted decides: in which order the rules come, or which two addresses are
found not to compare. -/
def rules (g : OverrideRegistry) : Except Fault (List OverrideRule) :=
  if isOrdered g.given then
    .ok (g.given.mergeSort fun a b => addressBefore? b a ≠ some true)
  else g.listed

/-! ## Reading -/

/-- **The rules of a file**: a JSON list of rules. `file` is the name it
is known by in messages. -/
def ofText (file text : String) : Run OverrideRegistry :=
  match Json.decode text with
  | .error (.malformed what line column offset) =>
    Run.raise (.override (.unreadable file
      (Json.DecodeError.malformed what line column offset).message))
  | .error (.tooLong digits) => Run.breach ⟨.badValue, (Json.DecodeError.tooLong digits).message⟩
  | .error (.tooDeep c) => Run.breach ⟨.tooDeep, (Json.DecodeError.tooDeep c).message⟩
  | .ok (.arr items) => do
    let g ← Run.ofExcept (ofJsons items)
    let rules ← Run.ofExcept g.rules
    Run.note .info s!"Loaded {rules.length} override rules from {file}"
    pure g
  | .ok _ => Run.raise (.override (.notList file))

/-- The registry of a file, given its bytes or the trouble with it. -/
def ofFile (path : Path) (content : Except FileTrouble (List Nat)) : Run OverrideRegistry :=
  match content with
  | .error .nul => Run.breach (FileTrouble.breach path .nul)
  | .error t => Run.raise (.override (.unreadable path.text (t.message path)))
  | .ok bytes =>
    match Text.decodeUtf8 bytes with
    | .error e => Run.breach ⟨.badEncoding, e.message⟩
    | .ok cs => ofText path.text (String.ofList (Text.normalizeBreaks cs))

/-- **The registry of a run**: the built-in rules, if wanted, and after
them those of a file, if there is one. -/
def load (file : Option (Run OverrideRegistry)) (withBuiltIn : Bool) : Run OverrideRegistry := do
  let builtIn := if withBuiltIn then OverrideRule.builtIn else []
  match file with
  | none => Run.ofExcept (ofRules builtIn)
  | some read => do
    let g ← read
    let rules ← Run.ofExcept g.rules
    Run.ofExcept (ofRules (builtIn ++ rules))

end OverrideRegistry

end Exemplar
