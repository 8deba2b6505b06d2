import Exemplar.Field.Merge
import Exemplar.Naming
import Exemplar.Override.Registry

/-!
# Inferring schemas

`infer` turns an example into a schema. An object becomes a map with an
entry per key, an array a collection whose element is the merge of what
its items are, in their order, and any other value a scalar. The rules
of the action's view apply at every key, by the dotted path of the key;
arrays add nothing to a path, so the items of an array share theirs.

The schema does not depend on the order of the keys of an object: what
is inferred for each key is computed where the key stands and put in the
order of the keys before anything is made of it, so which failure comes
first, and what was said before it, depends on that order alone. Since
every value is inferred where it stands, the inference is a recursion on
the document.

Objects and arrays nest at most `nestingRoom` deep.
-/

namespace Exemplar

namespace Inference

/-- **The deepest nesting** that an example may have. -/
def nestingRoom : Nat := 490

/-- What is said of an example nested deeper. -/
def tooDeep : Breach := ⟨.tooDeep, "maximum recursion depth exceeded"⟩

/-- The sorts of value that must not meet in an array. -/
inductive ItemSort where
  | object
  | array
  | scalar
  deriving DecidableEq, Repr

/-- The sort of an item; `null` has none and meets anything. -/
def itemSort? : Json → Option ItemSort
  | .null => none
  | .obj _ => some .object
  | .arr _ => some .array
  | _ => some .scalar

/-- The index of the first item of a sort. -/
def firstOf? (sort : ItemSort) (items : List Json) : Option Nat :=
  items.findIdx? fun item => itemSort? item = some sort

/-- **The clash of an array's items**: objects beside scalars or, if
there are none, beside arrays. Scalars and arrays get along. -/
def itemClash? (items : List Json) : Option Clash :=
  match firstOf? .object items, firstOf? .scalar items, firstOf? .array items with
  | some o, some s, _ => some (.arrayMixes o "scalar" s)
  | some o, none, some a => some (.arrayMixes o "array" a)
  | _, _, _ => none

/-- Refuses an array whose items clash. -/
def checkItems (path : String) (items : List Json) : Run Unit :=
  match itemClash? items with
  | some clash => Run.raise (.shapeConflict path clash)
  | none => pure ()

/-- The accessor of a key: its new name, or its name in camel case. -/
def accessor (view : OverrideView) (key path : String) : Json :=
  (view.renamed? (.str path)).getD (.str (Naming.toCamel key))

/-- A shape conflict is told with the item that brought it about. -/
def atItem (index : Nat) : Fault → Fault
  | .problem ⟨.shapeConflict path clash, _, _⟩ =>
    .ofCause (.shapeConflict path (.inElement clash index))
  | f => f

/-- The outcomes for the keys of an object, in the order of the keys. -/
def inKeyOrder {α : Type} (outcomes : List (String × α)) : List α :=
  (outcomes.mergeSort fun a b => decide (a.1 ≤ b.1)).map Prod.snd

mutual

/-- **The field of a value** at a path, under a name. `room` is the
nesting still allowed. -/
def inferValue (view : OverrideView) (room : Nat) (name : Json) (path : String) :
    Json → Run Field
  | .obj members =>
    match room with
    | 0 => Run.breach tooDeep
    | room + 1 => do
      let found ← Run.sequence (inKeyOrder (inferMembers view room path members))
      Run.ofExcept (Field.ofEntries name (found.filterMap id))
  | .arr items =>
    match room with
    | 0 => Run.breach tooDeep
    | room + 1 => do
      checkItems path items
      let element ← mergeItems view room name path 0 none items
      pure (.collection name element)
  | .null => pure (.scalar name .unknown)
  | .bool _ => pure (.scalar name .boolean)
  | .int _ | .float _ => pure (.scalar name .number)
  | .str _ => pure (.scalar name .string)

/-- The items from an index on, merged into the element so far. -/
def mergeItems (view : OverrideView) (room : Nat) (name : Json) (path : String) (index : Nat)
    (element : Option Field) : List Json → Run Field
  | [] => pure (element.getD (.scalar name .unknown))
  | item :: items => do
    let field ← inferValue view room name path item
    let element ← match element with
      | none => pure field
      | some sofar => (Field.merge path sofar field).mapFault (atItem index)
    mergeItems view room name path (index + 1) (some element) items

/-- The entry for each key, none for a key that is left out. -/
def inferMembers (view : OverrideView) (room : Nat) (parent : String) :
    List (String × Json) → List (String × Run (Option (Entry Field)))
  | [] => []
  | (key, value) :: members =>
    let path := Field.childPath parent key
    let entry : Run (Option (Entry Field)) :=
      if view.isSkipped (.str path) then do
        Run.note .debug s!"Skipping '{path}' ({view.scope})"
        pure none
      else do
        let name := accessor view key path
        let field ← match view.forcedKind? (.str path) with
          | some kind => pure (.scalar name kind)
          | none => inferValue view room name path value
        pure (some ⟨key, name, field, !view.isOptional (.str path)⟩)
    (key, entry) :: inferMembers view room parent members

end

/-! ## Whole examples -/

mutual

/-- **The paths that the inference meets** in a value below a path: those
of all keys that no rule hides by leaving out or forcing a key above
them. -/
def metPaths (view : OverrideView) (parent : String) : Json → List String
  | .obj members => metInMembers view parent members
  | .arr items => metInItems view parent items
  | _ => []

/-- The paths met in the items of an array. -/
def metInItems (view : OverrideView) (parent : String) : List Json → List String
  | [] => []
  | item :: items => metPaths view parent item ++ metInItems view parent items

/-- The paths met in the members of an object. -/
def metInMembers (view : OverrideView) (parent : String) :
    List (String × Json) → List String
  | [] => []
  | (key, value) :: members =>
    let path := Field.childPath parent key
    let hidden := view.isSkipped (.str path) || (view.forcedKind? (.str path)).isSome
    let below := if hidden then [] else metPaths view path value
    path :: below ++ metInMembers view parent members

end

/-- The key that marks an example which is no JSON document but raw text
of some format. -/
def formatKey : String := "format"

/-- **Raw text**: an object with a format. -/
def isRaw : Json → Bool
  | .obj members => (Json.find? formatKey members).isSome
  | _ => false

/-- The problem that a failure of the inference is: nesting too deep is a
clash of shapes at the root, and every problem belongs to the action. -/
def attributeTo (view : OverrideView) : Fault → Fault
  | .breach ⟨.tooDeep, _⟩ =>
    .problem ((Problem.mk (.shapeConflict "" .tooDeep) .null .null).attributeTo endpoint action)
  | f => f.attributeTo endpoint action
where
  endpoint := if view.endpoint.truthy then view.endpoint else .null
  action := if view.action.truthy then view.action else .null

/-- Says which rules were met nowhere. -/
def noteUnused (view : OverrideView) (example_ : Json) : Run Unit := do
  let paths ← Run.ofExcept view.paths
  let met := if paths.isEmpty then [] else metPaths view "" example_
  let unused := paths.filter fun path => met.all fun p => path ≠ .str p
  Run.notes .debug (unused.map fun path =>
    s!"Override for '{path.display}' unused in {view.scope}")

end Inference

open Inference in
/-- **Infers the schema of an example**, under a name for its root. An
example of some format is a leaf of raw text. -/
def infer (view : OverrideView) (name example_ : Json) : Run Field := do
  if isRaw example_ then
    Run.note .debug s!"'{name.display}' carries a '{formatKey}' key, treating as opaque text"
    pure (.scalar name .opaque_)
  else
    let root ← (inferValue view nestingRoom name "" example_).mapFault (attributeTo view)
    noteUnused view example_
    pure root

/-- The element of some array items at a path, where an item may nest
`room` deep. -/
def inferElementWithin (view : OverrideView) (room : Nat) (name : Json) (path : String)
    (items : List Json) : Run Field := do
  Inference.checkItems path items
  Inference.mergeItems view room name path 0 none items

/-- **The element of some array items** at a path, as it is inferred
inside an example. -/
def inferElement (view : OverrideView) (name : Json) (path : String) (items : List Json) :
    Run Field :=
  inferElementWithin view Inference.nestingRoom name path items

end Exemplar
