import Exemplar.Catalog
import Exemplar.Code

/-!
# The record of a request

The parameters of an action become the attributes of one record, those
that must be given before those that may be left out, each group in the
order of the catalog. The parameters of paging are left out: whoever
walks over the pages sets them. Two parameters that would be called alike
are a problem, told with both keys.
-/

namespace Exemplar

namespace Param

/-- A parameter that says which page is wanted. -/
def isPaging (p : Param) : Bool :=
  p.key = .str Paging.indexKey || p.key = .str Paging.sizeKey

/-- The name of the attribute of a parameter. -/
def attributeName (p : Param) : String := Naming.attributeName p.key.display

/-- What is said of the versions of a parameter. -/
def history (p : Param) : List String :=
  (if p.since.truthy then ["Since " ++ p.since.display] else [])
    ++ (if p.deprecatedSince.truthy then ["Deprecated since " ++ p.deprecatedSince.display]
      else [])

/-- The comment lines above the attribute of a parameter. -/
def comments (p : Param) : List String :=
  (if p.history.isEmpty then [] else [Code.indent ++ "# " ++ "; ".intercalate p.history])
    ++ Description.comment p.description Code.indent

/-- **The attribute of a parameter.** -/
def toAttribute (p : Param) : Code.Attribute where
  name := p.attributeName
  type := if p.required.truthy then .text else .optional .text
  initial := if p.required.truthy then none else some .none
  key := p.key
  comments := p.comments

end Param

namespace Action

/-- **The parameters of a request**, those that must be given first. -/
def requestParams (a : Action) : List Param :=
  let params := a.params.filter fun p => !p.isPaging
  params.filter (·.required.truthy) ++ params.filter fun p => !p.required.truthy

/-- The first name that stands twice in a list, the names before the list
counted too, with its two owners. -/
def sharedName? (before : List (String × Json)) :
    List (String × Json) → Option (String × List Json)
  | [] => none
  | (name, owner) :: rest =>
    match before.lookup name with
    | some other => some (name, [other, owner])
    | none => sharedName? (before ++ [(name, owner)]) rest

/-- What the record of the requests says of itself: the description of
the action, or the name of the record. -/
def requestDescription (a : Action) : Except Fault String :=
  match if a.description.truthy then a.description else .str a.requestName with
  | .str s =>
    .ok (if a.deprecatedSince.truthy then
        s ++ "\nDeprecated: this action has been deprecated since version "
          ++ a.deprecatedSince.display
      else s)
  | v =>
    .error (.breach (.wrongType s!"sequence item 0: expected str instance, {v.typeWord} found"))

/-- **The record of the requests of an action.** -/
def request (a : Action) : Except Fault Code.Record := do
  let description ← a.requestDescription
  match sharedName? [] (a.requestParams.map fun p => (p.attributeName, p.key)) with
  | some (name, owners) => .error (.ofCause (.accessorConflict (.str name) owners))
  | none =>
    return {
      name := a.requestName
      description
      attributes := a.requestParams.map Param.toAttribute }

end Action

end Exemplar
