import Exemplar.Field

/-!
# Paged responses

An action that takes a page index and a page size answers in pages. Its
response holds the position in the pages – as an object of its own, or
flattened into three numbers beside the payload – and the payload. The
**source** says where the position is found, and the **payload** is the
response without it: what accumulates over all pages. Both are derived
from the schema of the response, which must be a map.
-/

namespace Exemplar

/-- **Where a response has its position in the pages**: in a nested
object, known by its accessor, or in three flattened fields, each known
by its accessor. -/
inductive PagingSource where
  | nested (accessor : Json) (field : Field)
  | flattened (index size total : Json)
  deriving DecidableEq

namespace PagingSource

/-- The position is an object of its own. -/
def isNested : PagingSource → Bool
  | nested _ _ => true
  | flattened _ _ _ => false

/-- The accessors that a source refers to. -/
def accessors : PagingSource → List Json
  | nested accessor _ => [accessor]
  | flattened index size total => [index, size, total]

/-- A source as a document. -/
def toJson : PagingSource → Json
  | nested accessor _ => .obj [("accessor", accessor)]
  | flattened index size total =>
    .obj [("synthesized_from", .obj
      [("page_index", index), ("page_size", size), ("total", total)])]

end PagingSource

namespace Paging

/-- The key of a nested position. -/
def nestedKey : String := "paging"

/-- The accessor of a nested position. -/
def nestedAccessor : String := "Paging"

/-- The parameter for the page index, and the key of a flattened one. -/
def indexKey : String := "p"

/-- The parameter for the page size, and the key of a flattened one. -/
def sizeKey : String := "ps"

/-- The key of the flattened number of items on all pages. -/
def totalKey : String := "total"

/-- Every key that has to do with paging and not with the payload. -/
def keys : List String := [nestedKey, indexKey, sizeKey, totalKey]

/-- Says that a flattened position is incomplete. -/
def noteMissing (name : Json) (key : String) : Run (Option PagingSource) := do
  Run.note .warning (s!"'{name.display}' has neither a '{nestedKey}' object nor a top-level "
    ++ s!"'{key}', cannot extract paging")
  pure none

/-- **Finds the source** of a response's position in the pages, if it has
one. -/
def source? : Field → Run (Option PagingSource)
  | .map name entries =>
    match Field.entryOf? (.str nestedAccessor) entries with
    | some e => pure (some (.nested e.accessor e.field))
    | none =>
      match Field.entryAt? indexKey entries, Field.entryAt? sizeKey entries,
        Field.entryAt? totalKey entries with
      | some p, some ps, some total =>
        pure (some (.flattened p.accessor ps.accessor total.accessor))
      | none, _, _ => noteMissing name indexKey
      | _, none, _ => noteMissing name sizeKey
      | _, _, none => noteMissing name totalKey
  | f => do
    Run.note .warning
      s!"'{f.name.display}' is a {f.shape.word}, only map responses can be paginated"
    pure none

/-- **The payload** of a response, under a new name or its own: the map
without the keys of paging. -/
def payload? (newName : Option Json) : Field → Run (Option Field)
  | .map name entries => do
    let payload ← Run.ofExcept (Field.withoutKeys name entries keys newName)
    let collections := (payload.entries.filter fun e => e.field.shape = .collection).length
    if collections ≠ 1 then
      Run.note .warning (s!"Collection schema '{payload.name.display}' has {collections} "
        ++ "collection members, expected 1")
    pure (some payload)
  | f => do
    Run.note .warning s!"'{f.name.display}' is a {f.shape.word}, no collection schema"
    pure none

end Paging

/-- **What paging makes of a response**: the source of the position, and
the payload, so far as they could be had. -/
structure Projection where
  source : Option PagingSource := none
  payload : Option Field := none
  deriving DecidableEq

namespace Projection

/-- Both parts could be had. -/
def isSupported (p : Projection) : Bool := p.source.isSome && p.payload.isSome

/-- **Projects a response**, if its action is paged. The payload gets a
new name or keeps that of the response. -/
def of (response : Field) (newName : Option Json) (paged : Bool) : Run Projection :=
  if paged then do
    let source ← Paging.source? response
    let payload ← Paging.payload? newName response
    pure ⟨source, payload⟩
  else pure ⟨none, none⟩

end Projection

end Exemplar
