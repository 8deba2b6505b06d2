import Exemplar.Field

/-!
# Merging schemas

Two schemas of values at one path merge into the schema of both.
A field without shape gives way to the other. Maps merge entry by entry:
an entry of both is merged and required if both require it, an entry of
one is kept and required no longer. Collections merge their elements and
scalars widen their kinds. A map meets nothing but maps; a collection
and a scalar have only raw text in common and merge to that.

The merge walks down the first field, and the second one is looked up by
key beside it.
-/

namespace Exemplar.Field

/-- The dotted path of a key below a path; the root has the empty path. -/
def childPath (path key : String) : String :=
  if path = "" then key else s!"{path}.{key}"

theorem childPath_root (key : String) : childPath "" key = key := rfl

theorem childPath_of_ne {path : String} (h : path ≠ "") (key : String) :
    childPath path key = path ++ "." ++ key := if_neg h

/-- The entry as one that some objects lack. -/
def optional (e : Entry Field) : Entry Field := { e with required := false }

mutual

/-- **Merges two fields** of the values at a path. -/
def merge (path : String) (first second : Field) : Run Field :=
  if first.isNull then pure second
  else if second.isNull then pure first
  else match first, second with
    | map n es, map _ es' => do
      let common ← mergeEntries path es es'
      let late := es'.filter fun e => (entryAt? e.key es).isNone
      Run.ofExcept (ofEntries n (common ++ late.map optional))
    | map _ _, other => Run.raise (.shapeConflict path (.objectMet other.shape))
    | other, map _ _ => Run.raise (.shapeConflict path (.objectMet other.shape))
    | collection n e, collection _ e' => do
      let element ← merge path e e'
      pure (collection n element)
    | scalar n k, scalar _ k' => pure (scalar n (k.widen k'))
    | a, b => do
      Run.note .debug s!"Degrading '{path}' to opaque: {a.shape.word} vs {b.shape.word}"
      pure (scalar a.name .opaque_)

/-- The entries of the first map, each merged with that of the second
which has its key. -/
def mergeEntries (path : String) :
    List (Entry Field) → List (Entry Field) → Run (List (Entry Field))
  | [], _ => pure []
  | ⟨key, accessor, field, required⟩ :: es, es' =>
    match entryAt? key es' with
    | none => do
      let rest ← mergeEntries path es es'
      pure (⟨key, accessor, field, false⟩ :: rest)
    | some other => do
      let merged ← merge (childPath path key) field other.field
      let rest ← mergeEntries path es es'
      pure (⟨key, accessor, merged, required && other.required⟩ :: rest)

end

end Exemplar.Field
