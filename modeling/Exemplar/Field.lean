import Exemplar.Json.Key
import Exemplar.Kind
import Exemplar.Run

/-!
# Schemas

The schema of a response is a tree of fields. A map has one entry per
key of the objects it describes, a collection one element for all items
of the arrays it describes, a scalar the kind of its values; an empty
field is the schema of an action without an example. Every field has a
name to be shown under. An entry knows the key as the documents have it,
the accessor the key renders to, and whether the key is always there.

Accessors and names are texts unless a rule renames a field to something
else, which is kept as it is: they are values, and two accessors are one
if they are one key (`Json.key`).

Maps are built by `Field.ofEntries` alone. It puts the entries in
ascending order of their keys and refuses two entries with one key or
with one accessor, and an accessor that can be no key: the entries of
every map it builds are `Ordered` and `Unambiguous`. The two properties
are stated beside the tree and not inside it, so that the tree stays
plain data.
-/

namespace Exemplar

/-- **An entry of a map**, with a field of any sort. -/
structure Entry (α : Type) where
  /-- The key in the documents. -/
  key : String
  /-- The name the key renders to. -/
  accessor : Json
  field : α
  /-- The key is never absent. -/
  required : Bool := true
  deriving DecidableEq

/-- **A schema.** -/
inductive Field where
  | empty (name : Json)
  | scalar (name : Json) (kind : Kind)
  | collection (name : Json) (element : Field)
  | map (name : Json) (entries : List (Entry Field))
  deriving Inhabited

namespace Field

/-! ## Equality -/

mutual

/-- Structural equality, as a test. -/
def same : Field → Field → Bool
  | empty n, empty n' => decide (n = n')
  | scalar n k, scalar n' k' => decide (n = n') && decide (k = k')
  | collection n e, collection n' e' => decide (n = n') && same e e'
  | map n es, map n' es' => decide (n = n') && sameEntries es es'
  | _, _ => false

/-- Equality of two lists of entries. -/
def sameEntries : List (Entry Field) → List (Entry Field) → Bool
  | [], [] => true
  | ⟨k, a, f, r⟩ :: es, ⟨k', a', f', r'⟩ :: es' =>
    k == k' && (decide (a = a') && (same f f' && (r == r' && sameEntries es es')))
  | _, _ => false

end

mutual

/-- The test decides equality. -/
theorem same_iff : ∀ a b : Field, same a b = true ↔ a = b
  | empty n, b => by cases b <;> simp [same]
  | scalar n k, b => by cases b <;> simp [same]
  | collection n e, b => by cases b <;> simp [same, same_iff e]
  | map n es, b => by cases b <;> simp [same, sameEntries_iff es]

/-- The test on entries decides equality. -/
theorem sameEntries_iff : ∀ xs ys : List (Entry Field), sameEntries xs ys = true ↔ xs = ys
  | [], ys => by cases ys <;> simp [sameEntries]
  | ⟨k, a, f, r⟩ :: xs, [] => by simp [sameEntries]
  | ⟨k, a, f, r⟩ :: xs, ⟨k', a', f', r'⟩ :: ys => by
    simp [sameEntries, same_iff f, sameEntries_iff xs, and_assoc]

end

instance : DecidableEq Field := fun a b => decidable_of_iff _ (same_iff a b)

mutual

/-- The field with every name and accessor brought to its key. -/
def keyed : Field → Field
  | empty n => empty n.key
  | scalar n k => scalar n.key k
  | collection n e => collection n.key (keyed e)
  | map n es => map n.key (keyedEntries es)

/-- Each entry with its names brought to their keys. -/
def keyedEntries : List (Entry Field) → List (Entry Field)
  | [] => []
  | ⟨k, a, f, r⟩ :: es => ⟨k, a.key, keyed f, r⟩ :: keyedEntries es

end

/-- **Equality of fields**, whichever way their names are written. -/
def equals (a b : Field) : Bool := a.keyed = b.keyed

/-! ## Parts of a field -/

/-- The schema where there is no example to take one from. -/
def absent : Field := .empty (.str "")

/-- The shape of a field. -/
def shape : Field → Shape
  | empty _ => .empty
  | scalar _ _ => .scalar
  | collection _ _ => .collection
  | map _ _ => .map

/-- The display name of a field. -/
def name : Field → Json
  | empty n => n
  | scalar n _ => n
  | collection n _ => n
  | map n _ => n

/-- A field that carries no shape: the scalar of `null`. -/
def isNull : Field → Bool
  | scalar _ .unknown => true
  | _ => false

/-- Only responses that are maps can be paged. -/
def isPaginable (f : Field) : Bool := f.shape = .map

/-- The entries of a map, none for other fields. -/
def entries : Field → List (Entry Field)
  | map _ es => es
  | _ => []

/-- The entry with an accessor. -/
def entryOf? (accessor : Json) (es : List (Entry Field)) : Option (Entry Field) :=
  es.find? (·.accessor.equals accessor)

/-- The entry with a key. -/
def entryAt? (key : String) (es : List (Entry Field)) : Option (Entry Field) :=
  es.find? (·.key == key)

/-- What lies directly below a field: a name, the field, and whether it
is always there. -/
def children : Field → List (Json × Field × Bool)
  | collection n e => [(n, e, true)]
  | map _ es => es.map fun e => (e.accessor, e.field, e.required)
  | _ => []

/-! ## Building maps -/

/-- The entries in ascending order of their keys; entries with one key
stay in their order. -/
def sortEntries (es : List (Entry Field)) : List (Entry Field) :=
  es.mergeSort fun a b => decide (a.key ≤ b.key)

/-- What cannot be in a map, in entries that are sorted: the key of the
entry before, or an accessor that can be no key. -/
def breach? (name : Json) (before : Option String) : List (Entry Field) → Option Breach
  | [] => none
  | e :: es =>
    if before = some e.key then
      some ⟨.badValue, s!"Duplicate key in map '{name.display}': {e.key}"⟩
    else if e.accessor.isContainer then some (.unhashable e.accessor)
    else breach? name (some e.key) es

/-- Two entries have one accessor. -/
def shareAccessor (a b : Entry Field) : Bool := a.accessor.key = b.accessor.key

/-- The first entry whose accessor an entry after it has too, and all
that have it. -/
def sharing? : List (Entry Field) → Option (Entry Field × List (Entry Field))
  | [] => none
  | e :: es =>
    match es.filter (shareAccessor e) with
    | [] => sharing? es
    | others => some (e, e :: others)

/-- **Builds a map.** The entries are sorted by key. A repeated key and an
accessor that can be no key are breaches; keys that share an accessor are
a problem, told with all of them for the accessor that comes first. -/
def ofEntries (name : Json) (es : List (Entry Field)) : Except Fault Field :=
  let sorted := sortEntries es
  match breach? name none sorted with
  | some b => .error (.breach b)
  | none =>
    match sharing? sorted with
    | some (e, all) =>
      .error (.ofCause (.accessorConflict e.accessor (all.map fun o => .str o.key)))
    | none => .ok (map name sorted)

/-- Strictly ascending keys. -/
def Ordered (es : List (Entry Field)) : Prop := es.Pairwise fun a b => a.key < b.key

/-- No two entries with one accessor, and no accessor that can be no
key. -/
def Unambiguous (es : List (Entry Field)) : Prop :=
  (es.Pairwise fun a b => a.accessor.key ≠ b.accessor.key)
    ∧ ∀ e ∈ es, e.accessor.isContainer = false

mutual

/-- **A well-formed field**: the entries of every map in it are ordered
and unambiguous. -/
def WellFormed : Field → Prop
  | collection _ e => WellFormed e
  | map _ es => Ordered es ∧ Unambiguous es ∧ WellFormedEntries es
  | _ => True

/-- The field of every entry is well formed. -/
def WellFormedEntries : List (Entry Field) → Prop
  | [] => True
  | ⟨_, _, f, _⟩ :: es => WellFormed f ∧ WellFormedEntries es

end

/-- **The map without some keys**, under the given name or its own. -/
def withoutKeys (name : Json) (es : List (Entry Field)) (keys : List String)
    (newName : Option Json) : Except Fault Field :=
  ofEntries (newName.getD name) (es.filter fun e => e.key ∉ keys)

/-! ## Snapshots -/

mutual

/-- **A field as a document.** That of an empty field does not tell its
name. -/
def toJson : Field → Json
  | empty _ => .obj [("tag", .str "empty")]
  | scalar n k => .obj [("tag", .str "scalar"), ("name", n), ("kind", .str k.word)]
  | collection n e => .obj [("tag", .str "collection"), ("name", n), ("element", toJson e)]
  | map n es => .obj [("tag", .str "map"), ("name", n), ("entries", .arr (entriesToJson es))]

/-- Each entry as a document. -/
def entriesToJson : List (Entry Field) → List Json
  | [] => []
  | ⟨k, a, f, r⟩ :: es =>
    .obj [("key", .str k), ("accessor", a), ("required", .bool r), ("field", toJson f)]
      :: entriesToJson es

end

/-- An entry as a document. -/
def entryToJson (e : Entry Field) : Json :=
  .obj [("key", .str e.key), ("accessor", e.accessor), ("required", .bool e.required),
    ("field", e.field.toJson)]

end Field

end Exemplar
