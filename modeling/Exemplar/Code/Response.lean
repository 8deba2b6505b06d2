import Exemplar.Code
import Exemplar.Effect
import Exemplar.Field
import Exemplar.Naming
import Exemplar.Paging

/-!
# Records of a response

The schema of a response becomes a definition for its root and a record
for every map below it. Every record needs a name of its own within its
module. The names of the roots are taken in advance; the name of a
nested record comes from where it stands, and a number goes behind it if
that name is taken (`freshName`). A record is defined before the records
that mention it: the definitions of a field are those of the maps in it,
in order, and last its own.

Definitions are drafted with the names taken so far in hand. A draft that
fails keeps the names it took.
-/

namespace Exemplar.Code

/-! ## Names that are taken -/

/-- The candidate with a number behind a name, the first number being
two. -/
def numbered (name : String) (n : Nat) : String := s!"{name}{n + 2}"

/-- **A name that is not taken**: the given one, or the first of the
numbered ones. There are more candidates than taken names, so one of them
is free. -/
def freshName (taken : List String) (name : String) : String :=
  if name ∉ taken then name
  else
    (((List.range (taken.length + 1)).map (numbered name)).find? (· ∉ taken)).getD name

/-! ## Drafts -/

/-- What a draft has in hand. -/
structure Draft.State where
  /-- The names taken in the module. -/
  taken : List String := []
  notices : List Notice := []
  deriving DecidableEq

/-- **A draft**: it takes names, says things, and gives a result or
fails. -/
abbrev Draft (α : Type) := Effect Draft.State α

namespace Draft

/-- Says something. -/
def say (level : Notice.Level) (text : String) : Draft Unit :=
  modify fun s => { s with notices := s.notices ++ [⟨level, text⟩] }

/-- Takes names that must be had as they are. -/
def take (names : List String) : Draft Unit :=
  modify fun s => { s with taken := names ++ s.taken }

/-- Gives all names back. -/
def release : Draft Unit := modify fun s => { s with taken := [] }

/-- What is said when a nested record gets another name than the one it
would have. -/
def renamed (name unique : String) : List Notice :=
  if unique = name then []
  else [⟨.warning, s!"Class name {name} already used in this module, emitting {unique}"⟩]

/-- **Takes a name for a nested record**, another one with a warning if
the name is taken. -/
def claim (name : String) : Draft String := do
  let unique := freshName (← get).taken name
  modify fun s => ⟨unique :: s.taken, s.notices ++ renamed name unique⟩
  pure unique

/-- What a draft comes to when the given names are taken, and the names
that are taken then. -/
def finish {α : Type} (d : Draft α) (taken : List String) : Run α × List String :=
  let (outcome, s) := d.perform { taken }
  (⟨s.notices, outcome⟩, s.taken)

@[simp]
theorem perform_say (level : Notice.Level) (text : String) (s : State) :
    (say level text).perform s = (.ok (), { s with notices := s.notices ++ [⟨level, text⟩] }) :=
  rfl

@[simp]
theorem perform_take (names : List String) (s : State) :
    (take names).perform s = (.ok (), { s with taken := names ++ s.taken }) := rfl

@[simp]
theorem perform_release (s : State) :
    release.perform s = (.ok (), { s with taken := [] }) := rfl

/-- **A claimed name** is the fresh one, and is taken from then on. -/
@[simp]
theorem perform_claim (name : String) (s : State) :
    (claim name).perform s =
      (.ok (freshName s.taken name),
        ⟨freshName s.taken name :: s.taken,
          s.notices ++ renamed name (freshName s.taken name)⟩) := rfl

end Draft

/-! ## Members of a record -/

/-- **A member of a record**: the accessor of its entry, the type of the
entry's field, and the attribute for it. -/
structure Member where
  accessor : Json
  type : TypeExpr
  toAttribute : Attribute
  deriving DecidableEq

/-- **The member for an entry**, the type of its field and the name of
its attribute given. A member that may be absent is optional and starts
as none; one that can hold any value is not, since none is one of them. -/
def Member.ofEntry (e : Entry Field) (type : TypeExpr) (name : String) : Member where
  accessor := e.accessor
  type
  toAttribute :=
    if e.required || type = .any then Attribute.mk name type (some type.initial) (.str e.key) []
    else Attribute.mk name (.optional type) (some .none) (.str e.key) []

mutual

/-- **The type of a field**, and the records it needs, the name of a
record for the field itself given. -/
def typeOf (name : String) : Field → Draft (TypeExpr × List Record)
  | .empty _ => pure (.any, [])
  | .scalar _ kind => pure (.ofKind kind, [])
  | .collection _ element => do
    let (type, records) ← typeOf name element
    pure (.list type, records)
  | .map own entries => do
    let unique ← Draft.claim name
    let (members, records) ← membersOf unique [] entries
    let record := Record.mk unique s!"{unique} is part of {own.display}"
      (members.map Member.toAttribute) none
    pure (.named unique, records ++ [record])

/-- **The members of a record** for some entries, and the records they
need. The attributes before them are given by name, with the accessors
they are for; two attributes with one name are a problem, and an accessor
that is no text names no attribute. Entries without a schema are left
out. -/
def membersOf (owner : String) (before : List (String × Json)) :
    List (Entry Field) → Draft (List Member × List Record)
  | [] => pure ([], [])
  | ⟨key, accessor, field, required⟩ :: entries =>
    if field.shape = .empty then membersOf owner before entries
    else do
      let name ← Effect.ofExcept (Naming.snakeOf accessor)
      match before.lookup name with
      | some other =>
        throw (.ofCause (.accessorConflict (.str name) [other, accessor]))
      | none =>
        let (type, records) ← typeOf (owner ++ accessor.display) field
        let member := Member.ofEntry ⟨key, accessor, field, required⟩ type name
        let (members, more) ← membersOf owner (before ++ [(name, accessor)]) entries
        pure (member :: members, records ++ more)

end

/-! ## Roots -/

/-- **The paging accessor** for a source, given the members of the
record. -/
def pagingAccessor (members : List Member) : PagingSource → Except Fault PagingAccessor
  | .nested accessor _ => do
    let type := (members.find? (·.accessor = accessor)).elim .any Member.type
    return .nested type (← Naming.snakeOf accessor)
  | .flattened index size total => do
    return .flattened (← Naming.snakeOf index) (← Naming.snakeOf size) (← Naming.snakeOf total)

/-- **The definitions for a schema** under a name: an empty schema has
none, a map becomes a record, any other field a synonym. -/
def rootOf (name description : String) (source : Option PagingSource) :
    Field → Draft (List Definition)
  | .empty _ => pure []
  | .map _ entries => do
    Draft.take [name]
    let (members, records) ← membersOf name [] entries
    let paging ← Effect.ofExcept (source.mapM (pagingAccessor members))
    let root := Record.mk name description (members.map Member.toAttribute) paging
    pure ((records ++ [root]).map .record)
  | .collection _ element => do
    Draft.take [name]
    let (type, records) ← typeOf (name ++ "Item") element
    pure (records.map .record ++ [.synonym name description (.list type)])
  | .scalar _ kind => do
    Draft.take [name]
    pure [.synonym name description (.ofKind kind)]

end Exemplar.Code
