import Exemplar.Description
import Exemplar.Json.Writer
import Exemplar.Kind

/-!
# Generated code

What is generated is a tree: records with typed attributes, synonyms, and
the type expressions in them. `Definition.render` and what it calls are
the only places where the tree becomes text, so statements about the
generated code are statements about the tree, and the layout is decided
once.

An attribute remembers the key of the documents it stands for. In the
text the key is left out if the attribute is called like it, and stands
in the metadata of the attribute otherwise (`Attribute.metadata`).
-/

namespace Exemplar.Code

/-- One level of indentation. -/
def indent : String := "    "

/-! ## Type expressions -/

/-- **A type expression.** -/
inductive TypeExpr where
  /-- Any value. -/
  | any
  | text
  | number
  | flag
  /-- A record or a synonym, by its name. -/
  | named (name : String)
  | list (item : TypeExpr)
  /-- A value or none. -/
  | optional (type : TypeExpr)
  deriving DecidableEq, Repr

namespace TypeExpr

/-- The type of the values of a kind. Values of several kinds are kept as
text. -/
def ofKind : Kind → TypeExpr
  | .string => text
  | .number => number
  | .boolean => flag
  | .opaque_ => text
  | .unknown => any

/-- **The text of a type expression.** -/
def render : TypeExpr → String
  | any => "Any"
  | text => "str"
  | number => "float"
  | flag => "bool"
  | named n => n
  | list t => "List[" ++ render t ++ "]"
  | optional t => "Optional[" ++ render t ++ "]"

/-- The names of records and synonyms in a type expression. -/
def names : TypeExpr → List String
  | named n => [n]
  | list t => names t
  | optional t => names t
  | _ => []

end TypeExpr

/-! ## Attributes -/

/-- **The initial value of an attribute.** -/
inductive Initial where
  | none
  | emptyText
  | zero
  | false_
  /-- A new empty list for each record. -/
  | newList
  /-- A new record of the given name. -/
  | newRecord (name : String)
  deriving DecidableEq, Repr

/-- **The initial value of a type**: its zero, or a new empty one. -/
def TypeExpr.initial : TypeExpr → Initial
  | text => .emptyText
  | number => .zero
  | flag => .false_
  | named n => .newRecord n
  | list _ => .newList
  | any | optional _ => .none

namespace Initial

/-- What makes a new value for each record, if that is needed. -/
def factory? : Initial → Option String
  | newList => some "list"
  | newRecord n => some n
  | _ => Option.none

/-- The expression for a value that all records share. -/
def constant : Initial → String
  | emptyText => "\"\""
  | zero => "0"
  | false_ => "False"
  | _ => "None"

end Initial

/-- **An attribute of a record.** -/
structure Attribute where
  name : String
  type : TypeExpr
  /-- An attribute without initial value must be given. -/
  initial : Option Initial
  /-- The key that the attribute stands for. -/
  key : Json
  /-- The comment lines above it, indentation included. -/
  comments : List String := []
  deriving DecidableEq

namespace Attribute

/-- The key in the metadata of an attribute, unless the attribute is
called like it. -/
def metadata (a : Attribute) : Option String :=
  if a.key = .str a.name then none
  else some ("metadata=\x7b\"json\": " ++ a.key.write ++ "\x7d")

/-- The parts of a field specification. -/
def specification (parts : List String) : String :=
  "dataclasses.field(" ++ ", ".intercalate parts ++ ")"

/-- What follows the type of an attribute, if anything does. -/
def value? (a : Attribute) : Option String :=
  match a.initial with
  | none => a.metadata.map fun m => specification [m]
  | some i =>
    match i.factory?, a.metadata with
    | some f, m => some (specification (("default_factory=" ++ f) :: m.toList))
    | none, some m => some (specification ["default=" ++ i.constant, m])
    | none, none => some i.constant

/-- **The line of an attribute.** -/
def line (a : Attribute) : String :=
  let declared := indent ++ a.name ++ ": " ++ a.type.render
  match a.value? with
  | some v => declared ++ " = " ++ v
  | none => declared

/-- The lines of an attribute, its comments first. -/
def lines (a : Attribute) : List String := a.comments ++ [a.line]

end Attribute

/-! ## Records -/

/-- **The paging accessor of a record**: it gives the value of an
attribute, or puts the position together from three of them. -/
inductive PagingAccessor where
  | nested (type : TypeExpr) (member : String)
  | flattened (index size total : String)
  deriving DecidableEq, Repr

/-- The name of the record that flattened positions are put into. -/
def pagingRecordName : String := "Paging"

namespace PagingAccessor

/-- The type of what the accessor gives. -/
def type : PagingAccessor → TypeExpr
  | nested t _ => .optional t
  | flattened _ _ _ => .named pagingRecordName

/-- The expression for what the accessor gives. -/
def result : PagingAccessor → String
  | nested _ member => s!"self.{member}"
  | flattened index size total =>
    s!"{pagingRecordName}(page_index=self.{index}, page_size=self.{size}, total=self.{total})"

/-- The attributes that an accessor reads. -/
def attributes : PagingAccessor → List String
  | nested _ member => [member]
  | flattened index size total => [index, size, total]

/-- The lines of the accessor of a record. -/
def lines (owner : String) (p : PagingAccessor) : List String := [
  indent ++ "def get_paging(self) -> " ++ p.type.render ++ ":",
  indent ++ indent ++ "\"\"\"Extracts the paging from " ++ owner ++ "\"\"\"",
  indent ++ indent ++ "return " ++ p.result]

end PagingAccessor

/-- **A record.** -/
structure Record where
  name : String
  description : String
  attributes : List Attribute
  paging : Option PagingAccessor := none
  deriving DecidableEq

namespace Record

/-- **The lines of a record.** -/
def lines (r : Record) : List String :=
  let head := ["@dataclass", "class " ++ r.name ++ ":"]
    ++ Description.literal indent (.str r.description)
  let body := r.attributes.flatMap Attribute.lines
  match r.paging with
  | none => head ++ body ++ (if r.attributes.isEmpty then [indent ++ "pass"] else [])
  | some p => head ++ body ++ "" :: p.lines r.name

/-- The text of a record. -/
def render (r : Record) : String := "\n".intercalate r.lines ++ "\n"

end Record

/-- An attribute for a part of a flattened position. -/
def pagingPart (name : String) : Attribute :=
  Attribute.mk name (.optional .number) (some .none) (.str name) []

/-- **The record that flattened positions are put into.** -/
def pagingRecord : Record where
  name := pagingRecordName
  description := "Paging assembled from flattened response fields"
  attributes := ["page_index", "page_size", "total"].map pagingPart

/-! ## Definitions -/

/-- **A definition of a module.** -/
inductive Definition where
  | record (r : Record)
  /-- A name for a type, and what is said of it. -/
  | synonym (name description : String) (type : TypeExpr)
  deriving DecidableEq

namespace Definition

/-- The name that is defined. -/
def name : Definition → String
  | record r => r.name
  | synonym n _ _ => n

/-- **The text of a definition.** -/
def render : Definition → String
  | record r => r.render
  | synonym n description type =>
    let comment := if description = "" then "" else "# " ++ description ++ "\n"
    comment ++ n ++ " = " ++ type.render ++ "\n"

end Definition

end Exemplar.Code
