import Exemplar.Json.Key
import Exemplar.Run
import Exemplar.Text.Characters
import Exemplar.Text.Substitute

/-!
# Text with variables

A template is text in which a name between `$` with an opening brace and
a closing brace stands for the value of a variable. A name is any
non-empty text without a closing brace, blanks around it not counted. A
template is first cut into its pieces, plain characters and variables;
what a variable is replaced by is not looked at again, so no value can
bring in a variable of its own.
-/

namespace Exemplar.Template

/-- **A piece of a template.** -/
inductive Piece where
  | plain (c : Char)
  | variable_ (name : String)
  deriving DecidableEq, Repr

/-- The name in front of the closing brace, given the text after the
opening one. -/
def nameIn? (cs : List Char) : Option (List Char) :=
  let name := cs.takeWhile (· != '\x7d')
  if name.isEmpty || name.length == cs.length then none else some name

/-- The pieces of a text whose first `skip` characters belong to the
piece before. -/
def piecesFrom : Nat → List Char → List Piece
  | _, [] => []
  | skip + 1, _ :: cs => piecesFrom skip cs
  | 0, '$' :: '\x7b' :: cs =>
    match nameIn? cs with
    | some name =>
      .variable_ (String.ofList (Text.strip name)) :: piecesFrom (name.length + 2) ('\x7b' :: cs)
    | none => .plain '$' :: piecesFrom 0 ('\x7b' :: cs)
  | 0, c :: cs => .plain c :: piecesFrom 0 cs

/-- **The pieces of a template.** -/
def pieces (template : String) : List Piece := piecesFrom 0 template.toList

/-! ## Variables -/

/-- **The value of a variable**; `null` is the same as none. -/
def valueOf (context : List (String × Json)) (name : String) : Json :=
  (Json.find? name context).getD .null

/-- What is said of the item of an array that is no pair. -/
def notPair (index size : Nat) : Breach :=
  ⟨.badValue, s!"dictionary update sequence element #{index} has length {size}; 2 is required"⟩

/-- What is said of the item of an array that cannot be walked over. -/
def notSequence (index : Nat) : Breach :=
  .wrongType s!"cannot convert dictionary update sequence element #{index} to a sequence"

/-- A variable from the item of an array: a pair of a name and a value.
Only a text is a name that a template can ask for. -/
def pairOf (index : Nat) (item : Json) : Except Fault (Option (String × Json)) :=
  match item.elements? with
  | none => .error (.breach (notSequence index))
  | some [name, value] => do
    name.checkKey
    return name.text?.map (·, value)
  | some parts => .error (.breach (notPair index parts.length))

/-- **The context that a document gives**: the members of an object, or
the pairs in an array. -/
def contextOf : Json → Except Fault (List (String × Json))
  | .obj members => .ok members
  | v => match v.elements? with
    | none => .error (.breach (.notIterable v))
    | some items => do
      let pairs ← items.zipIdx.mapM fun (item, index) => pairOf index item
      return (pairs.filterMap id).foldl (fun ms (k, v) => Json.insert k v ms) []

/-- The variables of a context with others set on top of them. -/
def overlay (context values : List (String × Json)) : List (String × Json) :=
  values.foldl (fun ms (k, v) => Json.insert k v ms) context

/-- The names that no value can be given for on the spot. -/
def ownNames : List String := ["self", "template"]

/-- Values that are set on the spot, if none of their names is one of
those. -/
def settable (names : List String) (values : List (String × Json)) :
    Except Fault (List (String × Json)) :=
  match values.find? (·.1 ∈ names) with
  | some (name, _) =>
    .error (.breach (.wrongType s!"got multiple values for argument '{name}'"))
  | none => .ok values

/-! ## Rendering -/

/-- The text of a piece. A variable without value is left out. -/
def pieceText (context : List (String × Json)) : Piece → String
  | .plain c => c.toString
  | .variable_ name =>
    match valueOf context name with
    | .null => ""
    | v => v.display

/-- **The text of a template** that is cut into pieces. -/
def text (context : List (String × Json)) (ps : List Piece) : String :=
  String.join (ps.map (pieceText context))

/-- The variables without value, each as often as it stands there. -/
def missing (context : List (String × Json)) (ps : List Piece) : List String :=
  ps.filterMap fun
    | .plain _ => none
    | .variable_ name => if valueOf context name = .null then some name else none

/-- **Renders a template** in a context, with a warning for each variable
without value. -/
def render (template : String) (context : List (String × Json)) : Run String := do
  let ps := pieces template
  Run.notes .warning ((missing context ps).map ("Variable not found in context: " ++ ·))
  pure (text context ps)

end Exemplar.Template
