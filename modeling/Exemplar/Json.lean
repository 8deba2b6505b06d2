import Exemplar.Number.Binary64
import Exemplar.Text.Shown

/-!
# JSON values

A document is a value of its own type, since documents are what this
library is about. Whole numbers are exact and of any size, other numbers
are doubles, and an object is the list of its members in the order of
the document. That the keys of an object are distinct is a property of
the documents that are read (`Json.Distinct`), not of the type: a reader
keeps the first position and the last value of a repeated key, and code
that only walks over the members need not ask.

Equality is structural and decidable, so two objects with the same
members in another order differ.
-/

namespace Exemplar

/-- **A JSON value.** -/
inductive Json where
  | null
  | bool (b : Bool)
  | int (n : Int)
  | float (x : Binary64)
  | str (s : String)
  | arr (items : List Json)
  | obj (members : List (String × Json))
  deriving Inhabited

namespace Json

/-! ## Equality -/

mutual

/-- Structural equality, as a test. -/
def same : Json → Json → Bool
  | null, null => true
  | bool a, bool b => a == b
  | int a, int b => a == b
  | float a, float b => decide (a = b)
  | str a, str b => a == b
  | arr xs, arr ys => sameItems xs ys
  | obj xs, obj ys => sameMembers xs ys
  | _, _ => false

/-- Equality of two lists of values. -/
def sameItems : List Json → List Json → Bool
  | [], [] => true
  | x :: xs, y :: ys => same x y && sameItems xs ys
  | _, _ => false

/-- Equality of two lists of members. -/
def sameMembers : List (String × Json) → List (String × Json) → Bool
  | [], [] => true
  | (k, x) :: xs, (l, y) :: ys => k == l && (same x y && sameMembers xs ys)
  | _, _ => false

end

mutual

/-- The test decides equality. -/
theorem same_iff : ∀ a b : Json, same a b = true ↔ a = b
  | null, b => by cases b <;> simp [same]
  | bool a, b => by cases b <;> simp [same]
  | int a, b => by cases b <;> simp [same]
  | float a, b => by cases b <;> simp [same]
  | str a, b => by cases b <;> simp [same]
  | arr xs, b => by cases b <;> simp [same, sameItems_iff xs]
  | obj xs, b => by cases b <;> simp [same, sameMembers_iff xs]

/-- The test on items decides equality. -/
theorem sameItems_iff : ∀ xs ys : List Json, sameItems xs ys = true ↔ xs = ys
  | [], ys => by cases ys <;> simp [sameItems]
  | x :: xs, ys => by cases ys <;> simp [sameItems, same_iff x, sameItems_iff xs]

/-- The test on members decides equality. -/
theorem sameMembers_iff :
    ∀ xs ys : List (String × Json), sameMembers xs ys = true ↔ xs = ys
  | [], ys => by cases ys <;> simp [sameMembers]
  | (k, x) :: xs, [] => by simp [sameMembers]
  | (k, x) :: xs, (l, y) :: ys => by
    simp [sameMembers, same_iff x, sameMembers_iff xs, and_assoc]

end

instance : DecidableEq Json := fun a b => decidable_of_iff _ (same_iff a b)

/-! ## Members of an object -/

/-- The value of a key in a list of members: the first one. -/
def find? (key : String) : List (String × Json) → Option Json
  | [] => none
  | (k, v) :: rest => if k = key then some v else find? key rest

/-- **Sets a member**: a key that is there keeps its position and gets
the new value, any other goes to the end. -/
def insert (key : String) (value : Json) : List (String × Json) → List (String × Json)
  | [] => [(key, value)]
  | (k, v) :: rest => if k = key then (k, value) :: rest else (k, v) :: insert key value rest

/-! ## Reading a value loosely

The fields of a catalog and of an override rule are taken as they stand,
and only the places that use them ask what they are. -/

/-- **Truth**: `null`, `false`, zero and whatever is empty count as
false, all other values as true. -/
def truthy : Json → Bool
  | null => false
  | bool b => b
  | int n => n != 0
  | float x => !x.isZero
  | str s => s != ""
  | arr items => !items.isEmpty
  | obj members => !members.isEmpty

/-- The word for the type of a value in a message. -/
def typeWord : Json → String
  | null => "NoneType"
  | bool _ => "bool"
  | int _ => "int"
  | float _ => "float"
  | str _ => "str"
  | arr _ => "list"
  | obj _ => "dict"

/-- Arrays and objects, which can be no keys of an index. -/
def isContainer : Json → Bool
  | arr _ | obj _ => true
  | _ => false

/-- The text of a value that is one. -/
def text? : Json → Option String
  | str s => some s
  | _ => none

/-- What a value gives when it is walked over: the items of an array,
the keys of an object, the characters of a text. -/
def elements? : Json → Option (List Json)
  | arr items => some items
  | obj members => some (members.map fun (k, _) => .str k)
  | str s => some (s.toList.map fun c => .str c.toString)
  | _ => none

/-! ## Documents as they are read -/

mutual

/-- **Distinct keys**, at every depth. -/
def Distinct : Json → Prop
  | arr items => DistinctItems items
  | obj members => (members.map Prod.fst).Nodup ∧ DistinctMembers members
  | _ => True

/-- Distinct keys in every item. -/
def DistinctItems : List Json → Prop
  | [] => True
  | x :: xs => Distinct x ∧ DistinctItems xs

/-- Distinct keys in the value of every member. -/
def DistinctMembers : List (String × Json) → Prop
  | [] => True
  | (_, x) :: xs => Distinct x ∧ DistinctMembers xs

end

end Json

end Exemplar
