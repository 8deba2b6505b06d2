import Exemplar.Json.Display
import Exemplar.Text.Characters

/-!
# Kinds of leaves

A leaf of an inferred schema has one of five kinds. `unknown` is the
kind of `null` and of an empty array's element: it carries no shape and
gives way to any other kind. `opaque_` is raw text, and what remains of
leaves of different kinds: `Kind.widen` is the join of the order in
which `unknown` lies below the three plain kinds and these lie below
`opaque_` – commutative, associative and idempotent.
-/

namespace Exemplar

/-- **The kind of a leaf.** -/
inductive Kind where
  | string
  | number
  | boolean
  /-- Raw text, or leaves of different kinds. -/
  | opaque_
  /-- No example, or only `null`. -/
  | unknown
  deriving DecidableEq, Repr, Inhabited

namespace Kind

/-- All kinds. -/
def all : List Kind := [string, number, boolean, opaque_, unknown]

/-- The word for a kind, in snapshots and in override rules. -/
def word : Kind → String
  | string => "string"
  | number => "number"
  | boolean => "boolean"
  | opaque_ => "opaque"
  | unknown => "unknown"

/-- The kind that a word is for. -/
def ofWord? (s : String) : Option Kind := all.find? (·.word == s)

/-- Reading the word of a kind. -/
@[simp]
theorem ofWord?_word (k : Kind) : ofWord? k.word = some k := by
  cases k <;> decide

/-- **The kind that an override rule asks for**: the word may be in any
case and have blanks around it. -/
def ofToken? (token : Json) : Option Kind :=
  ofWord? (Text.lower (String.ofList (Text.strip token.display.toList)))

/-- What is said of a token that names no kind. -/
def unknownToken (token : Json) : String := s!"Unknown field type token: {token.quoted}"

/-- **The kind of a value** that is no container. -/
def ofScalar? : Json → Option Kind
  | .null => some unknown
  | .bool _ => some boolean
  | .int _ | .float _ => some number
  | .str _ => some string
  | .arr _ | .obj _ => none

/-- **The least kind above two kinds.** -/
def widen (a b : Kind) : Kind :=
  if a = b then a else if a = unknown then b else if b = unknown then a else opaque_

@[simp]
theorem widen_self (a : Kind) : widen a a = a := by cases a <;> rfl

@[simp]
theorem unknown_widen (a : Kind) : widen unknown a = a := by cases a <;> rfl

@[simp]
theorem widen_unknown (a : Kind) : widen a unknown = a := by cases a <;> rfl

theorem widen_comm (a b : Kind) : widen a b = widen b a := by cases a <;> cases b <;> rfl

theorem widen_assoc (a b c : Kind) : widen (widen a b) c = widen a (widen b c) := by
  cases a <;> cases b <;> cases c <;> rfl

end Kind

end Exemplar
