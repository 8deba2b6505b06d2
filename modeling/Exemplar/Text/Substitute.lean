/-!
# Substitution in a text, from left to right

A rule looks at the text from a position on and either answers what to
write there and how many characters that replaces, or leaves the
character as it is. Replaced text is not looked at again, and matches
do not overlap. The walk is a recursion on the text itself: a match
leaves a count of characters still to be passed over, so no length has
to be shown to shrink.
-/

namespace Exemplar.Text

/-- **A substitution rule**: what to write in place of the given character
and of how many characters after it; `none` keeps the character. -/
abbrev Rule := Char → List Char → Option (List Char × Nat)

/-- Substitutes in a text of which the first `skip` characters are already
replaced. -/
def substituteFrom (rule : Rule) : Nat → List Char → List Char
  | _, [] => []
  | skip + 1, _ :: cs => substituteFrom rule skip cs
  | 0, c :: cs =>
    match rule c cs with
    | none => c :: substituteFrom rule 0 cs
    | some (text, n) => text ++ substituteFrom rule n cs

/-- **The text with a rule applied**, left to right. -/
def substitute (rule : Rule) (cs : List Char) : List Char := substituteFrom rule 0 cs

/-- What is left of a text after a given beginning, if it begins so. -/
def dropStart? : List Char → List Char → Option (List Char)
  | [], cs => some cs
  | _ :: _, [] => none
  | p :: ps, c :: cs => if p = c then dropStart? ps cs else none

/-- Beginning with a text means being that text and a rest. -/
theorem dropStart?_eq_some_iff {ps cs rest : List Char} :
    dropStart? ps cs = some rest ↔ cs = ps ++ rest := by
  fun_induction dropStart? ps cs with
  | case1 cs => simp [eq_comm]
  | case2 p ps => simp
  | case3 ps c cs ih => simpa using ih
  | case4 p ps c cs h => simp [Ne.symm h]

/-- The rule that writes `new` for each occurrence of a non-empty
text, given by its first character and the others. -/
def literalRule (first : Char) (others new : List Char) : Rule := fun c cs =>
  if c = first ∧ (dropStart? others cs).isSome then some (new, others.length) else none

end Exemplar.Text
