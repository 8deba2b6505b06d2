import Exemplar.Fault
import Exemplar.Sorting

/-!
# Values as keys

An index is keyed by values, and which values are one key is not a
question of how they are written. Numbers are told apart by size alone,
whichever of the notations of a number they have, and the two words for
truth count as one and zero; the order of the members of an object does
not matter. `Json.key` brings a value to the one form that all values
with its key share, so having one key is an equality and nothing has to
be shown for it to be an equivalence. A text is its own key
(`Json.key_str`).

Keys also have an order, for listing an index: texts go by their
characters and numbers by their size. A text and a number do not
compare, and neither does anything else. An index that holds both cannot
be listed, and what is told of that is the first pair that did not
compare (`Json.ascending`).
-/

namespace Exemplar

/-- The whole number that a double is, if it is one. -/
def Binary64.toInt? (x : Binary64) : Option Int :=
  let signed (n : Nat) : Int := if x.isNegative then -(n : Int) else n
  let unit := Nat.pow 2 (-x.scale).toNat
  if x.isSpecial then none
  else if 0 ≤ x.scale then some (signed (x.significand * Nat.pow 2 x.scale.toNat))
  else if x.significand % unit = 0 then some (signed (x.significand / unit))
  else none

namespace Json

/-! ## Having one key -/

mutual

/-- **The key of a value**: the form that all values with its key share. -/
def key : Json → Json
  | bool b => int (if b then 1 else 0)
  | float x => match x.toInt? with
    | some n => int n
    | none => float x
  | arr items => arr (keyItems items)
  | obj members => obj ((keyMembers members).mergeSort fun a b => decide (a.1 ≤ b.1))
  | v => v

/-- The key of each item. -/
def keyItems : List Json → List Json
  | [] => []
  | v :: vs => key v :: keyItems vs

/-- The key of the value of each member. -/
def keyMembers : List (String × Json) → List (String × Json)
  | [] => []
  | (k, v) :: ms => (k, key v) :: keyMembers ms

end

/-- A text is its own key. -/
@[simp]
theorem key_str (s : String) : (str s).key = str s := by simp [key]

/-- Only a text has the key of a text. -/
theorem key_eq_str_iff {v : Json} {s : String} : v.key = str s ↔ v = str s := by
  cases v with
  | float x =>
    rw [key]
    cases x.toInt? <;> simp
  | _ => simp [key]

/-- The undefined number. -/
def isUndefined : Json → Bool
  | float x => x.isUndefined
  | _ => false

/-- **Equality of values** outside an index: having one key, but for the
undefined number, which equals nothing. -/
def equals (a b : Json) : Bool := a.key = b.key && !a.isUndefined

/-- Values of which each is the first with its key. -/
def distinct (vs : List Json) : List Json := vs.eraseDupsBy fun a b => a.key = b.key

/-- Refuses a value that can be no key. -/
def checkKey (v : Json) : Except Fault Unit :=
  if v.isContainer then .error (.breach (.unhashable v)) else .ok ()

/-! ## The order of keys -/

/-- **The size of a number.** -/
inductive Size where
  | belowAll
  /-- A fraction, by its numerator and denominator. -/
  | finite (num : Int) (den : Nat)
  | aboveAll
  | undefined

/-- The size of a value that is a number. -/
def size? : Json → Option Size
  | bool b => some (.finite (if b then 1 else 0) 1)
  | int n => some (.finite n 1)
  | float x =>
    let m : Int := if x.isNegative then -(x.significand : Int) else x.significand
    if x.isUndefined then some .undefined
    else if x.isSpecial then some (if x.isNegative then .belowAll else .aboveAll)
    else some (.finite (m * Nat.pow 2 x.scale.toNat) (Nat.pow 2 (-x.scale).toNat))
  | _ => none

/-- One size is less than another. The undefined one is less than none,
and none is less than it. -/
def Size.less : Size → Size → Bool
  | .undefined, _ | _, .undefined => false
  | .finite n d, .finite m e => n * e < m * d
  | .belowAll, .belowAll | .aboveAll, _ | _, .belowAll => false
  | .belowAll, _ | _, .aboveAll => true

/-- **One value comes before another**, if the two compare. -/
def before? (a b : Json) : Option Bool :=
  match a, b with
  | str s, str t => some (s < t)
  | _, _ =>
    match a.size?, b.size? with
    | some x, some y => some (x.less y)
    | _, _ => none

/-- One value comes before another; a breach, if the two do not compare. -/
def before (a b : Json) : Except Breach Bool :=
  match before? a b with
  | some answer => .ok answer
  | none => .error (.incomparable a b)

/-- **The values in ascending order**, or the first two met that do not
compare. -/
def ascending (vs : List Json) : Except Fault (List Json) :=
  (Sorting.sort before vs).mapError .breach

end Json

end Exemplar
