import Exemplar.Sorting.Search

/-!
# Merging two sorted lists

Two sorted lists become one (`merge`); of items that neither comes before
the other, those of the first list go first. What lies in front of, or
behind, all of the other list stays where it is. Of what is left, the
shorter list decides the **side** from which the two are merged: the
front if it is the first, the back if it is the second.

A merge takes items one by one, at each step the head of the list whose
head goes first. When one list has gone first so often that patience is
at its end, the merge **sweeps** instead: it looks how many items of a
list go ahead of the head of the other, and takes them all at once. It
goes on so while that pays, and patience, which is handed from one merge
to the next, grows or shrinks with how well it did.

The comparison may fail, and a merge fails with the first comparison that
does. Which items are compared, and when, is therefore fixed here down to
the last comparison.
-/

namespace Exemplar.Sorting

variable {α ε : Type}

/-- **The side** from which two lists are merged. -/
inductive Side where
  | front
  | back
  deriving DecidableEq, Repr

/-- **A merge under way.** Both lists have the items nearest to the side
of the merge first. -/
structure Merging (α : Type) where
  /-- What was taken, the latest first. -/
  taken : List α := []
  short : List α
  long : List α

namespace Merging

/-- Takes items from the shorter list. -/
def takeShort (n : Nat) (m : Merging α) : Merging α :=
  { m with taken := (m.short.take n).reverse ++ m.taken, short := m.short.drop n }

/-- Takes items from the longer list. -/
def takeLong (n : Nat) (m : Merging α) : Merging α :=
  { m with taken := (m.long.take n).reverse ++ m.taken, long := m.long.drop n }

/-- Nothing is left to compare: the last item of the shorter list is
known to go behind all of the longer one. -/
def isSettled (m : Merging α) : Bool := m.long.isEmpty || m.short.length ≤ 1

/-- What a settled merge gives. -/
def result (m : Merging α) : List α := m.taken.reverse ++ m.long ++ m.short

end Merging

/-- An item of the longer list goes ahead of one of the shorter list. -/
def longFirst (side : Side) (less : α → α → Except ε Bool) (long short : α) : Except ε Bool :=
  match side with
  | .front => less long short
  | .back => less short long

/-! ## Sweeping -/

/-- A test of the item at an index, which fails behind the last item. -/
def onItem (items : List α) (test : α → Except ε Bool) (i : Nat) : Except ε Bool :=
  match items[i]? with
  | some item => test item
  | none => .ok false

/-- **How many items at the head of a list go ahead**, where no item does
behind one that does not. They are counted from the side of the merge. -/
def lead (side : Side) (ahead : α → Except ε Bool) (items : List α) : Except ε Nat :=
  let last := items.length - 1
  match side with
  | .front => boundary (fun i => do return !(← onItem items ahead i)) items.length 0
  | .back => do
    return items.length - (← boundary (fun i => onItem items ahead (last - i)) items.length last)

/-- Takes what goes ahead of the head of the longer list, and then that
head. The number is that of the items that went ahead. -/
def sweepShort (side : Side) (less : α → α → Except ε Bool) (m : Merging α) :
    Except ε (Nat × Merging α) :=
  match m.long, m.short with
  | long :: _, _ :: _ :: _ => do
    let n ← lead side (fun short => do return !(← longFirst side less long short)) m.short
    let m := m.takeShort n
    return (n, if m.isSettled then m else m.takeLong 1)
  | _, _ => .ok (0, m)

/-- Takes what goes ahead of the head of the shorter list, and then that
head. The number is that of the items that went ahead. -/
def sweepLong (side : Side) (less : α → α → Except ε Bool) (m : Merging α) :
    Except ε (Nat × Merging α) :=
  match m.long, m.short with
  | _ :: _, short :: _ :: _ => do
    let n ← lead side (fun long => longFirst side less long short) m.long
    let m := m.takeLong n
    return (n, if m.isSettled then m else m.takeShort 1)
  | _, _ => .ok (0, m)

/-- **Sweeps both lists**, first the one that stands first. The number is
the greater one of the two sweeps. -/
def sweep (side : Side) (less : α → α → Except ε Bool) (m : Merging α) :
    Except ε (Nat × Merging α) := do
  match side with
  | .front =>
    let (n, m) ← sweepShort side less m
    let (k, m) ← sweepLong side less m
    return (max n k, m)
  | .back =>
    let (n, m) ← sweepLong side less m
    let (k, m) ← sweepShort side less m
    return (max n k, m)

/-! ## Merging -/

/-- **How a merge goes on.** -/
inductive Pace where
  /-- One by one; how often in a row the longer and the shorter list have
  gone first. -/
  | single (long short : Nat)
  | sweeping

/-- Sweeping pays if it takes that many items at once. -/
def sweepGain : Nat := 7

/-- The patience of the first merge. -/
def firstPatience : Nat := 7

/-- The pace after a list went first some times in a row. -/
def paceAfter (patience long short : Nat) : Pace :=
  if patience ≤ max long short then .sweeping else .single long short

/-- **Goes on with a merge** until it is settled. Every step takes an
item, so `steps` is the number of the items. -/
def mergeOn (side : Side) (less : α → α → Except ε Bool) :
    (steps patience : Nat) → Pace → Merging α → Except ε (List α × Nat)
  | 0, patience, _, m => .ok (m.result, patience)
  | steps + 1, patience, pace, m =>
    match m.long, m.short with
    | long :: _, short :: _ :: _ =>
      match pace with
      | .single longs shorts => do
        if ← longFirst side less long short then
          mergeOn side less steps patience (paceAfter patience (longs + 1) 0) (m.takeLong 1)
        else
          mergeOn side less steps patience (paceAfter patience 0 (shorts + 1)) (m.takeShort 1)
      | .sweeping => do
        let (n, m) ← sweep side less m
        if m.isSettled then return (m.result, patience)
        else if sweepGain ≤ n then
          mergeOn side less steps (max 1 (patience - 1)) .sweeping m
        else mergeOn side less steps (patience + 1) (.single 0 0) m
    | _, _ => .ok (m.result, patience)

/-- Merges from a side. The head of the longer list is known to go
first. -/
def mergeFrom (side : Side) (less : α → α → Except ε Bool) (patience : Nat)
    (short long : List α) : Except ε (List α × Nat) :=
  mergeOn side less (short.length + long.length) patience (.single 0 0)
    (Merging.takeLong 1 { short, long })

/-- **Merges two sorted lists.** The number is the patience that is left
for the next merge. -/
def merge (less : α → α → Except ε Bool) (patience : Nat) (first second : List α) :
    Except ε (List α × Nat) := do
  match second with
  | [] => return (first, patience)
  | head :: _ =>
    let n ← boundary (onItem first fun x => less head x) first.length 0
    let overlap := first.drop n
    match overlap.getLast? with
    | none => return (first ++ second, patience)
    | some last =>
      let k ← boundary (onItem second fun x => do return !(← less x last))
        second.length (second.length - 1)
      let (merged, patience) ←
        if overlap.length ≤ k then mergeFrom .front less patience overlap (second.take k)
        else do
          let (merged, patience) ←
            mergeFrom .back less patience (second.take k).reverse overlap.reverse
          pure (merged.reverse, patience)
      return (first.take n ++ merged ++ second.drop k, patience)

end Exemplar.Sorting
