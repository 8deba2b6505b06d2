import Exemplar.Sorting.Merge

/-!
# Sorting by a comparison that may fail

Values of different types need not compare, so a comparison may fail, and
sorting fails with the first comparison that does (`sort`). A list that
cannot be sorted can be told of only by the pair that did not compare,
and this pair depends on the order in which pairs are compared; the order
is therefore part of what sorting does.

A list is cut into **stretches** that are sorted as they stand or the
other way round. A stretch that is too short takes in the items behind
it, each put in its place. Adjacent stretches are merged, and which of
them are merged first is read off a tree: the list is halved, its halves
are halved, and so on, and the boundary of two stretches is as deep as
the first halving that tells their middles apart. Deep boundaries go
first. Items of which neither comes before the other stay in their order.
-/

namespace Exemplar.Sorting

variable {α ε : Type}

/-! ## Stretches -/

/-- The items in front of which each one comes before the one ahead of
it, or, with `down` not set, does not; and those that are left. -/
def takeRun (less : α → α → Except ε Bool) (down : Bool) (last : α) :
    List α → Except ε (List α × List α)
  | [] => .ok ([], [])
  | x :: xs => do
    if (← less x last) = down then
      let (run, rest) ← takeRun less down x xs
      return (x :: run, rest)
    else return ([], x :: xs)

/-- A sorted list with one more item put in its place, behind all that it
does not come before. -/
def putInPlace (less : α → α → Except ε Bool) (sorted : List α) (x : α) :
    Except ε (List α) := do
  let n ← bisect (onItem sorted (less x)) 0 sorted.length
  return sorted.take n ++ x :: sorted.drop n

/-- **The stretch at the front of a list**, sorted, and what is left. It
has a least length unless the list ends before. -/
def nextStretch (less : α → α → Except ε Bool) (least : Nat) :
    List α → Except ε (List α × List α)
  | x :: y :: items => do
    let down ← less y x
    let (run, rest) ← takeRun less down y items
    let found := x :: y :: run
    let missing := least - found.length
    let stretch ← (rest.take missing).foldlM (putInPlace less)
      (if down then found.reverse else found)
    return (stretch, rest.drop missing)
  | items => .ok (items, [])

/-- **The least length of a stretch**: the highest six binary digits of
the length of the list, and one more if any digit below them is set. -/
def leastLength (total : Nat) : Nat := cut total 0
where
  /-- Cuts off binary digits; `set` is one if any of them was. -/
  cut (n set : Nat) : Nat :=
    if n < 64 then n + set else cut (n / 2) (max set (n % 2))
  termination_by n

/-! ## The order of merging -/

/-- **A stretch of a list.** -/
structure Stretch (α : Type) where
  start : Nat
  items : List α
  /-- How deep the boundary to the next stretch is. -/
  depth : Nat := 0

/-- **The depth of the boundary** of two adjacent stretches: the number of
binary digits, behind the point, up to the first in which their middles,
as parts of the whole list, differ. -/
def depthBetween (total start size next : Nat) : Nat :=
  let middle := 2 * start + size
  let middleOfNext := middle + size + next
  ((List.range total).find? fun digits =>
    middle * Nat.pow 2 digits / total ≠ middleOfNext * Nat.pow 2 digits / total).getD total + 1

/-- **Merges what lies deeper** than a boundary behind the last stretch.
The stretches are given from the last one up. -/
def settle (less : α → α → Except ε Bool) (depth patience : Nat) (last : Stretch α) :
    List (Stretch α) → Except ε (List (Stretch α) × Nat)
  | [] => .ok ([{ last with depth }], patience)
  | before :: above =>
    if depth < before.depth then do
      let (items, patience) ← merge less patience before.items last.items
      settle less depth patience { before with items } above
    else .ok ({ last with depth } :: before :: above, patience)

/-- **Merges all stretches**, given from the last one up: always the last
two, unless the one above them is shorter than the last. -/
def joinAll (less : α → α → Except ε Bool) (patience : Nat) :
    List (Stretch α) → Except ε (List α)
  | [] => .ok []
  | [only] => .ok only.items
  | [last, before] => do
    let (items, _) ← merge less patience before.items last.items
    return items
  | last :: before :: above :: rest =>
    if above.items.length < last.items.length then do
      let (items, patience) ← merge less patience above.items before.items
      joinAll less patience (last :: { above with items } :: rest)
    else do
      let (items, patience) ← merge less patience before.items last.items
      joinAll less patience ({ before with items } :: above :: rest)
termination_by stretches => stretches.length

/-- Sorts the items of a list from some place on, the stretches in front
of them given from the last one up. Every step takes an item at least, so
`steps` is the number of the items. -/
def sortFrom (less : α → α → Except ε Bool) (total : Nat) :
    (steps patience start : Nat) → List (Stretch α) → List α → Except ε (List α)
  | _, patience, _, stretches, [] => joinAll less patience stretches
  | 0, patience, _, stretches, _ => joinAll less patience stretches
  | steps + 1, patience, start, stretches, items => do
    let (found, rest) ← nextStretch less (leastLength total) items
    let (stretches, patience) ← match stretches with
      | [] => pure ([], patience)
      | last :: above =>
        settle less (depthBetween total last.start last.items.length found.length)
          patience last above
    sortFrom less total steps patience (start + found.length)
      ({ start, items := found } :: stretches) rest

/-- **Sorts a list** by a comparison that says whether one item comes
before another. -/
def sort (less : α → α → Except ε Bool) (items : List α) : Except ε (List α) :=
  sortFrom less items.length items.length firstPatience 0 [] items

/-- An empty list is sorted. -/
@[simp]
theorem sort_nil (less : α → α → Except ε Bool) : sort less [] = .ok [] := by
  simp [sort, sortFrom, joinAll]

end Exemplar.Sorting
