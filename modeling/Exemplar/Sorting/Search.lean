/-!
# Searching a boundary

A test on the indices of a sorted list often fails up to some index and
holds from there on. That index is its **boundary**, and it is found with
few tests: by halving the range in which it must lie (`bisect`), or, if
it is thought to be near a place, by first going away from the place in
strides of growing length until it has been passed (`boundary`).

A test may itself fail to give an answer. The search ends then, so which
indices are tested, and in which order, is part of what a search does.
-/

namespace Exemplar.Sorting

variable {ε : Type}

/-- **The boundary of a test** between two indices, found by halving. -/
def bisect (test : Nat → Except ε Bool) (low high : Nat) : Except ε Nat :=
  if low < high then do
    let middle := low + (high - low) / 2
    if ← test middle then bisect test low middle
    else bisect test (middle + 1) high
  else .ok low
termination_by high - low

/-- The distances between which a stop lies, looked for at distances that
double, and no farther than a limit. -/
def stride (stop : Nat → Except ε Bool) (limit near far : Nat) : Except ε (Nat × Nat) :=
  if far < limit then do
    if ← stop far then return (near, far)
    else stride stop limit far (2 * far + 1)
  else .ok (near, limit)
termination_by limit - far

/-- **The boundary of a test** on the indices below a size, looked for
from one of them on: downwards if the test holds there, else upwards. -/
def boundary (test : Nat → Except ε Bool) (size hint : Nat) : Except ε Nat := do
  if ← test hint then
    let (near, far) ← stride (fun d => do return !(← test (hint - d))) (hint + 1) 0 1
    bisect test (hint + 1 - far) (hint - near)
  else
    let (near, far) ← stride (fun d => test (hint + d)) (size - hint) 0 1
    bisect test (hint + near + 1) (hint + far)

end Exemplar.Sorting
