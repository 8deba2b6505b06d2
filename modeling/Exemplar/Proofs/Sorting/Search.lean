import Exemplar.Sorting.Search

/-!
# Boundaries that are found

A test that answers on all indices below a size, and holds from some index on, has
this index for its boundary (`IsBoundary`), and both searches find it: halving a range
around it (`bisect_eq`), and going away from a place in growing strides until it has
been passed, to halve what lies between (`boundary_eq`). The strides need no test but
one for how far away the boundary is (`exists_stride_eq`), so the two directions are
one.
-/

namespace Exemplar.Sorting

variable {ε α β : Type} {test : Nat → Except ε Bool} {holds : Nat → Bool} {size n low high : Nat}

/-- A result is handed on. -/
theorem ok_bind (a : α) (f : α → Except ε β) : (Except.ok a >>= f) = f a := rfl

/-- **The boundary of a test** below a size: it fails up to there and holds from there
on. -/
structure IsBoundary (holds : Nat → Bool) (size n : Nat) : Prop where
  le_size : n ≤ size
  below : ∀ i < n, holds i = false
  above : ∀ i, n ≤ i → i < size → holds i = true

/-- A test holds exactly from its boundary on. -/
theorem IsBoundary.eq_decide (h : IsBoundary holds size n) {i : Nat} (hi : i < size) :
    holds i = decide (n ≤ i) := by
  by_cases hn : n ≤ i
  · rw [h.above i hn hi, decide_eq_true hn]
  · rw [h.below i (Nat.not_le.mp hn), decide_eq_false hn]

/-- **Halving** finds the boundary between its bounds. -/
theorem bisect_eq (h : IsBoundary holds size n) (htest : ∀ i < size, test i = .ok (holds i))
    (hlow : low ≤ n) (hhigh : n ≤ high) (hsize : high ≤ size) : bisect test low high = .ok n := by
  fun_induction bisect test low high with
  | case1 low high hlt middle ihLow ihHigh =>
    have hmiddle : middle < high := by omega
    rw [htest middle (by omega), h.eq_decide (by omega), ok_bind]
    by_cases hn : n ≤ middle
    · rw [if_pos (decide_eq_true hn)]
      exact ihLow hlow hn (by omega)
    · rw [if_neg (by simpa using hn)]
      exact ihHigh (by omega) hhigh hsize
  | case2 low high hnot =>
    obtain rfl : low = n := by omega
    rfl

/-- **Growing strides** pass the first distance at which the stop is reached, unless
they come to their limit. -/
theorem exists_stride_eq {stop : Nat → Except ε Bool} {limit first : Nat}
    (hstop : ∀ d < limit, stop d = .ok (decide (first ≤ d))) (near far : Nat) (hnear : near < first)
    (hfirst : first ≤ limit) : ∃ near' far', stride stop limit near far = .ok (near', far')
      ∧ near' < first ∧ first ≤ far' ∧ far' ≤ limit := by
  fun_induction stride stop limit near far with
  | case1 near far hlt ih =>
    rw [hstop far hlt, ok_bind]
    by_cases hfar : first ≤ far
    · rw [if_pos (decide_eq_true hfar)]
      exact ⟨near, far, rfl, hnear, hfar, Nat.le_of_lt hlt⟩
    · rw [if_neg (by simpa using hfar)]
      exact ih (Nat.not_le.mp hfar)
  | case2 near far hnot => exact ⟨near, limit, rfl, hnear, hfirst, Nat.le_refl _⟩

/-- **The boundary is found** from wherever it is looked for. -/
theorem boundary_eq (h : IsBoundary holds size n) (htest : ∀ i < size, test i = .ok (holds i))
    {hint : Nat} (hhint : hint < size) : boundary test size hint = .ok n := by
  have hle := h.le_size
  unfold boundary
  rw [htest hint hhint, h.eq_decide hhint, ok_bind]
  by_cases hn : n ≤ hint
  · have hstop : ∀ d < hint + 1, (do return !(← test (hint - d)) : Except ε Bool)
        = .ok (decide (hint - n + 1 ≤ d)) := by
      intro d hd
      rw [htest _ (by omega), h.eq_decide (by omega), ok_bind, ← decide_not]
      exact congrArg Except.ok (decide_eq_decide.mpr (by omega))
    obtain ⟨near, far, hstride, hnear, hfar, hlimit⟩ :=
      exists_stride_eq hstop 0 1 (by omega) (by omega)
    rw [if_pos (decide_eq_true hn), hstride, ok_bind]
    exact bisect_eq h htest (by omega) (by omega) (by omega)
  · have hstop : ∀ d < size - hint, test (hint + d) = .ok (decide (n - hint ≤ d)) := by
      intro d hd
      rw [htest _ (by omega), h.eq_decide (by omega)]
      exact congrArg Except.ok (decide_eq_decide.mpr (by omega))
    obtain ⟨near, far, hstride, hnear, hfar, hlimit⟩ :=
      exists_stride_eq hstop 0 1 (by omega) (by omega)
    rw [if_neg (by simpa using hn), hstride, ok_bind]
    exact bisect_eq h htest (by omega) (by omega) (by omega)

end Exemplar.Sorting
