import Exemplar.Proofs.Sorting.Merge
import Exemplar.Sorting

/-!
# Sorting arranges

Where items compare by keys, sorting does not fail, and what it gives arranges the
list. Every step keeps one invariant (`Stacks`): the stretches that were found, the
last one first, arrange one after the other what was read so far. A step arranges a
stretch at the front of what is left (`exists_nextStretch_eq`), and merging two
stretches that follow each other arranges both (`Stacks.exists_merge_eq`); so at the
end one stretch arranges all (`exists_sort_eq`). Values of which each is only taken once
come into strict order (`exists_sort_eraseDupsBy`).
-/

namespace Exemplar.Sorting

variable {ε α β : Type} [LinearOrder β] {key : α → β} {less : α → α → Except ε Bool}
  {xs ys items sorted above : List α} {x y last : α} {down : Bool}

/-! ## Stretches -/

/-- **The order of a run**: each item comes before the one ahead of it, or does not. -/
def Continues (key : α → β) (down : Bool) (x y : α) : Prop := decide (key y < key x) = down

/-- A run is ordered through and through. -/
theorem pairwise_cons_continues {run : List α} (hxy : Continues key down x y)
    (h : (y :: run).Pairwise (Continues key down)) :
    (x :: y :: run).Pairwise (Continues key down) := by
  refine List.pairwise_cons.mpr ⟨fun z hz => ?_, h⟩
  rcases List.mem_cons.mp hz with rfl | hz
  · exact hxy
  · have hyz := (List.pairwise_cons.mp h).1 z hz
    unfold Continues at hxy hyz ⊢
    cases down with
    | true =>
      rw [decide_eq_true_iff] at hxy hyz ⊢
      exact hyz.trans hxy
    | false =>
      rw [decide_eq_false_iff_not, not_lt] at hxy hyz ⊢
      exact hxy.trans hyz

/-- **A run** is taken as far as it goes. -/
theorem exists_takeRun_eq (down : Bool) (h : Compares less key (last :: items)) :
    ∃ run rest, takeRun less down last items = .ok (run, rest) ∧ items = run ++ rest
      ∧ (last :: run).Pairwise (Continues key down) := by
  induction items generalizing last with
  | nil => exact ⟨[], [], rfl, rfl, List.pairwise_singleton _ _⟩
  | cons x items ih =>
    unfold takeRun
    rw [h x (by simp) last (by simp), ok_bind]
    by_cases hx : decide (key x < key last) = down
    · obtain ⟨run, rest, hrun, rfl, hpairwise⟩ := ih (h.subset (List.subset_cons_self _ _))
      rw [if_pos hx, hrun]
      exact ⟨x :: run, rest, rfl, rfl, pairwise_cons_continues hx hpairwise⟩
    · rw [if_neg hx]
      exact ⟨[], x :: items, rfl, rfl, List.pairwise_singleton _ _⟩

/-- Among items of which no two have one key, the order of those with a key is no matter. -/
theorem filter_reverse_of_ne (h : xs.Pairwise fun x y => key x ≠ key y) (k : β) :
    xs.reverse.filter (key · = k) = xs.filter (key · = k) := by
  induction xs with
  | nil => rfl
  | cons x xs ih =>
    obtain ⟨hne, hxs⟩ := List.pairwise_cons.mp h
    rw [List.reverse_cons, List.filter_append, ih hxs]
    by_cases hk : key x = k
    · have hnone : xs.filter (key · = k) = [] := by
        rw [List.filter_eq_nil_iff]
        intro y hy
        simpa [hk] using (hne y hy).symm
      simp [hnone, hk]
    · simp [hk]

/-- **A run**, turned over if it goes down, is arranged. Items of a run that goes down
have different keys. -/
theorem arranges_run (h : xs.Pairwise (Continues key down)) :
    Arranges key xs (if down then xs.reverse else xs) := by
  cases down with
  | true =>
    have hlt : xs.Pairwise fun x y => key y < key x := h.imp of_decide_eq_true
    exact ⟨List.pairwise_reverse.mpr (hlt.imp le_of_lt),
      filter_reverse_of_ne (hlt.imp fun hxy => hxy.ne')⟩
  | false => exact .refl (h.imp fun hxy => not_lt.mp (of_decide_eq_false hxy))

/-- **An item is put in its place**, behind those with its key. -/
theorem exists_putInPlace_eq (h : Compares less key (sorted ++ [x]))
    (hsorted : sorted.Pairwise fun x y => key x ≤ key y) :
    ∃ ys, putInPlace less sorted x = .ok ys ∧ Arranges key (sorted ++ [x]) ys := by
  obtain ⟨front, back, rfl, hfront, hback⟩ :=
    exists_cut hsorted (fun y => key y ≤ key x) fun _ _ => le_trans
  have hback : ∀ y ∈ back, key x < key y := fun y hy => not_le.mp (hback y hy)
  have hless : ∀ y ∈ front ++ back, less x y = .ok (decide (key x < key y)) :=
    fun y hy => h x (by simp) y (List.mem_append_left _ hy)
  have hn : bisect (onItem (front ++ back) (less x)) 0 (front ++ back).length
      = .ok front.length := by
    refine bisect_onItem (fun y hy => ?_) fun y hy => ?_
    · rw [hless y (List.mem_append_left _ hy), decide_eq_false (not_lt.mpr (hfront y hy))]
    · rw [hless y (List.mem_append_right _ hy), decide_eq_true (hback y hy)]
  refine ⟨front ++ x :: back, ?_, ?_, fun k => ?_⟩
  · unfold putInPlace
    rw [hn, ok_bind, List.take_left, List.drop_left]
    rfl
  · obtain ⟨hascFront, hascBack, hbetween⟩ := List.pairwise_append.mp hsorted
    refine List.pairwise_append.mpr ⟨hascFront, List.pairwise_cons.mpr
      ⟨fun y hy => (hback y hy).le, hascBack⟩, fun y hy z hz => ?_⟩
    rcases List.mem_cons.mp hz with rfl | hz
    · exact hfront y hy
    · exact hbetween y hy z hz
  · by_cases hk : key x = k
    · have hnone : back.filter (key · = k) = [] := by
        rw [List.filter_eq_nil_iff]
        intro y hy
        simpa [← hk] using (hback y hy).ne'
      simp [hnone, hk]
    · simp [hk]

/-- Items that are put in their places one by one. -/
theorem exists_foldlM_putInPlace_eq (h : Compares less key (xs ++ items))
    (hsorted : Arranges key xs sorted) :
    ∃ ys, items.foldlM (putInPlace less) sorted = .ok ys ∧ Arranges key (xs ++ items) ys := by
  induction items generalizing xs sorted with
  | nil => exact ⟨sorted, rfl, by simpa using hsorted⟩
  | cons x items ih =>
    have hx : Compares less key (sorted ++ [x]) := h.subset (by
      refine List.append_subset.mpr ⟨fun y hy => ?_, by simp⟩
      exact List.mem_append_left _ (hsorted.subset hy))
    obtain ⟨ys, hys, harranges⟩ := exists_putInPlace_eq hx hsorted.ascending
    have hnext : Compares less key (xs ++ [x] ++ items) := by simpa using h
    obtain ⟨zs, hzs, hall⟩ := ih hnext (hsorted.append_left harranges)
    exact ⟨zs, by rw [List.foldlM_cons, hys, ok_bind, hzs], by simpa using hall⟩

/-- **The next stretch** arranges what it was taken from, and takes an item at least. -/
theorem exists_nextStretch_eq (h : Compares less key items) (least : Nat) :
    ∃ found taken rest, nextStretch less least items = .ok (found, rest)
      ∧ items = taken ++ rest ∧ Arranges key taken found ∧ (items ≠ [] → taken ≠ []) := by
  match items with
  | [] => exact ⟨[], [], [], rfl, rfl, .refl .nil, id⟩
  | [x] => exact ⟨[x], [x], [], rfl, rfl, .refl (List.pairwise_singleton _ _), id⟩
  | x :: y :: items =>
    obtain ⟨run, rest, hrun, rfl, hpairwise⟩ := exists_takeRun_eq
      (decide (key y < key x)) (h.subset (List.subset_cons_self x (y :: items)))
    have harranges := arranges_run (pairwise_cons_continues (x := x) rfl hpairwise)
    let missing := least - (x :: y :: run).length
    have htaken : x :: y :: (run ++ rest)
        = x :: y :: run ++ rest.take missing ++ rest.drop missing := by
      simp
    have hcompares : Compares less key (x :: y :: run ++ rest.take missing) :=
      h.subset (htaken ▸ List.subset_append_left _ _)
    obtain ⟨found, hfound, hall⟩ := exists_foldlM_putInPlace_eq hcompares harranges
    refine ⟨found, x :: y :: run ++ rest.take missing, rest.drop missing, ?_, htaken, hall,
      by simp⟩
    unfold nextStretch
    dsimp only
    rw [h y (by simp) x (by simp), ok_bind, hrun, ok_bind]
    dsimp only
    rw [hfound]
    rfl

/-! ## Stacks of stretches -/

/-- **Stretches that follow each other**, from the last one up, and the list that they
arrange one after the other. -/
inductive Stacks (key : α → β) : List (Stretch α) → List α → Prop
  | nil : Stacks key [] []
  | cons {stretches : List (Stretch α)} {s : Stretch α} {xs taken : List α} :
      Stacks key stretches xs → Arranges key taken s.items →
      Stacks key (s :: stretches) (xs ++ taken)

namespace Stacks

variable {stretches above : List (Stretch α)} {before last : Stretch α}

/-- One stretch arranges the whole list. -/
theorem arranges (h : Stacks key [last] xs) : Arranges key xs last.items := by
  obtain _ | ⟨habove, hlast⟩ := h
  cases habove
  exact hlast

/-- **Merging the last two** stretches leaves one in their place. -/
theorem exists_merge_eq (h : Stacks key (last :: before :: above) xs) (hc : Compares less key xs)
    (patience : Nat) : ∃ items p, merge less patience before.items last.items = .ok (items, p)
      ∧ ∀ start depth, Stacks key (⟨start, items, depth⟩ :: above) xs := by
  obtain _ | @⟨_, _, _, taken, hbefore, hlast⟩ := h
  obtain _ | @⟨_, _, ws, taken', habove, hbefore⟩ := hbefore
  have hsub : before.items ++ last.items ⊆ ws ++ taken' ++ taken := by
    rw [List.append_assoc]
    refine List.append_subset.mpr ⟨fun x hx => ?_, fun x hx => ?_⟩
    · exact List.mem_append_right _ (List.mem_append_left _ (hbefore.subset hx))
    · exact List.mem_append_right _ (List.mem_append_right _ (hlast.subset hx))
  obtain ⟨items, p, hitems, harranges⟩ := Sorting.exists_merge_eq (hc.subset hsub)
    hbefore.ascending hlast.ascending patience
  refine ⟨items, p, hitems, fun start depth => ?_⟩
  rw [List.append_assoc]
  exact .cons habove (hbefore.append_left (hlast.append_right harranges))

/-- **Settling** the stretches keeps what they arrange. -/
theorem exists_settle_eq (h : Stacks key (last :: above) xs) (hc : Compares less key xs)
    (depth patience : Nat) : ∃ stretches p, settle less depth patience last above
      = .ok (stretches, p) ∧ Stacks key stretches xs := by
  induction above generalizing last patience with
  | nil =>
    obtain _ | ⟨habove, hlast⟩ := h
    exact ⟨_, _, rfl, .cons habove hlast⟩
  | cons before above ih =>
    unfold settle
    split
    · obtain ⟨items, p, hitems, hstacks⟩ := h.exists_merge_eq hc patience
      rw [hitems]
      exact ih (hstacks _ _) p
    · obtain _ | ⟨habove, hlast⟩ := h
      exact ⟨_, _, rfl, .cons habove hlast⟩

/-- **Joining** the stretches arranges the whole list. -/
theorem exists_joinAll_eq (h : Stacks key stretches xs) (hc : Compares less key xs)
    (patience : Nat) : ∃ ys, joinAll less patience stretches = .ok ys ∧ Arranges key xs ys := by
  fun_induction joinAll less patience stretches generalizing xs with
  | case1 =>
    cases h
    exact ⟨[], rfl, .refl .nil⟩
  | case2 patience only => exact ⟨only.items, rfl, h.arranges⟩
  | case3 patience last before =>
    obtain ⟨items, p, hitems, hstacks⟩ := h.exists_merge_eq hc patience
    rw [hitems]
    exact ⟨items, rfl, (hstacks 0 0).arranges⟩
  | case4 patience last before above rest hlt ih =>
    obtain _ | ⟨habove, hlast⟩ := h
    obtain ⟨items, p, hitems, hstacks⟩ :=
      habove.exists_merge_eq (hc.subset (List.subset_append_left _ _)) patience
    rw [hitems]
    exact ih items p (.cons (hstacks _ _) hlast) hc
  | case5 patience last before above rest hnot ih =>
    obtain ⟨items, p, hitems, hstacks⟩ := h.exists_merge_eq hc patience
    rw [hitems]
    exact ih items p (hstacks _ _) hc

end Stacks

/-! ## Sorting -/

/-- **Sorting from some place on** arranges what was read so far with what is left. -/
theorem exists_sortFrom_eq {stretches : List (Stretch α)} {steps : Nat}
    (h : Stacks key stretches xs) (hc : Compares less key (xs ++ items))
    (hsteps : items.length ≤ steps) (total patience start : Nat) :
    ∃ ys, sortFrom less total steps patience start stretches items = .ok ys
      ∧ Arranges key (xs ++ items) ys := by
  induction steps generalizing xs items stretches patience start with
  | zero =>
    obtain rfl := List.eq_nil_of_length_eq_zero (Nat.le_zero.mp hsteps)
    simpa [sortFrom] using h.exists_joinAll_eq (by simpa using hc) patience
  | succ steps ih =>
    cases items with
    | nil => simpa [sortFrom] using h.exists_joinAll_eq (by simpa using hc) patience
    | cons x items =>
      obtain ⟨found, taken, rest, hnext, hcut, hfound, htaken⟩ := exists_nextStretch_eq
        (hc.subset (List.subset_append_right _ _)) (leastLength total)
      have hrest : rest.length ≤ steps := by
        have hlength := congrArg List.length hcut
        have hpos := List.length_pos_iff.mpr (htaken (List.cons_ne_nil _ _))
        rw [List.length_append] at hlength
        omega
      -- wherever the stretches in front were settled, the next one follows them
      have hgo : ∀ settled p, Stacks key settled xs → ∃ ys, sortFrom less total steps p
          (start + found.length) ({ start, items := found } :: settled) rest = .ok ys
            ∧ Arranges key (xs ++ x :: items) ys := by
        intro settled p hsettled
        rw [hcut, ← List.append_assoc]
        exact ih (.cons hsettled hfound) (by rwa [List.append_assoc, ← hcut]) hrest _ _
      unfold sortFrom
      rw [hnext, ok_bind]
      cases stretches with
      | nil => exact hgo [] patience h
      | cons last above =>
        obtain ⟨settled, p, hsettle, hsettled⟩ := h.exists_settle_eq
          (hc.subset (List.subset_append_left _ _))
          (depthBetween total last.start last.items.length found.length) patience
        dsimp only
        rw [hsettle]
        exact hgo settled p hsettled

/-- **Sorting arranges** a list whose items compare by keys. -/
theorem exists_sort_eq (h : Compares less key xs) :
    ∃ ys, sort less xs = .ok ys ∧ Arranges key xs ys :=
  exists_sortFrom_eq .nil h (Nat.le_refl _) xs.length firstPatience 0

/-! ## Values of which each is the first -/

/-- Nothing is added. -/
theorem eraseDupsBy_sublist (same : α → α → Bool) (xs : List α) :
    (xs.eraseDupsBy same).Sublist xs := by
  match xs with
  | [] => exact List.Sublist.refl _
  | x :: xs =>
    rw [List.eraseDupsBy_cons]
    exact ((eraseDupsBy_sublist same _).trans List.filter_sublist).cons_cons x
termination_by xs.length
decreasing_by exact Nat.lt_succ_of_le (List.length_filter_le _ _)

/-- No two are the same. -/
theorem pairwise_eraseDupsBy (same : α → α → Bool) (xs : List α) :
    (xs.eraseDupsBy same).Pairwise fun x y => same y x = false := by
  match xs with
  | [] => exact .nil
  | x :: xs =>
    rw [List.eraseDupsBy_cons]
    refine List.pairwise_cons.mpr ⟨fun y hy => ?_, pairwise_eraseDupsBy same _⟩
    simpa using (List.mem_filter.mp ((eraseDupsBy_sublist same _).subset hy)).2
termination_by xs.length
decreasing_by exact Nat.lt_succ_of_le (List.length_filter_le _ _)

/-- Each is there, or one that it is the same as. -/
theorem exists_mem_eraseDupsBy (same : α → α → Bool) (xs : List α) (hx : x ∈ xs) :
    ∃ y ∈ xs.eraseDupsBy same, x = y ∨ same x y = true := by
  match xs with
  | [] => nomatch hx
  | z :: xs =>
    rw [List.eraseDupsBy_cons]
    rcases List.mem_cons.mp hx with rfl | hx
    · exact ⟨x, List.mem_cons_self, .inl rfl⟩
    cases hsame : same x z with
    | true => exact ⟨z, List.mem_cons_self, .inr hsame⟩
    | false =>
      have hleft : x ∈ xs.filter fun y => same y z = false :=
        List.mem_filter.mpr ⟨hx, decide_eq_true hsame⟩
      obtain ⟨y, hy, hxy⟩ := exists_mem_eraseDupsBy same _ hleft
      exact ⟨y, List.mem_cons_of_mem _ hy, hxy⟩
termination_by xs.length
decreasing_by exact Nat.lt_succ_of_le (List.length_filter_le _ _)

/-- **Sorting values of which each is the first** puts each value in its place once, if
values are the same only where they are equal. -/
theorem exists_sort_eraseDupsBy {same : α → α → Bool} (h : Compares less key xs)
    (hinj : ∀ x ∈ xs, ∀ y ∈ xs, key x = key y → x = y)
    (hsame : ∀ x ∈ xs, ∀ y ∈ xs, same x y = true ↔ x = y) :
    ∃ ys, sort less (xs.eraseDupsBy same) = .ok ys
      ∧ ys.Pairwise (fun x y => key x < key y) ∧ ∀ x, x ∈ ys ↔ x ∈ xs := by
  have hsub := (eraseDupsBy_sublist same xs).subset
  obtain ⟨ys, hys, harranges⟩ := exists_sort_eq (h.subset hsub)
  refine ⟨ys, hys, harranges.strict ?_, fun x => ?_⟩
  · refine (pairwise_eraseDupsBy same xs).imp_of_mem fun {x y} hx hy hxy hkey => ?_
    rw [(hsame y (hsub hy) x (hsub hx)).mpr (hinj x (hsub hx) y (hsub hy) hkey).symm] at hxy
    nomatch hxy
  · rw [harranges.mem_iff]
    refine ⟨fun hx => hsub hx, fun hx => ?_⟩
    obtain ⟨y, hy, hxy⟩ := exists_mem_eraseDupsBy same xs hx
    obtain rfl : x = y := hxy.elim id (hsame x hx y (hsub hy)).mp
    exact hy

end Exemplar.Sorting
