import Exemplar.Proofs.Sorting.Arrangements
import Exemplar.Proofs.Sorting.Search
import Exemplar.Sorting.Merge

/-!
# Merges that keep the order

A merge under way comes to what was taken and then the plain merge of what is left
(`Merging.target`), and no step changes this, whether it takes one item or sweeps
(`exists_sweep_eq`, `exists_mergeOn_eq`). One proof serves both sides: at the back
both lists are read in the opposite order, and so are their keys. So two lists that are
arranged become one that arranges them both (`exists_merge_eq`).
-/

namespace Exemplar.Sorting

variable {ε α β : Type} [LinearOrder β] {key : α → β} {less : α → α → Except ε Bool}
  {side : Side} {items front back short long first second : List α} {m m' m'' : Merging α}
  {n patience : Nat}

/-! ## Plain merges -/

/-- The plain merge of two lists by their keys. -/
def mergeByKey (key : α → β) (short long : List α) : List α :=
  List.merge short long fun x y => decide (key x ≤ key y)

/-- Items of the second list that go ahead of the whole first one. -/
theorem mergeByKey_append_right (back : List α) (h : ∀ l ∈ front, ∀ s ∈ short, key l < key s) :
    mergeByKey key short (front ++ back) = front ++ mergeByKey key short back := by
  induction front with
  | nil => rfl
  | cons l front ih =>
    cases short with
    | nil => simp [mergeByKey]
    | cons s short =>
      have hls : ¬ key s ≤ key l := not_le.mpr (h l List.mem_cons_self s List.mem_cons_self)
      rw [List.cons_append, List.cons_append, ← ih fun l hl => h l (List.mem_cons_of_mem _ hl)]
      simp [mergeByKey, hls]

/-- Items of the first list that go ahead of the whole second one. -/
theorem mergeByKey_append_left (back : List α) (h : ∀ s ∈ front, ∀ l ∈ long, key s ≤ key l) :
    mergeByKey key (front ++ back) long = front ++ mergeByKey key back long := by
  induction front with
  | nil => rfl
  | cons s front ih =>
    cases long with
    | nil => simp [mergeByKey]
    | cons l long =>
      have hsl : key s ≤ key l := h s List.mem_cons_self l List.mem_cons_self
      rw [List.cons_append, List.cons_append, ← ih fun s hs => h s (List.mem_cons_of_mem _ hs)]
      simp [mergeByKey, hsl]

/-! ## Cuts of a list -/

/-- A list whose keys ascend is cut by whatever holds up to some key. -/
theorem exists_cut (h : items.Pairwise fun x y => key x ≤ key y) (p : α → Prop)
    (hp : ∀ x y, key x ≤ key y → p y → p x) :
    ∃ front back, items = front ++ back ∧ (∀ x ∈ front, p x) ∧ ∀ x ∈ back, ¬ p x := by
  induction items with
  | nil => exact ⟨[], [], rfl, nofun, nofun⟩
  | cons x items ih =>
    by_cases hx : p x
    · obtain ⟨front, back, rfl, hfront, hback⟩ := ih h.of_cons
      exact ⟨x :: front, back, rfl, List.forall_mem_cons.mpr ⟨hx, hfront⟩, hback⟩
    · exact ⟨[], x :: items, rfl, nofun, fun y hy hpy => hx (hp x y (key_le_of_mem_cons h hy) hpy)⟩

/-- A test of the items at the indices of a list that is cut. -/
theorem onItem_append {test : α → Except ε Bool} {b c : Bool}
    (hfront : ∀ x ∈ front, test x = .ok b) (hback : ∀ x ∈ back, test x = .ok c) {i : Nat}
    (hi : i < (front ++ back).length) :
    onItem (front ++ back) test i = .ok (if i < front.length then b else c) := by
  unfold onItem
  rw [List.getElem?_eq_getElem hi]
  by_cases hlt : i < front.length
  · rw [if_pos hlt, List.getElem_append_left hlt]
    exact hfront _ (List.getElem_mem _)
  · rw [if_neg hlt, List.getElem_append_right (Nat.not_lt.mp hlt)]
    exact hback _ (List.getElem_mem _)

/-- The boundary of a test that fails in front of a cut and holds behind it. -/
theorem isBoundary_length (front back : List α) :
    IsBoundary (fun i => if i < front.length then false else true) (front ++ back).length
      front.length where
  le_size := by simp
  below i hi := if_pos hi
  above i hi _ := if_neg (Nat.not_lt.mpr hi)

/-- **The cut is found** from wherever it is looked for. -/
theorem boundary_onItem {test : α → Except ε Bool} (hfront : ∀ x ∈ front, test x = .ok false)
    (hback : ∀ x ∈ back, test x = .ok true) {hint : Nat} (hhint : hint < (front ++ back).length) :
    boundary (onItem (front ++ back) test) (front ++ back).length hint = .ok front.length :=
  boundary_eq (isBoundary_length front back) (fun _ hi => onItem_append hfront hback hi) hhint

/-- **The cut is found** by halving. -/
theorem bisect_onItem {test : α → Except ε Bool} (hfront : ∀ x ∈ front, test x = .ok false)
    (hback : ∀ x ∈ back, test x = .ok true) :
    bisect (onItem (front ++ back) test) 0 (front ++ back).length = .ok front.length :=
  bisect_eq (isBoundary_length front back) (fun _ hi => onItem_append hfront hback hi)
    (Nat.zero_le _) (by simp) (Nat.le_refl _)

/-- **The lead** is what stands in front of the cut, counted from either side. -/
theorem lead_eq {ahead : α → Except ε Bool} (hfront : ∀ x ∈ front, ahead x = .ok true)
    (hback : ∀ x ∈ back, ahead x = .ok false) (hne : front ++ back ≠ []) :
    lead side ahead (front ++ back) = .ok front.length := by
  have hlength : 0 < (front ++ back).length := List.length_pos_iff.mpr hne
  have hle : front.length ≤ (front ++ back).length := by simp
  cases side with
  | front =>
    unfold lead
    dsimp only
    refine boundary_eq (isBoundary_length front back) (fun i hi => ?_) hlength
    rw [onItem_append hfront hback hi, ok_bind]
    split <;> rfl
  | back =>
    have hcut : IsBoundary
        (fun i => if (front ++ back).length - 1 - i < front.length then true else false)
        (front ++ back).length ((front ++ back).length - front.length) :=
      ⟨Nat.sub_le _ _, fun i hi => if_neg (by omega), fun i hi hlt => if_pos (by omega)⟩
    unfold lead
    dsimp only
    rw [boundary_eq hcut (fun i hi => onItem_append hfront hback (by omega))
      (Nat.sub_one_lt_of_lt hlength), ok_bind]
    exact congrArg Except.ok (Nat.sub_sub_self hle)

/-! ## Steps of a merge -/

namespace Merging

/-- **What a merge comes to**: what was taken, and the plain merge of what is left. -/
def target (key : α → β) (m : Merging α) : List α :=
  m.taken.reverse ++ mergeByKey key m.short m.long

@[simp]
theorem short_takeShort (n : Nat) (m : Merging α) : (m.takeShort n).short = m.short.drop n := rfl

@[simp]
theorem long_takeShort (n : Nat) (m : Merging α) : (m.takeShort n).long = m.long := rfl

@[simp]
theorem short_takeLong (n : Nat) (m : Merging α) : (m.takeLong n).short = m.short := rfl

@[simp]
theorem long_takeLong (n : Nat) (m : Merging α) : (m.takeLong n).long = m.long.drop n := rfl

/-- The number of the items that are left. -/
def left (m : Merging α) : Nat := m.short.length + m.long.length

/-- **A merge that compares by keys** and can be settled by lengths: both lists ascend,
and the last item of the shorter one goes behind all of the longer one. -/
structure Ready (side : Side) (less : α → α → Except ε Bool) (key : α → β) (m : Merging α) :
    Prop where
  answers : ∀ l ∈ m.long, ∀ s ∈ m.short, longFirst side less l s = .ok (decide (key l < key s))
  short : m.short.Pairwise fun x y => key x ≤ key y
  long : m.long.Pairwise fun x y => key x ≤ key y
  last : ∀ s, m.short.getLast? = some s → ∀ l ∈ m.long, key l < key s

namespace Ready

theorem takeLong (h : m.Ready side less key) (n : Nat) : (m.takeLong n).Ready side less key where
  answers l hl := h.answers l (List.mem_of_mem_drop hl)
  short := h.short
  long := h.long.drop
  last s hs l hl := h.last s hs l (List.mem_of_mem_drop hl)

theorem takeShort (h : m.Ready side less key) (n : Nat) :
    (m.takeShort n).Ready side less key where
  answers l hl s hs := h.answers l hl s (List.mem_of_mem_drop hs)
  short := h.short.drop
  long := h.long
  last s hs l hl := by
    have hs : (m.short.drop n).getLast? = some s := hs
    rw [List.getLast?_drop] at hs
    split at hs
    · nomatch hs
    · exact h.last s hs l hl

/-- A settled merge gives what it comes to. -/
theorem result_eq (h : m.Ready side less key) (hsettled : m.isSettled = true) :
    m.result = m.target key := by
  unfold result target
  rw [List.append_assoc]
  refine congrArg (m.taken.reverse ++ ·) ?_
  have hlast := h.last
  rw [isSettled, Bool.or_eq_true, List.isEmpty_iff, decide_eq_true_eq] at hsettled
  match hlong : m.long, hshort : m.short with
  | [], short => simp [mergeByKey]
  | l :: long, [] => simp [mergeByKey]
  | l :: long, [s] =>
    have hls := hlast s (by simp [hshort])
    rw [hlong] at hls
    rw [← List.append_nil (l :: long), mergeByKey_append_right _ (by simpa using hls)]
    simp [mergeByKey]
  | l :: long, s :: s' :: short => simp [hlong, hshort] at hsettled

end Ready

/-- Taking what goes ahead of the shorter list changes nothing. -/
theorem target_takeLong (h : ∀ l ∈ m.long.take n, ∀ s ∈ m.short, key l < key s) :
    (m.takeLong n).target key = m.target key := by
  have hmerge := mergeByKey_append_right (m.long.drop n) h
  rw [List.take_append_drop] at hmerge
  simp [target, takeLong, hmerge]

/-- Taking what goes ahead of the longer list changes nothing. -/
theorem target_takeShort (h : ∀ s ∈ m.short.take n, ∀ l ∈ m.long, key s ≤ key l) :
    (m.takeShort n).target key = m.target key := by
  have hmerge := mergeByKey_append_left (m.short.drop n) h
  rw [List.take_append_drop] at hmerge
  simp [target, takeShort, hmerge]

/-- **A merge goes on**: it comes to the same, and is settled or has fewer items left. -/
structure GoesOn (side : Side) (less : α → α → Except ε Bool) (key : α → β)
    (m m' : Merging α) : Prop where
  ready : m'.Ready side less key
  target_eq : m'.target key = m.target key
  left_le : m'.left ≤ m.left
  progress : m'.isSettled = true ∨ m'.left < m.left

theorem GoesOn.trans (h : GoesOn side less key m m') (h' : GoesOn side less key m' m'') :
    GoesOn side less key m m'' where
  ready := h'.ready
  target_eq := h'.target_eq.trans h.target_eq
  left_le := Nat.le_trans h'.left_le h.left_le
  progress := h'.progress.imp_right fun hlt => Nat.lt_of_lt_of_le hlt h.left_le

/-- A settled merge stays where it is. -/
theorem Ready.goesOn_self (h : m.Ready side less key) (hsettled : m.isSettled = true) :
    GoesOn side less key m m :=
  ⟨h, rfl, Nat.le_refl _, .inl hsettled⟩

/-- Taking from the shorter list what goes ahead of the head of the longer one, and then
that head. -/
theorem Ready.goesOn_takeShort (h : m.Ready side less key) {l : α} {long : List α}
    (hlong : m.long = l :: long) (hcut : m.short = front ++ back)
    (hfront : ∀ s ∈ front, ¬ key l < key s) (hback : ∀ s ∈ back, key l < key s) :
    GoesOn side less key m (if (m.takeShort front.length).isSettled then m.takeShort front.length
      else (m.takeShort front.length).takeLong 1) := by
  have hready := h.takeShort front.length
  have hdrop : m.short.drop front.length = back := by simp [hcut]
  have htarget : (m.takeShort front.length).target key = m.target key := by
    refine target_takeShort fun s hs l' hl' => ?_
    rw [hcut, List.take_left] at hs
    rw [hlong] at hl'
    exact (not_lt.mp (hfront s hs)).trans (key_le_of_mem_cons (hlong ▸ h.long) hl')
  have hleft : (m.takeShort front.length).left ≤ m.left := by
    simp [left]
  split
  next hsettled => exact ⟨hready, htarget, hleft, .inl hsettled⟩
  next =>
    have hlt : ((m.takeShort front.length).takeLong 1).left < m.left := by
      simp only [left, short_takeShort, short_takeLong, long_takeShort, long_takeLong,
        List.length_drop, hlong, List.length_cons]
      omega
    refine ⟨hready.takeLong 1, (target_takeLong fun l' hl' s hs => ?_).trans htarget,
      Nat.le_of_lt hlt, .inr hlt⟩
    have hl' : l' = l := by simpa [hlong] using hl'
    exact hl' ▸ hback s (hdrop ▸ hs)

/-- Taking from the longer list what goes ahead of the head of the shorter one, and then
that head. -/
theorem Ready.goesOn_takeLong (h : m.Ready side less key) {s : α} {short : List α}
    (hshort : m.short = s :: short) (hcut : m.long = front ++ back)
    (hfront : ∀ l ∈ front, key l < key s) (hback : ∀ l ∈ back, ¬ key l < key s) :
    GoesOn side less key m (if (m.takeLong front.length).isSettled then m.takeLong front.length
      else (m.takeLong front.length).takeShort 1) := by
  have hready := h.takeLong front.length
  have hdrop : m.long.drop front.length = back := by simp [hcut]
  have htarget : (m.takeLong front.length).target key = m.target key := by
    refine target_takeLong fun l hl s' hs' => ?_
    rw [hcut, List.take_left] at hl
    rw [hshort] at hs'
    exact (hfront l hl).trans_le (key_le_of_mem_cons (hshort ▸ h.short) hs')
  have hleft : (m.takeLong front.length).left ≤ m.left := by
    simp [left]
  split
  next hsettled => exact ⟨hready, htarget, hleft, .inl hsettled⟩
  next =>
    have hlt : ((m.takeLong front.length).takeShort 1).left < m.left := by
      simp only [left, short_takeShort, short_takeLong, long_takeShort, long_takeLong,
        List.length_drop, hshort, List.length_cons]
      omega
    refine ⟨hready.takeShort 1, (target_takeShort fun s' hs' l hl => ?_).trans htarget,
      Nat.le_of_lt hlt, .inr hlt⟩
    have hs' : s' = s := by simpa [hshort] using hs'
    exact hs' ▸ not_lt.mp (hback l (hdrop ▸ hl))

end Merging

open Merging

/-- A merge that cannot go on is settled. -/
theorem isSettled_of_forall_ne
    (h : ∀ l long s s' short, m.long = l :: long → m.short = s :: s' :: short → False) :
    m.isSettled = true := by
  unfold isSettled
  match hlong : m.long, hshort : m.short with
  | [], _ => rfl
  | _ :: _, [] => rfl
  | _ :: _, [_] => rfl
  | l :: long, s :: s' :: short => exact (h l long s s' short hlong hshort).elim

/-- **Sweeping the shorter list** goes on with the merge. -/
theorem exists_sweepShort_eq (h : m.Ready side less key) :
    ∃ n m', sweepShort side less m = .ok (n, m') ∧ GoesOn side less key m m' := by
  unfold sweepShort
  split
  next l long s s' short hlong hshort =>
    have hl : l ∈ m.long := hlong ▸ List.mem_cons_self
    obtain ⟨front, back, hcut, hfront, hback⟩ :=
      exists_cut h.short (fun s => ¬ key l < key s) fun _ _ hle hy => by
        exact not_lt.mpr (hle.trans (not_lt.mp hy))
    have hlead : lead side (fun s => do return !(← longFirst side less l s)) m.short
        = .ok front.length := by
      rw [hcut]
      refine lead_eq (fun s hs => ?_) (fun s hs => ?_) (hcut ▸ hshort ▸ List.cons_ne_nil _ _)
      · rw [h.answers l hl s (hcut ▸ List.mem_append_left _ hs), ok_bind,
          decide_eq_false (hfront s hs)]
        rfl
      · rw [h.answers l hl s (hcut ▸ List.mem_append_right _ hs), ok_bind,
          decide_eq_true (not_not.mp (hback s hs))]
        rfl
    rw [hlead]
    exact ⟨_, _, rfl, h.goesOn_takeShort hlong hcut hfront fun s hs => not_not.mp (hback s hs)⟩
  next hno => exact ⟨_, _, rfl, h.goesOn_self (isSettled_of_forall_ne hno)⟩

/-- **Sweeping the longer list** goes on with the merge. -/
theorem exists_sweepLong_eq (h : m.Ready side less key) :
    ∃ n m', sweepLong side less m = .ok (n, m') ∧ GoesOn side less key m m' := by
  unfold sweepLong
  split
  next l long s s' short hlong hshort =>
    have hs : s ∈ m.short := hshort ▸ List.mem_cons_self
    obtain ⟨front, back, hcut, hfront, hback⟩ :=
      exists_cut h.long (fun l => key l < key s) fun _ _ hle hy => lt_of_le_of_lt hle hy
    have hlead : lead side (fun l => longFirst side less l s) m.long = .ok front.length := by
      rw [hcut]
      refine lead_eq (fun l hl => ?_) (fun l hl => ?_) (hcut ▸ hlong ▸ List.cons_ne_nil _ _)
      · rw [h.answers l (hcut ▸ List.mem_append_left _ hl) s hs, decide_eq_true (hfront l hl)]
      · rw [h.answers l (hcut ▸ List.mem_append_right _ hl) s hs, decide_eq_false (hback l hl)]
    rw [hlead]
    exact ⟨_, _, rfl, h.goesOn_takeLong hshort hcut hfront hback⟩
  next hno => exact ⟨_, _, rfl, h.goesOn_self (isSettled_of_forall_ne hno)⟩

/-- **Sweeping** goes on with the merge, from either side. -/
theorem exists_sweep_eq (h : m.Ready side less key) :
    ∃ n m', sweep side less m = .ok (n, m') ∧ GoesOn side less key m m' := by
  unfold sweep
  cases side with
  | front =>
    obtain ⟨n, m₁, hshort, h₁⟩ := exists_sweepShort_eq h
    obtain ⟨k, m₂, hlong, h₂⟩ := exists_sweepLong_eq h₁.ready
    refine ⟨max n k, m₂, ?_, h₁.trans h₂⟩
    simp only [hshort, ok_bind, hlong]
    rfl
  | back =>
    obtain ⟨n, m₁, hlong, h₁⟩ := exists_sweepLong_eq h
    obtain ⟨k, m₂, hshort, h₂⟩ := exists_sweepShort_eq h₁.ready
    refine ⟨max n k, m₂, ?_, h₁.trans h₂⟩
    simp only [hlong, ok_bind, hshort]
    rfl

/-! ## Merges -/

/-- **A merge under way** gives what it comes to, in as many steps as items are left. -/
theorem exists_mergeOn_eq (h : m.Ready side less key) {steps : Nat} (hsteps : m.left ≤ steps)
    (patience : Nat) (pace : Pace) :
    ∃ p, mergeOn side less steps patience pace m = .ok (m.target key, p) := by
  induction steps generalizing m patience pace with
  | zero =>
    have hsettled : m.isSettled = true := isSettled_of_forall_ne fun l long s s' short hlong _ => by
      simp [left, hlong] at hsteps
    exact ⟨patience, by rw [mergeOn, h.result_eq hsettled]⟩
  | succ steps ih =>
    unfold mergeOn
    split
    next l long s s' short hlong hshort =>
      cases pace with
      | single longs shorts =>
        dsimp only
        rw [h.answers l (hlong ▸ List.mem_cons_self) s (hshort ▸ List.mem_cons_self), ok_bind]
        by_cases hlt : key l < key s
        · rw [if_pos (decide_eq_true hlt), ← target_takeLong (m := m) (n := 1)]
          · refine ih (h.takeLong 1) ?_ _ _
            simp only [left, short_takeLong, long_takeLong, List.length_drop, hlong,
              List.length_cons] at hsteps ⊢
            omega
          · intro l' hl' s' hs'
            have hl' : l' = l := by simpa [hlong] using hl'
            rw [hshort] at hs'
            exact hl' ▸ hlt.trans_le (key_le_of_mem_cons (hshort ▸ h.short) hs')
        · rw [if_neg (by simpa using hlt), ← target_takeShort (m := m) (n := 1)]
          · refine ih (h.takeShort 1) ?_ _ _
            simp only [left, short_takeShort, long_takeShort, List.length_drop, hshort,
              List.length_cons] at hsteps ⊢
            omega
          · intro s' hs' l' hl'
            have hs' : s' = s := by simpa [hshort] using hs'
            rw [hlong] at hl'
            exact hs' ▸ (not_lt.mp hlt).trans (key_le_of_mem_cons (hlong ▸ h.long) hl')
      | sweeping =>
        obtain ⟨n, m', hsweep, hgoes⟩ := exists_sweep_eq h
        dsimp only
        rw [hsweep, ok_bind, ← hgoes.target_eq]
        cases hsettled : m'.isSettled with
        | true => exact ⟨patience, by simp [hgoes.ready.result_eq hsettled]; rfl⟩
        | false =>
          have hleft : m'.left ≤ steps := by
            have := hgoes.progress.resolve_left (by simp [hsettled])
            omega
          dsimp only
          rw [if_neg Bool.false_ne_true]
          split
          · exact ih hgoes.ready hleft _ _
          · exact ih hgoes.ready hleft _ _
    next hno =>
      exact ⟨patience, by rw [h.result_eq (isSettled_of_forall_ne hno)]⟩

/-- **A merge from a side** is the plain merge, if the head of the longer list does go
first. -/
theorem exists_mergeFrom_eq (h : Ready side less key { short, long })
    (hfirst : ∀ l, long.head? = some l → ∀ s ∈ short, key l < key s) (patience : Nat) :
    ∃ p, mergeFrom side less patience short long = .ok (mergeByKey key short long, p) := by
  have hleft : (Merging.takeLong 1 { short, long }).left ≤ short.length + long.length := by
    simp [left]
  obtain ⟨p, hp⟩ := exists_mergeOn_eq (h.takeLong 1) hleft patience (.single 0 0)
  refine ⟨p, hp.trans ?_⟩
  rw [target_takeLong]
  · rfl
  · intro l hl
    refine hfirst l ?_
    cases long with
    | nil => nomatch hl
    | cons l' long => rw [List.eq_of_mem_singleton hl, List.head?_cons]

/-- A merge **from the front** arranges. -/
theorem exists_mergeFrom_front (h : Compares less key (first ++ second))
    (hfirst : first.Pairwise fun x y => key x ≤ key y)
    (hsecond : second.Pairwise fun x y => key x ≤ key y)
    (hhead : ∀ x, second.head? = some x → ∀ y ∈ first, key x < key y)
    (hlast : ∀ y, first.getLast? = some y → ∀ x ∈ second, key x < key y) (patience : Nat) :
    ∃ merged p, mergeFrom .front less patience first second = .ok (merged, p)
      ∧ Arranges key (first ++ second) merged := by
  have hready : Ready .front less key { short := first, long := second } :=
    ⟨fun l hl s hs => h l (List.mem_append_right _ hl) s (List.mem_append_left _ hs), hfirst,
      hsecond, hlast⟩
  obtain ⟨p, hp⟩ := exists_mergeFrom_eq hready hhead patience
  exact ⟨_, p, hp, arranges_merge hfirst hsecond⟩

/-- A merge **from the back** arranges, as one from the front does by the opposite keys. -/
theorem exists_mergeFrom_back (h : Compares less key (first ++ second))
    (hfirst : first.Pairwise fun x y => key x ≤ key y)
    (hsecond : second.Pairwise fun x y => key x ≤ key y)
    (hhead : ∀ x, second.head? = some x → ∀ y ∈ first, key x < key y)
    (hlast : ∀ y, first.getLast? = some y → ∀ x ∈ second, key x < key y) (patience : Nat) :
    ∃ merged p, mergeFrom .back less patience second.reverse first.reverse = .ok (merged, p)
      ∧ Arranges key (first ++ second) merged.reverse := by
  let opposite (x : α) : βᵒᵈ := OrderDual.toDual (key x)
  have hfirst' : first.reverse.Pairwise fun x y => opposite x ≤ opposite y :=
    List.pairwise_reverse.mpr hfirst
  have hsecond' : second.reverse.Pairwise fun x y => opposite x ≤ opposite y :=
    List.pairwise_reverse.mpr hsecond
  have hready : Ready .back less opposite { short := second.reverse, long := first.reverse } := by
    refine ⟨fun l hl s hs => ?_, hsecond', hfirst', fun s hs l hl => ?_⟩
    · exact h s (List.mem_append_right _ (List.mem_reverse.mp hs)) l
        (List.mem_append_left _ (List.mem_reverse.mp hl))
    · rw [List.getLast?_reverse] at hs
      exact hhead s hs l (List.mem_reverse.mp hl)
  obtain ⟨p, hp⟩ := exists_mergeFrom_eq hready (fun l hl s hs => hlast l
    (List.head?_reverse ▸ hl) s (List.mem_reverse.mp hs)) patience
  have harranges := (arranges_merge hsecond' hfirst').reverse
  rw [← List.reverse_append, List.reverse_reverse] at harranges
  exact ⟨_, p, hp, harranges⟩

/-- Lists that follow each other are arranged with what stands between them. -/
theorem Arranges.between {merged : List α} (h : Arranges key items merged)
    (hfront : front.Pairwise fun x y => key x ≤ key y)
    (hback : back.Pairwise fun x y => key x ≤ key y)
    (hitems : ∀ x ∈ front, ∀ y ∈ items, key x ≤ key y)
    (hitems' : ∀ x ∈ items, ∀ y ∈ back, key x ≤ key y)
    (hends : ∀ x ∈ front, ∀ y ∈ back, key x ≤ key y) :
    Arranges key (front ++ items ++ back) (front ++ merged ++ back) where
  ascending := by
    refine List.pairwise_append.mpr ⟨List.pairwise_append.mpr ⟨hfront, h.ascending,
      fun x hx y hy => hitems x hx y (h.mem_iff.mp hy)⟩, hback, fun x hx y hy => ?_⟩
    rcases List.mem_append.mp hx with hx | hx
    · exact hends x hx y hy
    · exact hitems' x (h.mem_iff.mp hx) y hy
  stable k := by simp only [List.filter_append, h.stable]

/-- **The overlap** of two lists is merged from the side of the shorter one, whatever is
done with it. -/
theorem exists_overlap_eq {γ : Type} (h : Compares less key (first ++ second))
    (hfirst : first.Pairwise fun x y => key x ≤ key y)
    (hsecond : second.Pairwise fun x y => key x ≤ key y)
    (hhead : ∀ x, second.head? = some x → ∀ y ∈ first, key x < key y)
    (hlast : ∀ y, first.getLast? = some y → ∀ x ∈ second, key x < key y) (patience : Nat)
    (f : List α × Nat → Except ε γ) :
    ∃ merged p, (if first.length ≤ second.length
      then mergeFrom .front less patience first second >>= f
      else mergeFrom .back less patience second.reverse first.reverse >>= fun m =>
        pure (m.1.reverse, m.2) >>= f) = f (merged, p)
      ∧ Arranges key (first ++ second) merged := by
  split
  · obtain ⟨merged, p, hmerged, harranges⟩ :=
      exists_mergeFrom_front h hfirst hsecond hhead hlast patience
    exact ⟨merged, p, by rw [hmerged, ok_bind], harranges⟩
  · obtain ⟨merged, p, hmerged, harranges⟩ :=
      exists_mergeFrom_back h hfirst hsecond hhead hlast patience
    exact ⟨merged.reverse, p, by rw [hmerged, ok_bind]; rfl, harranges⟩

/-- Nothing stands in front of any list. -/
theorem merge_nil_left (less : α → α → Except ε Bool) (patience : Nat) (second : List α) :
    merge less patience [] second = .ok (second, patience) := by
  cases second with
  | nil => rfl
  | cons head tail =>
    have hboundary : boundary (onItem [] fun x => less head x) 0 0 = .ok 1 := by
      unfold boundary stride bisect
      rfl
    unfold merge
    dsimp only
    rw [List.length_nil, hboundary]
    rfl

/-- The items of the first list that the head of the second one does not come before. -/
theorem boundary_front {head : α} (h : Compares less key (front ++ back ++ second))
    (hhead : head ∈ second) (hne : front ++ back ≠ []) (hfront : ∀ x ∈ front, key x ≤ key head)
    (hback : ∀ x ∈ back, key head < key x) :
    boundary (onItem (front ++ back) fun x => less head x) (front ++ back).length 0
      = .ok front.length := by
  have hless : ∀ x ∈ front ++ back, less head x = .ok (decide (key head < key x)) :=
    fun x hx => h head (List.mem_append_right _ hhead) x (List.mem_append_left _ hx)
  refine boundary_onItem (fun x hx => ?_) (fun x hx => ?_) (List.length_pos_iff.mpr hne)
  · rw [hless x (List.mem_append_left _ hx), decide_eq_false (not_lt.mpr (hfront x hx))]
  · rw [hless x (List.mem_append_right _ hx), decide_eq_true (hback x hx)]

/-- The items of the second list that come before the last one of the first. -/
theorem boundary_back {last : α} (h : Compares less key (first ++ (front ++ back)))
    (hlast : last ∈ first) (hne : front ++ back ≠ []) (hfront : ∀ x ∈ front, key x < key last)
    (hback : ∀ x ∈ back, key last ≤ key x) :
    boundary (onItem (front ++ back) fun x => do return !(← less x last)) (front ++ back).length
      ((front ++ back).length - 1) = .ok front.length := by
  have hless : ∀ x ∈ front ++ back, less x last = .ok (decide (key x < key last)) :=
    fun x hx => h x (List.mem_append_right _ hx) last (List.mem_append_left _ hlast)
  refine boundary_onItem (fun x hx => ?_) (fun x hx => ?_)
    (Nat.sub_one_lt_of_lt (List.length_pos_iff.mpr hne))
  · rw [hless x (List.mem_append_left _ hx), decide_eq_true (hfront x hx)]
    rfl
  · rw [hless x (List.mem_append_right _ hx), decide_eq_false (not_lt.mpr (hback x hx))]
    rfl

/-- **Merging arranges**: two lists whose keys ascend become one that arranges them both. -/
theorem exists_merge_eq (h : Compares less key (first ++ second))
    (hfirst : first.Pairwise fun x y => key x ≤ key y)
    (hsecond : second.Pairwise fun x y => key x ≤ key y) (patience : Nat) :
    ∃ merged p, merge less patience first second = .ok (merged, p)
      ∧ Arranges key (first ++ second) merged := by
  by_cases hne : first = []
  · subst hne
    exact ⟨second, patience, merge_nil_left less patience second, .refl hsecond⟩
  cases hhead : second with
  | nil => exact ⟨first, patience, rfl, by simpa using Arranges.refl hfirst⟩
  | cons head tail =>
    obtain ⟨front, overlap, rfl, hfront, hoverlap⟩ :=
      exists_cut hfirst (fun x => key x ≤ key head) fun _ _ => le_trans
    have hoverlap : ∀ x ∈ overlap, key head < key x := fun x hx => not_le.mp (hoverlap x hx)
    obtain ⟨hascFront, hascOverlap, hbetween⟩ := List.pairwise_append.mp hfirst
    have hends : ∀ x ∈ front, ∀ y ∈ second, key x ≤ key y := fun x hx y hy =>
      (hfront x hx).trans (key_le_of_mem_cons (hhead ▸ hsecond) (hhead ▸ hy))
    unfold merge
    dsimp only
    rw [← hhead, boundary_front h (hhead ▸ List.mem_cons_self) hne hfront hoverlap, ok_bind,
      List.drop_left, List.take_left]
    cases hlast : overlap.getLast? with
    | none =>
      obtain rfl := List.getLast?_eq_none_iff.mp hlast
      exact ⟨_, _, rfl, .refl (List.pairwise_append.mpr ⟨hfirst, hsecond, by simpa using hends⟩)⟩
    | some last =>
      have hmem : last ∈ front ++ overlap :=
        List.mem_append_right _ (List.mem_of_getLast? hlast)
      obtain ⟨start, behind, rfl, hstart, hbehind⟩ :=
        exists_cut hsecond (fun x => key x < key last) fun _ _ => lt_of_le_of_lt
      have hbehind : ∀ x ∈ behind, key last ≤ key x := fun x hx => not_lt.mp (hbehind x hx)
      obtain ⟨hascStart, hascBehind, hbetween'⟩ := List.pairwise_append.mp hsecond
      dsimp only
      rw [boundary_back h hmem (hhead ▸ List.cons_ne_nil _ _) hstart hbehind, ok_bind,
        List.take_left, List.drop_left]
      have hcompares : Compares less key (overlap ++ start) :=
        h.subset (List.append_subset.mpr
          ⟨fun x hx => List.mem_append_left _ (List.mem_append_right _ hx),
            fun x hx => List.mem_append_right _ (List.mem_append_left _ hx)⟩)
      have hfirstOf : ∀ x, start.head? = some x → x = head := by
        intro x hx
        have hx' := congrArg List.head? hhead
        rw [List.head?_append, hx] at hx'
        exact Option.some.inj hx'
      obtain ⟨merged, p, hmerged, harranges⟩ := exists_overlap_eq hcompares hascOverlap hascStart
        (fun x hx => hfirstOf x hx ▸ hoverlap)
        (fun y hy => Option.some.inj (hlast.symm.trans hy) ▸ hstart) patience
        (fun m => pure (front ++ m.1 ++ behind, m.2))
      refine ⟨_, p, hmerged, ?_⟩
      have hbetween := harranges.between hascFront hascBehind ?_ ?_ ?_
      · simpa only [List.append_assoc] using hbetween
      · intro x hx y hy
        rcases List.mem_append.mp hy with hy | hy
        · exact hbetween x hx y hy
        · exact hends x hx y (List.mem_append_left _ hy)
      · intro x hx y hy
        rcases List.mem_append.mp hx with hx | hx
        · exact (key_le_of_getLast? hascOverlap hlast hx).trans (hbehind y hy)
        · exact hbetween' x hx y hy
      · exact fun x hx y hy => hends x hx y (List.mem_append_right _ hy)

end Exemplar.Sorting
