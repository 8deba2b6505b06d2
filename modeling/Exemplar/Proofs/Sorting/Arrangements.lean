import Mathlib.Data.List.Basic
import Mathlib.Order.Lattice

/-!
# Arrangements by a key

Items compare by keys (`Compares`), and a list arranges others (`Arranges`) if its keys
ascend and the items of each key are the same, in the same order. That settles the list
(`Arranges.unique`), so a list that arranges others is known without knowing how it
came about. The plain merge of two lists whose keys ascend arranges them
(`arranges_merge`), and so does a stable sort (`arranges_mergeSort`).
-/

namespace Exemplar.Sorting

variable {ε α β : Type} [LinearOrder β] {key : α → β} {less : α → α → Except ε Bool}
  {xs ys zs front back : List α} {x y : α}

/-- **Items compare by their keys.** -/
def Compares (less : α → α → Except ε Bool) (key : α → β) (xs : List α) : Prop :=
  ∀ x ∈ xs, ∀ y ∈ xs, less x y = .ok (decide (key x < key y))

theorem Compares.subset (h : Compares less key xs) (hsub : ys ⊆ xs) : Compares less key ys :=
  fun x hx y hy => h x (hsub hx) y (hsub hy)

/-- The head of a list whose keys ascend has the least one. -/
theorem key_le_of_mem_cons (h : (x :: xs).Pairwise fun x y => key x ≤ key y) (hy : y ∈ x :: xs) :
    key x ≤ key y := by
  rcases List.mem_cons.mp hy with rfl | hy
  · exact le_refl _
  · exact (List.pairwise_cons.mp h).1 y hy

/-- The last item has the greatest one. -/
theorem key_le_of_getLast? (h : xs.Pairwise fun x y => key x ≤ key y) (hy : xs.getLast? = some y)
    (hx : x ∈ xs) : key x ≤ key y := by
  obtain ⟨front, rfl⟩ := List.getLast?_eq_some_iff.mp hy
  rcases List.mem_append.mp hx with hx | hx
  · exact (List.pairwise_append.mp h).2.2 x hx y List.mem_cons_self
  · exact (List.eq_of_mem_singleton hx ▸ le_refl _)

/-- **A list arranges another one**: its keys ascend, and the items of each key are the
same, in the same order. -/
structure Arranges (key : α → β) (xs ys : List α) : Prop where
  ascending : ys.Pairwise fun x y => key x ≤ key y
  stable : ∀ k, ys.filter (key · = k) = xs.filter (key · = k)

namespace Arranges

theorem mem_iff (h : Arranges key xs ys) : x ∈ ys ↔ x ∈ xs := by
  have hx : ∀ zs : List α, x ∈ zs ↔ x ∈ zs.filter (key · = key x) := by simp
  rw [hx ys, hx xs, h.stable]

theorem subset (h : Arranges key xs ys) : ys ⊆ xs := fun _ hx => h.mem_iff.mp hx

/-- A list whose keys ascend arranges itself. -/
theorem refl (h : xs.Pairwise fun x y => key x ≤ key y) : Arranges key xs xs := ⟨h, fun _ => rfl⟩

/-- What is arranged already can be arranged with the rest. -/
theorem append_left (h : Arranges key xs ys) (h' : Arranges key (ys ++ front) zs) :
    Arranges key (xs ++ front) zs :=
  ⟨h'.ascending, fun k => by rw [h'.stable, List.filter_append, h.stable, List.filter_append]⟩

theorem append_right (h : Arranges key xs ys) (h' : Arranges key (front ++ ys) zs) :
    Arranges key (front ++ xs) zs :=
  ⟨h'.ascending, fun k => by rw [h'.stable, List.filter_append, h.stable, List.filter_append]⟩

/-- **There is one arrangement.** -/
theorem unique (hy : Arranges key xs ys) (hz : Arranges key xs zs) : ys = zs := by
  have hstable : ∀ k, ys.filter (key · = k) = zs.filter (key · = k) :=
    fun k => (hy.stable k).trans (hz.stable k).symm
  have hys := hy.ascending
  have hzs := hz.ascending
  clear hy hz
  induction ys generalizing zs with
  | nil =>
    cases zs with
    | nil => rfl
    | cons z zs => simpa using hstable (key z)
  | cons y ys ih =>
    cases zs with
    | nil => simpa using hstable (key y)
    | cons z zs =>
      have hmem : ∀ x, x ∈ y :: ys ↔ x ∈ z :: zs := by
        intro x
        have hx : ∀ ws : List α, x ∈ ws ↔ x ∈ ws.filter (key · = key x) := by simp
        rw [hx (y :: ys), hx (z :: zs), hstable]
      have hkey : key y = key z :=
        le_antisymm (key_le_of_mem_cons hys ((hmem z).mpr List.mem_cons_self))
          (key_le_of_mem_cons hzs ((hmem y).mp List.mem_cons_self))
      obtain ⟨rfl, htail⟩ : y = z ∧ ys.filter (key · = key y) = zs.filter (key · = key y) := by
        simpa [hkey] using hstable (key y)
      refine congrArg (y :: ·) (ih (fun k => ?_) hys.of_cons hzs.of_cons)
      by_cases hk : key y = k
      · exact hk ▸ htail
      · simpa [hk] using hstable k

/-- Read backwards, an arrangement of the opposite keys is one. -/
theorem reverse (h : Arranges (fun x => OrderDual.toDual (key x)) xs ys) :
    Arranges key xs.reverse ys.reverse where
  ascending := List.pairwise_reverse.mpr h.ascending
  stable k := by
    have hk := h.stable (OrderDual.toDual k)
    simp only [OrderDual.toDual_inj] at hk
    rw [List.filter_reverse, List.filter_reverse, hk]

end Arranges

/-- Going by keys is transitive. -/
theorem byKey_trans (key : α → β) (x y z : α) (hxy : decide (key x ≤ key y) = true)
    (hyz : decide (key y ≤ key z) = true) : decide (key x ≤ key z) = true :=
  decide_eq_true ((of_decide_eq_true hxy).trans (of_decide_eq_true hyz))

/-- Of two items one goes by its key in front of the other, or at its side. -/
theorem byKey_total (key : α → β) (x y : α) :
    (decide (key x ≤ key y) || decide (key y ≤ key x)) = true := by
  simpa using le_total (key x) (key y)

/-- **The plain merge** of two lists whose keys ascend arranges them. -/
theorem arranges_merge (hxs : xs.Pairwise fun x y => key x ≤ key y)
    (hys : ys.Pairwise fun x y => key x ≤ key y) :
    Arranges key (xs ++ ys) (List.merge xs ys fun x y => decide (key x ≤ key y)) where
  ascending := by
    have h := List.pairwise_merge (byKey_trans key) (byKey_total key) xs ys (by simpa using hxs)
      (by simpa using hys)
    simpa using h
  stable k := by
    fun_induction List.merge xs ys fun x y => decide (key x ≤ key y) with
    | case1 ys => rfl
    | case2 xs => simp
    | case3 x xs y ys hle ih =>
      rw [List.filter_cons, ih hxs.of_cons hys, List.cons_append, List.filter_cons]
    | case4 x xs y ys hnot ih =>
      rw [List.filter_cons, ih hxs hys.of_cons, List.filter_append, List.filter_append]
      by_cases hk : key y = k
      · -- no item of the first list has the key of the one that went ahead of it
        have hnone : (x :: xs).filter (key · = k) = [] := by
          have hlt : key y < key x := by simpa using hnot
          rw [List.filter_eq_nil_iff]
          intro z hz
          have hxz : key x ≤ key z := key_le_of_mem_cons hxs hz
          simpa [← hk] using (lt_of_lt_of_le hlt hxz).ne'
        rw [hnone]
        simp [hk]
      · simp [hk]

/-- **A stable sort** arranges a list. -/
theorem arranges_mergeSort (key : α → β) (xs : List α) :
    Arranges key xs (xs.mergeSort fun x y => decide (key x ≤ key y)) := by
  refine ⟨by simpa using List.pairwise_mergeSort (byKey_trans key) (byKey_total key) xs,
    fun k => ?_⟩
  -- the items of a key ascend as they stand, so sorting keeps them in their order
  have hkey : ∀ x ∈ xs.filter (key · = k), key x = k := fun x hx => by
    simpa using (List.mem_filter.mp hx).2
  have hascending : (xs.filter (key · = k)).Pairwise fun x y => decide (key x ≤ key y) = true :=
    List.pairwise_of_forall_mem_list fun x hx y hy =>
      decide_eq_true ((hkey x hx).trans (hkey y hy).symm).le
  have hsub := (List.sublist_mergeSort (byKey_trans key) (byKey_total key) hascending
    List.filter_sublist).filter (key · = k)
  simp only [List.filter_filter, Bool.and_self] at hsub
  refine (hsub.eq_of_length ?_).symm
  exact ((List.mergeSort_perm xs _).filter _).length_eq.symm

/-- An arrangement only reorders. -/
theorem Arranges.perm (h : Arranges key xs ys) : ys.Perm xs :=
  h.unique (arranges_mergeSort key xs) ▸ List.mergeSort_perm xs _

/-- Items with different keys are put in strict order. -/
theorem Arranges.strict (h : Arranges key xs ys) (hne : xs.Pairwise fun x y => key x ≠ key y) :
    ys.Pairwise fun x y => key x < key y := by
  have hne' : ys.Pairwise fun x y => key x ≠ key y :=
    List.pairwise_map.mp ((h.perm.map key).nodup_iff.mpr (List.pairwise_map.mpr hne))
  exact List.Pairwise.imp₂ (fun _ _ hle hxy => lt_of_le_of_ne hle hxy) h.ascending hne'

/-! ## Groups -/

section Groups

variable {γ ι : Type} [LinearOrder γ] {tag : ι → γ} {tags : List ι}
  {group : ι → List α}

/-- Items with one tag all stand in the group of this tag. -/
theorem flatMap_filter_tag (outer : α → γ) (htags : tags.Pairwise fun i j => tag i < tag j) {i : ι}
    (hi : i ∈ tags) (hxs : ∀ x ∈ xs, outer x = tag i) :
    (tags.flatMap fun j => xs.filter (outer · = tag j)) = xs := by
  obtain ⟨before, behind, rfl⟩ := List.append_of_mem hi
  obtain ⟨-, hbehind, hbefore⟩ := List.pairwise_append.mp htags
  have hnone : ∀ j, tag i ≠ tag j → xs.filter (outer · = tag j) = [] := by
    intro j hj
    rw [List.filter_eq_nil_iff]
    intro x hx
    simpa [hxs x hx] using hj
  have hall : xs.filter (outer · = tag i) = xs :=
    List.filter_eq_self.mpr fun x hx => decide_eq_true (hxs x hx)
  rw [List.flatMap_append, List.flatMap_cons, hall,
    List.flatMap_eq_nil_iff.mpr fun j hj => hnone j (hbefore j hj i List.mem_cons_self).ne',
    List.flatMap_eq_nil_iff.mpr fun j hj => hnone j ((List.pairwise_cons.mp hbehind).1 j hj).ne,
    List.nil_append, List.append_nil]

/-- **Groups that are arranged**, in order of their tags, arrange the whole list. -/
theorem arranges_flatMap (outer : α → γ) (htags : tags.Pairwise fun i j => tag i < tag j)
    (hcover : ∀ x ∈ xs, ∃ i ∈ tags, outer x = tag i)
    (hlt : ∀ x ∈ xs, ∀ y ∈ xs, outer x < outer y → key x ≤ key y)
    (heq : ∀ x y, key x = key y → outer x = outer y)
    (hgroup : ∀ i ∈ tags, Arranges key (xs.filter (outer · = tag i)) (group i)) :
    Arranges key xs (tags.flatMap group) where
  ascending := by
    refine List.pairwise_flatMap.mpr ⟨fun i hi => (hgroup i hi).ascending, ?_⟩
    refine htags.imp_of_mem fun {i j} hi hj hij x hx y hy => ?_
    obtain ⟨hx, hxi⟩ := List.mem_filter.mp ((hgroup i hi).mem_iff.mp hx)
    obtain ⟨hy, hyj⟩ := List.mem_filter.mp ((hgroup j hj).mem_iff.mp hy)
    exact hlt x hx y hy (of_decide_eq_true hxi ▸ of_decide_eq_true hyj ▸ hij)
  stable k := by
    have hfilter : (tags.flatMap group).filter (key · = k)
        = tags.flatMap fun i => (xs.filter (key · = k)).filter (outer · = tag i) := by
      rw [List.filter_flatMap]
      refine List.flatMap_congr fun i hi => ?_
      rw [(hgroup i hi).stable, List.filter_filter, List.filter_filter]
      exact List.filter_congr fun x _ => Bool.and_comm ..
    rw [hfilter]
    cases hk : xs.filter (key · = k) with
    | nil => simp
    | cons x rest =>
      rw [← hk]
      have hkey : ∀ y ∈ xs.filter (key · = k), key y = k := fun y hy => by
        simpa using (List.mem_filter.mp hy).2
      have hx : x ∈ xs.filter (key · = k) := hk ▸ List.mem_cons_self
      obtain ⟨i, hi, houter⟩ := hcover x (List.mem_filter.mp hx).1
      exact flatMap_filter_tag outer htags hi fun y hy =>
        (heq y x ((hkey y hy).trans (hkey x hx).symm)).trans houter

end Groups

end Exemplar.Sorting
