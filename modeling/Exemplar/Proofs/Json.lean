import Exemplar.Json
import Mathlib.Data.List.Zip

/-!
# Documents up to the order of keys

An object is a list of members, and where its keys are distinct it is a
finite map: what is looked up at a key is the one member that has it
(`Json.find?_eq_some_iff`). Two documents that differ in the order of the
keys alone, at whatever depth, are `Json.Reordered`: the objects in them
have the same keys, in some order, and reordered values at each key, and
the arrays have reordered items one by one.
-/

namespace Exemplar.Json

variable {k : String} {v x y : Json} {ms ns : List (String × Json)} {items : List Json}

/-! ## Members -/

/-- A key is not found exactly where no member has it. -/
theorem find?_eq_none_iff : find? k ms = none ↔ k ∉ ms.map Prod.fst := by
  induction ms with
  | nil => simp [find?]
  | cons m ms ih =>
    by_cases h : m.1 = k
    · simp [find?, h]
    · rw [find?, if_neg h, ih, List.map_cons, List.mem_cons, not_or]
      exact ⟨fun hm => ⟨fun he => h he.symm, hm⟩, And.right⟩

/-- What is found is a member. -/
theorem mem_of_find? (h : find? k ms = some v) : (k, v) ∈ ms := by
  induction ms with
  | nil => nomatch h
  | cons m ms ih =>
    rw [find?] at h
    by_cases hk : m.1 = k
    · rw [if_pos hk, Option.some.injEq] at h
      rw [← hk, ← h]
      exact List.mem_cons_self
    · rw [if_neg hk] at h
      exact List.mem_cons_of_mem _ (ih h)

/-- **Where keys are distinct, every member is the one found at its key.** -/
theorem find?_eq_some_iff (hn : (ms.map Prod.fst).Nodup) :
    find? k ms = some v ↔ (k, v) ∈ ms := by
  refine ⟨mem_of_find?, fun h => ?_⟩
  induction ms with
  | nil => exact absurd h List.not_mem_nil
  | cons m ms ih =>
    obtain ⟨hm, hn⟩ := List.nodup_cons.mp (List.map_cons ▸ hn)
    rw [find?]
    rcases List.mem_cons.mp h with rfl | h
    · rw [if_pos rfl]
    · have hne : m.1 ≠ k := fun hk => hm (hk ▸ List.mem_map_of_mem h)
      rw [if_neg hne]
      exact ih hn h

/-! ## Distinct keys -/

theorem distinctItems_iff : DistinctItems items ↔ ∀ x ∈ items, Distinct x := by
  induction items with
  | nil => simp [DistinctItems]
  | cons x items ih => simp [DistinctItems, ih]

theorem distinctMembers_iff : DistinctMembers ms ↔ ∀ m ∈ ms, Distinct m.2 := by
  induction ms with
  | nil => simp [DistinctMembers]
  | cons m ms ih => simp [DistinctMembers, ih]

/-- Arrays have distinct keys if their items do. -/
theorem distinct_arr_iff : Distinct (.arr items) ↔ ∀ x ∈ items, Distinct x := by
  rw [Distinct, distinctItems_iff]

/-- Objects have distinct keys if these are, and if their values do. -/
theorem distinct_obj_iff :
    Distinct (.obj ms) ↔ (ms.map Prod.fst).Nodup ∧ ∀ m ∈ ms, Distinct m.2 := by
  rw [Distinct, distinctMembers_iff]

/-! ## The order of keys -/

/-- **Documents that differ in the order of keys alone**, given that no
object in them has a key twice. -/
inductive Reordered : Json → Json → Prop where
  | leaf {x : Json} : x.isContainer = false → Reordered x x
  /-- Items keep their order. -/
  | arr {xs ys : List Json} : xs.length = ys.length →
      (∀ x y, (x, y) ∈ xs.zip ys → Reordered x y) → Reordered (.arr xs) (.arr ys)
  /-- The keys are the same, in some order. -/
  | obj {ms ns : List (String × Json)} : (ms.map Prod.fst).Perm (ns.map Prod.fst) →
      (∀ k v w, (k, v) ∈ ms → (k, w) ∈ ns → Reordered v w) → Reordered (.obj ms) (.obj ns)

theorem Reordered.symm (h : Reordered x y) : Reordered y x := by
  induction h with
  | leaf h => exact .leaf h
  | arr hl _ ih =>
    refine .arr hl.symm (fun y x hyx => ih x y ?_)
    rw [← List.zip_swap] at hyx
    obtain ⟨p, hp, he⟩ := List.mem_map.mp hyx
    rw [show (x, y) = p from congrArg Prod.swap he.symm]
    exact hp
  | obj hk _ ih => exact .obj hk.symm (fun k w v hw hv => ih k v w hv hw)

/-- Every item of a list has a partner in one of the same length. -/
theorem exists_mem_zip {xs ys : List Json} (h : xs.length = ys.length) (hx : x ∈ xs) :
    ∃ y, (x, y) ∈ xs.zip ys := by
  obtain ⟨i, hi, rfl⟩ := List.getElem_of_mem hx
  have hys : i < ys.length := h ▸ hi
  have hzip : i < (xs.zip ys).length := by
    rw [List.length_zip, ← h, Nat.min_self]
    exact hi
  refine ⟨ys[i], ?_⟩
  rw [← List.getElem_zip (h := hzip)]
  exact List.getElem_mem hzip

/-- Every member of an object has a partner in a reordered one. -/
theorem Reordered.exists_member (h : Reordered (.obj ms) (.obj ns)) (hm : (k, v) ∈ ms) :
    ∃ w, (k, w) ∈ ns ∧ Reordered v w := by
  cases h with
  | leaf h => nomatch h
  | obj hk hv =>
    obtain ⟨⟨_, w⟩, hw, rfl⟩ := List.mem_map.mp (hk.mem_iff.mp (List.mem_map_of_mem hm))
    exact ⟨w, hw, hv _ v w hm hw⟩

end Exemplar.Json
