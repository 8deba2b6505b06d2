import Exemplar.Proofs.Inference.Steps
import Exemplar.Proofs.Json
import Mathlib.Data.List.Nodup

/-!
# The order of keys does not matter

Two examples that differ in the order of keys alone have one and the same
run: one schema, or one failure told in the same words, after the same
notices (`infer_eq_of_reordered`).

What is inferred for the keys of an object is put in the order of the keys
before anything is made of it, so a list of outcomes with distinct keys
comes out the same however it was given (`inKeyOrder_eq_of_perm`). The one
thing that is read off an example in the order of its keys is the list of
paths met, and of that only membership is asked.
-/

namespace Exemplar

namespace Inference

open Exemplar.Field

variable {view : OverrideView} {room : Nat} {parent p : String} {x y v w : Json}
  {xs ys : List Json} {ms ns : List (String × Json)}

/-! ## Objects -/

/-- **Outcomes with distinct keys come in one order**, however they are
given. -/
theorem inKeyOrder_eq_of_perm {α : Type} {xs ys : List (String × α)}
    (hn : (xs.map Prod.fst).Nodup) (hp : xs.Perm ys) : inKeyOrder xs = inKeyOrder ys := by
  have hanti : ∀ a b, a ∈ (xs.mergeSort fun a b => decide (a.1 ≤ b.1)) →
      b ∈ (ys.mergeSort fun a b => decide (a.1 ≤ b.1)) → a.1 ≤ b.1 → b.1 ≤ a.1 → a = b := by
    intro a b ha hb hab hba
    -- One key is one outcome, so the order of the keys decides.
    have ha' : a ∈ xs := List.mem_mergeSort.mp ha
    have hb' : b ∈ xs := hp.mem_iff.mpr (List.mem_mergeSort.mp hb)
    exact List.inj_on_of_nodup_map hn ha' hb' (String.le_antisymm hab hba)
  have hperm : (xs.mergeSort fun a b => decide (a.1 ≤ b.1)).Perm
      (ys.mergeSort fun a b => decide (a.1 ≤ b.1)) :=
    (List.mergeSort_perm xs _).trans (hp.trans (List.mergeSort_perm ys _).symm)
  unfold inKeyOrder
  rw [List.Perm.eq_of_pairwise hanti (pairwise_mergeSort_key Prod.fst xs)
    (pairwise_mergeSort_key Prod.fst ys) hperm]

/-- Of a member's value, only what is inferred from it counts. -/
theorem inferMember_congr (k : String)
    (h : ∀ name path, inferValue view room name path v = inferValue view room name path w) :
    inferMember view room parent (k, v) = inferMember view room parent (k, w) := by
  simp only [inferMember, fieldAt, h]

/-- The members of objects with the same keys give the same outcomes, in
some order. -/
theorem inferMembers_perm (hm : (ms.map Prod.fst).Nodup) (hn : (ns.map Prod.fst).Nodup)
    (hk : (ms.map Prod.fst).Perm (ns.map Prod.fst))
    (h : ∀ k v w, (k, v) ∈ ms → (k, w) ∈ ns → ∀ name path,
      inferValue view room name path v = inferValue view room name path w) :
    (inferMembers view room parent ms).Perm (inferMembers view room parent ns) := by
  have hnodup : ∀ ms : List (String × Json), (ms.map Prod.fst).Nodup →
      (ms.map fun m => (m.1, inferMember view room parent m)).Nodup := by
    intro ms hn
    refine List.Nodup.of_map Prod.fst ?_
    rwa [List.map_map]
  rw [inferMembers_eq_map, inferMembers_eq_map]
  refine (List.perm_ext_iff_of_nodup (hnodup ms hm) (hnodup ns hn)).mpr ?_
  rintro ⟨k, r⟩
  simp only [List.mem_map, Prod.mk.injEq]
  constructor
  · rintro ⟨⟨_, v⟩, hv, rfl, rfl⟩
    obtain ⟨⟨_, w⟩, hw, rfl⟩ := List.mem_map.mp (hk.mem_iff.mp (List.mem_map_of_mem hv))
    exact ⟨_, hw, rfl, (inferMember_congr _ (h _ v w hv hw)).symm⟩
  · rintro ⟨⟨_, w⟩, hw, rfl, rfl⟩
    obtain ⟨⟨_, v⟩, hv, rfl⟩ := List.mem_map.mp (hk.mem_iff.mpr (List.mem_map_of_mem hw))
    exact ⟨_, hv, rfl, inferMember_congr _ (h _ v w hv hw)⟩

/-! ## Arrays -/

/-- The check asks for nothing but the sorts of the items. -/
theorem itemClash?_congr (h : xs.map itemSort? = ys.map itemSort?) :
    itemClash? xs = itemClash? ys := by
  have hfirst : ∀ sort items, firstOf? sort items
      = (items.map itemSort?).findIdx? fun s => s = some sort := by
    intro sort items
    rw [firstOf?, List.findIdx?_map]
    rfl
  unfold itemClash?
  simp only [hfirst, h]

/-- Reordering keys does not change the sort of a value. -/
theorem itemSort?_of_reordered (h : Json.Reordered x y) : itemSort? x = itemSort? y := by
  cases h <;> rfl

/-- Of items, only what is inferred from each counts. -/
theorem mergeItems_congr {name : Json} {path : String} {index : Nat} {element : Option Field}
    (h : List.Forall₂ (fun x y => inferValue view room name path x
      = inferValue view room name path y) xs ys) :
    mergeItems view room name path index element xs
      = mergeItems view room name path index element ys := by
  induction h generalizing index element with
  | nil => rfl
  | cons hxy _ ih => simp only [mergeItems, hxy, ih]

/-! ## Values -/

/-- **The order of keys does not matter** to what is inferred from a
value. -/
theorem inferValue_eq_of_reordered (h : Json.Reordered x y) (hx : x.Distinct)
    (hy : y.Distinct) (room : Nat) (name : Json) (path : String) :
    inferValue view room name path x = inferValue view room name path y := by
  induction h generalizing room name path with
  | leaf => rfl
  | @arr xs ys hl hxy ih =>
    rw [Json.distinct_arr_iff] at hx hy
    cases room with
    | zero => simp only [inferValue]
    | succ room =>
      have hsort : xs.map itemSort? = ys.map itemSort? := by
        have h : List.Forall₂ (fun x y => itemSort? x = itemSort? y) xs ys :=
          List.forall₂_iff_zip.mpr ⟨hl, fun hp => itemSort?_of_reordered (hxy _ _ hp)⟩
        rw [← List.forall₂_eq_eq_eq, List.forall₂_map_left_iff, List.forall₂_map_right_iff]
        exact h
      have hitems : List.Forall₂ (fun x y => inferValue view room name path x
          = inferValue view room name path y) xs ys := by
        refine List.forall₂_iff_zip.mpr ⟨hl, fun {x y} hp => ?_⟩
        obtain ⟨hxm, hym⟩ := List.of_mem_zip hp
        exact ih x y hp (hx x hxm) (hy y hym) room name path
      simp only [inferValue, checkItems, itemClash?_congr hsort, mergeItems_congr hitems]
  | @obj ms ns hk hvw ih =>
    obtain ⟨hm, hx⟩ := Json.distinct_obj_iff.mp hx
    obtain ⟨hn, hy⟩ := Json.distinct_obj_iff.mp hy
    cases room with
    | zero => simp only [inferValue]
    | succ room =>
      have hp : (inferMembers view room path ms).Perm (inferMembers view room path ns) :=
        inferMembers_perm hm hn hk (fun k v w hv hw name path =>
          ih k v w hv hw (hx _ hv) (hy _ hw) room name path)
      have hkeys : ((inferMembers view room path ms).map Prod.fst).Nodup := by
        rw [inferMembers_eq_map, List.map_map]
        exact hm
      simp only [inferValue, inKeyOrder_eq_of_perm hkeys hp]

/-! ## Whole examples -/

/-- A key hides what is below it. -/
def isHidden (view : OverrideView) (path : String) : Bool :=
  view.isSkipped (.str path) || (view.forcedKind? (.str path)).isSome

theorem mem_metInItems_iff :
    p ∈ metInItems view parent xs ↔ ∃ x ∈ xs, p ∈ metPaths view parent x := by
  induction xs with
  | nil => simp [metInItems]
  | cons x xs ih => simp [metInItems, ih]

theorem mem_metInMembers_iff : p ∈ metInMembers view parent ms ↔
    ∃ m ∈ ms, p = childPath parent m.1 ∨ isHidden view (childPath parent m.1) = false
      ∧ p ∈ metPaths view (childPath parent m.1) m.2 := by
  induction ms with
  | nil => simp [metInMembers]
  | cons m ms ih =>
    have hbelow : ∀ (b : Bool) (l : List String),
        (p ∈ if b then [] else l) ↔ b = false ∧ p ∈ l := by
      intro b l
      cases b <;> simp
    rw [metInMembers, List.cons_append, List.mem_cons, List.mem_append, hbelow, ih,
      List.exists_mem_cons_iff, or_assoc]
    rfl

/-- Reordering keys adds no path to those met. -/
theorem mem_metPaths_of_reordered (h : Json.Reordered x y) (hp : p ∈ metPaths view parent x) :
    p ∈ metPaths view parent y := by
  induction h generalizing parent with
  | leaf => exact hp
  | arr hl _ ih =>
    rw [metPaths, mem_metInItems_iff] at hp ⊢
    obtain ⟨x, hx, hp⟩ := hp
    obtain ⟨y, hxy⟩ := Json.exists_mem_zip hl hx
    exact ⟨y, (List.of_mem_zip hxy).2, ih x y hxy hp⟩
  | @obj ms ns hk hvw ih =>
    rw [metPaths, mem_metInMembers_iff] at hp ⊢
    obtain ⟨⟨k, v⟩, hm, hp⟩ := hp
    obtain ⟨w, hw, -⟩ := (Json.Reordered.obj hk hvw).exists_member hm
    refine ⟨(k, w), hw, hp.imp_right ?_⟩
    exact fun ⟨hhidden, hp⟩ => ⟨hhidden, ih k v w hm hw hp⟩

/-- The rules that are said to be met nowhere are the same. -/
theorem noteUnused_eq_of_reordered (h : Json.Reordered x y) :
    noteUnused view x = noteUnused view y := by
  have hmet : ∀ path : Json, (metPaths view "" x).all (fun p => decide (path ≠ .str p))
      = (metPaths view "" y).all (fun p => decide (path ≠ .str p)) := by
    intro path
    refine Bool.eq_iff_iff.mpr ?_
    simp only [List.all_eq_true]
    exact ⟨fun hall p hp => hall p (mem_metPaths_of_reordered h.symm hp),
      fun hall p hp => hall p (mem_metPaths_of_reordered h hp)⟩
  unfold noteUnused
  refine bind_congr (fun paths => ?_)
  cases paths with
  | nil => rfl
  | cons q paths => simp only [List.isEmpty_cons, Bool.false_eq_true, if_false, hmet]

/-- Reordering keys makes no raw text, and no document of it. -/
theorem isRaw_eq_of_reordered (h : Json.Reordered x y) : isRaw x = isRaw y := by
  cases h with
  | leaf => rfl
  | arr => rfl
  | @obj ms ns hk _ =>
    show (Json.find? formatKey ms).isSome = (Json.find? formatKey ns).isSome
    refine Bool.eq_iff_iff.mpr ?_
    simp only [← Option.ne_none_iff_isSome, ne_eq, Json.find?_eq_none_iff, not_not, hk.mem_iff]

end Inference

open Inference

/-- **The order of keys does not matter**: examples that differ in nothing
else, and have no key twice in one object, have one run – the same schema
or the same failure, after the same notices. -/
theorem infer_eq_of_reordered (view : OverrideView) (name : Json) {x y : Json}
    (hx : x.Distinct) (hy : y.Distinct) (h : Json.Reordered x y) :
    infer view name x = infer view name y := by
  unfold infer
  rw [isRaw_eq_of_reordered h, inferValue_eq_of_reordered h hx hy, noteUnused_eq_of_reordered h]

/-- A page with its keys in two orders, inside its rows as well. -/
theorem infer_eq_of_reordered_page :
    let page : Json :=
      .obj [("total", .int 1), ("rows", .arr [.obj [("tag", .null), ("id", .str "a")]])]
    let other : Json :=
      .obj [("rows", .arr [.obj [("id", .str "a"), ("tag", .null)]]), ("total", .int 1)]
    page.Distinct ∧ other.Distinct ∧ Json.Reordered page other ∧ page ≠ other
      ∧ infer .empty (.str "page") page = infer .empty (.str "page") other := by
  intro page other
  have hx : page.Distinct := by
    simp [page, Json.Distinct, Json.DistinctItems, Json.DistinctMembers]
  have hy : other.Distinct := by
    simp [other, Json.Distinct, Json.DistinctItems, Json.DistinctMembers]
  have hrow : Json.Reordered (.obj [("tag", .null), ("id", .str "a")])
      (.obj [("id", .str "a"), ("tag", .null)]) := by
    refine .obj (by decide) (fun k v w hv hw => ?_)
    simp only [List.mem_cons, Prod.mk.injEq, List.not_mem_nil, or_false] at hv hw
    obtain ⟨rfl, rfl⟩ | ⟨rfl, rfl⟩ := hv <;> obtain ⟨hk, rfl⟩ | ⟨hk, rfl⟩ := hw <;>
      first | exact .leaf rfl | exact absurd hk (by decide)
  have h : Json.Reordered page other := by
    refine .obj (by decide) (fun k v w hv hw => ?_)
    simp only [List.mem_cons, Prod.mk.injEq, List.not_mem_nil, or_false] at hv hw
    obtain ⟨rfl, rfl⟩ | ⟨rfl, rfl⟩ := hv <;> obtain ⟨hk, rfl⟩ | ⟨hk, rfl⟩ := hw
    · exact absurd hk (by decide)
    · exact .leaf rfl
    · exact .arr rfl (by simpa using hrow)
    · exact absurd hk (by decide)
  exact ⟨hx, hy, h, by decide, infer_eq_of_reordered .empty (.str "page") hx hy h⟩

end Exemplar
