import Exemplar.Proofs.Field.Merging

/-!
# Fields without the entries at one path

`Field.prune target path f` is the field `f`, which stands at `path`,
without its entries at the path `target`: at every depth, and inside the
elements of collections, which share the path of the collection. What is
left is left as it was.

Pruning commutes with merging (`Field.Merges.prune`). A merge finds the
entries of two maps by their keys, and what it makes of the fields at one
key does not depend on the other keys; and pruning keeps all that tells
one rule of merging from another, the shapes and the names.
-/

namespace Exemplar.Field

variable {target path k : String} {a b c f : Field} {es : List (Entry Field)}

mutual

/-- **The field without the entries at a path.** -/
def prune (target path : String) : Field → Field
  | .collection n e => .collection n (prune target path e)
  | .map n es => .map n (pruneEntries target path es)
  | f => f

/-- The entries but those at the path, each with its field pruned. -/
def pruneEntries (target path : String) : List (Entry Field) → List (Entry Field)
  | [] => []
  | ⟨key, accessor, field, required⟩ :: es =>
    if childPath path key = target then pruneEntries target path es
    else ⟨key, accessor, prune target (childPath path key) field, required⟩
      :: pruneEntries target path es

end

/-- The entry of a map at a path with its field pruned. -/
def pruneEntry (target path : String) (e : Entry Field) : Entry Field :=
  { e with field := prune target (childPath path e.key) e.field }

theorem pruneEntries_eq (target path : String) (es : List (Entry Field)) :
    pruneEntries target path es
      = (es.filter fun e => childPath path e.key ≠ target).map (pruneEntry target path) := by
  induction es with
  | nil => simp [pruneEntries]
  | cons e es ih =>
    rw [pruneEntries, ih]
    by_cases h : childPath path e.key = target
    · simp [h]
    · simp [h, pruneEntry]

/-- **Nothing is found at the path**, and elsewhere what was found before,
pruned. -/
theorem entryAt?_pruneEntries (target path k : String) (es : List (Entry Field)) :
    entryAt? k (pruneEntries target path es)
      = if childPath path k = target then none
        else (entryAt? k es).map (pruneEntry target path) := by
  induction es with
  | nil => simp [pruneEntries, entryAt?]
  | cons e es ih =>
    rw [pruneEntries, entryAt?_cons]
    by_cases h : childPath path e.key = target
    · rw [if_pos h, ih]
      by_cases hk : e.key = k
      · rw [← hk, if_pos h, if_pos h]
      · rw [if_neg hk]
    · rw [if_neg h, entryAt?_cons, ih]
      by_cases hk : e.key = k
      · rw [if_pos hk, if_pos hk, ← hk, if_neg h]
        rfl
      · rw [if_neg hk, if_neg hk]

/-! ## What pruning keeps -/

@[simp] theorem name_prune (target path : String) (f : Field) :
    (prune target path f).name = f.name := by
  cases f <;> simp [prune, name]

@[simp] theorem shape_prune (target path : String) (f : Field) :
    (prune target path f).shape = f.shape := by
  cases f <;> simp [prune, shape]

@[simp] theorem isNull_prune (target path : String) (f : Field) :
    (prune target path f).isNull = f.isNull := by
  cases f <;> simp [prune, isNull]

theorem ordered_pruneEntries (h : Ordered es) : Ordered (pruneEntries target path es) := by
  rw [pruneEntries_eq, Ordered, List.pairwise_map]
  exact h.filter _

theorem unambiguous_pruneEntries (h : Unambiguous es) :
    Unambiguous (pruneEntries target path es) := by
  obtain ⟨hp, hc⟩ := h
  rw [pruneEntries_eq]
  refine ⟨List.pairwise_map.mpr (hp.filter _), fun m hm => ?_⟩
  obtain ⟨e, he, rfl⟩ := List.mem_map.mp hm
  exact hc e (List.mem_filter.mp he).1

/-- A pruned field is well formed if the field is. -/
theorem wellFormed_prune (h : WellFormed f) : WellFormed (prune target path f) := by
  induction f generalizing path with
  | empty n => trivial
  | scalar n kind => trivial
  | collection n e ih => exact ih h
  | map n es ih =>
    obtain ⟨ho, hu, hes⟩ := wellFormed_map_iff.mp h
    refine wellFormed_map_iff.mpr
      ⟨ordered_pruneEntries ho, unambiguous_pruneEntries hu, fun m hm => ?_⟩
    rw [pruneEntries_eq] at hm
    obtain ⟨e, he, rfl⟩ := List.mem_map.mp hm
    have he := (List.mem_filter.mp he).1
    exact ih e he (hes e he)

/-! ## Pruning and merging -/

/-- What two entries at one key are joined to, pruned. -/
theorem joinEntry_map_pruneEntry {x : Field} {o o' : Option (Entry Field)}
    (ho : ∀ e ∈ o, e.key = k) :
    joinEntry (prune target (childPath path k) x) (o.map (pruneEntry target path))
        (o'.map (pruneEntry target path))
      = (joinEntry x o o').map (pruneEntry target path) := by
  cases o with
  | none => cases o' <;> rfl
  | some e =>
    obtain rfl := ho e rfl
    cases o' <;> rfl

/-- **Pruning commutes with merging.** -/
theorem Merges.prune (h : Merges a b c) (target path : String) :
    Merges (a.prune target path) (b.prune target path) (c.prune target path) := by
  induction h generalizing path with
  | nullFirst hn => exact .nullFirst (by simpa using hn)
  | nullSecond hn hn' => exact .nullSecond (by simpa using hn) (by simpa using hn')
  | scalars hk hk' => exact .scalars hk hk'
  | collections _ ih => exact .collections (ih path)
  | @maps _ _ es es' ms fields _ hms hu hk ih =>
    refine .maps (fun k => (fields k).prune target (childPath path k)) (fun k e e' he he' => ?_)
      (ordered_pruneEntries hms) (unambiguous_pruneEntries hu) (fun k => ?_)
    · -- An entry that is found was there before it was pruned.
      rw [entryAt?_pruneEntries] at he he'
      by_cases ht : childPath path k = target
      · rw [if_pos ht] at he
        nomatch he
      · rw [if_neg ht] at he he'
        obtain ⟨d, hd, rfl⟩ := Option.map_eq_some_iff.mp he
        obtain ⟨d', hd', rfl⟩ := Option.map_eq_some_iff.mp he'
        have hkey := key_of_entryAt? hd
        have hkey' := key_of_entryAt? hd'
        simpa only [pruneEntry, hkey, hkey'] using ih k d d' hd hd' (childPath path k)
    · rw [entryAt?_pruneEntries, entryAt?_pruneEntries, entryAt?_pruneEntries]
      by_cases ht : childPath path k = target
      · simp only [if_pos ht]
        rfl
      · simp only [if_neg ht]
        rw [hk, joinEntry_map_pruneEntry (fun e he => key_of_entryAt? he)]
  | raw hn hn' hm hm' hs =>
    rw [← name_prune target path]
    exact .raw (by simpa using hn) (by simpa using hn') (by simpa using hm) (by simpa using hm')
      (by simpa using hs)

end Exemplar.Field
