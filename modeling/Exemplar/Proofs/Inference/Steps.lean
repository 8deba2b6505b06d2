import Exemplar.Proofs.Inference.Obedience
import Mathlib.Data.List.Induction

/-!
# The inference step by step

What the inference gives for a leaf, for an object and for one more item
of an array, each told by what it gives for the parts. An object becomes
an ordered and unambiguous map of the entries of its keys
(`inferValue_obj_ok`), and the items of an array take one merge for each
item that is added at the end (`mergeItems_concat_eq_ok_iff`).

What holds of all that is inferred is proved by `inferValue_induction`,
and the first such property is that the fields obey the view
(`inferValue_obeys`): they agree, then, wherever two of them are merged.

Sorting by keys does not reduce. So what a given example is inferred as is not
computed, but worked out from `outcome_infer` by unfolding the definitions.
-/

namespace Exemplar

namespace Inference

open Exemplar.Field

variable {view : OverrideView} {room : Nat} {name : Json} {path : String} {f c : Field}

/-! ## Views without rules -/

section NoRules

variable (endpoint action path : Json)

@[simp] theorem isSkipped_nil : OverrideView.isSkipped ⟨endpoint, action, []⟩ path = false := rfl

@[simp] theorem forcedKind?_nil : OverrideView.forcedKind? ⟨endpoint, action, []⟩ path = none := rfl

@[simp] theorem isOptional_nil : OverrideView.isOptional ⟨endpoint, action, []⟩ path = false := rfl

@[simp] theorem accessor_nil (key path : String) :
    accessor ⟨endpoint, action, []⟩ key path = .str (Naming.toCamel key) := rfl

theorem paths_nil : OverrideView.paths ⟨endpoint, action, []⟩ = .ok [] := by
  simp [OverrideView.paths, Json.distinct, Json.ascending, Except.mapError]

end NoRules

/-! ## Keys of an object -/

/-- The field of a key's value: the forced scalar, or what is inferred. -/
def fieldAt (view : OverrideView) (room : Nat) (name : Json) (path : String) (value : Json) :
    Run Field :=
  match view.forcedKind? (.str path) with
  | some kind => pure (.scalar name kind)
  | none => inferValue view room name path value

/-- The entry that a key gets for its field. -/
def entryFor (view : OverrideView) (parent key : String) (field : Field) : Entry Field where
  key
  accessor := accessor view key (childPath parent key)
  field
  required := !view.isOptional (.str (childPath parent key))

/-- What is inferred for one key. -/
def inferMember (view : OverrideView) (room : Nat) (parent : String) (m : String × Json) :
    Run (Option (Entry Field)) :=
  let path := childPath parent m.1
  if view.isSkipped (.str path) then do
    Run.note .debug s!"Skipping '{path}' ({view.scope})"
    pure none
  else do
    let field ← fieldAt view room (accessor view m.1 path) path m.2
    pure (some (entryFor view parent m.1 field))

/-- The keys of an object are gone through one by one. -/
theorem inferMembers_eq_map (view : OverrideView) (room : Nat) (parent : String)
    (ms : List (String × Json)) :
    inferMembers view room parent ms = ms.map fun m => (m.1, inferMember view room parent m) := by
  induction ms with
  | nil => simp [inferMembers]
  | cons m ms ih =>
    obtain ⟨key, value⟩ := m
    rw [inferMembers, ih, List.map_cons]
    simp only [inferMember, fieldAt]
    cases view.forcedKind? (.str (childPath parent key)) <;> rfl

/-- Outcomes told with their keys, in the order of the keys. -/
theorem inKeyOrder_map {α : Type} (g : String × Json → α) (ms : List (String × Json)) :
    inKeyOrder (ms.map fun m => (m.1, g m))
      = (ms.mergeSort fun a b => decide (a.1 ≤ b.1)).map g := by
  have hsort : (ms.map fun m => (m.1, g m)).mergeSort (fun a b => decide (a.1 ≤ b.1))
      = (ms.mergeSort fun a b => decide (a.1 ≤ b.1)).map fun m => (m.1, g m) :=
    (List.map_mergeSort (f := fun m : String × Json => (m.1, g m)) fun _ _ _ _ => rfl).symm
  rw [inKeyOrder, hsort, List.map_map]
  rfl

/-- A key that is left out gives no entry. -/
theorem outcome_inferMember_of_skipped {parent : String} {m : String × Json}
    (h : view.isSkipped (.str (childPath parent m.1)) = true) :
    (inferMember view room parent m).outcome = .ok none := by
  simp only [inferMember, if_pos h]
  rfl

/-- **The entry of a key**: the key is not left out, and the field is the
one for its value. -/
theorem inferMember_eq_some_iff {parent : String} {m : String × Json} {e : Entry Field} :
    (inferMember view room parent m).outcome = .ok (some e) ↔
      view.isSkipped (.str (childPath parent m.1)) = false
        ∧ e = entryFor view parent m.1 e.field
        ∧ (fieldAt view room e.accessor (childPath parent m.1) m.2).outcome = .ok e.field := by
  by_cases h : view.isSkipped (.str (childPath parent m.1)) = true
  · rw [outcome_inferMember_of_skipped h, h]
    simp
  · simp only [inferMember, if_neg h, Run.outcome_bind_eq_ok_iff, Run.outcome_pure,
      Except.ok.injEq, Option.some.injEq]
    refine ⟨?_, fun ⟨_, he, hfield⟩ => ⟨e.field, ?_, he.symm⟩⟩
    · rintro ⟨field, hfield, rfl⟩
      exact ⟨by simpa using h, rfl, hfield⟩
    · rw [he] at hfield
      exact hfield

/-- An entry has the key it is for. -/
theorem key_of_inferMember {parent : String} {m : String × Json} {e : Entry Field}
    (h : (inferMember view room parent m).outcome = .ok (some e)) : e.key = m.1 := by
  obtain ⟨-, he, -⟩ := inferMember_eq_some_iff.mp h
  rw [he, entryFor]

/-- A key that is not left out gives an entry. -/
theorem exists_eq_some_of_inferMember {parent : String} {m : String × Json}
    {o : Option (Entry Field)} (hskip : view.isSkipped (.str (childPath parent m.1)) = false)
    (h : (inferMember view room parent m).outcome = .ok o) : ∃ e, o = some e := by
  simp only [inferMember, hskip, Bool.false_eq_true, if_false, Run.outcome_bind_eq_ok_iff,
    Run.outcome_pure, Except.ok.injEq] at h
  obtain ⟨field, -, rfl⟩ := h
  exact ⟨_, rfl⟩

/-- **An object** becomes a map, and its entries are those of the keys. -/
theorem inferValue_obj_ok {ms : List (String × Json)}
    (h : (inferValue view (room + 1) name path (.obj ms)).outcome = .ok f) :
    ∃ es, f = .map name es ∧ Ordered es ∧ Unambiguous es
      ∧ (∀ e, e ∈ es ↔ ∃ m ∈ ms, (inferMember view room path m).outcome = .ok (some e))
      ∧ ∀ m ∈ ms, ∃ o, (inferMember view room path m).outcome = .ok o := by
  rw [inferValue, Run.outcome_bind_eq_ok_iff, inferMembers_eq_map, inKeyOrder_map] at h
  obtain ⟨found, hfound, hf⟩ := h
  obtain ⟨es, rfl, hp, ho, hu⟩ := ofEntries_eq_ok_iff.mp hf
  have hresult : ∀ m ∈ ms, ∃ o ∈ found, (inferMember view room path m).outcome = .ok o := by
    intro m hm
    have hsorted : m ∈ ms.mergeSort fun a b => decide (a.1 ≤ b.1) := List.mem_mergeSort.mpr hm
    exact Run.exists_result_of_mem hfound (List.mem_map_of_mem hsorted)
  have hmem : ∀ e, e ∈ es ↔ some e ∈ found := by
    intro e
    rw [hp.mem_iff, List.mem_filterMap]
    exact ⟨fun ⟨o, ho, he⟩ => he ▸ ho, fun he => ⟨_, he, rfl⟩⟩
  refine ⟨es, rfl, ho, hu, fun e => ?_, fun m hm => ?_⟩
  · rw [hmem]
    constructor
    · intro he
      obtain ⟨_, hx, hrun⟩ := Run.exists_run_of_mem hfound he
      obtain ⟨m, hm, rfl⟩ := List.mem_map.mp hx
      exact ⟨m, List.mem_mergeSort.mp hm, hrun⟩
    · rintro ⟨m, hm, hrun⟩
      obtain ⟨o, ho, hrun'⟩ := hresult m hm
      exact Except.ok.inj (hrun'.symm.trans hrun) ▸ ho
  · obtain ⟨o, -, hrun⟩ := hresult m hm
    exact ⟨o, hrun⟩

/-- The entries have the keys they are for, in the order of the keys. -/
theorem sublist_keys_of_inferMember {parent : String} {ms : List (String × Json)}
    {found : List (Option (Entry Field))}
    (h : List.Forall₂ (fun m o => (inferMember view room parent m).outcome = .ok o) ms found) :
    ((found.filterMap id).map Entry.key).Sublist (ms.map Prod.fst) := by
  induction h with
  | nil => exact .refl _
  | @cons m o ms found hm _ ih =>
    cases o with
    | none => exact .cons _ ih
    | some e =>
      show (e.key :: (found.filterMap id).map Entry.key).Sublist (m.1 :: ms.map Prod.fst)
      rw [key_of_inferMember hm]
      exact ih.cons_cons _

/-- **An object with distinct keys becomes a map** if each key gets its
entry, or none, and the accessors tell the keys apart. -/
theorem exists_inferValue_obj {ms : List (String × Json)} (hn : (ms.map Prod.fst).Nodup)
    (hok : ∀ m ∈ ms, ∃ o, (inferMember view room path m).outcome = .ok o)
    (hd : ∀ es, (∀ e ∈ es, ∃ m ∈ ms, (inferMember view room path m).outcome = .ok (some e)) →
      Distinguishes es) :
    ∃ f, (inferValue view (room + 1) name path (.obj ms)).outcome = .ok f := by
  let sorted := ms.mergeSort fun a b => decide (a.1 ≤ b.1)
  have hp : sorted.Perm ms := List.mergeSort_perm _ _
  obtain ⟨found, hfound⟩ : ∃ found,
      (Run.sequence (sorted.map (inferMember view room path))).outcome = .ok found := by
    refine Run.exists_outcome_sequence (fun x hx => ?_)
    obtain ⟨m, hm, rfl⟩ := List.mem_map.mp hx
    exact hok m (hp.mem_iff.mp hm)
  -- What is left is that the entries found form a map.
  have hkeys : ((found.filterMap id).map Entry.key).Nodup := by
    have h := Run.outcome_sequence_eq_ok_iff.mp hfound
    rw [List.forall₂_map_left_iff] at h
    exact ((hp.map Prod.fst).nodup_iff.mpr hn).sublist (sublist_keys_of_inferMember h)
  have hmem : ∀ e ∈ sortEntries (found.filterMap id),
      ∃ m ∈ ms, (inferMember view room path m).outcome = .ok (some e) := by
    intro e he
    obtain ⟨o, ho, rfl⟩ := List.mem_filterMap.mp ((sortEntries_perm _).mem_iff.mp he)
    obtain ⟨_, hx, hrun⟩ := Run.exists_run_of_mem hfound ho
    obtain ⟨m, hm, rfl⟩ := List.mem_map.mp hx
    exact ⟨m, hp.mem_iff.mp hm, hrun⟩
  have hu : Unambiguous (sortEntries (found.filterMap id)) :=
    (unambiguous_iff_distinguishes (ordered_sortEntries hkeys).nodup).mpr (hd _ hmem)
  refine ⟨.map name (sortEntries (found.filterMap id)), ?_⟩
  rw [inferValue, Run.outcome_bind_eq_ok_iff, inferMembers_eq_map, inKeyOrder_map]
  exact ⟨found, hfound, ofEntries_eq_ok_iff.mpr
    ⟨_, rfl, sortEntries_perm _, ordered_sortEntries hkeys, hu⟩⟩

/-! ## Items of an array -/

@[simp] theorem firstOf?_nil (sort : ItemSort) : firstOf? sort [] = none := rfl

@[simp] theorem firstOf?_cons (sort : ItemSort) (x : Json) (items : List Json) :
    firstOf? sort (x :: items)
      = if itemSort? x = some sort then some 0 else (firstOf? sort items).map (· + 1) := by
  simp [firstOf?, List.findIdx?_cons]

section Items

/-! Whatever is inferred for an item obeys the view. This is proved below
from what follows here, so it is a hypothesis for now. -/

variable (hobeys : ∀ x f, (inferValue view room name path x).outcome = .ok f →
  Obeys view name path f)
include hobeys

/-- The first of some items is merged into the element so far. -/
theorem mergeItems_cons_eq_ok_iff {index : Nat} {element : Option Field} {x : Json}
    {items : List Json} (helement : ∀ f ∈ element, Obeys view name path f) :
    (mergeItems view room name path index element (x :: items)).outcome = .ok c ↔
      ∃ b a, (inferValue view room name path x).outcome = .ok b
        ∧ Merges (element.getD (.scalar name .unknown)) b a
        ∧ (mergeItems view room name path (index + 1) (some a) items).outcome = .ok c := by
  cases element with
  | none =>
    -- The first item is not merged, which is as if it met a field without shape.
    simp only [mergeItems, Run.outcome_bind_eq_ok_iff, Run.outcome_pure, Except.ok.injEq,
      Option.getD_none, merges_unknown_iff]
    exact ⟨fun ⟨b, hb, _, rfl, hc⟩ => ⟨b, b, hb, rfl, hc⟩,
      fun ⟨b, _, hb, rfl, hc⟩ => ⟨b, hb, b, rfl, hc⟩⟩
  | some s =>
    have hs := (helement s rfl).wellFormed
    simp only [mergeItems, Run.outcome_bind_eq_ok_iff, Run.outcome_mapFault_eq_ok_iff,
      Option.getD_some]
    refine exists_congr (fun b => ⟨?_, ?_⟩)
    · rintro ⟨hb, a, ha, hc⟩
      exact ⟨a, hb, (merge_eq_ok_iff hs (hobeys x b hb).wellFormed).mp ha, hc⟩
    · rintro ⟨a, hb, ha, hc⟩
      exact ⟨hb, a, (merge_eq_ok_iff hs (hobeys x b hb).wellFormed).mpr ha, hc⟩

/-- **One more item** is merged into the element of those before it. -/
theorem mergeItems_concat_eq_ok_iff {index : Nat} {element : Option Field} {x : Json}
    {items : List Json} (helement : ∀ f ∈ element, Obeys view name path f) :
    (mergeItems view room name path index element (items ++ [x])).outcome = .ok c ↔
      ∃ a b, (mergeItems view room name path index element items).outcome = .ok a
        ∧ (inferValue view room name path x).outcome = .ok b ∧ Merges a b c := by
  have hstart : Obeys view name path (element.getD (.scalar name .unknown)) := by
    cases element with
    | none => exact .scalar
    | some s => exact helement s rfl
  -- On the items before; the element so far varies, and goes on obeying.
  induction items generalizing index element with
  | nil =>
    simp only [List.nil_append, mergeItems_cons_eq_ok_iff hobeys helement]
    simp only [mergeItems, Run.outcome_pure, Option.getD_some, Except.ok.injEq]
    exact ⟨fun ⟨b, a, hb, ha, hc⟩ => ⟨_, b, rfl, hb, hc ▸ ha⟩,
      fun ⟨a, b, ha, hb, hc⟩ => ⟨b, c, hb, ha ▸ hc, rfl⟩⟩
  | cons y items ih =>
    have hnext : ∀ b a, (inferValue view room name path y).outcome = .ok b →
        Merges (element.getD (.scalar name .unknown)) b a → ∀ f ∈ some a, Obeys view name path f :=
      fun b a hb ha f hf => Option.some.inj hf ▸ .merges ha hstart (hobeys y b hb)
    simp only [List.cons_append, mergeItems_cons_eq_ok_iff hobeys helement]
    constructor
    · rintro ⟨b, a, hb, ha, hc⟩
      have ho := hnext b a hb ha
      obtain ⟨a', b', ha', hb', hc'⟩ := (ih ho (ho a rfl)).mp hc
      exact ⟨a', b', ⟨b, a, hb, ha, ha'⟩, hb', hc'⟩
    · rintro ⟨a', b', ⟨b, a, hb, ha, ha'⟩, hb', hc'⟩
      have ho := hnext b a hb ha
      exact ⟨b, a, hb, ha, (ih ho (ho a rfl)).mpr ⟨a', b', ha', hb', hc'⟩⟩

/-- The element of some items obeys the view if their fields do. -/
theorem mergeItems_obeys {index : Nat} {items : List Json}
    (h : (mergeItems view room name path index none items).outcome = .ok c) :
    Obeys view name path c := by
  induction items using List.reverseRecOn generalizing c with
  | nil =>
    rw [mergeItems, Run.outcome_pure, Except.ok.injEq] at h
    exact h ▸ .scalar
  | append_singleton items x ih =>
    obtain ⟨a, b, ha, hb, hc⟩ := (mergeItems_concat_eq_ok_iff hobeys (by simp)).mp h
    exact .merges hc (ih ha) (hobeys x b hb)

end Items

/-- An array becomes a collection. -/
theorem inferValue_arr_eq_ok_iff {items : List Json} :
    (inferValue view (room + 1) name path (.arr items)).outcome = .ok f ↔
      ∃ e, (inferElementWithin view room name path items).outcome = .ok e
        ∧ f = .collection name e := by
  simp only [inferValue, inferElementWithin, Run.outcome_bind_eq_ok_iff, Run.outcome_pure,
    Except.ok.injEq]
  constructor
  · rintro ⟨_, hcheck, e, he, rfl⟩
    exact ⟨e, ⟨_, hcheck, he⟩, rfl⟩
  · rintro ⟨e, ⟨_, hcheck, he⟩, rfl⟩
    exact ⟨_, hcheck, e, he, rfl⟩

/-- **Leaves** become scalars of their kinds. -/
theorem outcome_inferValue_of_kind {v : Json} {k : Kind} (h : Kind.ofScalar? v = some k) :
    (inferValue view room name path v).outcome = .ok (.scalar name k) := by
  cases v <;> simp_all [Kind.ofScalar?, inferValue]

/-- The entry of a key obeys the view if the fields of values do. -/
theorem entryObeys_of_inferMember {parent : String} {m : String × Json} {e : Entry Field}
    (hobeys : ∀ {name path x f}, (inferValue view room name path x).outcome = .ok f →
      Obeys view name path f)
    (h : (inferMember view room parent m).outcome = .ok (some e)) :
    EntryObeys view (childPath parent e.key) e
      ∧ Obeys view e.accessor (childPath parent e.key) e.field := by
  obtain ⟨hskip, he, hfield⟩ := inferMember_eq_some_iff.mp h
  have hkey := key_of_inferMember h
  have hacc : e.accessor = accessor view m.1 (childPath parent m.1) := by rw [he, entryFor]
  have hreq : e.required = !view.isOptional (.str (childPath parent m.1)) := by rw [he, entryFor]
  rw [hkey]
  unfold fieldAt at hfield
  cases hforced : view.forcedKind? (.str (childPath parent m.1)) with
  | none =>
    rw [hforced] at hfield
    refine ⟨⟨hskip, hkey ▸ hacc, ?_, fun ho => by simp [hreq, ho]⟩, hobeys hfield⟩
    intro kind hkind
    nomatch hforced.symm.trans hkind
  | some k =>
    rw [hforced] at hfield
    obtain hscalar : .scalar e.accessor k = e.field := Except.ok.inj hfield
    refine ⟨⟨hskip, hkey ▸ hacc, ?_, fun ho => by simp [hreq, ho]⟩, hscalar ▸ .scalar⟩
    intro kind hkind
    rw [← hscalar, Option.some.inj (hforced.symm.trans hkind)]

/-- **Induction on what is inferred**: a property that holds of the leaves,
of an object if it holds of all that is inferred with one level of nesting
less, and so of an array, holds of whatever is inferred. -/
theorem inferValue_induction {P : Nat → Json → String → Json → Field → Prop}
    (leaf : ∀ room name path x k, Kind.ofScalar? x = some k →
      P room name path x (.scalar name k))
    (obj : ∀ room name path ms es,
      (∀ name path x f, (inferValue view room name path x).outcome = .ok f →
        P room name path x f) →
      Ordered es → Unambiguous es →
      (∀ e, e ∈ es ↔ ∃ m ∈ ms, (inferMember view room path m).outcome = .ok (some e)) →
      (∀ m ∈ ms, ∃ o, (inferMember view room path m).outcome = .ok o) →
      P (room + 1) name path (.obj ms) (.map name es))
    (arr : ∀ room name path items e,
      (∀ name path x f, (inferValue view room name path x).outcome = .ok f →
        P room name path x f) →
      (inferElementWithin view room name path items).outcome = .ok e →
      P (room + 1) name path (.arr items) (.collection name e))
    {x : Json} (h : (inferValue view room name path x).outcome = .ok f) :
    P room name path x f := by
  induction room generalizing name path x f with
  | zero =>
    cases hk : Kind.ofScalar? x with
    | some k =>
      rw [outcome_inferValue_of_kind hk, Except.ok.injEq] at h
      exact h ▸ leaf 0 name path x k hk
    | none =>
      -- A container takes one level of nesting, and there is none.
      cases x with
      | obj ms => simp [inferValue] at h
      | arr items => simp [inferValue] at h
      | _ => nomatch hk
  | succ room ih =>
    cases hk : Kind.ofScalar? x with
    | some k =>
      rw [outcome_inferValue_of_kind hk, Except.ok.injEq] at h
      exact h ▸ leaf (room + 1) name path x k hk
    | none =>
      cases x with
      | obj ms =>
        obtain ⟨es, rfl, ho, hu, hes, hok⟩ := inferValue_obj_ok h
        exact obj room name path ms es (fun _ _ _ _ h => ih h) ho hu hes hok
      | arr items =>
        obtain ⟨e, he, rfl⟩ := inferValue_arr_eq_ok_iff.mp h
        exact arr room name path items e (fun _ _ _ _ h => ih h) he
      | _ => nomatch hk

/-- **Whatever is inferred obeys the view.** -/
theorem inferValue_obeys {x : Json} (h : (inferValue view room name path x).outcome = .ok f) :
    Obeys view name path f := by
  refine inferValue_induction (P := fun _ name path _ f => Obeys view name path f) ?leaf ?obj
    ?arr h
  case leaf =>
    intro _ _ _ _ _ _
    exact .scalar
  case obj =>
    intro room name path ms es ih ho hu hes _
    have hentry : ∀ e ∈ es, EntryObeys view (childPath path e.key) e
        ∧ Obeys view e.accessor (childPath path e.key) e.field := by
      intro e he
      obtain ⟨m, -, hm⟩ := (hes e).mp he
      exact entryObeys_of_inferMember (fun h => ih _ _ _ _ h) hm
    exact .map ho hu (fun e he => (hentry e he).1) (fun e he => (hentry e he).2)
  case arr =>
    intro room name path items e ih he
    rw [inferElementWithin, Run.outcome_bind_eq_ok_iff] at he
    obtain ⟨_, -, he⟩ := he
    exact .collection (mergeItems_obeys (fun x f h => ih name path x f h) he)

end Inference

open Inference in
/-- **An example that is no raw text is inferred as the value that it is**, if the
paths with rules can be listed. -/
theorem outcome_infer {view : OverrideView} {name example_ : Json} {paths : List Json}
    (hraw : isRaw example_ = false) (hpaths : view.paths = .ok paths) :
    (infer view name example_).outcome
      = (inferValue view nestingRoom name "" example_).outcome.mapError (attributeTo view) := by
  cases h : (inferValue view nestingRoom name "" example_).outcome <;>
    simp [infer, hraw, noteUnused, hpaths, h, Except.mapError, Except.bind]

open Inference in
/-- **A schema obeys the view** it is inferred under, from the root on. -/
theorem infer_obeys {view : OverrideView} {name example_ : Json} {tree : Field}
    (h : (infer view name example_).outcome = .ok tree) : Obeys view name "" tree := by
  rw [infer] at h
  by_cases hraw : isRaw example_ = true
  · rw [if_pos hraw] at h
    simp only [Run.outcome_bind_eq_ok_iff, Run.outcome_pure, Except.ok.injEq] at h
    obtain ⟨_, -, rfl⟩ := h
    exact .scalar
  · rw [if_neg hraw] at h
    simp only [Run.outcome_bind_eq_ok_iff, Run.outcome_mapFault_eq_ok_iff, Run.outcome_pure,
      Except.ok.injEq] at h
    obtain ⟨root, hroot, _, -, rfl⟩ := h
    exact inferValue_obeys hroot

end Exemplar
