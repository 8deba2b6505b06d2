import Exemplar.Proofs.Inference.Steps

/-!
# The element of some items

The element of an array is the merge of its items' fields, and so it is
the least field above all of them (`inferElementWithin_above`,
`inferElementWithin_least`). What holds of elements is proved by adding
one item at the end, which takes one more merge
(`inferElementWithin_concat_eq_ok_iff`).

The check of the items against each other is made before anything is
merged, and yet it refuses nothing that the merges would let pass
(`inferElementWithin_eq_ok_iff`): an object among the items makes the
element a map, and below maps there is nothing but maps and fields without
shape.
-/

namespace Exemplar

namespace Inference

open Exemplar.Field

variable {view : OverrideView} {room : Nat} {name : Json} {path : String} {a b c f u : Field}
  {x : Json} {items items' : List Json} {lossy : Prop}

/-! ## The check of the items -/

/-- The sort of the values that a field describes, none for one without
shape. -/
def fieldSort? : Field → Option ItemSort
  | .map _ _ => some .object
  | .collection _ _ => some .array
  | .scalar _ .unknown => none
  | _ => some .scalar

theorem fieldSort?_scalar {n : Json} {k : Kind} (hk : k ≠ .unknown) :
    fieldSort? (.scalar n k) = some .scalar := by
  cases k with
  | unknown => exact absurd rfl hk
  | _ => rfl

/-- A value and its field are of one sort. -/
theorem fieldSort?_of_inferValue (h : (inferValue view room name path x).outcome = .ok f) :
    fieldSort? f = itemSort? x := by
  refine inferValue_induction (P := fun _ _ _ x f => fieldSort? f = itemSort? x) ?leaf ?obj
    ?arr h
  case leaf =>
    intro _ name _ x k hk
    cases x <;> simp [Kind.ofScalar?] at hk <;> subst hk <;> rfl
  case obj =>
    intro _ _ _ _ _ _ _ _ _ _
    rfl
  case arr =>
    intro _ _ _ _ _ _ _
    rfl

/-- Maps are below nothing but maps, and nothing else with a shape is
below a map. -/
theorem fieldSort?_of_below (h : Below lossy a b) (ha : fieldSort? a ≠ none) :
    fieldSort? a = some .object ↔ fieldSort? b = some .object := by
  cases h with
  | null => exact absurd rfl ha
  | @rawScalar n k => cases k <;> simp [fieldSort?]
  | _ => simp [fieldSort?]

/-- **Items that pass the check**: beside an object there are only
objects and `null`. -/
theorem itemClash?_eq_none_iff : itemClash? items = none ↔
    ∀ x ∈ items, ∀ y ∈ items, itemSort? x = some .object → itemSort? y ≠ none →
      itemSort? y = some .object := by
  have hfirst : ∀ sort, firstOf? sort items = none ↔ ∀ x ∈ items, itemSort? x ≠ some sort := by
    simp [firstOf?]
  have hclash : itemClash? items = none ↔ firstOf? .object items = none
      ∨ firstOf? .scalar items = none ∧ firstOf? .array items = none := by
    unfold itemClash?
    cases firstOf? .object items <;> cases firstOf? .scalar items <;>
      cases firstOf? .array items <;> simp
  rw [hclash, hfirst, hfirst, hfirst]
  constructor
  · rintro (ho | ⟨hs, ha⟩) x hx y hy hxo hy'
    · exact absurd hxo (ho x hx)
    · cases hsort : itemSort? y with
      | none => exact absurd hsort hy'
      | some sort =>
        cases sort with
        | object => rfl
        | scalar => exact absurd hsort (hs y hy)
        | array => exact absurd hsort (ha y hy)
  · intro h
    by_cases ho : ∃ x ∈ items, itemSort? x = some .object
    · obtain ⟨x, hx, hxo⟩ := ho
      refine .inr ⟨fun y hy hs => ?_, fun y hy hs => ?_⟩
      · exact absurd (h x hx y hy hxo (by simp [hs])) (by simp [hs])
      · exact absurd (h x hx y hy hxo (by simp [hs])) (by simp [hs])
    · exact .inl (fun x hx hxo => ho ⟨x, hx, hxo⟩)

/-- The check says nothing but yes or no. -/
theorem outcome_checkItems_eq_ok_iff :
    (checkItems path items).outcome = .ok () ↔ itemClash? items = none := by
  unfold checkItems
  cases itemClash? items <;> simp

/-! ## Elements -/

/-- The first item begins the element, and **one more item** takes one more
merge. -/
theorem mergeItems_none_concat_iff :
    (mergeItems view room name path 0 none (items ++ [x])).outcome = .ok c ↔
      ∃ a b, (mergeItems view room name path 0 none items).outcome = .ok a
        ∧ (inferValue view room name path x).outcome = .ok b ∧ Merges a b c :=
  mergeItems_concat_eq_ok_iff (fun _ _ => inferValue_obeys) (by simp)

/-- The merged items obey the view. -/
theorem mergeItems_none_obeys
    (h : (mergeItems view room name path 0 none items).outcome = .ok c) :
    Obeys view name path c :=
  mergeItems_obeys (fun _ _ => inferValue_obeys) h

/-- **Items that never meet**: nowhere in the fields of two of them does a
collection meet a scalar. -/
def NeverMeet (view : OverrideView) (room : Nat) (name : Json) (path : String)
    (items : List Json) : Prop :=
  ∀ x ∈ items, ∀ y ∈ items, ∀ f g, (inferValue view room name path x).outcome = .ok f →
    (inferValue view room name path y).outcome = .ok g → ¬ Meet f g

theorem NeverMeet.left (h : NeverMeet view room name path (items ++ items')) :
    NeverMeet view room name path items :=
  fun x hx y hy => h x (List.mem_append_left _ hx) y (List.mem_append_left _ hy)

/-- What none of the items meets, the merged items do not meet. -/
theorem not_meet_of_mergeItems (hm : NeverMeet view room name path items)
    (h : (mergeItems view room name path 0 none items).outcome = .ok c)
    (hu : ∀ x ∈ items, ∀ f, (inferValue view room name path x).outcome = .ok f → ¬ Meet f u) :
    ¬ Meet c u := by
  induction items using List.reverseRecOn generalizing c u with
  | nil =>
    rw [mergeItems, Run.outcome_pure, Except.ok.injEq] at h
    intro hc
    rw [← h] at hc
    cases hc with
    | scalarCollection hk => exact hk rfl
  | append_singleton items x ih =>
    obtain ⟨a, b, ha, hb, hc⟩ := mergeItems_none_concat_iff.mp h
    -- The element so far does not meet the new item either, so nothing is lost.
    have hab : ¬ Meet a b :=
      ih hm.left ha (fun y hy f hf => hm y (List.mem_append_left _ hy) x (by simp) f b hf hb)
    intro hcu
    rcases hc.meet (mergeItems_none_obeys ha).solid (inferValue_obeys hb).solid hab hcu
      with hau | hbu
    · exact ih hm.left ha (fun y hy => hu y (List.mem_append_left _ hy)) hau
    · exact hu x (by simp) b hb hbu

/-- The merged items are above each item. -/
theorem mergeItems_above (hl : lossy ∨ NeverMeet view room name path items)
    (h : (mergeItems view room name path 0 none items).outcome = .ok c) :
    ∀ x ∈ items, ∃ f, (inferValue view room name path x).outcome = .ok f ∧ Below lossy f c := by
  induction items using List.reverseRecOn generalizing c with
  | nil => simp
  | append_singleton items y ih =>
    obtain ⟨a, b, ha, hb, hc⟩ := mergeItems_none_concat_iff.mp h
    have hao := mergeItems_none_obeys ha
    have hbo := inferValue_obeys hb
    have hab : lossy ∨ ¬ Meet a b := hl.imp_right fun hm =>
      not_meet_of_mergeItems hm.left ha
        (fun x hx f hf => hm x (List.mem_append_left _ hx) y (by simp) f b hf hb)
    obtain ⟨hac, hbc⟩ := hc.above hao.solid hbo.solid (hao.agree hbo) hab
    intro x hx
    rcases List.mem_append.mp hx with hx | hx
    · obtain ⟨f, hf, hfa⟩ := ih (hl.imp_right NeverMeet.left) ha x hx
      exact ⟨f, hf, hfa.trans hac⟩
    · rw [List.mem_singleton.mp hx]
      exact ⟨b, hb, hbc⟩

/-- Items that merge pass the check. -/
theorem itemClash?_of_mergeItems
    (h : (mergeItems view room name path 0 none items).outcome = .ok c) :
    itemClash? items = none := by
  refine itemClash?_eq_none_iff.mpr (fun x hx y hy hxo hy' => ?_)
  obtain ⟨f, hf, hfc⟩ := mergeItems_above (.inl trivial) h x hx
  obtain ⟨g, hg, hgc⟩ := mergeItems_above (.inl trivial) h y hy
  rw [← fieldSort?_of_inferValue hf] at hxo
  rw [← fieldSort?_of_inferValue hg] at hy' ⊢
  have hco := (fieldSort?_of_below hfc (by simp [hxo])).mp hxo
  exact (fieldSort?_of_below hgc hy').mpr hco

/-- **The element of some items** is what they merge to. -/
theorem inferElementWithin_eq_ok_iff :
    (inferElementWithin view room name path items).outcome = .ok c ↔
      (mergeItems view room name path 0 none items).outcome = .ok c := by
  rw [inferElementWithin, Run.outcome_bind_eq_ok_iff]
  constructor
  · rintro ⟨_, _, h⟩
    exact h
  · intro h
    exact ⟨(), outcome_checkItems_eq_ok_iff.mpr (itemClash?_of_mergeItems h), h⟩

/-- No items have an element without shape. -/
theorem outcome_inferElementWithin_nil (view : OverrideView) (room : Nat) (name : Json)
    (path : String) :
    (inferElementWithin view room name path []).outcome = .ok (.scalar name .unknown) := by
  rw [inferElementWithin_eq_ok_iff]
  rfl

/-- **One more item** takes one more merge. -/
theorem inferElementWithin_concat_eq_ok_iff :
    (inferElementWithin view room name path (items ++ [x])).outcome = .ok c ↔
      ∃ a b, (inferElementWithin view room name path items).outcome = .ok a
        ∧ (inferValue view room name path x).outcome = .ok b ∧ Merges a b c := by
  simp only [inferElementWithin_eq_ok_iff]
  exact mergeItems_none_concat_iff

/-- The element obeys the view. -/
theorem inferElementWithin_obeys
    (h : (inferElementWithin view room name path items).outcome = .ok c) :
    Obeys view name path c :=
  mergeItems_none_obeys (inferElementWithin_eq_ok_iff.mp h)

/-- **The element is above every item**, and nothing is lost on the way
if the items never meet. -/
theorem inferElementWithin_above (hl : lossy ∨ NeverMeet view room name path items)
    (h : (inferElementWithin view room name path items).outcome = .ok c) (hx : x ∈ items) :
    ∃ f, (inferValue view room name path x).outcome = .ok f ∧ Below lossy f c :=
  mergeItems_above hl (inferElementWithin_eq_ok_iff.mp h) x hx

/-- What none of the items meets, their element does not meet. -/
theorem not_meet_of_inferElementWithin (hm : NeverMeet view room name path items)
    (h : (inferElementWithin view room name path items).outcome = .ok c)
    (hu : ∀ x ∈ items, ∀ f, (inferValue view room name path x).outcome = .ok f → ¬ Meet f u) :
    ¬ Meet c u :=
  not_meet_of_mergeItems hm (inferElementWithin_eq_ok_iff.mp h) hu

/-- **The element is the least field above the items.** -/
theorem inferElementWithin_least
    (h : (inferElementWithin view room name path items).outcome = .ok c) (hu : u.name = name)
    (hbelow : ∀ x ∈ items, ∀ f, (inferValue view room name path x).outcome = .ok f →
      Below lossy f u) :
    Below lossy c u := by
  induction items using List.reverseRecOn generalizing c with
  | nil =>
    rw [outcome_inferElementWithin_nil, Except.ok.injEq] at h
    exact h ▸ .null hu
  | append_singleton items x ih =>
    obtain ⟨a, b, ha, hb, hc⟩ := inferElementWithin_concat_eq_ok_iff.mp h
    have hau := ih ha (fun y hy => hbelow y (List.mem_append_left _ hy))
    exact hc.least hau (hbelow x (by simp) b hb)

/-- **Items whose fields are below a third one have an element**, as long
as nothing is lost on the way up to it. -/
theorem exists_inferElementWithin (hu : Obeys view name path u)
    (hbelow : ∀ x ∈ items, ∃ f, (inferValue view room name path x).outcome = .ok f
      ∧ Below False f u) :
    ∃ c, (inferElementWithin view room name path items).outcome = .ok c := by
  induction items using List.reverseRecOn with
  | nil => exact ⟨_, outcome_inferElementWithin_nil view room name path⟩
  | append_singleton items x ih =>
    obtain ⟨a, ha⟩ := ih (fun y hy => hbelow y (List.mem_append_left _ hy))
    obtain ⟨b, hb, hbu⟩ := hbelow x (by simp)
    have hau : Below False a u := by
      refine inferElementWithin_least ha hu.name_eq (fun y hy f hf => ?_)
      obtain ⟨g, hg, hgu⟩ := hbelow y (List.mem_append_left _ hy)
      exact Except.ok.inj (hg.symm.trans hf) ▸ hgu
    obtain ⟨c, hc⟩ := exists_merges_of_below hau hbu (inferElementWithin_obeys ha).wellFormed
      (inferValue_obeys hb).wellFormed hu.wellFormed
    exact ⟨c, inferElementWithin_concat_eq_ok_iff.mpr ⟨a, b, ha, hb, hc⟩⟩

end Inference

end Exemplar
