import Exemplar.Proofs.Inference.Elements

/-!
# Arrays of arrays

An array of arrays has a collection as its element, and the element of that
collection is the one that all inner items have together: how the items are
grouped into inner arrays does not show (`inferElementWithin_flatten`).

One long merge is held against merges of merges here, and merging is not
associative: raw text takes in a collection that some other grouping lets meet a
map. But where both succeed they give the least field above the inner items
(`LeastAbove`), and there is one at most. The inner items of the grouped array
are nested one deeper, so the least field is looked for at whatever nesting is
allowed, which makes no difference to what is inferred for an item
(`inferValue_agree`).
-/

namespace Exemplar

namespace Inference

open Exemplar.Field

variable {view : OverrideView} {room room' : Nat} {name : Json} {path : String}
  {a b c f g r s : Field} {x : Json} {items elements : List Json}

/-! ## The room for nesting -/

/-- What a key gets does not depend on the room, if what its value gets does not. -/
theorem inferMember_agree {m : String × Json} {o o' : Option (Entry Field)}
    (hvalue : ∀ name path x f g, (inferValue view room name path x).outcome = .ok f →
      (inferValue view room' name path x).outcome = .ok g → f = g)
    (h : (inferMember view room path m).outcome = .ok o)
    (h' : (inferMember view room' path m).outcome = .ok o') : o = o' := by
  by_cases hskip : view.isSkipped (.str (childPath path m.1)) = true
  · rw [outcome_inferMember_of_skipped hskip] at h h'
    exact (Except.ok.inj h).symm.trans (Except.ok.inj h')
  · obtain ⟨e, rfl⟩ := exists_eq_some_of_inferMember (by simpa using hskip) h
    obtain ⟨e', rfl⟩ := exists_eq_some_of_inferMember (by simpa using hskip) h'
    obtain ⟨-, he, hfield⟩ := inferMember_eq_some_iff.mp h
    obtain ⟨-, he', hfield'⟩ := inferMember_eq_some_iff.mp h'
    have hacc : e.accessor = e'.accessor := by rw [he, he', entryFor, entryFor]
    have hf : e.field = e'.field := by
      unfold fieldAt at hfield hfield'
      cases hforced : view.forcedKind? (.str (childPath path m.1)) with
      | some kind =>
        rw [hforced] at hfield hfield'
        rw [← Except.ok.inj hfield, ← Except.ok.inj hfield', hacc]
      | none =>
        rw [hforced] at hfield hfield'
        exact hvalue _ _ _ _ _ hfield (hacc ▸ hfield')
    rw [he, he', hf]

/-- The element of some items is below that of the same items with another room,
if the items' own fields do not depend on it. -/
theorem below_of_inferElementWithin
    (hvalue : ∀ x f g, (inferValue view room name path x).outcome = .ok f →
      (inferValue view room' name path x).outcome = .ok g → f = g)
    (h : (inferElementWithin view room name path items).outcome = .ok f)
    (h' : (inferElementWithin view room' name path items).outcome = .ok g) :
    Below True f g := by
  refine inferElementWithin_least h (inferElementWithin_obeys h').name_eq fun x hx a ha => ?_
  obtain ⟨b, hb, hbg⟩ := inferElementWithin_above (.inl trivial) h' hx
  exact hvalue x a b ha hb ▸ hbg

/-- **The room for nesting does not show** in what is inferred. -/
theorem inferValue_agree (h : (inferValue view room name path x).outcome = .ok f)
    (h' : (inferValue view room' name path x).outcome = .ok g) : f = g := by
  refine inferValue_induction (P := fun _ name path x f => ∀ room' g,
    (inferValue view room' name path x).outcome = .ok g → f = g) ?leaf ?obj ?arr h room' g h'
  case leaf =>
    intro _ name path x k hk room' g h'
    rw [outcome_inferValue_of_kind hk] at h'
    exact Except.ok.inj h'
  case obj =>
    intro room name path ms es ih ho hu hes hok room' g h'
    cases room' with
    | zero => simp [inferValue] at h'
    | succ room' =>
      obtain ⟨es', rfl, ho', hu', hes', hok'⟩ := inferValue_obj_ok h'
      have hsame : ∀ m ∈ ms, (inferMember view room path m).outcome
          = (inferMember view room' path m).outcome := by
        intro m hm
        obtain ⟨o, ho⟩ := hok m hm
        obtain ⟨o', ho'⟩ := hok' m hm
        rw [ho, ho', inferMember_agree (fun _ _ _ _ _ hf hg => ih _ _ _ _ hf _ _ hg) ho ho']
      have hmem : ∀ e, e ∈ es ↔ e ∈ es' := fun e => by
        rw [hes, hes']
        exact exists_congr fun m => and_congr_right fun hm => by rw [hsame m hm]
      refine congrArg (Field.map name) (eq_of_entryAt? ho ho' fun k => ?_)
      exact Option.ext fun e => by rw [ho.entryAt?_eq_some_iff, ho'.entryAt?_eq_some_iff, hmem]
  case arr =>
    intro room name path items e ih he room' g h'
    cases room' with
    | zero => simp [inferValue] at h'
    | succ room' =>
      obtain ⟨e', he', rfl⟩ := inferValue_arr_eq_ok_iff.mp h'
      have hvalue := fun x f g hf hg => ih name path x f hf room' g hg
      exact congrArg _ ((below_of_inferElementWithin hvalue he he').antisymm
        (below_of_inferElementWithin (fun x f g hf hg => (hvalue x g f hg hf).symm) he' he)
        (inferElementWithin_obeys he).wellFormed (inferElementWithin_obeys he').wellFormed)

/-! ## The least field above some items -/

/-- **The least field above some items**, wherever they are nested. -/
structure LeastAbove (view : OverrideView) (name : Json) (path : String) (items : List Json)
    (r : Field) : Prop where
  obeys : Obeys view name path r
  above : ∀ x ∈ items, ∃ room f, (inferValue view room name path x).outcome = .ok f
    ∧ Below True f r
  least : ∀ u, u.name = name → (∀ x ∈ items, ∀ room f,
    (inferValue view room name path x).outcome = .ok f → Below True f u) → Below True r u

/-- There is no other least field. -/
theorem LeastAbove.unique (h : LeastAbove view name path items r)
    (h' : LeastAbove view name path items s) : r = s := by
  have hbelow : ∀ {r s}, LeastAbove view name path items r → LeastAbove view name path items s →
      Below True r s := by
    intro r s h h'
    refine h.least s h'.obeys.name_eq fun x hx room f hf => ?_
    obtain ⟨room', g, hg, hgs⟩ := h'.above x hx
    exact inferValue_agree hf hg ▸ hgs
  exact (hbelow h h').antisymm (hbelow h' h) h.obeys.wellFormed h'.obeys.wellFormed

/-- **The element of some items** is the least field above them. -/
theorem leastAbove_of_inferElementWithin
    (h : (inferElementWithin view room name path items).outcome = .ok r) :
    LeastAbove view name path items r where
  obeys := inferElementWithin_obeys h
  above _ hx := ⟨room, inferElementWithin_above (.inl trivial) h hx⟩
  least _ hname hbelow := inferElementWithin_least h hname fun x hx => hbelow x hx room

/-! ## Inner items -/

/-- The items of a value that is an array. -/
def innerItems : Json → List Json
  | .arr items => items
  | _ => []

/-- **Arrays, and `null` among them.** -/
def AreLists (elements : List Json) : Prop :=
  ∀ x ∈ elements, x = .null ∨ ∃ items, x = .arr items

/-- An array has a collection of what its items have together. -/
theorem exists_of_inferValue_arr
    (h : (inferValue view room name path (.arr items)).outcome = .ok f) :
    ∃ room e, (inferElementWithin view room name path items).outcome = .ok e
      ∧ f = .collection name e := by
  cases room with
  | zero => simp [inferValue] at h
  | succ room => exact ⟨room, inferValue_arr_eq_ok_iff.mp h⟩

/-- Collections, and fields without shape among them, merge to no other shape. -/
theorem isNull_or_collection_of_merges (h : Merges a b c)
    (ha : a.isNull = true ∨ a.shape = .collection)
    (hb : b.isNull = true ∨ b.shape = .collection) :
    c.isNull = true ∨ c.shape = .collection := by
  cases h with
  | nullFirst => exact hb
  | nullSecond => exact ha
  | scalars hk => exact absurd (isNull_scalar.mp (ha.resolve_right (by simp [shape]))) hk
  | collections => exact .inr rfl
  | maps => simp [isNull, shape] at ha
  | raw hn hn' _ _ hs => simp_all

/-- The element of arrays is a collection, or they are all `null`. -/
theorem isNull_or_collection_of_lists (hlists : AreLists elements)
    (h : (inferElementWithin view room name path elements).outcome = .ok f) :
    f.isNull = true ∨ f.shape = .collection := by
  induction elements using List.reverseRecOn generalizing f with
  | nil =>
    rw [outcome_inferElementWithin_nil, Except.ok.injEq] at h
    exact .inl (h ▸ rfl)
  | append_singleton elements x ih =>
    obtain ⟨a, b, ha, hb, hc⟩ := inferElementWithin_concat_eq_ok_iff.mp h
    refine isNull_or_collection_of_merges hc
      (ih (fun y hy => hlists y (List.mem_append_left _ hy)) ha) ?_
    rcases hlists x (by simp) with rfl | ⟨items, rfl⟩
    · rw [outcome_inferValue_of_kind rfl, Except.ok.injEq] at hb
      exact .inl (hb ▸ rfl)
    · obtain ⟨_, _, -, rfl⟩ := exists_of_inferValue_arr hb
      exact .inr rfl

/-- **The element of arrays** is a collection of the least field above all their
items. -/
theorem leastAbove_innerItems (hlists : AreLists elements) (hlist : ∃ items, .arr items ∈ elements)
    (h : (inferElementWithin view room name path elements).outcome = .ok f) :
    ∃ r, f = .collection name r ∧ LeastAbove view name path (elements.flatMap innerItems) r := by
  have habove : ∀ items, .arr items ∈ elements → ∃ room e,
      (inferElementWithin view room name path items).outcome = .ok e
        ∧ Below True (.collection name e) f := by
    intro items hitems
    obtain ⟨g, hg, hgf⟩ := inferElementWithin_above (.inl trivial : True ∨ _) h hitems
    obtain ⟨room, e, he, rfl⟩ := exists_of_inferValue_arr hg
    exact ⟨room, e, he, hgf⟩
  obtain ⟨r, rfl⟩ : ∃ r, f = .collection name r := by
    obtain ⟨items, hitems⟩ := hlist
    obtain ⟨_, e, -, hef⟩ := habove items hitems
    have hshape := isNull_or_collection_of_lists hlists h
    cases hef with
    | collection => exact ⟨_, rfl⟩
    | rawCollection => simp [isNull, shape] at hshape
  refine ⟨r, rfl, ?obeys, ?above, ?least⟩
  case obeys =>
    cases inferElementWithin_obeys h with | collection hr =>
    exact hr
  case above =>
    intro x hx
    obtain ⟨y, hy, hxy⟩ := List.mem_flatMap.mp hx
    rcases hlists y hy with rfl | ⟨items, rfl⟩
    · exact absurd hxy List.not_mem_nil
    · obtain ⟨room, e, he, hbelow⟩ := habove items hy
      obtain ⟨g, hg, hge⟩ := inferElementWithin_above (.inl trivial : True ∨ _) he hxy
      cases hbelow with | collection her =>
      exact ⟨room, g, hg, hge.trans her⟩
  case least =>
    intro u hname hbelow
    have hu : Below True (.collection name r) (.collection name u) := by
      refine inferElementWithin_least h rfl fun y hy g hg => ?_
      rcases hlists y hy with rfl | ⟨items, rfl⟩
      · rw [outcome_inferValue_of_kind rfl, Except.ok.injEq] at hg
        exact hg ▸ .null rfl
      · obtain ⟨room, e, he, rfl⟩ := exists_of_inferValue_arr hg
        refine .collection (inferElementWithin_least he hname fun x hx a ha => ?_)
        exact hbelow x (List.mem_flatMap.mpr ⟨_, hy, hx⟩) room a ha
    cases hu with | collection hru =>
    exact hru

/-- **Arrays of arrays flatten.** Of arrays with `null` among them, in which the
element can be inferred, that element is the collection of what is inferred for
all inner items in one list – a field without shape, if there are none. So two
ways to group the same inner items into arrays have the same element. -/
theorem inferElementWithin_flatten (view : OverrideView) (room : Nat) (name : Json)
    (path : String) (elements : List Json) (hlists : AreLists elements)
    (hlist : ∃ items, .arr items ∈ elements) {first : Field}
    (h : (inferElementWithin view room name path elements).outcome = .ok first) :
    (∀ room' second,
      (inferElementWithin view room' name path (elements.flatMap innerItems)).outcome = .ok second →
      first = .collection name second)
    ∧ (elements.flatMap innerItems = [] → first = .collection name (.scalar name .unknown))
    ∧ ∀ grouped room' other, AreLists grouped → (∃ items, .arr items ∈ grouped) →
      grouped.flatMap innerItems = elements.flatMap innerItems →
      (inferElementWithin view room' name path grouped).outcome = .ok other → other = first := by
  obtain ⟨r, rfl, hr⟩ := leastAbove_innerItems hlists hlist h
  have hflat : ∀ room' second,
      (inferElementWithin view room' name path (elements.flatMap innerItems)).outcome = .ok second →
      Field.collection name r = .collection name second := fun room' second h' =>
    congrArg _ (hr.unique (leastAbove_of_inferElementWithin h'))
  refine ⟨hflat, fun hnil => hflat 0 _ ?_, fun grouped room' other hlists' hlist' hsame h' => ?_⟩
  · rw [hnil]
    exact outcome_inferElementWithin_nil view 0 name path
  · obtain ⟨s, rfl, hs⟩ := leastAbove_innerItems hlists' hlist' h'
    rw [hs.unique (hsame ▸ hr)]

/-- Rows in three arrays, one of them empty, with a `null` between them. -/
theorem inferElementWithin_flatten_rows :
    let x : Json := .obj [("a", .int 1)]
    let y : Json := .obj [("b", .null)]
    let elements : List Json := [.arr [x], .null, .arr [y], .arr []]
    let row : Field := .map (.str "Rows") [⟨"a", .str "A", .scalar (.str "A") .number, false⟩,
      ⟨"b", .str "B", .scalar (.str "B") .unknown, false⟩]
    AreLists elements ∧ (∃ items, .arr items ∈ elements)
      ∧ (inferElementWithin .empty 2 (.str "Rows") "rows" elements).outcome
          = .ok (.collection (.str "Rows") row)
      ∧ (inferElementWithin .empty 1 (.str "Rows") "rows" [x, y]).outcome = .ok row
      ∧ (inferElementWithin .empty 2 (.str "Rows") "rows" [.arr [x, y]]).outcome
          = .ok (.collection (.str "Rows") row) := by
  intro x y elements row
  have hlists : AreLists elements := by simp [AreLists, elements]
  have hlist : ∃ items, .arr items ∈ elements := ⟨[], by simp [elements]⟩
  have hinner : elements.flatMap innerItems = [x, y] := rfl
  have ha : Naming.toCamel "a" = "A" := rfl
  have hb : Naming.toCamel "b" = "B" := rfl
  obtain ⟨first, hfirst⟩ : ∃ first,
      (inferElementWithin .empty 2 (.str "Rows") "rows" elements).outcome = .ok first := by
    refine ⟨.collection (.str "Rows") row, ?_⟩
    simp +decide [elements, x, y, row, inferElementWithin, checkItems, itemClash?, mergeItems,
      OverrideView.empty, inferValue, inferMembers, inKeyOrder, Run.sequence, ofEntries_of_ordered,
      merge, mergeEntries, entryAt?, childPath, Field.optional, Except.bind, Except.mapError, ha,
      hb]
  have hrow : (inferElementWithin .empty 1 (.str "Rows") "rows" [x, y]).outcome = .ok row := by
    simp +decide [x, y, row, inferElementWithin, checkItems, itemClash?, mergeItems,
      OverrideView.empty, inferValue, inferMembers, inKeyOrder, Run.sequence, ofEntries_of_ordered,
      merge, mergeEntries, entryAt?, childPath, Field.optional, Except.bind, Except.mapError, ha,
      hb]
  obtain ⟨hflat, -, -⟩ :=
    inferElementWithin_flatten .empty 2 (.str "Rows") "rows" elements hlists hlist hfirst
  have hone : (inferElementWithin .empty 2 (.str "Rows") "rows" [.arr [x, y]]).outcome
      = .ok (.collection (.str "Rows") row) :=
    inferElementWithin_concat_eq_ok_iff.mpr ⟨_, _, outcome_inferElementWithin_nil ..,
      inferValue_arr_eq_ok_iff.mpr ⟨row, hrow, rfl⟩, .nullFirst rfl⟩
  rw [hinner] at hflat
  exact ⟨hlists, hlist, hflat 1 row hrow ▸ hfirst, hrow, hone⟩

end Inference

end Exemplar
