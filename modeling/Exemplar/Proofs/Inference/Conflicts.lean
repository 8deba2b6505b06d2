import Exemplar.Proofs.Field.Building
import Exemplar.Proofs.Inference.Attribution
import Exemplar.Proofs.Inference.Grounds

/-!
# Conflicts are real

What is told of a conflict is true of the example. A clash of shapes is told
with the path of two values that clash: an object, and something that is neither
an object nor `null`, reached by the same steps from items of one array
(`ShapesClash`). Keys that share an accessor are told with all of them, and each
is a key of an object that is reached by the same steps (`AccessorsClash`).

Nothing fails but the check of some items, the merge of an item with the element
of those before it, and the making of a map. The check looks at the items
themselves. What is merged is grounded in the items (`Grounded`), so a merge
fails only where two of the items clash (`merge_clashes`). And a map is made of
entries for keys that its objects have.
-/

namespace Exemplar

/-- The cause of a failure that is a problem. -/
def Fault.cause? : Fault → Option Cause
  | .problem p => some p.cause
  | .breach _ => none

@[simp] theorem Fault.cause?_ofCause (cause : Cause) : (ofCause cause).cause? = some cause := rfl

namespace Inference

open Exemplar.Field

variable {view : OverrideView} {room : Nat} {name : Json} {path q : String} {a b c : Field}
  {k : String} {x : Json} {V W : Json → Prop} {items : List Json} {f g : Fault} {clash : Clash}

/-! ## Conflicts of values -/

/-- **Shapes clash** at a path: an object, and something that is neither an object
nor `null`, are reached from some values by the same steps, and the path is
where these lead. -/
def ShapesClash (view : OverrideView) (path : String) (V : Json → Prop) (q : String) : Prop :=
  ∃ steps ms v, ReachedFrom view path V steps (.obj ms) ∧ ReachedFrom view path V steps v
    ∧ IsOther v ∧ q = extend path steps

/-- **Accessors clash**: two keys or more, told in ascending order, are keys of
objects that are reached from some values by the same steps, none of them left
out, and render as one accessor there. -/
def AccessorsClash (view : OverrideView) (path : String) (V : Json → Prop) (shared : Json)
    (owners : List Json) : Prop :=
  ∃ (steps : List Step) (keys : List String), owners = keys.map .str ∧ 2 ≤ keys.length
    ∧ keys.Pairwise (· < ·) ∧ ∀ k ∈ keys, (∃ ms v, ReachedFrom view path V steps (.obj ms)
      ∧ (k, v) ∈ ms)
      ∧ view.isSkipped (.str (childPath (extend path steps) k)) = false
      ∧ (accessor view k (childPath (extend path steps) k)).key = shared.key

/-- **A failure tells a conflict of some values.** -/
structure TellsClash (view : OverrideView) (path : String) (V : Json → Prop) (f : Fault) :
    Prop where
  shapes : ∀ q clash, f.cause? = some (.shapeConflict q clash) → ShapesClash view path V q
  accessors : ∀ shared owners, f.cause? = some (.accessorConflict shared owners) →
    AccessorsClash view path V shared owners

theorem tellsClash_breach (b : Breach) : TellsClash view path V (.breach b) :=
  ⟨fun _ _ h => (nomatch h), fun _ _ h => (nomatch h)⟩

/-- A conflict of values that are reached by one step from others is one of
these. -/
theorem AccessorsClash.step {s : Step} {below : String} {shared : Json} {owners : List Json}
    (hpath : ∀ steps, extend path (s :: steps) = extend below steps)
    (hreach : ∀ {steps w}, ReachedFrom view below W steps w →
      ReachedFrom view path V (s :: steps) w)
    (h : AccessorsClash view below W shared owners) :
    AccessorsClash view path V shared owners := by
  obtain ⟨steps, keys, howners, hlength, hasc, hkeys⟩ := h
  refine ⟨s :: steps, keys, howners, hlength, hasc, fun k hk => ?_⟩
  obtain ⟨⟨ms, v, hms, hv⟩, hrest⟩ := hkeys k hk
  exact ⟨⟨ms, v, hreach hms, hv⟩, by rwa [hpath]⟩

theorem TellsClash.step {s : Step} {below : String}
    (hpath : ∀ steps, extend path (s :: steps) = extend below steps)
    (hreach : ∀ {steps w}, ReachedFrom view below W steps w →
      ReachedFrom view path V (s :: steps) w)
    (h : TellsClash view below W f) : TellsClash view path V f := by
  refine ⟨fun q clash hf => ?_, fun shared owners hf => (h.accessors _ _ hf).step hpath hreach⟩
  obtain ⟨steps, ms, v, hms, hv, hother, rfl⟩ := h.shapes q clash hf
  exact ⟨s :: steps, ms, v, hreach hms, hreach hv, hother, (hpath steps).symm⟩

/-! ## Merging -/

/-- An object met something else. -/
theorem tellsClash_objectMet {ms : List (String × Json)} {v : Json} (hms : V (.obj ms)) (hv : V v)
    (hother : IsOther v) (clash : Clash) :
    TellsClash view path V (.ofCause (.shapeConflict path clash)) := by
  refine ⟨fun q clash hf => ?_, fun _ _ hf => (nomatch hf)⟩
  obtain ⟨rfl, -⟩ := Cause.shapeConflict.inj (Option.some.inj hf)
  exact ⟨[], ms, v, ⟨_, hms, .here⟩, ⟨_, hv, .here⟩, hother, rfl⟩

/-- A map that cannot be made of entries whose keys are in objects. -/
theorem tellsClash_ofEntries {es : List (Entry Field)} (h : ofEntries name es = .error f)
    (hes : ∀ e ∈ es, (∃ v, valuesAt V e.key v)
      ∧ view.isSkipped (.str (childPath path e.key)) = false
      ∧ e.accessor = accessor view e.key (childPath path e.key)) :
    TellsClash view path V f := by
  rcases ofEntries_eq_error h with ⟨b, rfl⟩ | ⟨shared, all, rfl, hlength, ho, hall⟩
  · exact tellsClash_breach b
  · refine ⟨fun _ _ hf => (nomatch hf), fun _ _ hf => ?_⟩
    obtain ⟨rfl, rfl⟩ := Cause.accessorConflict.inj (Option.some.inj hf)
    refine ⟨[], all.map Entry.key, by simp [Function.comp_def], by simpa using hlength,
      List.pairwise_map.mpr ho, fun k hk => ?_⟩
    obtain ⟨o, hmem, rfl⟩ := List.mem_map.mp hk
    obtain ⟨hin, hkey⟩ := hall o hmem
    obtain ⟨⟨v, ms, hms, hv⟩, hskip, hacc⟩ := hes o hin
    exact ⟨⟨ms, v, ⟨_, hms, .here⟩, hv⟩, hskip, by rw [← hkey, hacc]; rfl⟩

/-- An object met something that is no object, whichever came first. -/
theorem failsAs_objectMet (ha : Grounded view path V a) (hb : Grounded view path V b)
    (hm : a.shape = .map) (hn : b.isNull = false) (hm' : b.shape ≠ .map) (clash : Clash) :
    (Run.raise (.shapeConflict path clash) : Run Field).FailsAs (TellsClash view path V) := by
  obtain ⟨ms, hms⟩ := ha.exists_object hm
  obtain ⟨v, hv, hother⟩ := hb.exists_other hn hm'
  exact .fail (tellsClash_objectMet hms hv hother clash)

/-- What a grounded map that obeys a view says of its entries. -/
theorem Grounded.entry {n : Json} {es : List (Entry Field)} (hg : Grounded view path V (.map n es))
    (ho : Obeys view name path (.map n es)) {e : Entry Field} (he : e ∈ es) :
    (∃ v, valuesAt V e.key v) ∧ view.isSkipped (.str (childPath path e.key)) = false
      ∧ e.accessor = accessor view e.key (childPath path e.key) := by
  cases hg with | map _ hkeys _ =>
  cases ho with | map _ _ hentry _ =>
  exact ⟨hkeys e he, (hentry e he).notSkipped, (hentry e he).accessor_eq⟩

/-- **A merge of maps** fails only where their values clash, if merges of their
fields do. -/
theorem mergeMaps_clashes {n n' : Json} {es es' : List (Entry Field)}
    (ha : Obeys view name path (.map n es)) (hb : Obeys view name path (.map n' es'))
    (hga : Grounded view path V (.map n es)) (hgb : Grounded view path V (.map n' es'))
    (ih : ∀ e ∈ es, ∀ {name path b V}, Obeys view name path e.field → Obeys view name path b →
      Grounded view path V e.field → Grounded view path V b →
      (merge path e.field b).FailsAs (TellsClash view path V)) :
    (merge path (.map n es) (.map n' es')).FailsAs (TellsClash view path V) := by
  have hentry := fun e he => hga.entry ha (e := e) he
  have hentry' := fun e he => hgb.entry hb (e := e) he
  cases ha with | map ho _ hobeys hfields =>
  cases hb with | map _ _ hobeys' hfields' =>
  cases hga with | map _ _ hground =>
  cases hgb with | map _ _ hground' =>
  rw [merge.eq_def, if_neg (by simp [isNull]), if_neg (by simp [isNull])]
  refine Run.FailsAs.bind_of_ok (failsAs_mergeEntries fun e he e' hfound => ?_) fun common hc =>
    .ofExcept fun f hf => ?_
  · have he' := mem_of_entryAt? hfound
    have hkey := key_of_entryAt? hfound
    cases hforced : view.forcedKind? (.str (childPath path e.key)) with
    | some kind =>
      -- Two forced fields are scalars, which always merge.
      have hscalar := (hobeys e he).field_eq_of_forced kind hforced
      have hscalar' := (hobeys' e' he').field_eq_of_forced kind (hkey ▸ hforced)
      obtain ⟨c, hc⟩ := exists_merges_scalars e.accessor e'.accessor kind kind
      rw [hscalar, hscalar']
      intro f hf
      rw [hc.outcome_merge trivial trivial _] at hf
      exact absurd hf (by simp)
    | none =>
      have hacc : e'.accessor = e.accessor := by
        rw [(hentry e he).2.2, (hentry' e' he').2.2, hkey]
      have hfield' : Obeys view e.accessor (childPath path e.key) e'.field :=
        hacc ▸ hkey ▸ hfields' e' he'
      have hgrounded' := hground' e' he'
      rw [hkey] at hgrounded'
      intro f hf
      have htells := ih e he (hfields e he) hfield' (hground e he hforced) (hgrounded' hforced) f hf
      exact htells.step (s := .key e.key) (fun _ => rfl) (.key (hentry e he).2.1 hforced)
  · obtain ⟨fields, -, rfl⟩ := (mergeEntries_eq_ok_iff ho.nodup).mp hc
    refine tellsClash_ofEntries hf fun m hm => ?_
    rcases List.mem_append.mp hm with hm | hm
    · obtain ⟨e, he, rfl⟩ := List.mem_map.mp hm
      have hacc : (joinFound fields es' e).accessor = e.accessor := by
        unfold joinFound
        cases entryAt? e.key es' <;> rfl
      rw [key_joinFound, hacc]
      exact hentry e he
    · obtain ⟨e, he, rfl⟩ := List.mem_map.mp hm
      exact hentry' e (List.mem_filter.mp he).1

/-- **A merge fails only where the values clash** that the fields are grounded
in. -/
theorem merge_clashes (ha : Obeys view name path a) (hb : Obeys view name path b)
    (hga : Grounded view path V a) (hgb : Grounded view path V b) :
    (merge path a b).FailsAs (TellsClash view path V) := by
  induction a generalizing name path b V with
  | empty => nomatch ha
  | scalar n k =>
    rw [merge.eq_def]
    split_ifs with hn hn'
    · exact .pure _
    · exact .pure _
    cases b with
    | map => exact failsAs_objectMet hgb hga rfl (by simpa using hn) (by simp [shape]) _
    | scalar => exact .pure _
    | _ => exact (Run.FailsAs.note _ _).bind fun _ => .pure _
  | collection n e ih =>
    by_cases hn : b.isNull = true
    · rw [merge.eq_def, if_neg (by simp [isNull]), if_pos hn]
      exact .pure _
    cases b with
    | map =>
      rw [merge.eq_def, if_neg (by simp [isNull]), if_neg hn]
      exact failsAs_objectMet hgb hga rfl rfl (by simp [shape]) _
    | collection n' e' =>
      rw [merge.eq_def, if_neg (by simp [isNull]), if_neg hn]
      cases ha with | collection ha =>
      cases hb with | collection hb =>
      cases hga with | collection _ hga =>
      cases hgb with | collection _ hgb =>
      refine Run.FailsAs.bind (fun f hf => ?_) fun _ => .pure _
      exact (ih ha hb hga hgb f hf).step (s := .item) (fun _ => rfl) .item
    | _ =>
      rw [merge.eq_def, if_neg (by simp [isNull]), if_neg hn]
      exact (Run.FailsAs.note _ _).bind fun _ => .pure _
  | map n es ih =>
    by_cases hn : b.isNull = true
    · rw [merge.eq_def, if_neg (by simp [isNull]), if_pos hn]
      exact .pure _
    cases b with
    | map n' es' => exact mergeMaps_clashes ha hb hga hgb ih
    | _ =>
      rw [merge.eq_def, if_neg (by simp [isNull]), if_neg hn]
      exact failsAs_objectMet hga hgb rfl (by simpa using hn) (by simp [shape]) _

/-! ## Items -/

/-- Telling the item that brought a problem about leaves its path and its keys as
they are. -/
theorem TellsClash.atItem (h : TellsClash view path V f) (i : Nat) :
    TellsClash view path V (atItem i f) := by
  unfold Inference.atItem
  split
  · next q clash _ _ =>
    refine ⟨fun q' clash' hf => ?_, fun _ _ hf => (nomatch hf)⟩
    obtain ⟨rfl, -⟩ := Cause.shapeConflict.inj (Option.some.inj hf)
    exact h.shapes q clash rfl
  · exact h

/-- A clash that an item brings about is told with it. -/
theorem exists_inElement_of_atItem {i : Nat}
    (h : (atItem i f).cause? = some (.shapeConflict q clash)) :
    ∃ met, clash = .inElement met i := by
  unfold atItem at h
  split at h
  · next met _ _ =>
    obtain ⟨-, hclash⟩ := Cause.shapeConflict.inj (Option.some.inj h)
    exact ⟨met, hclash.symm⟩
  · next hne =>
    cases f with
    | breach b => nomatch h
    | problem p =>
      obtain ⟨cause, endpoint, action⟩ := p
      obtain rfl : cause = .shapeConflict q clash := Option.some.inj h
      exact absurd rfl (hne q clash endpoint action)

/-- **How merging items fails**: an item fails, or does not merge with what those
before it merge to. -/
theorem mergeItems_eq_error {index : Nat} {element : Option Field}
    (h : (mergeItems view room name path index element items).outcome = .error f) :
    ∃ before x after, items = before ++ x :: after
      ∧ ((inferValue view room name path x).outcome = .error f
        ∨ ∃ a b g, (mergeItems view room name path index element before).outcome = .ok a
          ∧ (inferValue view room name path x).outcome = .ok b
          ∧ (merge path a b).outcome = .error g ∧ f = atItem (index + before.length) g) := by
  induction items generalizing index element with
  | nil => nomatch h
  | cons x items ih =>
    cases hx : (inferValue view room name path x).outcome with
    | error e =>
      rw [mergeItems, Run.outcome_bind, hx] at h
      exact ⟨[], x, items, rfl, .inl (hx.trans h)⟩
    | ok b =>
      -- What is merged before the items behind is merged before them alone.
      have hnext : ∀ next, (∀ rest, (mergeItems view room name path index element
            (x :: rest)).outcome
          = (mergeItems view room name path (index + 1) (some next) rest).outcome) →
          ∃ before y after, x :: items = before ++ y :: after
            ∧ ((inferValue view room name path y).outcome = .error f
              ∨ ∃ a b g, (mergeItems view room name path index element before).outcome = .ok a
                ∧ (inferValue view room name path y).outcome = .ok b
                ∧ (merge path a b).outcome = .error g
                ∧ f = atItem (index + before.length) g) := by
        intro next hstep
        rw [hstep] at h
        obtain ⟨before, y, after, rfl, hy⟩ := ih h
        refine ⟨x :: before, y, after, rfl, hy.imp_right ?_⟩
        rintro ⟨a, b, g, ha, hb, hg, rfl⟩
        exact ⟨a, b, g, (hstep before).trans ha, hb, hg, by
          rw [List.length_cons, Nat.add_right_comm, Nat.add_assoc]⟩
      cases element with
      | none => exact hnext b fun rest => by simp [mergeItems, hx, Except.bind]
      | some s =>
        cases hmerge : (merge path s b).outcome with
        | error g =>
          have hf : atItem index g = f := by
            simpa [mergeItems, hx, hmerge, Except.bind, Except.mapError] using h
          exact ⟨[], x, items, rfl, .inr ⟨s, b, g, rfl, hx, hmerge, hf.symm⟩⟩
        | ok a =>
          exact hnext a fun rest => by
            simp [mergeItems, hx, hmerge, Except.bind, Except.mapError]

/-- **The first item of a sort.** -/
def IsFirst (sort : ItemSort) (items : List Json) (i : Nat) : Prop :=
  (∃ x, items[i]? = some x ∧ itemSort? x = some sort)
    ∧ ∀ j < i, ∀ y, items[j]? = some y → itemSort? y ≠ some sort

theorem isFirst_of_firstOf? {sort : ItemSort} {i : Nat} (h : firstOf? sort items = some i) :
    IsFirst sort items i := by
  obtain ⟨hi, hx, hbefore⟩ := List.findIdx?_eq_some_iff_getElem.mp h
  refine ⟨⟨items[i], List.getElem?_eq_getElem hi, of_decide_eq_true hx⟩, fun j hj y hy => ?_⟩
  obtain ⟨hlt, rfl⟩ := List.getElem?_eq_some_iff.mp hy
  simpa using hbefore j hj

/-- **What clashes in some items**: their first object, and their first scalar
or, if there is none, their first array. -/
def ItemsClash (items : List Json) (clash : Clash) : Prop :=
  ∃ i j, IsFirst .object items i
    ∧ (clash = .arrayMixes i "scalar" j ∧ IsFirst .scalar items j
      ∨ clash = .arrayMixes i "array" j ∧ (∀ x ∈ items, itemSort? x ≠ some .scalar)
        ∧ IsFirst .array items j)

theorem itemsClash_of_itemClash? (h : itemClash? items = some clash) : ItemsClash items clash := by
  unfold itemClash? at h
  cases ho : firstOf? .object items with
  | none => simp [ho] at h
  | some i =>
    cases hs : firstOf? .scalar items with
    | some j =>
      rw [ho, hs] at h
      exact ⟨i, j, isFirst_of_firstOf? ho, .inl ⟨(Option.some.inj h).symm, isFirst_of_firstOf? hs⟩⟩
    | none =>
      cases ha : firstOf? .array items with
      | none => simp [ho, hs, ha] at h
      | some j =>
        rw [ho, hs, ha] at h
        have hnone : ∀ x ∈ items, itemSort? x ≠ some .scalar := by simpa [firstOf?] using hs
        exact ⟨i, j, isFirst_of_firstOf? ho,
          .inr ⟨(Option.some.inj h).symm, hnone, isFirst_of_firstOf? ha⟩⟩

/-- Items that clash are an object and something else among them. -/
theorem ItemsClash.tellsClash (h : ItemsClash items clash) :
    TellsClash view path (· ∈ items) (.ofCause (.shapeConflict path clash)) := by
  obtain ⟨i, j, ⟨⟨x, hx, hobject⟩, -⟩, hother⟩ := h
  have hy : ∃ y ∈ items, IsOther y := by
    rcases hother with ⟨-, ⟨y, hy, hsort⟩, -⟩ | ⟨-, -, ⟨y, hy, hsort⟩, -⟩
    · exact ⟨y, List.mem_of_getElem? hy, .inl hsort⟩
    · exact ⟨y, List.mem_of_getElem? hy, .inr hsort⟩
  obtain ⟨y, hy, hother⟩ := hy
  cases x with
  | obj ms => exact tellsClash_objectMet (List.mem_of_getElem? hx) hy hother clash
  | _ => simp [itemSort?] at hobject

/-- **How there is no element of some items**: they clash, or an item fails, or
does not merge with the element of those before it. -/
theorem inferElementWithin_eq_error
    (h : (inferElementWithin view room name path items).outcome = .error f) :
    (∃ clash, ItemsClash items clash ∧ f = .ofCause (.shapeConflict path clash))
    ∨ ∃ before x after, items = before ++ x :: after
      ∧ ((inferValue view room name path x).outcome = .error f
        ∨ ∃ a b g, (inferElementWithin view room name path before).outcome = .ok a
          ∧ (inferValue view room name path x).outcome = .ok b
          ∧ (merge path a b).outcome = .error g ∧ f = atItem before.length g) := by
  rw [inferElementWithin, Run.outcome_bind, checkItems] at h
  cases hclash : itemClash? items with
  | some clash =>
    rw [hclash] at h
    exact .inl ⟨clash, itemsClash_of_itemClash? hclash, (Except.error.inj h).symm⟩
  | none =>
    rw [hclash] at h
    simp only [inferElementWithin_eq_ok_iff]
    have hitems := mergeItems_eq_error (f := f) h
    simpa only [Nat.zero_add] using Or.inr hitems

/-- An item that does not merge with the element of those before it leaves no
element. -/
theorem inferElementWithin_concat_ne_ok
    (ha : (inferElementWithin view room name path items).outcome = .ok a)
    (hb : (inferValue view room name path x).outcome = .ok b)
    (hmerge : (merge path a b).outcome = .error f) :
    (inferElementWithin view room name path (items ++ [x])).outcome ≠ .ok c := by
  intro h
  obtain ⟨a', b', ha', hb', hc⟩ := inferElementWithin_concat_eq_ok_iff.mp h
  obtain rfl := Except.ok.inj (ha.symm.trans ha')
  obtain rfl := Except.ok.inj (hb.symm.trans hb')
  have hok := hc.outcome_merge (inferElementWithin_obeys ha).wellFormed
    (inferValue_obeys hb).wellFormed path
  nomatch hok.symm.trans hmerge

/-- **There is no element of some items** where they clash, or where one of them
fails. -/
theorem inferElementWithin_clashes :
    (inferElementWithin view room name path items).FailsAs fun f =>
      (∃ x ∈ items, (inferValue view room name path x).outcome = .error f)
        ∨ TellsClash view path (· ∈ items) f := by
  intro f h
  rcases inferElementWithin_eq_error h with
    ⟨clash, hclash, rfl⟩ | ⟨before, x, after, rfl, hx | ⟨a, b, g, ha, hb, hg, rfl⟩⟩
  · exact .inr hclash.tellsClash
  · exact .inl ⟨x, by simp, hx⟩
  · have hground : ∀ y ∈ before ++ x :: after, ∀ f,
        (inferValue view room name path y).outcome = .ok f →
          Grounded view path (· ∈ before ++ x :: after) f := by
      intro y hy f hf
      refine (inferValue_grounded hf).mono ?_
      rintro _ rfl
      exact hy
    have hclash := merge_clashes (inferElementWithin_obeys ha) (inferValue_obeys hb)
      (inferElementWithin_grounded (fun y hy => hground y (List.mem_append_left _ hy)) ha)
      (hground x (by simp) b hb) g hg
    exact .inr (hclash.atItem _)

/-! ## Examples -/

/-- **A failure tells a conflict that a value has in it**: shapes clash in an
array that is reached from it, or accessors in objects that are. -/
structure TellsReal (view : OverrideView) (path : String) (x : Json) (f : Fault) : Prop where
  shapes : ∀ q clash, f.cause? = some (.shapeConflict q clash) → ∃ steps items,
    Reaches view path x steps (.arr items) ∧ ShapesClash view (extend path steps) (· ∈ items) q
  accessors : ∀ shared owners, f.cause? = some (.accessorConflict shared owners) →
    AccessorsClash view path (· = x) shared owners

theorem tellsReal_breach (b : Breach) : TellsReal view path x (.breach b) :=
  ⟨fun _ _ h => (nomatch h), fun _ _ h => (nomatch h)⟩

/-- A conflict in a value that is reached by one step from another is one in
this. -/
theorem TellsReal.step {s : Step} {below : String} {y : Json}
    (hpath : ∀ steps, extend path (s :: steps) = extend below steps)
    (hreach : ∀ {steps w}, Reaches view below y steps w → Reaches view path x (s :: steps) w)
    (h : TellsReal view below y f) : TellsReal view path x f := by
  refine ⟨fun q clash hf => ?_, fun shared owners hf => ?_⟩
  · obtain ⟨steps, items, harr, hclash⟩ := h.shapes q clash hf
    exact ⟨s :: steps, items, hreach harr, by rwa [hpath]⟩
  · refine (h.accessors shared owners hf).step hpath ?_
    rintro steps w ⟨_, rfl, hw⟩
    exact ⟨x, rfl, hreach hw⟩

/-- An object whose entries are no map has keys that share an accessor. -/
theorem tellsReal_ofEntries {ms : List (String × Json)} {found : List (Option (Entry Field))}
    (hfound : ∀ e, some e ∈ found →
      ∃ m ∈ ms, (inferMember view room path m).outcome = .ok (some e))
    (h : ofEntries name (found.filterMap id) = .error f) : TellsReal view path (.obj ms) f := by
  have hclash : TellsClash view path (· = .obj ms) f := by
    refine tellsClash_ofEntries h fun e he => ?_
    obtain ⟨o, ho, rfl⟩ := List.mem_filterMap.mp he
    obtain ⟨⟨k, v⟩, hm, hrun⟩ := hfound e ho
    obtain rfl := key_of_inferMember hrun
    obtain ⟨hskip, hentry, -⟩ := inferMember_eq_some_iff.mp hrun
    exact ⟨⟨v, ms, rfl, hm⟩, hskip, by rw [hentry]; rfl⟩
  refine ⟨fun q clash hf => ?_, hclash.accessors⟩
  rcases ofEntries_eq_error h with ⟨b, rfl⟩ | ⟨_, _, rfl, -⟩
  · nomatch hf
  · nomatch hf

/-- What fails at a key of an object tells of a conflict in its value: nothing
fails at keys that are left out or forced. -/
theorem inferMember_clashes {ms : List (String × Json)} {m : String × Json} (hm : m ∈ ms)
    (ih : ∀ {name path x}, (inferValue view room name path x).FailsAs (TellsReal view path x)) :
    (inferMember view room path m).FailsAs (TellsReal view path (.obj ms)) := by
  unfold inferMember
  dsimp only
  split
  · exact (Run.FailsAs.note _ _).bind fun _ => .pure _
  · next hskip =>
    refine Run.FailsAs.bind ?_ fun _ => .pure _
    unfold fieldAt
    split
    · exact .pure _
    · next hforced =>
      intro f hf
      exact (ih f hf).step (s := .key m.1) (fun _ => rfl)
        (.key (Bool.eq_false_iff.mpr hskip) hforced hm)

/-- An array fails as its element does. -/
theorem inferElementWithin_of_inferValue
    (h : (inferValue view (room + 1) name path (.arr items)).outcome = .error f) :
    (inferElementWithin view room name path items).outcome = .error f := by
  rw [inferValue, Run.outcome_bind] at h
  rw [inferElementWithin, Run.outcome_bind]
  cases hcheck : (checkItems path items).outcome with
  | error e =>
    rw [hcheck] at h
    exact h
  | ok u =>
    rw [hcheck] at h
    simp only [Except.bind, Run.outcome_bind] at h ⊢
    cases hmerge : (mergeItems view room name path 0 none items).outcome with
    | error e =>
      rw [hmerge] at h
      exact h
    | ok e => simp [hmerge] at h

/-- **Inferring a value fails only where there is a conflict in it**, or where it
is nested too deep. -/
theorem inferValue_clashes (x : Json) :
    (inferValue view room name path x).FailsAs (TellsReal view path x) := by
  induction room generalizing name path x with
  | zero =>
    cases x with
    | obj | arr =>
      rw [inferValue]
      exact .fail (tellsReal_breach _)
    | _ =>
      rw [inferValue]
      exact .pure _
  | succ room ih =>
    cases x with
    | obj ms =>
      rw [inferValue, inferMembers_eq_map, inKeyOrder_map]
      refine Run.FailsAs.bind_of_ok (Run.FailsAs.sequence fun run hrun => ?_) fun found hfound =>
        .ofExcept fun f hf => ?_
      · obtain ⟨m, hm, rfl⟩ := List.mem_map.mp hrun
        exact inferMember_clashes (List.mem_mergeSort.mp hm) (ih _)
      · have hentries : ∀ e, some e ∈ found →
            ∃ m ∈ ms, (inferMember view room path m).outcome = .ok (some e) := by
          intro e he
          obtain ⟨_, hrun, hentry⟩ := Run.exists_run_of_mem hfound he
          obtain ⟨m, hm, rfl⟩ := List.mem_map.mp hrun
          exact ⟨m, List.mem_mergeSort.mp hm, hentry⟩
        exact tellsReal_ofEntries hentries hf
    | arr items =>
      intro f hf
      rcases inferElementWithin_clashes f (inferElementWithin_of_inferValue hf) with
        ⟨y, hy, hfail⟩ | hclash
      · exact (ih y f hfail).step (s := .item) (fun _ => rfl) (.item hy)
      · refine ⟨fun q clash hcause => ?_, fun shared owners hcause => ?_⟩
        · exact ⟨[], items, .here, hclash.shapes q clash hcause⟩
        · refine (hclash.accessors shared owners hcause).step (s := .item) (fun _ => rfl) ?_
          rintro steps w ⟨y, hy, hw⟩
          exact ⟨_, rfl, .item hy hw⟩
    | _ =>
      rw [inferValue]
      exact .pure _

/-- The inference changes no cause, but for telling nesting that is too deep. -/
theorem cause?_attributeTo {cause : Cause} (h : (attributeTo view f).cause? = some cause) :
    f.cause? = some cause ∨ cause = .shapeConflict "" .tooDeep := by
  unfold attributeTo at h
  split at h
  · exact .inr (Option.some.inj h).symm
  · cases f with
    | problem p => exact .inl h
    | breach b => nomatch h

end Inference

open Inference

/-- **Inferring a schema fails only where there is a conflict in the example**, or
where it is nested too deep. -/
theorem infer_clashes (view : OverrideView) (name example_ : Json) :
    (infer view name example_).FailsAs fun f =>
      f.cause? = some (.shapeConflict "" .tooDeep) ∨ TellsReal view "" example_ f := by
  unfold infer
  split
  · exact (Run.FailsAs.note _ _).bind fun _ => .pure _
  · refine ((inferValue_clashes example_).mapFault fun f hf => ?_).bind fun root =>
      Run.FailsAs.bind (fun f hf => ?_) fun _ => .pure _
    · by_cases hdeep : (attributeTo view f).cause? = some (.shapeConflict "" .tooDeep)
      · exact .inl hdeep
      · have hcause : ∀ cause, (attributeTo view f).cause? = some cause →
            f.cause? = some cause := by
          intro cause h
          refine (cause?_attributeTo h).resolve_right ?_
          rintro rfl
          exact hdeep h
        exact .inr ⟨fun q clash h => hf.shapes q clash (hcause _ h),
          fun shared owners h => hf.accessors shared owners (hcause _ h)⟩
    · obtain ⟨b, rfl⟩ := noteUnused_failsAs_breach example_ f hf
      exact .inr (tellsReal_breach b)

/-- **Conflicts are real.** A conflict of shapes in an example is one of two values
that are reached by the same steps from items of one array, and is told with the
path of these. A conflict of accessors is one of keys of objects that are reached
by the same steps.

Of items that have a field each, a clash is told with the first object and the
first scalar, or without scalars the first array; or with the index of the item
that does not merge with the element of those before it. -/
theorem conflicts_real (view : OverrideView) :
    (∀ name example_ p, (infer view name example_).outcome = .error (.problem p) →
      (∀ q clash, p.cause = .shapeConflict q clash → clash ≠ .tooDeep → ∃ steps items,
        Reaches view "" example_ steps (.arr items)
          ∧ ShapesClash view (extend "" steps) (· ∈ items) q)
      ∧ ∀ shared owners, p.cause = .accessorConflict shared owners →
        AccessorsClash view "" (· = example_) shared owners)
    ∧ ∀ room name path items,
      (∀ x ∈ items, ∃ f, (inferValue view room name path x).outcome = .ok f) →
      ∀ p q clash, (inferElementWithin view room name path items).outcome = .error (.problem p) →
        p.cause = .shapeConflict q clash →
        q = path ∧ ItemsClash items clash
        ∨ ∃ met i, clash = .inElement met i
          ∧ (∃ f, (inferElementWithin view room name path (items.take i)).outcome = .ok f)
          ∧ ∀ f, (inferElementWithin view room name path (items.take (i + 1))).outcome ≠ .ok f := by
  refine ⟨fun name example_ p h => ?_, fun room name path items hitems p q clash h hcause => ?_⟩
  · have hclash := infer_clashes view name example_ (.problem p) h
    refine ⟨fun q clash hcause hdeep => ?_, fun shared owners hcause => ?_⟩
    · rcases hclash with htoo | hreal
      · obtain ⟨-, rfl⟩ := Cause.shapeConflict.inj (hcause.symm.trans (Option.some.inj htoo))
        exact absurd rfl hdeep
      · exact hreal.shapes q clash (congrArg some hcause)
    · rcases hclash with htoo | hreal
      · nomatch hcause.symm.trans (Option.some.inj htoo)
      · exact hreal.accessors shared owners (congrArg some hcause)
  · have hproblem : (Fault.problem p).cause? = some (.shapeConflict q clash) :=
      congrArg some hcause
    rcases inferElementWithin_eq_error h with
      ⟨met, hmet, hp⟩ | ⟨before, x, after, rfl, hx | ⟨a, b, g, ha, hb, hg, hp⟩⟩
    · rw [hp] at hproblem
      obtain ⟨rfl, rfl⟩ := Cause.shapeConflict.inj (Option.some.inj hproblem)
      exact .inl ⟨rfl, hmet⟩
    · obtain ⟨f, hf⟩ := hitems x (by simp)
      nomatch hf.symm.trans hx
    · obtain ⟨met, rfl⟩ := exists_inElement_of_atItem (hp ▸ hproblem)
      have htake : (before ++ x :: after).take (before.length + 1) = before ++ [x] := by
        rw [List.take_length_add_append]
        rfl
      refine .inr ⟨met, before.length, rfl, ⟨a, ?_⟩, fun f => ?_⟩
      · rwa [List.take_left' rfl]
      · rw [htake]
        exact inferElementWithin_concat_ne_ok ha hb hg

/-- A number and an object at one key of two rows, and two keys of one
accessor. -/
theorem conflicts_real_rows :
    let rows : List Json := [.obj [("a", .int 1)], .null, .obj [("a", .obj [("b", .int 2)])]]
    let page : Json := .obj [("rows", .arr rows)]
    let twins : Json := .obj [("a_b", .int 1), ("aB", .int 2)]
    let met : Clash := .inElement (.objectMet .scalar) 2
    (∃ p, (infer .empty (.str "page") page).outcome = .error (.problem p)
      ∧ p.cause = .shapeConflict "rows.a" met ∧ ∃ steps items,
        Reaches .empty "" page steps (.arr items)
          ∧ ShapesClash .empty (extend "" steps) (· ∈ items) "rows.a")
    ∧ (∃ p, (infer .empty (.str "twins") twins).outcome = .error (.problem p)
      ∧ p.cause = .accessorConflict (.str "AB") [.str "aB", .str "a_b"]
      ∧ AccessorsClash .empty "" (· = twins) (.str "AB") [.str "aB", .str "a_b"])
    ∧ (∀ x ∈ rows, ∃ f, (inferValue .empty 3 (.str "Rows") "rows" x).outcome = .ok f)
    ∧ (∃ p, (inferElementWithin .empty 3 (.str "Rows") "rows" rows).outcome = .error (.problem p)
      ∧ p.cause = .shapeConflict "rows.a" met)
    ∧ (∃ f, (inferElementWithin .empty 3 (.str "Rows") "rows" (rows.take 2)).outcome = .ok f)
    ∧ ∀ f, (inferElementWithin .empty 3 (.str "Rows") "rows" (rows.take 3)).outcome ≠ .ok f := by
  intro rows page twins met
  obtain ⟨hexamples, helements⟩ := conflicts_real .empty
  have hrows : (inferElementWithin .empty 3 (.str "Rows") "rows" rows).outcome
      = .error (.problem ⟨.shapeConflict "rows.a" met, .null, .null⟩) := by decide +kernel
  have hpage : (infer .empty (.str "page") page).outcome
      = .error (.problem ⟨.shapeConflict "rows.a" met, .null, .null⟩) := by decide +kernel
  have htwins : (infer .empty (.str "twins") twins).outcome = .error (.problem
      ⟨.accessorConflict (.str "AB") [.str "aB", .str "a_b"], .null, .null⟩) := by
    have hab : Naming.toCamel "a_b" = "AB" := rfl
    have haB : Naming.toCamel "aB" = "AB" := rfl
    rw [OverrideView.empty, outcome_infer rfl (paths_nil ..)]
    simp [twins, nestingRoom, inferValue, inferMembers, inKeyOrder, List.mergeSort, Run.sequence,
      Field.ofEntries, Field.sortEntries, Field.breach?, Field.sharing?, Field.shareAccessor,
      Json.isContainer, Except.bind, Except.mapError, hab, haB]
    rfl
  have hitems : ∀ x ∈ rows, ∃ f, (inferValue .empty 3 (.str "Rows") "rows" x).outcome = .ok f := by
    let row (f : Field) : Field := .map (.str "Rows") [⟨"a", .str "A", f, true⟩]
    simp only [rows, List.forall_mem_cons]
    refine ⟨⟨row (.scalar (.str "A") .number), by decide +kernel⟩, ⟨_, rfl⟩,
      ⟨row (.map (.str "A") [⟨"b", .str "B", .scalar (.str "B") .number, true⟩]),
        by decide +kernel⟩, by simp⟩
  refine ⟨⟨_, hpage, rfl, (hexamples _ _ _ hpage).1 _ _ rfl (by decide)⟩,
    ⟨_, htwins, rfl, (hexamples _ _ _ htwins).2 _ _ rfl⟩, hitems, ⟨_, hrows, rfl⟩, ?_⟩
  rcases helements 3 _ _ rows hitems _ _ _ hrows rfl with
    ⟨-, i, j, -, ⟨h, -⟩ | ⟨h, -⟩⟩ | ⟨_, _, h, hbefore, hwith⟩
  · exact absurd h (by simp [met])
  · exact absurd h (by simp [met])
  · obtain ⟨-, rfl⟩ := Clash.inElement.inj h
    exact ⟨hbefore, hwith⟩

end Exemplar
