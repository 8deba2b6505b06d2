import Exemplar.Proofs.Inference.Elements
import Exemplar.Proofs.Inference.KeyOrder

/-!
# The element depends on the set of items

Which items an array has determines its element: neither their order nor
how often they occur makes a difference (`inferElementWithin_items`). The
merge is not associative where a collection meets a scalar – merged to raw
text, they hide that the collection's items would not have merged with
those of another one – so the element is not compared merge by merge. It
is the least field above the items' fields, whatever the order in which it
was climbed to, and least fields are unique.

Whether there is an element at all can depend on the order, for the reason
above and for no other: where no array and scalar meet at one place, items
have an element in every order or in none.
-/

namespace Exemplar

namespace Inference

open Exemplar.Field

variable {view : OverrideView} {room : Nat} {name : Json} {path : String} {f g : Field}
  {x y : Json} {xs ys : List Json}

/-- **A value lies in another** at a dotted path and so many arrays deep.
Keys are added to the path, and arrays to the depth. -/
inductive LiesAt : String → Nat → Json → String → Nat → Json → Prop where
  | here {path : String} {depth : Nat} {x : Json} : LiesAt path depth x path depth x
  | item {path q : String} {depth d : Nat} {items : List Json} {x v : Json} : x ∈ items →
      LiesAt path (depth + 1) x q d v → LiesAt path depth (.arr items) q d v
  | member {path q : String} {depth d : Nat} {ms : List (String × Json)} {k : String}
      {x v : Json} : (k, x) ∈ ms → LiesAt (childPath path k) depth x q d v →
      LiesAt path depth (.obj ms) q d v

/-- **No array and scalar meet** in some values: no two that lie at one
path and depth are an array and a scalar that is not `null`. -/
def Peaceful (path : String) (depth : Nat) (values : Json → Prop) : Prop :=
  ∀ x y, values x → values y → ∀ q d v w, LiesAt path depth x q d v → LiesAt path depth y q d w →
    itemSort? v = some .array → itemSort? w ≠ some .scalar

/-- The items of arrays in which nothing meets are such values. -/
theorem Peaceful.items {depth : Nat} {values : Json → Prop} (h : Peaceful path depth values) :
    Peaceful path (depth + 1) fun z => ∃ items, values (.arr items) ∧ z ∈ items := by
  rintro x y ⟨xs, hxs, hx⟩ ⟨ys, hys, hy⟩ q d v w hv hw
  exact h _ _ hxs hys q d v w (.item hx hv) (.item hy hw)

/-- So are the values of one key. -/
theorem Peaceful.members {depth : Nat} {values : Json → Prop} (h : Peaceful path depth values)
    (k : String) :
    Peaceful (childPath path k) depth fun z => ∃ ms, values (.obj ms) ∧ (k, z) ∈ ms := by
  rintro x y ⟨ms, hms, hx⟩ ⟨ns, hns, hy⟩ q d v w hv hw
  exact h _ _ hms hns q d v w (.member hx hv) (.member hy hw)

/-- The fields of entries for one key do not meet if what is inferred for
its values does not: a forced field is a scalar on both sides. -/
theorem not_meet_of_inferMember {parent k : String} {e e' : Entry Field}
    (h : (inferMember view room parent (k, x)).outcome = .ok (some e))
    (h' : (inferMember view room parent (k, y)).outcome = .ok (some e'))
    (hm : ∀ name f g, (inferValue view room name (childPath parent k) x).outcome = .ok f →
      (inferValue view room name (childPath parent k) y).outcome = .ok g → ¬ Meet f g) :
    ¬ Meet e.field e'.field := by
  obtain ⟨-, he, hf⟩ := inferMember_eq_some_iff.mp h
  obtain ⟨-, he', hg⟩ := inferMember_eq_some_iff.mp h'
  have hacc : e.accessor = e'.accessor := by rw [he, he']; rfl
  unfold fieldAt at hf hg
  cases hforced : view.forcedKind? (.str (childPath parent k)) with
  | none =>
    simp only [hforced] at hf hg
    rw [← hacc] at hg
    exact hm e.accessor e.field e'.field hf hg
  | some kind =>
    simp only [hforced] at hf hg
    rw [← Except.ok.inj hf, ← Except.ok.inj hg]
    exact nofun

/-- **Fields meet only where values do.** -/
theorem not_meet_of_peaceful {depth : Nat} {values : Json → Prop}
    (hp : Peaceful path depth values) (hx : values x) (hy : values y)
    (hf : (inferValue view room name path x).outcome = .ok f)
    (hg : (inferValue view room name path y).outcome = .ok g) : ¬ Meet f g := by
  refine inferValue_induction (P := fun room name path x f =>
    ∀ depth values y g, Peaceful path depth values → values x → values y →
      (inferValue view room name path y).outcome = .ok g → ¬ Meet f g)
    ?leaf ?obj ?arr hf depth values y g hp hx hy hg
  case leaf =>
    intro room name path x k hk depth values y g hp hx hy hg hmeet
    have hf : (inferValue view room name path x).outcome = .ok (.scalar name k) :=
      outcome_inferValue_of_kind hk
    cases hmeet with
    | scalarCollection hk' =>
      have hsort := (fieldSort?_of_inferValue hf).symm.trans (fieldSort?_scalar hk')
      have hsort' := (fieldSort?_of_inferValue hg).symm
      exact hp y x hy hx _ _ y x .here .here hsort' hsort
  case arr =>
    intro room name path items e ih he depth values y g hp hx hy hg hmeet
    cases hmeet with
    | collectionScalar hk =>
      have hsort := (fieldSort?_of_inferValue hg).symm.trans (fieldSort?_scalar hk)
      exact hp _ y hx hy _ _ _ y .here .here rfl hsort
    -- Elements meet only if items do, of one array or of both.
    | @element _ _ _ e' hmeet =>
      have hsort := (fieldSort?_of_inferValue hg).symm
      cases y with
      | arr items' =>
        obtain ⟨_, he', heq⟩ := inferValue_arr_eq_ok_iff.mp hg
        obtain ⟨-, rfl⟩ := Field.collection.inj heq
        have hm : ∀ z z', (z ∈ items ∨ z ∈ items') → (z' ∈ items ∨ z' ∈ items') →
            ∀ f g, (inferValue view room name path z).outcome = .ok f →
              (inferValue view room name path z').outcome = .ok g → ¬ Meet f g := by
          intro z z' hz hz' f g hf hg
          refine ih name path z f hf (depth + 1) _ z' g hp.items ?_ ?_ hg
          · exact hz.elim (fun h => ⟨items, hx, h⟩) (fun h => ⟨items', hy, h⟩)
          · exact hz'.elim (fun h => ⟨items, hx, h⟩) (fun h => ⟨items', hy, h⟩)
        refine not_meet_of_inferElementWithin (fun z hz z' hz' => hm z z' (.inl hz) (.inl hz'))
          he (fun z hz f hf hmeet => ?_) hmeet
        refine not_meet_of_inferElementWithin (fun z hz z' hz' => hm z z' (.inr hz) (.inr hz'))
          he' (fun z' hz' f' hf' => ?_) hmeet.symm
        exact hm z' z (.inr hz') (.inl hz) f' f hf' hf
      | _ => nomatch hsort
  case obj =>
    intro room name path ms es ih ho _ hes _ depth values y g hp hx hy hg hmeet
    cases hmeet with
    | @entry _ _ k _ es' e e' he he' hmeet =>
      have hsort := (fieldSort?_of_inferValue hg).symm
      cases y with
      | obj ns =>
        obtain ⟨_, heq, -, -, hes', -⟩ := inferValue_obj_ok hg
        obtain ⟨-, rfl⟩ := Field.map.inj heq
        obtain ⟨⟨l, v⟩, hm, hrun⟩ := (hes e).mp (mem_of_entryAt? he)
        obtain ⟨⟨l', w⟩, hm', hrun'⟩ := (hes' e').mp (mem_of_entryAt? he')
        obtain rfl : k = l := (key_of_entryAt? he).symm.trans (key_of_inferMember hrun)
        obtain rfl : k = l' := (key_of_entryAt? he').symm.trans (key_of_inferMember hrun')
        refine not_meet_of_inferMember hrun hrun' (fun name f g hf hg => ?_) hmeet
        exact ih name _ v f hf depth _ w g (hp.members k) ⟨ms, hx, hm⟩ ⟨ns, hy, hm'⟩ hg
      | _ => nomatch hsort

/-! ## Items that are the same -/

/-- Items from which the same fields are inferred, in whatever order and
however often. -/
def SameFields (view : OverrideView) (room : Nat) (name : Json) (path : String)
    (xs ys : List Json) : Prop :=
  ∀ y ∈ ys, ∃ x ∈ xs, inferValue view room name path x = inferValue view room name path y

/-- The element of items whose fields all occur is below that of the
others. -/
theorem below_of_sameFields (hxy : SameFields view room name path xs ys)
    (hf : (inferElementWithin view room name path xs).outcome = .ok f)
    (hg : (inferElementWithin view room name path ys).outcome = .ok g) : Below True g f := by
  refine inferElementWithin_least hg (inferElementWithin_obeys hf).name_eq (fun y hy b hb => ?_)
  obtain ⟨x, hx, heq⟩ := hxy y hy
  obtain ⟨a, ha, haf⟩ := inferElementWithin_above (.inl trivial) hf hx
  rw [heq] at ha
  exact Except.ok.inj (ha.symm.trans hb) ▸ haf

/-- **Items have an element with others** whose fields they share, if these
never meet. -/
theorem exists_of_sameFields (hxy : SameFields view room name path xs ys)
    (hm : NeverMeet view room name path xs)
    (hf : (inferElementWithin view room name path xs).outcome = .ok f) :
    ∃ g, (inferElementWithin view room name path ys).outcome = .ok g := by
  refine exists_inferElementWithin (inferElementWithin_obeys hf) (fun y hy => ?_)
  obtain ⟨x, hx, heq⟩ := hxy y hy
  obtain ⟨a, ha, haf⟩ := inferElementWithin_above (.inr hm) hf hx
  exact ⟨a, heq ▸ ha, haf⟩

/-- Items that share their fields with some that never meet, never meet. -/
theorem NeverMeet.of_sameFields (hm : NeverMeet view room name path xs)
    (hxy : SameFields view room name path xs ys) : NeverMeet view room name path ys := by
  intro y hy y' hy' f g hf hg
  obtain ⟨x, hx, heq⟩ := hxy y hy
  obtain ⟨x', hx', heq'⟩ := hxy y' hy'
  exact hm x hx x' hx' f g (heq ▸ hf) (heq' ▸ hg)

/-- **The element depends on the set of items.** Two lists with the same
values, in whatever order and however often, have no two different
elements; and if no array and scalar meet in them, they have an element
both or neither. Values are the same here if they differ in the order of
keys at most. -/
theorem inferElementWithin_items (view : OverrideView) (room : Nat) (name : Json)
    (path : String) (xs ys : List Json) (hxs : ∀ x ∈ xs, x.Distinct) (hys : ∀ y ∈ ys, y.Distinct)
    (hxy : ∀ x ∈ xs, ∃ y ∈ ys, Json.Reordered x y)
    (hyx : ∀ y ∈ ys, ∃ x ∈ xs, Json.Reordered x y) :
    (∀ f g, (inferElementWithin view room name path xs).outcome = .ok f →
      (inferElementWithin view room name path ys).outcome = .ok g → f = g)
    ∧ (Peaceful path 0 (· ∈ xs) →
      ((∃ f, (inferElementWithin view room name path xs).outcome = .ok f)
        ↔ ∃ g, (inferElementWithin view room name path ys).outcome = .ok g)) := by
  have hsame : SameFields view room name path xs ys := by
    intro y hy
    obtain ⟨x, hx, h⟩ := hyx y hy
    exact ⟨x, hx, inferValue_eq_of_reordered h (hxs x hx) (hys y hy) room name path⟩
  have hsame' : SameFields view room name path ys xs := by
    intro x hx
    obtain ⟨y, hy, h⟩ := hxy x hx
    exact ⟨y, hy, (inferValue_eq_of_reordered h (hxs x hx) (hys y hy) room name path).symm⟩
  refine ⟨fun f g hf hg => ?_, fun hp => ?_⟩
  · exact (below_of_sameFields hsame' hg hf).antisymm (below_of_sameFields hsame hf hg)
      (inferElementWithin_obeys hf).wellFormed (inferElementWithin_obeys hg).wellFormed
  · have hm : NeverMeet view room name path xs := fun x hx y hy f g hf hg =>
      not_meet_of_peaceful hp hx hy hf hg
    exact ⟨fun ⟨_, hf⟩ => exists_of_sameFields hsame hm hf,
      fun ⟨_, hg⟩ => exists_of_sameFields hsame' (hm.of_sameFields hsame) hg⟩

/-- Rows in one array, told with `null` before or after them and with
their keys in two orders. -/
theorem inferElementWithin_items_pair :
    let xs : List Json := [.arr [.obj [("tag", .null), ("id", .int 1)]], .null]
    let ys : List Json := [.null, .arr [.obj [("id", .int 1), ("tag", .null)]], .null]
    let element : Field := .collection (.str "Rows") (.map (.str "Rows")
      [⟨"id", .str "Id", .scalar (.str "Id") .number, true⟩,
        ⟨"tag", .str "Tag", .scalar (.str "Tag") .unknown, true⟩])
    (∀ x ∈ xs, x.Distinct) ∧ (∀ y ∈ ys, y.Distinct)
      ∧ (∀ x ∈ xs, ∃ y ∈ ys, Json.Reordered x y) ∧ (∀ y ∈ ys, ∃ x ∈ xs, Json.Reordered x y)
      ∧ Peaceful "rows" 0 (· ∈ xs)
      ∧ (inferElementWithin .empty 2 (.str "Rows") "rows" xs).outcome = .ok element
      ∧ (inferElementWithin .empty 2 (.str "Rows") "rows" ys).outcome = .ok element := by
  intro xs ys element
  have hxs : ∀ x ∈ xs, x.Distinct := by
    simp [xs, Json.Distinct, Json.DistinctItems, Json.DistinctMembers]
  have hys : ∀ y ∈ ys, y.Distinct := by
    simp [ys, Json.Distinct, Json.DistinctItems, Json.DistinctMembers]
  have hrow : Json.Reordered (.obj [("tag", .null), ("id", .int 1)])
      (.obj [("id", .int 1), ("tag", .null)]) := by
    refine .obj (by decide) (fun k v w hv hw => ?_)
    simp only [List.mem_cons, Prod.mk.injEq, List.not_mem_nil, or_false] at hv hw
    obtain ⟨rfl, rfl⟩ | ⟨rfl, rfl⟩ := hv <;> obtain ⟨hk, rfl⟩ | ⟨hk, rfl⟩ := hw <;>
      first | exact .leaf rfl | exact absurd hk (by decide)
  have hrows : Json.Reordered (.arr [.obj [("tag", .null), ("id", .int 1)]])
      (.arr [.obj [("id", .int 1), ("tag", .null)]]) := .arr rfl (by simpa using hrow)
  have hnull : Json.Reordered .null .null := .leaf rfl
  have hxy : ∀ x ∈ xs, ∃ y ∈ ys, Json.Reordered x y := by simp [xs, ys, hrows, hnull]
  have hyx : ∀ y ∈ ys, ∃ x ∈ xs, Json.Reordered x y := by simp [xs, ys, hrows, hnull]
  -- The one array lies at depth 0, and the one scalar in it at depth 1.
  have hdepth : ∀ x ∈ xs, ∀ q d v, LiesAt "rows" 0 x q d v →
      (itemSort? v = some .array → d = 0) ∧ (itemSort? v = some .scalar → d = 1) := by
    intro x hx q d v h
    simp only [xs, List.mem_cons, List.not_mem_nil, or_false] at hx
    obtain rfl | rfl := hx
    · cases h with
      | here => simp [itemSort?]
      | item hy h =>
        obtain rfl := List.mem_singleton.mp hy
        cases h with
        | here => simp [itemSort?]
        | member hm h =>
          simp only [List.mem_cons, Prod.mk.injEq, List.not_mem_nil, or_false] at hm
          obtain ⟨rfl, rfl⟩ | ⟨rfl, rfl⟩ := hm <;> cases h <;> simp [itemSort?]
    · cases h with
      | here => simp [itemSort?]
  have hp : Peaceful "rows" 0 (· ∈ xs) := by
    intro x y hx hy q d v w hv hw hva hws
    have hva' := (hdepth x hx q d v hv).1 hva
    have hws' := (hdepth y hy q d w hw).2 hws
    omega
  have hfirst : (inferElementWithin .empty 2 (.str "Rows") "rows" xs).outcome = .ok element := by
    have hid : Naming.toCamel "id" = "Id" := rfl
    have htag : Naming.toCamel "tag" = "Tag" := rfl
    simp +decide [xs, element, inferElementWithin, checkItems, itemClash?, mergeItems,
      OverrideView.empty, inferValue, inferMembers, inKeyOrder, List.mergeSort, Run.sequence,
      ofEntries_of_ordered, merge, childPath, Except.bind, Except.mapError, hid, htag]
  obtain ⟨heq, hiff⟩ :=
    inferElementWithin_items .empty 2 (.str "Rows") "rows" xs ys hxs hys hxy hyx
  obtain ⟨g, hg⟩ := (hiff hp).mp ⟨element, hfirst⟩
  exact ⟨hxs, hys, hxy, hyx, hp, hfirst, heq element g hfirst hg ▸ hg⟩

end Inference

end Exemplar
