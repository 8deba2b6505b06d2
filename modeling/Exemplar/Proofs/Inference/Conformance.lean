import Exemplar.Proofs.Inference.Elements

/-!
# Examples conform to their schemas

`Conforms` says, by recursion on the value, when a value is one that a
field describes, and `infer_conforms` that the schema inferred from an
example describes the example – all of it: every item of every array
conforms to the one element that the array was merged into.

The items are merged one after the other, and what matters is that
nothing is taken back on the way: a value that conforms to a field
conforms to every more general one (`Conforms.mono`), and the element is
above all the items' fields.
-/

namespace Exemplar

namespace Inference

open Exemplar.Field

variable {view : OverrideView} {room : Nat} {name : Json} {path : String} {a b f : Field}
  {x : Json}

/-- **A value conforms to a field**, under a view and at a path.

`null` conforms to all fields; another leaf to the scalar of its kind and
to raw text; an array to a collection if its items conform to the element,
and to raw text. An object conforms to a map only: what is not left out
has an entry, and conforms to it unless its kind is forced, and nothing
that is required is absent. -/
inductive Conforms (view : OverrideView) : String → Json → Field → Prop where
  | null {path : String} {f : Field} : Conforms view path .null f
  | scalar {path : String} {x n : Json} {k : Kind} : Kind.ofScalar? x = some k →
      Conforms view path x (.scalar n k)
  | rawScalar {path : String} {x n : Json} {k : Kind} : Kind.ofScalar? x = some k →
      Conforms view path x (.scalar n .opaque_)
  | list {path : String} {items : List Json} {n : Json} {e : Field} :
      (∀ x ∈ items, Conforms view path x e) → Conforms view path (.arr items) (.collection n e)
  | rawList {path : String} {items : List Json} {n : Json} :
      Conforms view path (.arr items) (.scalar n .opaque_)
  | object {path : String} {ms : List (String × Json)} {n : Json} {es : List (Entry Field)} :
      (∀ m ∈ ms, view.isSkipped (.str (childPath path m.1)) = false → ∃ e ∈ es, e.key = m.1) →
      (∀ m ∈ ms, view.isSkipped (.str (childPath path m.1)) = false →
        view.forcedKind? (.str (childPath path m.1)) = none →
        ∀ e ∈ es, e.key = m.1 → Conforms view (childPath path m.1) m.2 e.field) →
      (∀ e ∈ es, e.required = true → ∃ m ∈ ms, m.1 = e.key) →
      Conforms view path (.obj ms) (.map n es)

/-- Only `null` is without shape. -/
theorem eq_null_of_ofScalar? (h : Kind.ofScalar? x = some .unknown) : x = .null := by
  cases x <;> simp_all [Kind.ofScalar?]

/-- **More general fields take more values.** -/
theorem Conforms.mono (h : Conforms view path x a) (hab : Below True a b) (hb : WellFormed b) :
    Conforms view path x b := by
  induction h generalizing b with
  | null => exact .null
  | scalar hk =>
    cases hab with
    | null => exact eq_null_of_ofScalar? hk ▸ .null
    | scalar => exact .scalar hk
    | rawScalar => exact .rawScalar hk
  | rawScalar hk => exact hab.eq_of_raw ▸ .rawScalar hk
  | rawList => exact hab.eq_of_raw ▸ .rawList
  | list _ ih =>
    cases hab with
    | rawCollection => exact .rawList
    | collection he => exact .list (fun x hx => ih x hx he hb)
  | @object path ms n es hthere _ hreq ih =>
    cases hab with
    | @map _ _ es' hentry hfield hlate =>
      obtain ⟨ho, -, hes⟩ := wellFormed_map_iff.mp hb
      -- A key that has an entry in the first map is found in both.
      have hfound : ∀ k, (∃ e ∈ es, e.key = k) → ∃ e e', entryAt? k es = some e
          ∧ entryAt? k es' = some e' := by
        rintro k ⟨d, hd, hk⟩
        cases he : entryAt? k es with
        | none => exact absurd hk (entryAt?_eq_none_iff.mp he d hd)
        | some e =>
          obtain ⟨e', he', -⟩ := hentry k e he
          exact ⟨e, e', rfl, he'⟩
      refine .object (fun m hm hskip => ?_) (fun m hm hskip hforced e' he' hk => ?_)
        (fun e' he' hr => ?_)
      · obtain ⟨_, e', -, he'⟩ := hfound m.1 (hthere m hm hskip)
        exact ⟨e', mem_of_entryAt? he', key_of_entryAt? he'⟩
      · obtain ⟨e, d, he, hd⟩ := hfound m.1 (hthere m hm hskip)
        have hd' : entryAt? m.1 es' = some e' := hk ▸ ho.entryAt?_of_mem he'
        exact ih m hm hskip hforced e (mem_of_entryAt? he) (key_of_entryAt? he)
          (hfield m.1 e e' he hd') (hes e' he')
      · have hd' : entryAt? e'.key es' = some e' := ho.entryAt?_of_mem he'
        cases he : entryAt? e'.key es with
        | none => exact absurd hr (by simp [hlate _ e' he hd'])
        | some e =>
          obtain ⟨d, hd, -, hreq'⟩ := hentry _ e he
          obtain rfl : d = e' := Option.some.inj (hd.symm.trans hd')
          obtain ⟨m, hm, hk⟩ := hreq e (mem_of_entryAt? he) (hreq' hr)
          exact ⟨m, hm, hk.trans (key_of_entryAt? he)⟩

/-- **A value conforms to what is inferred from it.** -/
theorem inferValue_conforms (h : (inferValue view room name path x).outcome = .ok f) :
    Conforms view path x f := by
  refine inferValue_induction (P := fun _ _ path x f => Conforms view path x f) ?leaf ?obj
    ?arr h
  case leaf =>
    intro _ _ _ _ _ hk
    exact .scalar hk
  case obj =>
    intro room name path ms es ih ho _ hes hok
    have hthere : ∀ m ∈ ms, view.isSkipped (.str (childPath path m.1)) = false →
        ∃ e ∈ es, (inferMember view room path m).outcome = .ok (some e) := by
      intro m hm hskip
      obtain ⟨o, hrun⟩ := hok m hm
      obtain ⟨e, rfl⟩ := exists_eq_some_of_inferMember hskip hrun
      exact ⟨e, (hes e).mpr ⟨m, hm, hrun⟩, hrun⟩
    refine .object (fun m hm hskip => ?_) (fun m hm hskip hforced d hd hk => ?_)
      (fun e he _ => ?_)
    · obtain ⟨e, he, hrun⟩ := hthere m hm hskip
      exact ⟨e, he, key_of_inferMember hrun⟩
    · obtain ⟨e, he, hrun⟩ := hthere m hm hskip
      -- Keys are distinct among the entries, whether or not they are in the object.
      have hde : d = e := by
        have hd' := ho.entryAt?_of_mem hd
        rw [hk, ← key_of_inferMember hrun, ho.entryAt?_of_mem he] at hd'
        exact (Option.some.inj hd').symm
      obtain ⟨-, -, hfield⟩ := inferMember_eq_some_iff.mp hrun
      rw [fieldAt, hforced] at hfield
      exact hde ▸ ih _ _ _ _ hfield
    · obtain ⟨m, hm, hrun⟩ := (hes e).mp he
      exact ⟨m, hm, (key_of_inferMember hrun).symm⟩
  case arr =>
    intro room name path items e ih he
    refine .list (fun x hx => ?_)
    obtain ⟨f, hf, hfe⟩ := inferElementWithin_above (.inl trivial) he hx
    exact (ih _ _ _ _ hf).mono hfe (inferElementWithin_obeys he).wellFormed

end Inference

open Inference

/-- **Inference is sound**: an example that is no raw text conforms to the
schema inferred from it, from the root on. -/
theorem infer_conforms {view : OverrideView} {name example_ : Json} {tree : Field}
    (hraw : isRaw example_ = false) (h : (infer view name example_).outcome = .ok tree) :
    Conforms view "" example_ tree := by
  simp only [infer, hraw, Bool.false_eq_true, if_false, Run.outcome_bind_eq_ok_iff,
    Run.outcome_mapFault_eq_ok_iff, Run.outcome_pure, Except.ok.injEq] at h
  obtain ⟨root, hroot, _, _, rfl⟩ := h
  exact inferValue_conforms hroot

/-- Rows with a number and a text as their `id`, and a `tag` in one of
them, conform to the one map they are merged into. -/
theorem infer_conforms_rows :
    let page : Json :=
      .obj [("rows", .arr [.obj [("tag", .null), ("id", .int 1)], .obj [("id", .str "a")]])]
    let tree : Field :=
      .map (.str "page") [⟨"rows", .str "Rows", .collection (.str "Rows") (.map (.str "Rows")
        [⟨"id", .str "Id", .scalar (.str "Id") .opaque_, true⟩,
          ⟨"tag", .str "Tag", .scalar (.str "Tag") .unknown, false⟩]), true⟩]
    isRaw page = false ∧ (infer .empty (.str "page") page).outcome = .ok tree
      ∧ Conforms .empty "" page tree := by
  intro page tree
  have hraw : isRaw page = false := by decide
  have hrows : Naming.toCamel "rows" = "Rows" := rfl
  have hid : Naming.toCamel "id" = "Id" := rfl
  have htag : Naming.toCamel "tag" = "Tag" := rfl
  have hinfer : (infer .empty (.str "page") page).outcome = .ok tree := by
    rw [OverrideView.empty, outcome_infer hraw (paths_nil ..)]
    simp +decide [page, tree, nestingRoom, inferValue, inferMembers, inKeyOrder, List.mergeSort,
      Run.sequence, Field.ofEntries_of_ordered, checkItems, itemClash?, mergeItems, Field.merge,
      Field.mergeEntries, Field.entryAt?, Field.childPath, Kind.widen, Except.bind, Except.mapError,
      hrows, hid, htag]
  exact ⟨hraw, hinfer, infer_conforms hraw hinfer⟩

end Exemplar
