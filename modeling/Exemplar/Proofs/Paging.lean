import Exemplar.Paging
import Exemplar.Proofs.Inference.Steps

/-!
# Position and payload

The position of a response in the pages and its payload should share
nothing: what the source of the position refers to is no part of the
payload. The source is looked for by accessor if it is an object, and by
key if it is flattened, while the payload leaves out keys. In a schema that
was inferred an accessor belongs to one key, so a flattened position never
comes back in the payload. A nested one does, if its accessor belongs to a
key that has nothing to do with paging – and that is the only way
(`projection_overlap_iff`).
-/

namespace Exemplar

open Exemplar.Field

variable {view : OverrideView} {name example_ : Json} {tree payload : Field}
  {es : List (Entry Field)} {e : Entry Field} {source : PagingSource} {r : Option PagingSource}

/-! ## Entries by their accessors -/

/-- A value equals a text exactly if it is that text. -/
theorem Json.equals_str_iff {v : Json} {s : String} : v.equals (.str s) = true ↔ v = .str s := by
  rw [Json.equals, Bool.and_eq_true, decide_eq_true_eq, Json.key_str, Json.key_eq_str_iff]
  refine and_iff_left_of_imp ?_
  rintro rfl
  rfl

namespace Field

/-- An entry that is found by its accessor stands in the map and has it. -/
theorem of_entryOf?_str {accessor : String} (h : entryOf? (.str accessor) es = some e) :
    e ∈ es ∧ e.accessor = .str accessor := by
  rw [entryOf?] at h
  exact ⟨List.mem_of_find?_eq_some h,
    Json.equals_str_iff.mp (by simpa using List.find?_some h)⟩

/-- None is found exactly where no entry has the accessor. -/
theorem entryOf?_str_eq_none_iff {accessor : String} :
    entryOf? (.str accessor) es = none ↔ ∀ e ∈ es, e.accessor ≠ .str accessor := by
  simp only [entryOf?, List.find?_eq_none, Json.equals_str_iff]

/-- **An accessor belongs to one entry** of an ordered and unambiguous
map. -/
theorem eq_of_accessor_key_eq (ho : Ordered es) (hu : Unambiguous es) {a b : Entry Field}
    (ha : a ∈ es) (hb : b ∈ es) (h : a.accessor.key = b.accessor.key) : a = b := by
  have hkey := ((unambiguous_iff_distinguishes ho.nodup).mp hu).1 a ha b hb h
  have hfound := ho.entryAt?_of_mem ha
  rw [hkey, ho.entryAt?_of_mem hb] at hfound
  exact (Option.some.inj hfound).symm

end Field

/-! ## Sources and payloads -/

/-- **An entry that a source refers to**, by its accessor. -/
def PagingSource.RefersTo (source : PagingSource) (e : Entry Field) : Prop :=
  ∃ a ∈ source.accessors, e.accessor.key = a.key

namespace Paging

@[simp]
theorem outcome_noteMissing (name : Json) (key : String) :
    (noteMissing name key).outcome = .ok none := rfl

/-- Looking for a source never fails. -/
theorem exists_outcome_source? (f : Field) : ∃ r, (source? f).outcome = .ok r := by
  cases f with
  | map n es =>
    rw [source?]
    split
    · exact ⟨_, Run.outcome_pure _⟩
    · split
      · exact ⟨_, Run.outcome_pure _⟩
      all_goals exact ⟨_, outcome_noteMissing _ _⟩
  | _ => exact ⟨none, rfl⟩

/-- **Where a source is found**: an entry with the nested accessor, or else
the entries of all three flattened keys. -/
theorem source?_map_eq_some (h : (source? (.map name es)).outcome = .ok (some source)) :
    (∃ e ∈ es, e.accessor = .str nestedAccessor ∧ source = .nested e.accessor e.field)
    ∨ (∀ e ∈ es, e.accessor ≠ .str nestedAccessor) ∧ ∃ p ∈ es, ∃ ps ∈ es, ∃ total ∈ es,
        p.key = indexKey ∧ ps.key = sizeKey ∧ total.key = totalKey
        ∧ source = .flattened p.accessor ps.accessor total.accessor := by
  rw [source?] at h
  cases hnested : entryOf? (.str nestedAccessor) es with
  | some e =>
    obtain ⟨he, hacc⟩ := of_entryOf?_str hnested
    simp only [hnested, Run.outcome_pure, Except.ok.injEq, Option.some.injEq] at h
    exact .inl ⟨e, he, hacc, h.symm⟩
  | none =>
    simp only [hnested] at h
    split at h
    · next p ps total hp hps htotal =>
      rw [Run.outcome_pure, Except.ok.injEq, Option.some.injEq] at h
      exact .inr ⟨entryOf?_str_eq_none_iff.mp hnested, p, mem_of_entryAt? hp, ps,
        mem_of_entryAt? hps, total, mem_of_entryAt? htotal, key_of_entryAt? hp,
        key_of_entryAt? hps, key_of_entryAt? htotal, h.symm⟩
    all_goals simp at h

/-- **The payload of a map** that is ordered and unambiguous: its entries but
those of paging. -/
theorem outcome_payload?_map (ho : Ordered es) (hu : Unambiguous es) (name : Json)
    (newName : Option Json) : (payload? newName (.map name es)).outcome
      = .ok (some (.map (newName.getD name) (es.filter fun e => e.key ∉ keys))) := by
  rw [payload?, withoutKeys_eq_ok ho hu]
  simp only [Run.outcome_bind, Run.outcome_ofExcept, Except.bind]
  split <;> rfl

end Paging

namespace Projection

variable {newName : Option Json} {p : Projection}

/-- **Projecting a response** gives its source and its payload. -/
theorem of_eq_ok_iff : (Projection.of tree newName true).outcome = .ok p ↔
    (Paging.source? tree).outcome = .ok p.source
      ∧ (Paging.payload? newName tree).outcome = .ok p.payload := by
  simp only [Projection.of, if_true, Run.outcome_bind_eq_ok_iff, Run.outcome_pure,
    Except.ok.injEq]
  constructor
  · rintro ⟨_, hsource, _, hpayload, rfl⟩
    exact ⟨hsource, hpayload⟩
  · rintro ⟨hsource, hpayload⟩
    exact ⟨_, hsource, _, hpayload, rfl⟩

/-- Projecting a response never fails, if the response is well formed. -/
theorem exists_outcome_of (h : WellFormed tree) (newName : Option Json) :
    ∃ p, (Projection.of tree newName true).outcome = .ok p := by
  obtain ⟨source, hsource⟩ := Paging.exists_outcome_source? tree
  have hpayload : ∃ payload, (Paging.payload? newName tree).outcome = .ok payload := by
    cases tree with
    | map n es =>
      obtain ⟨ho, hu, -⟩ := wellFormed_map_iff.mp h
      exact ⟨_, Paging.outcome_payload?_map ho hu n newName⟩
    | _ => exact ⟨none, rfl⟩
  obtain ⟨payload, hpayload⟩ := hpayload
  exact ⟨⟨source, payload⟩, of_eq_ok_iff.mpr ⟨hsource, hpayload⟩⟩

/-- A response with a position in the pages is a map. -/
theorem exists_eq_map_of_source (h : (Paging.source? tree).outcome = .ok (some source)) :
    ∃ name es, tree = .map name es := by
  cases tree with
  | map name es => exact ⟨name, es, rfl⟩
  | _ => simp [Paging.source?, Except.bind] at h

/-- **What comes back in the payload.** An entry of the payload that the
source refers to is the one with the nested accessor, under a key that is
none of paging. -/
theorem overlap_iff (ho : Ordered es) (hu : Unambiguous es)
    (hsource : (Paging.source? (.map name es)).outcome = .ok (some source)) :
    (∃ e ∈ es.filter (fun e => e.key ∉ Paging.keys), source.RefersTo e) ↔
      ∃ e ∈ es, e.accessor = .str Paging.nestedAccessor ∧ e.key ∉ Paging.keys := by
  rcases Paging.source?_map_eq_some hsource with ⟨d, -, hd, rfl⟩
    | ⟨hnone, p, hp, ps, hps, total, htotal, hpk, hpsk, htk, rfl⟩
  · simp only [PagingSource.RefersTo, PagingSource.accessors, hd, List.mem_singleton,
      exists_eq_left, Json.key_str, Json.key_eq_str_iff, List.mem_filter, decide_eq_true_eq]
    exact exists_congr fun e => by tauto
  · refine iff_of_false ?_ fun ⟨e, he, hacc, _⟩ => hnone e he hacc
    rintro ⟨e, he, a, ha, hkey⟩
    obtain ⟨hmem, hleft⟩ := List.mem_filter.mp he
    refine of_decide_eq_true hleft ?_
    -- The accessor belongs to one entry, and that has a key of paging.
    simp only [PagingSource.accessors, List.mem_cons, List.not_mem_nil, or_false] at ha
    rcases ha with rfl | rfl | rfl
    · rw [eq_of_accessor_key_eq ho hu hmem hp hkey, hpk]
      decide
    · rw [eq_of_accessor_key_eq ho hu hmem hps hkey, hpsk]
      decide
    · rw [eq_of_accessor_key_eq ho hu hmem htotal hkey, htk]
      decide

end Projection

/-- **When position and payload overlap.** An inferred schema can always be
projected. Where it has both a source and a payload, no entry of the payload
is one that a flattened source refers to; and one that a nested source refers
to is there exactly if the schema has the nested accessor for a key that is
none of paging. -/
theorem projection_overlap_iff (view : OverrideView) (name example_ : Json) (tree : Field)
    (h : (infer view name example_).outcome = .ok tree) (newName : Option Json) :
    ∃ p, (Projection.of tree newName true).outcome = .ok p
      ∧ ∀ source payload, p.source = some source → p.payload = some payload →
        (source.isNested = false → ∀ e ∈ payload.entries, ¬ source.RefersTo e)
        ∧ ((∃ e ∈ payload.entries, source.RefersTo e) ↔
          ∃ e ∈ tree.entries, e.accessor = .str Paging.nestedAccessor
            ∧ e.key ∉ Paging.keys) := by
  have hwell := (infer_obeys h).wellFormed
  obtain ⟨p, hp⟩ := Projection.exists_outcome_of hwell newName
  refine ⟨p, hp, fun source payload hsource hpayload => ?_⟩
  obtain ⟨hs, hl⟩ := Projection.of_eq_ok_iff.mp hp
  rw [hsource] at hs
  obtain ⟨name, es, rfl⟩ := Projection.exists_eq_map_of_source hs
  obtain ⟨ho, hu, -⟩ := wellFormed_map_iff.mp hwell
  rw [Paging.outcome_payload?_map ho hu, hpayload, Except.ok.injEq, Option.some.injEq] at hl
  subst hl
  have hiff := Projection.overlap_iff ho hu hs
  refine ⟨fun hflat e he href => ?_, hiff⟩
  obtain ⟨d, hd, hacc, -⟩ := hiff.mp ⟨e, he, href⟩
  rcases Paging.source?_map_eq_some hs with ⟨_, -, -, rfl⟩ | ⟨hnone, -⟩
  · nomatch hflat
  · exact hnone d hd hacc

open Inference in
/-- Of a response with a flattened position the payload keeps the rest. -/
theorem projection_overlap_flattened :
    let page : Json := .obj [("issues", .arr [.str "a"]), ("p", .int 1), ("ps", .int 50),
      ("total", .int 1)]
    let issues : Entry Field :=
      ⟨"issues", .str "Issues", .collection (.str "Issues") (.scalar (.str "Issues") .string),
        true⟩
    let number (key name : String) : Entry Field :=
      ⟨key, .str name, .scalar (.str name) .number, true⟩
    let tree : Field := .map (.str "SearchResponse")
      [issues, number "p" "P", number "ps" "Ps", number "total" "Total"]
    (infer .empty (.str "SearchResponse") page).outcome = .ok tree
    ∧ ∃ p, (Projection.of tree (some (.str "SearchResponseAll")) true).outcome = .ok p
      ∧ ∀ source payload, p.source = some source → p.payload = some payload →
        (source.isNested = false → ∀ e ∈ payload.entries, ¬ source.RefersTo e)
        ∧ ((∃ e ∈ payload.entries, source.RefersTo e) ↔
          ∃ e ∈ tree.entries, e.accessor = .str Paging.nestedAccessor
            ∧ e.key ∉ Paging.keys) := by
  intro page issues number tree
  have hissues : Naming.toCamel "issues" = "Issues" := rfl
  have hp : Naming.toCamel "p" = "P" := rfl
  have hps : Naming.toCamel "ps" = "Ps" := rfl
  have htotal : Naming.toCamel "total" = "Total" := rfl
  have hinfer : (infer .empty (.str "SearchResponse") page).outcome = .ok tree := by
    rw [OverrideView.empty, outcome_infer rfl (paths_nil ..)]
    simp +decide [page, issues, number, tree, nestingRoom, inferValue, inferMembers, inKeyOrder,
      List.mergeSort, Run.sequence, ofEntries_of_ordered, checkItems, itemClash?, mergeItems,
      Except.bind, Except.mapError, hissues, hp, hps, htotal]
  exact ⟨hinfer, projection_overlap_iff .empty _ page tree hinfer _⟩

open Inference in
/-- **A position that stays in the payload**: its key starts with a capital,
so it has the accessor of a nested position and not the key of one. -/
theorem projection_overlap_capital :
    let page : Json := .obj [
      ("Paging", .obj [("pageIndex", .int 1), ("pageSize", .int 50), ("total", .int 3)]),
      ("components", .arr [.obj [("key", .str "a")]])]
    let number (key name : String) : Entry Field :=
      ⟨key, .str name, .scalar (.str name) .number, true⟩
    let position : Field := .map (.str "Paging") [number "pageIndex" "PageIndex",
      number "pageSize" "PageSize", number "total" "Total"]
    let paging : Entry Field := ⟨"Paging", .str "Paging", position, true⟩
    let components : Entry Field := ⟨"components", .str "Components",
      .collection (.str "Components") (.map (.str "Components")
        [⟨"key", .str "Key", .scalar (.str "Key") .string, true⟩]), true⟩
    let tree : Field := .map (.str "SearchResponse") [paging, components]
    let source : PagingSource := .nested (.str "Paging") position
    let payload : Field := .map (.str "SearchResponseAll") [paging, components]
    (infer .empty (.str "SearchResponse") page).outcome = .ok tree
    ∧ (Projection.of tree (some (.str "SearchResponseAll")) true).outcome
        = .ok ⟨some source, some payload⟩
    ∧ paging ∈ payload.entries ∧ source.RefersTo paging := by
  intro page number position paging components tree source payload
  have hpaging : Naming.toCamel "Paging" = "Paging" := rfl
  have hcomponents : Naming.toCamel "components" = "Components" := rfl
  have hindex : Naming.toCamel "pageIndex" = "PageIndex" := rfl
  have hsize : Naming.toCamel "pageSize" = "PageSize" := rfl
  have htotal : Naming.toCamel "total" = "Total" := rfl
  have hkey : Naming.toCamel "key" = "Key" := rfl
  have hinfer : (infer .empty (.str "SearchResponse") page).outcome = .ok tree := by
    rw [OverrideView.empty, outcome_infer rfl (paths_nil ..)]
    simp +decide [page, number, position, paging, components, tree, nestingRoom, inferValue,
      inferMembers, inKeyOrder, List.mergeSort, Run.sequence, ofEntries_of_ordered, checkItems,
      itemClash?, mergeItems, Except.bind, Except.mapError, hpaging, hcomponents, hindex, hsize,
      htotal, hkey]
  have ho : Ordered [paging, components] := by decide
  have hu : Unambiguous [paging, components] := by decide
  refine ⟨hinfer, ?_, List.mem_cons_self, _, List.mem_singleton.mpr rfl, rfl⟩
  exact Projection.of_eq_ok_iff.mpr ⟨rfl, Paging.outcome_payload?_map ho hu _ _⟩

end Exemplar
