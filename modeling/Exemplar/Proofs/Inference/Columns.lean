import Exemplar.Proofs.Inference.Elements
import Exemplar.Proofs.Json

/-!
# Rows and columns

Items that are objects, or `null`, are the rows of a table, and the values
of one key in them are a column. The rows are merged one after the other,
whole trees at a time, with keys that appear late and keys that are
missing now and then. The result is nevertheless that of the columns, each
inferred by itself (`inferElementWithin_rows`): there is an element
exactly if each column has one and no two columns share an accessor, and
it is the map of the columns.

An object takes one level of nesting, so what the rows may nest, less one,
is what the columns may.
-/

namespace Exemplar

namespace Inference

open Exemplar.Field

variable {view : OverrideView} {room : Nat} {name : Json} {path k : String} {c f : Field}
  {x v : Json} {items : List Json} {ms : List (String × Json)} {o o' : Option (Entry Field)}

/-! ## Columns -/

/-- **Rows**: every item is `null`, or an object with distinct keys. -/
def AreRows (items : List Json) : Prop :=
  ∀ x ∈ items, x = .null ∨ ∃ ms, x = .obj ms ∧ (ms.map Prod.fst).Nodup

/-- **The column of a key**: its values in the rows that have it. -/
def column (key : String) (items : List Json) : List Json :=
  items.filterMap fun
    | .obj ms => Json.find? key ms
    | _ => none

/-- No row that is an object lacks the key. -/
def alwaysHas (key : String) (items : List Json) : Bool :=
  items.all fun
    | .obj ms => (Json.find? key ms).isSome
    | _ => true

/-- A key with a column: some row has it, and it is not left out. -/
def IsColumn (view : OverrideView) (path : String) (items : List Json) (key : String) : Prop :=
  view.isSkipped (.str (childPath path key)) = false
    ∧ ∃ ms, .obj ms ∈ items ∧ key ∈ ms.map Prod.fst

/-- **The field of a column**: the forced scalar, or the element of the
column's values. -/
def columnField (view : OverrideView) (room : Nat) (path : String) (items : List Json)
    (key : String) : Run Field :=
  let name := accessor view key (childPath path key)
  match view.forcedKind? (.str (childPath path key)) with
  | some kind => pure (.scalar name kind)
  | none => inferElementWithin view room name (childPath path key) (column key items)

/-- The entry of a column, required if no row lacks it and no rule says
otherwise. -/
def columnEntry (view : OverrideView) (path : String) (items : List Json) (key : String)
    (field : Field) : Entry Field where
  key
  accessor := accessor view key (childPath path key)
  field
  required := alwaysHas key items && !view.isOptional (.str (childPath path key))

/-- The keys with a column are those whose column is not empty. -/
theorem isColumn_iff : IsColumn view path items k ↔
    view.isSkipped (.str (childPath path k)) = false ∧ column k items ≠ [] := by
  refine and_congr_right (fun _ => ?_)
  simp only [column, ne_eq, List.filterMap_eq_nil_iff, not_forall]
  constructor
  · rintro ⟨ms, hms, hk⟩
    exact ⟨.obj ms, hms, fun hfind => Json.find?_eq_none_iff.mp hfind hk⟩
  · rintro ⟨x, hx, hfind⟩
    cases x with
    | obj ms => exact ⟨ms, hx, by_contra fun hk => hfind (Json.find?_eq_none_iff.mpr hk)⟩
    | _ => exact absurd rfl hfind

/-- What a table has at a key. -/
def TableEntry (view : OverrideView) (room : Nat) (path : String) (items : List Json)
    (key : String) : Option (Entry Field) → Prop
  | none => ¬ IsColumn view path items key
  | some e => IsColumn view path items key ∧ ∃ f,
      (columnField view room path items key).outcome = .ok f
        ∧ e = columnEntry view path items key f

/-! ## One more row -/

@[simp] theorem column_concat_null (key : String) (items : List Json) :
    column key (items ++ [.null]) = column key items := by
  simp [column]

@[simp] theorem column_concat_obj (key : String) (items : List Json)
    (ms : List (String × Json)) :
    column key (items ++ [.obj ms]) = column key items ++ (Json.find? key ms).toList := by
  cases h : Json.find? key ms <;> simp [column, h]

@[simp] theorem alwaysHas_concat_null (key : String) (items : List Json) :
    alwaysHas key (items ++ [.null]) = alwaysHas key items := by
  simp [alwaysHas]

@[simp] theorem alwaysHas_concat_obj (key : String) (items : List Json)
    (ms : List (String × Json)) :
    alwaysHas key (items ++ [.obj ms])
      = (alwaysHas key items && (Json.find? key ms).isSome) := by
  simp [alwaysHas]

/-- Without objects there are no columns. -/
theorem column_eq_nil (h : ∀ ms, .obj ms ∉ items) : column k items = [] := by
  refine List.filterMap_eq_nil_iff.mpr (fun x hx => ?_)
  cases x with
  | obj ms => exact absurd hx (h ms)
  | _ => rfl

/-- Without objects no row lacks anything. -/
theorem alwaysHas_eq_true (h : ∀ ms, .obj ms ∉ items) : alwaysHas k items = true := by
  refine List.all_eq_true.mpr (fun x hx => ?_)
  cases x with
  | obj ms => exact absurd hx (h ms)
  | _ => rfl

/-- An empty column is one that some row lacks, if there are objects. -/
theorem alwaysHas_eq_false (h : .obj ms ∈ items) (hc : column k items = []) :
    alwaysHas k items = false := by
  refine List.all_eq_false.mpr ⟨.obj ms, h, ?_⟩
  have hfind := List.filterMap_eq_nil_iff.mp hc (.obj ms) h
  simp only at hfind
  simp [hfind]

/-- A column stays one when a row is added. -/
theorem IsColumn.concat (h : IsColumn view path items k) :
    IsColumn view path (items ++ [x]) k := by
  obtain ⟨hskip, ms, hms, hk⟩ := h
  exact ⟨hskip, ms, List.mem_append_left _ hms, hk⟩

/-- A key of the last object that is not left out has a column. -/
theorem isColumn_of_find? (hskip : view.isSkipped (.str (childPath path k)) = false)
    (hv : Json.find? k ms = some v) : IsColumn view path (items ++ [.obj ms]) k :=
  isColumn_iff.mpr ⟨hskip, by simp [hv]⟩

/-- **One more value in a column** takes one more merge. -/
theorem columnField_concat_obj_iff (hv : Json.find? k ms = some v) :
    (columnField view room path (items ++ [.obj ms]) k).outcome = .ok c ↔
      ∃ a b, (columnField view room path items k).outcome = .ok a
        ∧ (fieldAt view room (accessor view k (childPath path k)) (childPath path k) v).outcome
          = .ok b
        ∧ Merges a b c := by
  unfold columnField fieldAt
  cases view.forcedKind? (.str (childPath path k)) with
  | some kind =>
    simp only [Run.outcome_pure, Except.ok.injEq]
    constructor
    · rintro rfl
      exact ⟨_, _, rfl, rfl, merges_scalar_self_iff.mpr rfl⟩
    · rintro ⟨_, _, rfl, rfl, h⟩
      exact (merges_scalar_self_iff.mp h).symm
  | none =>
    simp only [column_concat_obj, hv, Option.toList_some]
    exact inferElementWithin_concat_eq_ok_iff

/-- The first value of a column is all there is to it. -/
theorem columnField_first (hc : column k items = []) (hv : Json.find? k ms = some v)
    (hf : (fieldAt view room (accessor view k (childPath path k)) (childPath path k) v).outcome
      = .ok f) :
    (columnField view room path (items ++ [.obj ms]) k).outcome = .ok f := by
  rw [columnField_concat_obj_iff hv]
  unfold fieldAt at hf
  unfold columnField fieldAt
  cases hforced : view.forcedKind? (.str (childPath path k)) with
  | some kind =>
    rw [hforced] at hf
    refine ⟨f, f, hf, hf, ?_⟩
    rw [← Except.ok.inj hf]
    exact merges_scalar_self_iff.mpr rfl
  | none =>
    rw [hforced] at hf
    simp only [hc]
    exact ⟨_, f, outcome_inferElementWithin_nil .., hf, merges_unknown_iff.mpr rfl⟩

/-! ## What an object adds -/

/-- What an object has at a key. -/
def MemberEntry (view : OverrideView) (room : Nat) (path : String) (ms : List (String × Json))
    (key : String) : Option (Entry Field) → Prop
  | none => view.isSkipped (.str (childPath path key)) = true ∨ Json.find? key ms = none
  | some e => view.isSkipped (.str (childPath path key)) = false ∧ ∃ v f,
      Json.find? key ms = some v ∧ e = entryFor view path key f
        ∧ (fieldAt view room (accessor view key (childPath path key)) (childPath path key)
          v).outcome = .ok f

/-- The map of an object, read key by key. -/
theorem memberEntry_of_inferValue (hn : (ms.map Prod.fst).Nodup)
    (h : (inferValue view (room + 1) name path (.obj ms)).outcome = .ok f) :
    ∃ es, f = .map name es ∧ Ordered es ∧ Unambiguous es
      ∧ ∀ k, MemberEntry view room path ms k (entryAt? k es) := by
  obtain ⟨es, rfl, ho, hu, hes, hok⟩ := inferValue_obj_ok h
  refine ⟨es, rfl, ho, hu, fun k => ?_⟩
  cases he : entryAt? k es with
  | none =>
    show view.isSkipped (.str (childPath path k)) = true ∨ Json.find? k ms = none
    cases hskip : view.isSkipped (.str (childPath path k)) with
    | true => exact .inl rfl
    | false =>
      refine .inr (Option.eq_none_iff_forall_ne_some.mpr (fun v hv => ?_))
      -- A key that is there and not left out would have an entry.
      have hm := Json.mem_of_find? hv
      obtain ⟨o, hrun⟩ := hok (k, v) hm
      obtain ⟨e, rfl⟩ := exists_eq_some_of_inferMember hskip hrun
      exact entryAt?_eq_none_iff.mp he e ((hes e).mpr ⟨_, hm, hrun⟩) (key_of_inferMember hrun)
  | some e =>
    obtain ⟨⟨l, v⟩, hm, hrun⟩ := (hes e).mp (mem_of_entryAt? he)
    obtain rfl : k = l := (key_of_entryAt? he).symm.trans (key_of_inferMember hrun)
    obtain ⟨hskip, hentry, hfield⟩ := inferMember_eq_some_iff.mp hrun
    rw [hentry] at hfield
    exact ⟨hskip, v, e.field, (Json.find?_eq_some_iff hn).mpr hm, hentry, hfield⟩

/-- **An object joins a table**, key by key. -/
theorem TableEntry.join (h : TableEntry view room path items k o)
    (h' : MemberEntry view room path ms k o') (hobj : ∃ ms, .obj ms ∈ items)
    (hf : ∀ e e', o = some e → o' = some e' → Merges e.field e'.field f) :
    TableEntry view room path (items ++ [.obj ms]) k (joinEntry f o o') := by
  obtain ⟨ns, hns⟩ := hobj
  cases o with
  | none =>
    cases o' with
    | none =>
      intro hk
      obtain ⟨hskip, hc⟩ := isColumn_iff.mp hk
      have hv : Json.find? k ms = none := h'.resolve_left (by simp [hskip])
      exact h (isColumn_iff.mpr ⟨hskip, by simpa [hv] using hc⟩)
    | some e' =>
      -- The key is new, so the objects before lack it, and there are some.
      obtain ⟨hskip, v, g, hv, rfl, hg⟩ := h'
      have hc : column k items = [] := by_contra fun hc => h (isColumn_iff.mpr ⟨hskip, hc⟩)
      refine ⟨isColumn_of_find? hskip hv, g, columnField_first hc hv hg, ?_⟩
      simp [columnEntry, Field.optional, entryFor, alwaysHas_eq_false hns hc]
  | some e =>
    obtain ⟨hk, g, hg, rfl⟩ := h
    cases o' with
    | none =>
      -- The object lacks the key, which is required no longer.
      have hv : Json.find? k ms = none := h'.resolve_left (by simp [hk.1])
      refine ⟨hk.concat, g, ?_, ?_⟩
      · simpa [columnField, hv] using hg
      · simp [columnEntry, Field.optional, hv]
    | some e' =>
      obtain ⟨-, v, g', hv, rfl, hg'⟩ := h'
      refine ⟨hk.concat, f, ?_, ?_⟩
      · exact (columnField_concat_obj_iff hv).mpr ⟨g, g', hg, hg', hf _ _ rfl rfl⟩
      · simp [columnEntry, entryFor, hv]

/-- The first object makes the table. -/
theorem TableEntry.first (h : MemberEntry view room path ms k o)
    (hobj : ∀ ms, .obj ms ∉ items) :
    TableEntry view room path (items ++ [.obj ms]) k o := by
  cases o with
  | none =>
    intro hk
    obtain ⟨hskip, hc⟩ := isColumn_iff.mp hk
    have hv : Json.find? k ms = none := h.resolve_left (by simp [hskip])
    simp [column_eq_nil hobj, hv] at hc
  | some e =>
    obtain ⟨hskip, v, g, hv, rfl, hg⟩ := h
    refine ⟨isColumn_of_find? hskip hv, g, columnField_first (column_eq_nil hobj) hv hg, ?_⟩
    simp [columnEntry, entryFor, hv, alwaysHas_eq_true hobj]

/-- Rows without the last one are rows, and the last one is a row. -/
theorem areRows_concat_iff : AreRows (items ++ [x]) ↔
    AreRows items ∧ (x = .null ∨ ∃ ms, x = .obj ms ∧ (ms.map Prod.fst).Nodup) := by
  simp [AreRows, or_imp, forall_and]

/-- `null` among the rows changes nothing. -/
theorem tableEntry_concat_null_iff :
    TableEntry view room path (items ++ [.null]) k o ↔ TableEntry view room path items k o := by
  cases o <;> simp [TableEntry, isColumn_iff, columnField, columnEntry]

/-! ## The table -/

/-- **The table of some rows**: a map of the columns, or a field without
shape as long as there is no object. -/
inductive IsTable (view : OverrideView) (room : Nat) (name : Json) (path : String)
    (items : List Json) : Field → Prop where
  | unknown : (∀ ms, .obj ms ∉ items) → IsTable view room name path items (.scalar name .unknown)
  | map {es : List (Entry Field)} : (∃ ms, .obj ms ∈ items) → Ordered es → Unambiguous es →
      (∀ k, TableEntry view room path items k (entryAt? k es)) →
      IsTable view room name path items (.map name es)

/-- **A column has an entry in the table.** -/
theorem TableEntry.exists_entry {es : List (Entry Field)}
    (h : TableEntry view room path items k (entryAt? k es)) (hk : IsColumn view path items k) :
    ∃ f, (columnField view room path items k).outcome = .ok f
      ∧ entryAt? k es = some (columnEntry view path items k f) := by
  cases he : entryAt? k es with
  | none =>
    rw [he] at h
    exact absurd hk h
  | some e =>
    rw [he] at h
    obtain ⟨-, f, hf, rfl⟩ := h
    exact ⟨f, hf, rfl⟩

/-- **An entry of the table is that of a column.** -/
theorem TableEntry.of_mem {es : List (Entry Field)} {e : Entry Field} (ho : Ordered es)
    (h : ∀ k, TableEntry view room path items k (entryAt? k es)) (he : e ∈ es) :
    IsColumn view path items e.key ∧ e = columnEntry view path items e.key e.field
      ∧ (columnField view room path items e.key).outcome = .ok e.field := by
  have hte := h e.key
  rw [ho.entryAt?_of_mem he] at hte
  obtain ⟨hk, f, hf, hentry⟩ := hte
  obtain rfl : e.field = f := congrArg Entry.field hentry
  exact ⟨hk, hentry, hf⟩

/-- `null` makes no difference to a table. -/
theorem IsTable.concat_null (h : IsTable view room name path items c) :
    IsTable view room name path (items ++ [.null]) c := by
  cases h with
  | unknown hobj => exact .unknown (by simpa using hobj)
  | map hobj ho hu ht =>
    exact .map (by simpa using hobj) ho hu (fun k => tableEntry_concat_null_iff.mpr (ht k))

/-- **One more object** is merged into the table column by column. -/
theorem IsTable.concat_obj {a b : Field} (hn : (ms.map Prod.fst).Nodup)
    (ha : IsTable view room name path items a)
    (hb : (inferValue view (room + 1) name path (.obj ms)).outcome = .ok b)
    (hc : Merges a b c) : IsTable view room name path (items ++ [.obj ms]) c := by
  obtain ⟨bs, rfl, hob, hub, hmem⟩ := memberEntry_of_inferValue hn hb
  cases ha with
  | unknown hobj =>
    rw [merges_unknown_iff.mp hc]
    exact .map ⟨ms, by simp⟩ hob hub (fun k => .first (hmem k) hobj)
  | map hobj hoa _ ht =>
    cases hc with
    | nullFirst h => nomatch h
    | nullSecond _ h => nomatch h
    | raw _ _ h => exact absurd rfl h
    | maps fields hmerge hms hu hk =>
      refine .map ⟨ms, by simp⟩ hms hu (fun k => ?_)
      rw [hk]
      exact (ht k).join (hmem k) hobj (fun e e' => hmerge k e e')

/-- **The element of rows is their table.** -/
theorem isTable_of_inferElementWithin (hrows : AreRows items)
    (h : (inferElementWithin view (room + 1) name path items).outcome = .ok c) :
    IsTable view room name path items c := by
  induction items using List.reverseRecOn generalizing c with
  | nil =>
    rw [outcome_inferElementWithin_nil, Except.ok.injEq] at h
    exact h ▸ .unknown (by simp)
  | append_singleton items x ih =>
    -- The table of the rows before, and one merge with what the last row is.
    obtain ⟨hrows, hx⟩ := areRows_concat_iff.mp hrows
    obtain ⟨a, b, ha, hb, hc⟩ := inferElementWithin_concat_eq_ok_iff.mp h
    have hta := ih hrows ha
    rcases hx with rfl | ⟨ms, rfl, hn⟩
    · rw [outcome_inferValue_of_kind rfl, Except.ok.injEq] at hb
      have hca : c = a := by
        rw [← hb] at hc
        cases hta with
        | unknown => exact merges_unknown_iff.mp hc
        | map =>
          cases hc with
          | nullFirst hnull => nomatch hnull
          | nullSecond => rfl
          | raw _ hnull => nomatch hnull
      exact hca ▸ hta.concat_null
    · exact hta.concat_obj hn hb hc

/-! ## When there is a table -/

/-- **Columns that can stand side by side**: no two have one accessor, and
each accessor can be a key. What a rule renames to may be no text, and is
then compared by its key; of texts nothing is asked but to be distinct. -/
def ColumnsDistinguished (view : OverrideView) (path : String) (items : List Json) : Prop :=
  (∀ k l, IsColumn view path items k → IsColumn view path items l →
    (accessor view k (childPath path k)).key = (accessor view l (childPath path l)).key → k = l)
    ∧ ∀ k, IsColumn view path items k →
      (accessor view k (childPath path k)).isContainer = false

/-- Entries for columns tell their keys apart. -/
theorem ColumnsDistinguished.distinguishes {es : List (Entry Field)}
    (h : ColumnsDistinguished view path items)
    (hes : ∀ e ∈ es, IsColumn view path items e.key
      ∧ e.accessor = accessor view e.key (childPath path e.key)) : Distinguishes es := by
  refine ⟨fun a ha b hb hab => ?_, fun a ha => ?_⟩
  · obtain ⟨hca, haa⟩ := hes a ha
    obtain ⟨hcb, hba⟩ := hes b hb
    rw [haa, hba] at hab
    exact h.1 a.key b.key hca hcb hab
  · obtain ⟨hca, haa⟩ := hes a ha
    rw [haa]
    exact h.2 a.key hca

/-- The columns of fewer rows have their elements too. -/
theorem exists_columnField_of_concat
    (h : ∃ g, (columnField view room path (items ++ [x]) k).outcome = .ok g)
    (hx : x = .null ∨ ∃ ms, x = .obj ms ∧ (ms.map Prod.fst).Nodup) :
    ∃ g, (columnField view room path items k).outcome = .ok g := by
  obtain ⟨g, hg⟩ := h
  rcases hx with rfl | ⟨ms, rfl, -⟩
  · exact ⟨g, by simpa [columnField] using hg⟩
  · cases hv : Json.find? k ms with
    | none => exact ⟨g, by simpa [columnField, hv] using hg⟩
    | some v =>
      obtain ⟨a, -, ha, -⟩ := (columnField_concat_obj_iff hv).mp hg
      exact ⟨a, ha⟩

/-- An object has a map where the columns that it is in have fields. -/
theorem exists_inferValue_of_columns (hn : (ms.map Prod.fst).Nodup)
    (hcol : ∀ k, IsColumn view path (items ++ [.obj ms]) k →
      ∃ g, (columnField view room path (items ++ [.obj ms]) k).outcome = .ok g)
    (hd : ColumnsDistinguished view path (items ++ [.obj ms])) :
    ∃ b, (inferValue view (room + 1) name path (.obj ms)).outcome = .ok b := by
  refine exists_inferValue_obj hn (fun m hm => ?_) (fun es hes => ?_)
  · cases hskip : view.isSkipped (.str (childPath path m.1)) with
    | true => exact ⟨none, outcome_inferMember_of_skipped hskip⟩
    | false =>
      have hv : Json.find? m.1 ms = some m.2 := (Json.find?_eq_some_iff hn).mpr hm
      obtain ⟨g, hg⟩ := hcol m.1 (isColumn_of_find? hskip hv)
      obtain ⟨-, b, -, hb, -⟩ := (columnField_concat_obj_iff hv).mp hg
      exact ⟨some (entryFor view path m.1 b), inferMember_eq_some_iff.mpr ⟨hskip, rfl, hb⟩⟩
  · refine hd.distinguishes (fun e he => ?_)
    obtain ⟨m, hm, hrun⟩ := hes e he
    obtain ⟨hskip, hentry, -⟩ := inferMember_eq_some_iff.mp hrun
    have hv : Json.find? m.1 ms = some m.2 := (Json.find?_eq_some_iff hn).mpr hm
    rw [key_of_inferMember hrun]
    exact ⟨isColumn_of_find? hskip hv, by rw [hentry, entryFor]⟩

/-- **A table takes in an object** if the columns with its values have
fields and can stand side by side. -/
theorem IsTable.exists_merges {a b : Field} (hn : (ms.map Prod.fst).Nodup)
    (ha : IsTable view room name path items a)
    (hb : (inferValue view (room + 1) name path (.obj ms)).outcome = .ok b)
    (hcol : ∀ k, IsColumn view path (items ++ [.obj ms]) k →
      ∃ g, (columnField view room path (items ++ [.obj ms]) k).outcome = .ok g)
    (hd : ColumnsDistinguished view path (items ++ [.obj ms])) : ∃ c, Merges a b c := by
  obtain ⟨bs, rfl, hob, -, hmem⟩ := memberEntry_of_inferValue hn hb
  cases ha with
  | unknown => exact ⟨_, .nullFirst rfl⟩
  | @map as hobj hoa _ ht =>
    refine exists_merges_maps hoa hob (fun k e e' he he' => ?_) (hd.distinguishes ?_)
    · have hte := ht k
      have hme := hmem k
      rw [he] at hte
      rw [he'] at hme
      obtain ⟨hk, g, hg, rfl⟩ := hte
      obtain ⟨-, v, g', hv, rfl, hg'⟩ := hme
      obtain ⟨x, hx⟩ := hcol k hk.concat
      obtain ⟨a, b, ha, hb, hab⟩ := (columnField_concat_obj_iff hv).mp hx
      rw [Except.ok.inj (ha.symm.trans hg), Except.ok.inj (hb.symm.trans hg')] at hab
      exact ⟨x, hab⟩
    · intro e he
      rcases List.mem_append.mp he with he | he
      · obtain ⟨hk, hentry, -⟩ := TableEntry.of_mem hoa ht he
        exact ⟨hk.concat, congrArg Entry.accessor hentry⟩
      · have hme := hmem e.key
        rw [hob.entryAt?_of_mem he] at hme
        obtain ⟨hskip, v, g, hv, hentry, -⟩ := hme
        exact ⟨isColumn_of_find? hskip hv, congrArg Entry.accessor hentry⟩

/-- **Rows have an element** if their columns have and can stand side by
side. -/
theorem exists_inferElementWithin_of_columns (hrows : AreRows items)
    (hcol : ∀ k, IsColumn view path items k →
      ∃ g, (columnField view room path items k).outcome = .ok g)
    (hd : ColumnsDistinguished view path items) :
    ∃ c, (inferElementWithin view (room + 1) name path items).outcome = .ok c := by
  induction items using List.reverseRecOn with
  | nil => exact ⟨_, outcome_inferElementWithin_nil ..⟩
  | append_singleton items x ih =>
    obtain ⟨hrows, hx⟩ := areRows_concat_iff.mp hrows
    -- What is asked of the columns holds of fewer rows as well.
    obtain ⟨a, ha⟩ := ih hrows
      (fun k hk => exists_columnField_of_concat (hcol k hk.concat) hx)
      ⟨fun k l hk hl => hd.1 k l hk.concat hl.concat, fun k hk => hd.2 k hk.concat⟩
    have hta := isTable_of_inferElementWithin hrows ha
    obtain ⟨b, hb, c, hc⟩ : ∃ b, (inferValue view (room + 1) name path x).outcome = .ok b
        ∧ ∃ c, Merges a b c := by
      rcases hx with rfl | ⟨ms, rfl, hn⟩
      · refine ⟨_, outcome_inferValue_of_kind rfl, ?_⟩
        cases hta with
        | unknown => exact ⟨_, .nullFirst rfl⟩
        | map => exact ⟨_, .nullSecond rfl rfl⟩
      · obtain ⟨b, hb⟩ := exists_inferValue_of_columns hn hcol hd
        exact ⟨b, hb, hta.exists_merges hn hb hcol hd⟩
    exact ⟨c, inferElementWithin_concat_eq_ok_iff.mpr ⟨a, b, ha, hb, hc⟩⟩

/-- **Merging rows is inferring columns.** Rows with an object among them
have an element exactly if every column does that is not of a forced kind,
and the columns can stand side by side; and then the element is the map
with one entry for each column, in the order of the keys, whose field is
the forced scalar or what the column has. -/
theorem inferElementWithin_rows (view : OverrideView) (room : Nat) (name : Json)
    (path : String) (items : List Json) (hrows : AreRows items)
    (hobj : ∃ ms, .obj ms ∈ items) :
    ((∃ f, (inferElementWithin view (room + 1) name path items).outcome = .ok f) ↔
      (∀ k, IsColumn view path items k → view.forcedKind? (.str (childPath path k)) = none →
        ∃ g, (inferElementWithin view room (accessor view k (childPath path k))
          (childPath path k) (column k items)).outcome = .ok g)
        ∧ ColumnsDistinguished view path items)
    ∧ ∀ f, (inferElementWithin view (room + 1) name path items).outcome = .ok f →
      ∃ es, f = .map name es ∧ Ordered es
        ∧ (∀ k, IsColumn view path items k ↔ ∃ e ∈ es, e.key = k)
        ∧ ∀ e ∈ es, e = columnEntry view path items e.key e.field
          ∧ (columnField view room path items e.key).outcome = .ok e.field := by
  have htable : ∀ f, (inferElementWithin view (room + 1) name path items).outcome = .ok f →
      ∃ es, f = .map name es ∧ Ordered es ∧ Unambiguous es
        ∧ ∀ k, TableEntry view room path items k (entryAt? k es) := by
    intro f hf
    cases isTable_of_inferElementWithin hrows hf with
    | unknown hnone =>
      obtain ⟨ms, hms⟩ := hobj
      exact absurd hms (hnone ms)
    | map _ ho hu ht => exact ⟨_, rfl, ho, hu, ht⟩
  refine ⟨⟨?_, ?_⟩, ?_⟩
  · rintro ⟨f, hf⟩
    obtain ⟨es, -, ho, hu, ht⟩ := htable f hf
    have hd := (unambiguous_iff_distinguishes ho.nodup).mp hu
    refine ⟨fun k hk hforced => ?_, fun k l hk hl hkl => ?_, fun k hk => ?_⟩
    · obtain ⟨g, hg, -⟩ := (ht k).exists_entry hk
      simp only [columnField, hforced] at hg
      exact ⟨g, hg⟩
    · obtain ⟨_, -, he⟩ := (ht k).exists_entry hk
      obtain ⟨_, -, he'⟩ := (ht l).exists_entry hl
      exact hd.1 _ (mem_of_entryAt? he) _ (mem_of_entryAt? he') hkl
    · obtain ⟨_, -, he⟩ := (ht k).exists_entry hk
      exact hd.2 _ (mem_of_entryAt? he)
  · rintro ⟨hcol, hd⟩
    refine exists_inferElementWithin_of_columns hrows (fun k hk => ?_) hd
    unfold columnField
    cases hforced : view.forcedKind? (.str (childPath path k)) with
    | some kind => exact ⟨_, rfl⟩
    | none => exact hcol k hk hforced
  · intro f hf
    obtain ⟨es, rfl, ho, -, ht⟩ := htable f hf
    refine ⟨es, rfl, ho, fun k => ⟨fun hk => ?_, ?_⟩, fun e he => (TableEntry.of_mem ho ht he).2⟩
    · obtain ⟨_, -, he⟩ := (ht k).exists_entry hk
      exact ⟨_, mem_of_entryAt? he, rfl⟩
    · rintro ⟨e, he, rfl⟩
      exact (TableEntry.of_mem ho ht he).1

/-- A number and a text under one key, and a key that only one row has. -/
theorem inferElementWithin_rows_pair :
    let rows : List Json :=
      [.null, .obj [("tag", .null), ("id", .int 1)], .obj [("id", .str "a")]]
    let table : List (Entry Field) :=
      [⟨"id", .str "Id", .scalar (.str "Id") .opaque_, true⟩,
        ⟨"tag", .str "Tag", .scalar (.str "Tag") .unknown, false⟩]
    AreRows rows ∧ (∃ ms, .obj ms ∈ rows)
      ∧ (inferElementWithin .empty 1 (.str "Rows") "rows" rows).outcome
          = .ok (.map (.str "Rows") table)
      ∧ ∀ k, IsColumn .empty "rows" rows k ↔ ∃ e ∈ table, e.key = k := by
  intro rows table
  have hrows : AreRows rows := by simp [rows, AreRows]
  have hobj : ∃ ms, .obj ms ∈ rows := ⟨[("id", .str "a")], by simp [rows]⟩
  have hid : Naming.toCamel "id" = "Id" := rfl
  have htag : Naming.toCamel "tag" = "Tag" := rfl
  have hinfer : (inferElementWithin .empty 1 (.str "Rows") "rows" rows).outcome
      = .ok (.map (.str "Rows") table) := by
    simp +decide [rows, table, inferElementWithin, checkItems, itemClash?, mergeItems,
      OverrideView.empty, inferValue, inferMembers, inKeyOrder, List.mergeSort, Run.sequence,
      ofEntries_of_ordered, merge, mergeEntries, entryAt?, childPath, Kind.widen, Except.bind,
      Except.mapError, hid, htag]
  obtain ⟨-, h⟩ := inferElementWithin_rows .empty 0 (.str "Rows") "rows" rows hrows hobj
  obtain ⟨es, hes, -, hkeys, -⟩ := h _ hinfer
  obtain ⟨-, rfl⟩ := Field.map.inj hes
  exact ⟨hrows, hobj, hinfer, hkeys⟩

end Inference

end Exemplar
