import Exemplar.Proofs.Field.Generality

/-!
# The laws of merging

Merging is written from the side of the first field: its name and accessors are
kept, its entries are walked over, and what only the second one has is put
behind them. None of this shows in what comes out. Of fields that agree in their
names and accessors, the merge is the same in both directions, and so is the
failure if they do not merge (`Field.outcome_merge_comm`).

For merges that succeed this could be read off the order of generality. It is
proved of the computation, because a failure has to be told in the same way as
well. Entries fail to merge as the fields at the least common key do that fail to
(`Field.mergeEntries_eq_error_iff`), which does not ask whose entries are walked
over; and what a map is built of, or not, does not depend on the order of its
entries (`Field.ofEntries_eq_of_perm`).

A field that is below another adds nothing to it (`Field.Below.merges`). With
itself a field therefore merges to itself, and a merge takes in no more of what
has been merged.
-/

namespace Exemplar.Field

variable {lossy : Prop} {a b c : Field} {path : String} {n n' : Json} {k : String}
  {es es' : List (Entry Field)} {f : Fault}

/-! ## The first failure -/

/-- **The failure at the least key** of those at which something fails. -/
def FirstFailure (results : String → Option (Except Fault Field)) (f : Fault) : Prop :=
  ∃ k, results k = some (.error f) ∧ ∀ j, j < k → ∀ g, results j ≠ some (.error g)

/-- The merge of the fields that two maps have at a key, if both have one. -/
def mergeAt (path : String) (es es' : List (Entry Field)) (k : String) :
    Option (Except Fault Field) :=
  (entryAt? k es).bind fun e => (entryAt? k es').map fun e' =>
    (merge (childPath path k) e.field e'.field).outcome

/-- Where a result is put before all others, it is looked at first. -/
theorem firstFailure_update_iff {results : String → Option (Except Fault Field)}
    {r : Option (Except Fault Field)} (h : ∀ j, ¬ k < j → results j = none) :
    FirstFailure (Function.update results k r) f ↔
      r = some (.error f) ∨ (∀ g, r ≠ some (.error g)) ∧ FirstFailure results f := by
  constructor
  · rintro ⟨j, hj, hbefore⟩
    by_cases hjk : j = k
    · subst hjk
      exact .inl (by simpa using hj)
    · rw [Function.update_of_ne hjk] at hj
      have hkj : k < j := by
        by_contra hlt
        simp [h j hlt] at hj
      refine .inr ⟨by simpa using hbefore k hkj, j, hj, fun i hi g hg => ?_⟩
      have hik : i ≠ k := by
        rintro rfl
        simp [h i (String.lt_irrefl i)] at hg
      exact hbefore i hi g (by rwa [Function.update_of_ne hik])
  · rintro (rfl | ⟨hr, j, hj, hbefore⟩)
    · refine ⟨k, Function.update_self .., fun j hj g hg => ?_⟩
      have hne : j ≠ k := fun hjk => String.lt_irrefl _ (hjk ▸ hj)
      have hlt : ¬ k < j := fun hkj => String.lt_irrefl _ (String.lt_trans hj hkj)
      rw [Function.update_of_ne hne, h j hlt] at hg
      nomatch hg
    · have hne : j ≠ k := by
        rintro rfl
        simp [h j (String.lt_irrefl j)] at hj
      refine ⟨j, by rwa [Function.update_of_ne hne], fun i hi g => ?_⟩
      by_cases hik : i = k
      · subst hik
        simpa using hr g
      · rw [Function.update_of_ne hik]
        exact hbefore i hi g

/-- The merges of the entries of two maps, the first entry of the first one put
before the others. -/
theorem mergeAt_cons (path : String) (e : Entry Field) (es es' : List (Entry Field)) :
    mergeAt path (e :: es) es' = Function.update (mergeAt path es es') e.key
      ((entryAt? e.key es').map fun e' =>
        (merge (childPath path e.key) e.field e'.field).outcome) := by
  funext k
  by_cases hk : k = e.key
  · subst hk
    simp [mergeAt, entryAt?_cons]
  · rw [Function.update_of_ne hk, mergeAt, entryAt?_cons, if_neg (Ne.symm hk), mergeAt]

/-- **The walk over the first map's entries** fails with the failure at the least
common key at which the fields do not merge. -/
theorem mergeEntries_eq_error_iff (h : Ordered es) :
    (mergeEntries path es es').outcome = .error f ↔ FirstFailure (mergeAt path es es') f := by
  induction es with
  | nil => simp [mergeEntries, FirstFailure, mergeAt, entryAt?]
  | cons e es ih =>
    obtain ⟨hlt, hes⟩ := List.pairwise_cons.mp h
    have hnone : ∀ j, ¬ e.key < j → mergeAt path es es' j = none := by
      intro j hj
      have hj : entryAt? j es = none :=
        entryAt?_eq_none_iff.mpr fun d hd hk => hj (hk ▸ hlt d hd)
      simp [mergeAt, hj]
    rw [mergeAt_cons, firstFailure_update_iff hnone, ← ih hes, mergeEntries.eq_def]
    cases hfound : entryAt? e.key es' with
    | none => simp only [hfound, Run.outcome_bind_eq_error_iff]; simp
    | some e' =>
      simp only [hfound, Run.outcome_bind_eq_error_iff, Option.map_some]
      cases (merge (childPath path e.key) e.field e'.field).outcome <;> simp

/-! ## Both directions -/

/-- What becomes of two entries at one key, from either side. -/
theorem joinEntry_comm (x : Field) {e e' : Entry Field} (hkey : e.key = e'.key)
    (hacc : e.accessor = e'.accessor) :
    joinEntry x (some e) (some e') = joinEntry x (some e') (some e) := by
  simp [joinEntry, hkey, hacc, Bool.and_comm]

/-- What the walk over the first map's entries has found at each key. -/
theorem mergeAt_of_mergeEntries (h : Ordered es) {common : List (Entry Field)}
    (hc : (mergeEntries path es es').outcome = .ok common) :
    ∃ fields : String → Field, common = es.map (joinFound fields es') ∧
      ∀ k e e', entryAt? k es = some e → entryAt? k es' = some e' →
        mergeAt path es es' k = some (.ok (fields k)) := by
  obtain ⟨fields, hfields, rfl⟩ := (mergeEntries_eq_ok_iff h.nodup).mp hc
  refine ⟨fields, rfl, fun k e e' he he' => ?_⟩
  obtain ⟨hmem, rfl⟩ := h.entryAt?_eq_some_iff.mp he
  rw [mergeAt, he, he', Option.bind_some, Option.map_some, hfields e hmem e' he']

/-- The merge of two maps: their common entries, and what is built of all. -/
theorem outcome_merge_maps (path : String) (n n' : Json) (es es' : List (Entry Field)) :
    (merge path (.map n es) (.map n' es')).outcome =
      (mergeEntries path es es').outcome.bind fun common => ofEntries n
        (common ++ (es'.filter fun e => (entryAt? e.key es).isNone).map optional) := by
  rw [merge.eq_def, if_neg (by simp [isNull]), if_neg (by simp [isNull])]
  simp only [Run.outcome_bind, Run.outcome_ofExcept]

/-- The merge of two collections is that of their elements. -/
theorem outcome_merge_collections (path : String) (n n' : Json) (e e' : Field) :
    (merge path (.collection n e) (.collection n' e')).outcome =
      (merge path e e').outcome.bind fun x => .ok (.collection n x) := by
  rw [merge.eq_def, if_neg (by simp [isNull]), if_neg (by simp [isNull])]
  simp only [Run.outcome_bind, Run.outcome_pure]

/-- **Maps merge in both directions alike**, if the fields at their common keys
do. -/
theorem outcome_merge_maps_comm (h : Ordered es) (h' : Ordered es')
    (hacc : ∀ k e e', entryAt? k es = some e → entryAt? k es' = some e' →
      e.accessor = e'.accessor)
    (hfield : mergeAt path es es' = mergeAt path es' es) :
    (merge path (.map n es) (.map n es')).outcome
      = (merge path (.map n es') (.map n es)).outcome := by
  rw [outcome_merge_maps, outcome_merge_maps]
  cases hc : (mergeEntries path es es').outcome with
  | error f =>
    rw [mergeEntries_eq_error_iff h, hfield, ← mergeEntries_eq_error_iff h'] at hc
    rw [hc]
    rfl
  | ok common =>
    cases hc' : (mergeEntries path es' es).outcome with
    | error f =>
      rw [mergeEntries_eq_error_iff h', ← hfield, ← mergeEntries_eq_error_iff h, hc] at hc'
      nomatch hc'
    | ok common' =>
      obtain ⟨fields, rfl, hfields⟩ := mergeAt_of_mergeEntries h hc
      obtain ⟨fields', rfl, hfields'⟩ := mergeAt_of_mergeEntries h' hc'
      have hn := nodup_joinAll fields h.nodup h'.nodup
      have hn' := nodup_joinAll fields' h'.nodup h.nodup
      refine ofEntries_eq_of_perm hn (perm_of_entryAt? hn hn' fun k => ?_) n
      rw [entryAt?_joinAll, entryAt?_joinAll]
      cases he : entryAt? k es with
      | none => cases entryAt? k es' <;> rfl
      | some e =>
        cases he' : entryAt? k es' with
        | none => rfl
        | some e' =>
          have hsame : fields k = fields' k := by
            have hk := hfields k e e' he he'
            rw [hfield, hfields' k e' e he' he] at hk
            exact (Except.ok.inj (Option.some.inj hk)).symm
          rw [hsame]
          exact joinEntry_comm _ ((key_of_entryAt? he).trans (key_of_entryAt? he').symm)
            (hacc k e e' he he')

theorem exists_eq_scalar (h : a.shape = .scalar) : ∃ n k, a = .scalar n k := by
  cases a with
  | scalar n k => exact ⟨n, k, rfl⟩
  | _ => nomatch h

/-- A field that is without shape is nothing but its name. -/
theorem eq_of_isNull (h : a.isNull = true) : a = .scalar a.name .unknown := by
  cases a with
  | scalar n k => exact isNull_scalar.mp h ▸ rfl
  | _ => nomatch h

/-- A field without shape is neutral on the left. -/
theorem outcome_merge_of_isNull (path : String) (h : a.isNull = true) (b : Field) :
    (merge path a b).outcome = .ok b := by
  rw [merge.eq_def, if_pos h, Run.outcome_pure]

/-- It is neutral on the right as well, if it has the name of the other or the
other has a shape. -/
theorem outcome_merge_of_isNull_right (path : String) (h : b.isNull = true)
    (ha : a.isNull = false ∨ a.name = b.name) : (merge path a b).outcome = .ok a := by
  by_cases hn : a.isNull = true
  · have hname : a.name = b.name := ha.resolve_left (by simp [hn])
    rw [outcome_merge_of_isNull path hn, eq_of_isNull h, ← hname, ← eq_of_isNull hn]
  · rw [merge.eq_def, if_neg hn, if_pos h, Run.outcome_pure]

/-- Fields of different shapes merge, or do not, in both directions alike. -/
theorem outcome_merge_comm_of_shape_ne (path : String) (hn : a.isNull = false)
    (hn' : b.isNull = false) (hname : a.name = b.name) (hne : a.shape ≠ b.shape) :
    (merge path a b).outcome = (merge path b a).outcome := by
  by_cases hm : a.shape = .map ∨ b.shape = .map
  · rw [merge.eq_def, if_neg (by simp [hn]), if_neg (by simp [hn']), merge.eq_def path b,
      if_neg (by simp [hn']), if_neg (by simp [hn])]
    cases a <;> cases b <;> simp_all [shape]
  · obtain ⟨hm, hm'⟩ := not_or.mp hm
    rw [outcome_merge_raw path hn hn' hm hm' (.inl hne),
      outcome_merge_raw path hn' hn hm' hm (.inl hne.symm), hname]

/-- **Merging is commutative**, in what it gives and in how it fails, on fields
that agree. -/
theorem outcome_merge_comm (path : String) (ha : WellFormed a) (hb : WellFormed b)
    (hab : Agree a b) (hsa : Solid a) (hsb : Solid b) :
    (merge path a b).outcome = (merge path b a).outcome := by
  induction hab generalizing path with
  | collection _ ih =>
    cases hsa with | collection hsa =>
    cases hsb with | collection hsb =>
    rw [outcome_merge_collections, outcome_merge_collections, ih path ha hb hsa hsb]
  | @map n es es' hacc _ ih =>
    cases hsa with | map hsa =>
    cases hsb with | map hsb =>
    obtain ⟨ho, -, hes⟩ := wellFormed_map_iff.mp ha
    obtain ⟨ho', -, hes'⟩ := wellFormed_map_iff.mp hb
    refine outcome_merge_maps_comm ho ho' hacc (funext fun k => ?_)
    unfold mergeAt
    cases he : entryAt? k es with
    | none => cases entryAt? k es' <;> rfl
    | some e =>
      cases he' : entryAt? k es' with
      | none => rfl
      | some e' =>
        exact congrArg some (ih k e e' he he' _ (hes e (mem_of_entryAt? he))
          (hes' e' (mem_of_entryAt? he')) (hsa k e he) (hsb k e' he'))
  | @leaf a b hname hs =>
    by_cases hn : a.isNull = true
    · rw [outcome_merge_of_isNull path hn,
        outcome_merge_of_isNull_right path hn (.inr hname.symm)]
    by_cases hn' : b.isNull = true
    · rw [outcome_merge_of_isNull path hn', outcome_merge_of_isNull_right path hn' (.inr hname)]
    by_cases hne : a.shape = b.shape
    · obtain ⟨n, k, rfl⟩ := exists_eq_scalar (hs.resolve_left (not_not_intro hne))
      obtain ⟨n', k', rfl⟩ := exists_eq_scalar (hne ▸ hs.resolve_left (not_not_intro hne))
      obtain rfl : n = n' := hname
      have hk := mt isNull_scalar.mpr hn
      have hk' := mt isNull_scalar.mpr hn'
      rw [(Merges.scalars hk hk').outcome_merge trivial trivial,
        (Merges.scalars hk' hk).outcome_merge trivial trivial, Kind.widen_comm]
    · exact outcome_merge_comm_of_shape_ne path (by simpa using hn) (by simpa using hn') hname hne

/-! ## Absorption -/

/-- **A field takes in nothing of a field below it.** -/
theorem Below.merges (h : Below lossy a c) (hc : WellFormed c) : Merges c a c := by
  induction h with
  | @null n f hn =>
    by_cases hnull : f.isNull = true
    · obtain rfl := hn
      have hf := eq_of_isNull hnull
      rw [← hf]
      exact .nullFirst hnull
    · exact .nullSecond (by simpa using hnull) rfl
  | scalar => exact merges_scalar_self_iff.mpr rfl
  | @rawScalar n k =>
    by_cases hk : k = .unknown
    · exact .nullSecond rfl (isNull_scalar.mpr hk)
    · have hwiden : Kind.widen .opaque_ k = .opaque_ := by cases k <;> rfl
      have hm : Merges (.scalar n .opaque_) (.scalar n k) (.scalar n (Kind.widen .opaque_ k)) :=
        .scalars (by simp) hk
      rwa [hwiden] at hm
  | rawCollection => exact .raw rfl rfl (by simp [shape]) (by simp [shape]) (.inl (by simp [shape]))
  | collection _ ih => exact .collections (ih hc)
  | @map n es es' hentry _ hlate ih =>
    obtain ⟨ho, hu, hes'⟩ := wellFormed_map_iff.mp hc
    refine .maps (fun k => ((entryAt? k es').map Entry.field).getD default)
      (fun k e' e he' he => ?_) ho hu (fun k => ?_)
    · simpa [he'] using ih k e e' he he' (hes' e' (mem_of_entryAt? he'))
    · cases he' : entryAt? k es' with
      | none =>
        cases he : entryAt? k es with
        | none => rfl
        | some e =>
          obtain ⟨x, hx, -⟩ := hentry k e he
          simp [he'] at hx
      | some e' =>
        cases he : entryAt? k es with
        | none => simp [joinEntry, optional, ← hlate k e' he he']
        | some e =>
          obtain ⟨x, hx, -, hreq⟩ := hentry k e he
          obtain rfl := Option.some.inj (hx.symm.trans he')
          have hr : (x.required && e.required) = x.required := by
            cases h : x.required <;> simp [hreq, h]
          simp [joinEntry, hr]

/-! ## The laws together -/

/-- **The laws of merging.** Of well-formed fields without an empty one, that
agree in their names and accessors: which of the two comes first makes no
difference, neither to the merge nor to the failure; a field merges with itself
to itself; a field without shape is neutral on both sides; and a merge takes in
nothing more of either. -/
theorem merge_laws (path : String) (ha : WellFormed a) (hb : WellFormed b) (hsa : Solid a)
    (hsb : Solid b) (hab : Agree a b) :
    (merge path a b).outcome = (merge path b a).outcome
      ∧ (merge path a a).outcome = .ok a
      ∧ (∀ n, (merge path (.scalar n .unknown) a).outcome = .ok a
        ∧ (a.isNull = false ∨ a.name = n → (merge path a (.scalar n .unknown)).outcome = .ok a))
      ∧ ∀ c, (merge path a b).outcome = .ok c →
        (merge path c a).outcome = .ok c ∧ (merge path c b).outcome = .ok c := by
  refine ⟨outcome_merge_comm path ha hb hab hsa hsb, ?_, fun n => ⟨?_, fun hn => ?_⟩,
    fun c hc => ?_⟩
  · have hself : Below True a a := .refl hsa
    exact (hself.merges ha).outcome_merge ha ha path
  · exact outcome_merge_of_isNull path rfl a
  · exact outcome_merge_of_isNull_right path rfl hn
  · have hm := (merge_eq_ok_iff ha hb).mp hc
    have hwf := hm.wellFormed ha hb
    obtain ⟨hac, hbc⟩ := hm.above hsa hsb hab (.inl trivial : True ∨ _)
    exact ⟨(hac.merges hwf).outcome_merge hwf ha path, (hbc.merges hwf).outcome_merge hwf hb path⟩

/-- The laws at two maps with one key in common, under which a number meets a
text. -/
theorem merge_laws_overlapping :
    let title : Entry Field := ⟨"title", .str "title", .scalar (.str "title") .string, true⟩
    let number : Entry Field := ⟨"no", .str "no", .scalar (.str "no") .number, true⟩
    let text : Entry Field := ⟨"no", .str "no", .scalar (.str "no") .string, true⟩
    let raw : Entry Field := ⟨"no", .str "no", .scalar (.str "no") .opaque_, true⟩
    let tags : Entry Field :=
      ⟨"tags", .str "tags", .collection (.str "tags") (.scalar (.str "tags") .unknown), true⟩
    let a := Field.map (.str "R") [number, title]
    let b := Field.map (.str "R") [text, tags]
    let c := Field.map (.str "R") [raw, optional tags, optional title]
    (WellFormed a ∧ WellFormed b ∧ Solid a ∧ Solid b ∧ Agree a b)
      ∧ (merge "item" a b).outcome = .ok c ∧ (merge "item" b a).outcome = .ok c
      ∧ (merge "item" c a).outcome = .ok c ∧ (merge "item" c b).outcome = .ok c := by
  intro title number text raw tags a b c
  have hord : Ordered [number, title] ∧ Ordered [text, tags]
      ∧ Ordered [raw, optional tags, optional title] := by unfold Ordered; decide
  have hun : Unambiguous [number, title] ∧ Unambiguous [text, tags]
      ∧ Unambiguous [raw, optional tags, optional title] := by unfold Unambiguous; decide
  have ha : WellFormed a := wellFormed_map_iff.mpr
    ⟨hord.1, hun.1, by simp [number, title, WellFormed]⟩
  have hb : WellFormed b := wellFormed_map_iff.mpr
    ⟨hord.2.1, hun.2.1, by simp [text, tags, WellFormed]⟩
  have hcommon : ∀ k e e', entryAt? k [number, title] = some e →
      entryAt? k [text, tags] = some e' → e = number ∧ e' = text := by
    intro k e e' he he'
    have hkey := (key_of_entryAt? he).trans (key_of_entryAt? he').symm
    have hmem := mem_of_entryAt? he
    have hmem' := mem_of_entryAt? he'
    simp only [List.mem_cons, List.not_mem_nil, or_false] at hmem hmem'
    rcases hmem with rfl | rfl <;> rcases hmem' with rfl | rfl <;>
      simp_all [title, text, tags, number]
  have hsa : Solid a := .map fun k e he => by
    have hmem := mem_of_entryAt? he
    simp only [List.mem_cons, List.not_mem_nil, or_false] at hmem
    rcases hmem with rfl | rfl <;> exact .scalar
  have hsb : Solid b := .map fun k e he => by
    have hmem := mem_of_entryAt? he
    simp only [List.mem_cons, List.not_mem_nil, or_false] at hmem
    rcases hmem with rfl | rfl
    · exact .scalar
    · exact .collection .scalar
  have hab : Agree a b := by
    refine .map (fun k e e' he he' => ?_) (fun k e e' he he' => ?_)
    · obtain ⟨rfl, rfl⟩ := hcommon k e e' he he'
      rfl
    · obtain ⟨rfl, rfl⟩ := hcommon k e e' he he'
      exact .leaf rfl (.inr rfl)
  have hc : Merges a b c := by
    refine .maps (fun _ => raw.field) (fun k e e' he he' => ?_) hord.2.2 hun.2.2 fun k => ?_
    · obtain ⟨rfl, rfl⟩ := hcommon k e e' he he'
      exact .scalars (by simp) (by simp)
    · by_cases hno : "no" = k
      · exact hno ▸ rfl
      by_cases htags : "tags" = k
      · exact htags ▸ rfl
      by_cases htitle : "title" = k
      · exact htitle ▸ rfl
      simp [entryAt?, joinEntry, raw, number, title, text, tags, hno, htags, htitle]
  obtain ⟨hcomm, -, -, habsorb⟩ := merge_laws "item" ha hb hsa hsb hab
  have hok := hc.outcome_merge ha hb "item"
  exact ⟨⟨ha, hb, hsa, hsb, hab⟩, hok, hcomm ▸ hok, habsorb c hok⟩

end Exemplar.Field
