import Exemplar.Field.Merge
import Exemplar.Proofs.Field.Entries
import Exemplar.Proofs.Run
import Mathlib.Logic.Function.Basic

/-!
# Merging as a relation

`Field.Merges a b c` says by rules what `Field.merge` computes: that `a`
and `b` merge to `c`. The path that the merge carries along is only for
telling failures, so it has no place in the rules, and neither has the
walk over two lists of entries: of two maps, the rule tells what is found
in the result at each key (`Field.joinEntry`).

`Field.merge_eq_ok_iff` is the bridge. Whatever is proved of successful
merges – the order they climb, the invariants they keep – is proved by
induction on the rules.
-/

namespace Exemplar.Field

variable {a b c : Field} {es es' : List (Entry Field)}

/-- **What becomes of the entries of two maps at one key**, where `f` is
the merge of their fields: an entry of both is required if both require
it, an entry of one is required no longer. -/
def joinEntry (f : Field) : Option (Entry Field) → Option (Entry Field) → Option (Entry Field)
  | some e, some e' => some { e with field := f, required := e.required && e'.required }
  | some e, none => some (optional e)
  | none, some e' => some (optional e')
  | none, none => none

/-- **The rules of merging.** -/
inductive Merges : Field → Field → Field → Prop where
  /-- A first field without shape gives way. -/
  | nullFirst {a b : Field} : a.isNull = true → Merges a b b
  /-- So does a second one. -/
  | nullSecond {a b : Field} : a.isNull = false → b.isNull = true → Merges a b a
  /-- Scalars widen their kinds. -/
  | scalars {n n' : Json} {k k' : Kind} : k ≠ .unknown → k' ≠ .unknown →
      Merges (.scalar n k) (.scalar n' k') (.scalar n (k.widen k'))
  /-- Collections merge their elements. -/
  | collections {n n' : Json} {e e' x : Field} : Merges e e' x →
      Merges (.collection n e) (.collection n' e') (.collection n x)
  /-- Maps merge key by key; `fields` holds the merges at the common keys. -/
  | maps {n n' : Json} {es es' ms : List (Entry Field)} (fields : String → Field) :
      (∀ k e e', entryAt? k es = some e → entryAt? k es' = some e' →
        Merges e.field e'.field (fields k)) →
      Ordered ms → Unambiguous ms →
      (∀ k, entryAt? k ms = joinEntry (fields k) (entryAt? k es) (entryAt? k es')) →
      Merges (.map n es) (.map n' es') (.map n ms)
  /-- Fields of different shapes, none of them a map, have raw text in
  common. -/
  | raw {a b : Field} : a.isNull = false → b.isNull = false → a.shape ≠ .map → b.shape ≠ .map →
      (a.shape ≠ b.shape ∨ a.shape = .empty) → Merges a b (.scalar a.name .opaque_)

/-! ## Merging entries -/

@[simp] theorem key_optional (e : Entry Field) : (optional e).key = e.key := rfl

/-- **Where an entry of two maps together comes from**: from one of them alone, or
from an entry of each. -/
theorem of_joinEntry_eq_some {x : Field} {k : String} {m : Entry Field}
    (h : joinEntry x (entryAt? k es) (entryAt? k es') = some m) :
    (∃ e, (e ∈ es ∨ e ∈ es') ∧ e.key = k ∧ m = optional e)
      ∨ ∃ e e', entryAt? k es = some e ∧ entryAt? k es' = some e' ∧ e ∈ es ∧ e' ∈ es'
        ∧ e.key = k ∧ e'.key = e.key
        ∧ m = { e with field := x, required := e.required && e'.required } := by
  cases he : entryAt? k es with
  | none =>
    cases he' : entryAt? k es' with
    | none => simp [he, he', joinEntry] at h
    | some e' =>
      rw [he, he'] at h
      exact .inl ⟨e', .inr (mem_of_entryAt? he'), key_of_entryAt? he', (Option.some.inj h).symm⟩
  | some e =>
    have hkey := key_of_entryAt? he
    cases he' : entryAt? k es' with
    | none =>
      rw [he, he'] at h
      exact .inl ⟨e, .inl (mem_of_entryAt? he), hkey, (Option.some.inj h).symm⟩
    | some e' =>
      rw [he, he'] at h
      exact .inr ⟨e, e', rfl, rfl, mem_of_entryAt? he, mem_of_entryAt? he', hkey,
        (key_of_entryAt? he').trans hkey.symm, (Option.some.inj h).symm⟩

/-- The entry of a first map, merged with that of a second which has its
key. -/
def joinFound (fields : String → Field) (es' : List (Entry Field)) (e : Entry Field) :
    Entry Field :=
  (joinEntry (fields e.key) (some e) (entryAt? e.key es')).getD e

@[simp] theorem key_joinFound (fields : String → Field) (es' : List (Entry Field))
    (e : Entry Field) : (joinFound fields es' e).key = e.key := by
  unfold joinFound
  cases entryAt? e.key es' <;> rfl

/-- **All entries of two maps**, merged where they have a key in common. -/
def joinAll (fields : String → Field) (es es' : List (Entry Field)) : List (Entry Field) :=
  es.map (joinFound fields es')
    ++ (es'.filter fun e => (entryAt? e.key es).isNone).map optional

/-- Changing entries and not their keys changes what is found, and not
where. -/
theorem entryAt?_map {g : Entry Field → Entry Field} (hg : ∀ e, (g e).key = e.key)
    (k : String) (es : List (Entry Field)) :
    entryAt? k (es.map g) = (entryAt? k es).map g := by
  have hkey : (fun e : Entry Field => e.key == k) ∘ g = fun e => e.key == k :=
    funext fun e => by simp [hg]
  rw [entryAt?, List.find?_map, hkey, entryAt?]

/-- What is found in the entries of two maps together. -/
theorem entryAt?_joinAll (fields : String → Field) (k : String) (es es' : List (Entry Field)) :
    entryAt? k (joinAll fields es es')
      = joinEntry (fields k) (entryAt? k es) (entryAt? k es') := by
  have hlate : entryAt? k (es'.filter fun e => (entryAt? e.key es).isNone)
      = if (entryAt? k es).isNone then entryAt? k es' else none := by
    have hpred : (fun e : Entry Field => decide ((entryAt? e.key es).isNone ∧ e.key == k))
        = fun e => (entryAt? k es).isNone && e.key == k := by
      funext e
      by_cases h : e.key = k
      · rw [h]
        cases entryAt? k es <;> simp
      · simp [h]
    rw [entryAt?, List.find?_filter, hpred]
    cases (entryAt? k es).isNone <;> simp [entryAt?]
  rw [joinAll, entryAt?, List.find?_append, ← entryAt?, ← entryAt?,
    entryAt?_map (key_joinFound fields es'), entryAt?_map key_optional, hlate]
  cases he : entryAt? k es with
  | some e =>
    have hk := key_of_entryAt? he
    cases he' : entryAt? k es' <;> simp [joinFound, joinEntry, hk, he']
  | none => cases he' : entryAt? k es' <;> simp [joinEntry]

/-- The entries of two maps together have distinct keys. -/
theorem nodup_joinAll (fields : String → Field) (h : (es.map Entry.key).Nodup)
    (h' : (es'.map Entry.key).Nodup) :
    ((joinAll fields es es').map Entry.key).Nodup := by
  have hfirst : (es.map (joinFound fields es')).map Entry.key = es.map Entry.key := by
    simp [List.map_map, Function.comp_def]
  have hlate : ((es'.filter fun e => (entryAt? e.key es).isNone).map optional).map Entry.key
      = (es'.filter fun e => (entryAt? e.key es).isNone).map Entry.key := by
    simp [List.map_map, Function.comp_def]
  rw [joinAll, List.map_append, hfirst, hlate]
  refine List.nodup_append.mpr ⟨h, h'.sublist (List.filter_sublist.map _), ?_⟩
  intro k hk k' hk' hkk'
  obtain ⟨e, he, rfl⟩ := List.mem_map.mp hk
  obtain ⟨e', he', rfl⟩ := List.mem_map.mp hk'
  have hnone := entryAt?_eq_none_iff.mp (Option.isNone_iff_eq_none.mp (List.mem_filter.mp he').2)
  exact hnone e he hkk'

/-- **The walk over the first map's entries** succeeds exactly where the
fields at the common keys merge. -/
theorem mergeEntries_eq_ok_iff {path : String} {common : List (Entry Field)}
    (h : (es.map Entry.key).Nodup) :
    (mergeEntries path es es').outcome = .ok common ↔ ∃ fields : String → Field,
      (∀ e ∈ es, ∀ e', entryAt? e.key es' = some e' →
        (merge (childPath path e.key) e.field e'.field).outcome = .ok (fields e.key))
        ∧ common = es.map (joinFound fields es') := by
  induction es generalizing common with
  | nil => simp [mergeEntries, eq_comm]
  | cons d es ih =>
    obtain ⟨key, accessor, field, required⟩ := d
    obtain ⟨hd, hes⟩ := List.nodup_cons.mp (List.map_cons ▸ h)
    have hne : ∀ e ∈ es, e.key ≠ key := fun e he hk =>
      hd (List.mem_map.mpr ⟨e, he, hk⟩)
    rw [mergeEntries]
    cases hf : entryAt? key es' with
    | none =>
      simp only [Run.outcome_bind_eq_ok_iff, ih hes, Run.outcome_pure, Except.ok.injEq]
      constructor
      · rintro ⟨_, ⟨fields, hfields, rfl⟩, rfl⟩
        refine ⟨fields, ?_, ?_⟩
        · intro e he e' he'
          rcases List.mem_cons.mp he with rfl | he
          · rw [hf] at he'
            nomatch he'
          · exact hfields e he e' he'
        · simp [joinFound, joinEntry, hf, optional]
      · rintro ⟨fields, hfields, rfl⟩
        refine ⟨_, ⟨fields, fun e he => hfields e (List.mem_cons_of_mem _ he), rfl⟩, ?_⟩
        simp [joinFound, joinEntry, hf, optional]
    | some other =>
      simp only [Run.outcome_bind_eq_ok_iff, ih hes, Run.outcome_pure, Except.ok.injEq]
      constructor
      · rintro ⟨merged, hmerged, _, ⟨fields, hfields, rfl⟩, rfl⟩
        -- The other entries have other keys, so what is chosen for this one is
        -- free.
        have hrest : ∀ e ∈ es, Function.update fields key merged e.key = fields e.key :=
          fun e he => Function.update_of_ne (hne e he) _ _
        refine ⟨Function.update fields key merged, ?_, ?_⟩
        · intro e he e' he'
          rcases List.mem_cons.mp he with rfl | he
          · obtain rfl : other = e' := Option.some.inj (hf.symm.trans he')
            simpa using hmerged
          · rw [hrest e he]
            exact hfields e he e' he'
        · rw [List.map_cons]
          congr 1
          · simp [joinFound, joinEntry, hf]
          · refine List.map_congr_left (fun e he => ?_)
            rw [joinFound, joinFound, hrest e he]
      · rintro ⟨fields, hfields, rfl⟩
        refine ⟨fields key, hfields _ List.mem_cons_self other hf, _,
          ⟨fields, fun e he => hfields e (List.mem_cons_of_mem _ he), rfl⟩, ?_⟩
        simp [joinFound, joinEntry, hf]

/-! ## The bridge -/

theorem isNull_scalar {n : Json} {k : Kind} : (scalar n k).isNull = true ↔ k = .unknown := by
  cases k <;> simp [isNull]

/-- **Merging two maps** succeeds exactly where the fields at their common
keys merge and their entries together form a map. -/
theorem merge_maps_eq_ok_iff {path : String} {n n' : Json} (h : Ordered es) (h' : Ordered es') :
    (merge path (.map n es) (.map n' es')).outcome = .ok c ↔
      ∃ fields : String → Field, ∃ ms, c = .map n ms ∧ Ordered ms ∧ Unambiguous ms
        ∧ (∀ k e e', entryAt? k es = some e → entryAt? k es' = some e' →
            (merge (childPath path k) e.field e'.field).outcome = .ok (fields k))
        ∧ ∀ k, entryAt? k ms = joinEntry (fields k) (entryAt? k es) (entryAt? k es') := by
  have hcommon : ∀ fields : String → Field,
      (∀ e ∈ es, ∀ e', entryAt? e.key es' = some e' →
        (merge (childPath path e.key) e.field e'.field).outcome = .ok (fields e.key))
      ↔ ∀ k e e', entryAt? k es = some e → entryAt? k es' = some e' →
        (merge (childPath path k) e.field e'.field).outcome = .ok (fields k) := by
    intro fields
    constructor
    · intro hf k e e' he he'
      obtain ⟨hmem, rfl⟩ := h.entryAt?_eq_some_iff.mp he
      exact hf e hmem e' he'
    · intro hf e he e' he'
      exact hf e.key e e' (h.entryAt?_of_mem he) he'
  have hperm : ∀ fields : String → Field, ∀ ms, Ordered ms → (ms.Perm (joinAll fields es es') ↔
      ∀ k, entryAt? k ms = joinEntry (fields k) (entryAt? k es) (entryAt? k es')) := by
    intro fields ms hms
    simp only [← entryAt?_joinAll]
    exact ⟨entryAt?_eq_of_perm hms.nodup,
      perm_of_entryAt? hms.nodup (nodup_joinAll fields h.nodup h'.nodup)⟩
  rw [merge.eq_def, if_neg (by simp [isNull]), if_neg (by simp [isNull])]
  simp only [Run.outcome_bind_eq_ok_iff, mergeEntries_eq_ok_iff h.nodup, Run.outcome_ofExcept,
    ofEntries_eq_ok_iff]
  constructor
  · rintro ⟨_, ⟨fields, hf, rfl⟩, ms, rfl, hp, hms, hu⟩
    exact ⟨fields, ms, rfl, hms, hu, (hcommon fields).mp hf, (hperm fields ms hms).mp hp⟩
  · rintro ⟨fields, ms, rfl, hms, hu, hf, hk⟩
    exact ⟨_, ⟨fields, (hcommon fields).mpr hf, rfl⟩, ms, rfl, (hperm fields ms hms).mpr hk,
      hms, hu⟩

/-- Fields of different shapes, none of them a map, merge to raw text. -/
theorem outcome_merge_raw (path : String) (hn : a.isNull = false) (hn' : b.isNull = false)
    (hm : a.shape ≠ .map) (hm' : b.shape ≠ .map) (hne : a.shape ≠ b.shape ∨ a.shape = .empty) :
    (merge path a b).outcome = .ok (.scalar a.name .opaque_) := by
  rw [merge.eq_def, if_neg (by simp [hn]), if_neg (by simp [hn'])]
  cases a <;> cases b <;> first | rfl | simp_all [shape]

/-- A map meets nothing but maps. -/
theorem outcome_merge_map (path : String) (hn : a.isNull = false) (hn' : b.isNull = false)
    (hne : a.shape ≠ b.shape) (hm : a.shape = .map ∨ b.shape = .map) :
    (merge path a b).outcome ≠ .ok c := by
  rw [merge.eq_def, if_neg (by simp [hn]), if_neg (by simp [hn'])]
  cases a <;> cases b <;> simp_all [shape]

/-- What the rules say is computed, at whatever path. -/
theorem Merges.outcome_merge (h : Merges a b c) (ha : WellFormed a) (hb : WellFormed b)
    (path : String) : (merge path a b).outcome = .ok c := by
  induction h generalizing path with
  | nullFirst hn => rw [merge.eq_def, if_pos hn, Run.outcome_pure]
  | nullSecond hn hn' => rw [merge.eq_def, if_neg (by simp [hn]), if_pos hn', Run.outcome_pure]
  | scalars hk hk' =>
    rw [merge.eq_def, if_neg (mt isNull_scalar.mp hk), if_neg (mt isNull_scalar.mp hk'),
      Run.outcome_pure]
  | collections _ ih =>
    rw [merge.eq_def, if_neg (by simp [isNull]), if_neg (by simp [isNull]),
      Run.outcome_bind_eq_ok_iff]
    exact ⟨_, ih ha hb path, rfl⟩
  | maps fields _ hms hu hk ih =>
    obtain ⟨ho, -, hes⟩ := wellFormed_map_iff.mp ha
    obtain ⟨ho', -, hes'⟩ := wellFormed_map_iff.mp hb
    refine (merge_maps_eq_ok_iff ho ho').mpr ⟨fields, _, rfl, hms, hu, ?_, hk⟩
    intro k e e' he he'
    exact ih k e e' he he' (hes e (mem_of_entryAt? he)) (hes' e' (mem_of_entryAt? he')) _
  | raw hn hn' hm hm' hne => exact outcome_merge_raw path hn hn' hm hm' hne

/-- What is computed where one of the fields is without shape. -/
theorem merges_of_isNull {path : String} (h : (merge path a b).outcome = .ok c)
    (hn : a.isNull = true ∨ b.isNull = true) : Merges a b c := by
  by_cases ha : a.isNull = true
  · rw [merge.eq_def, if_pos ha, Run.outcome_pure, Except.ok.injEq] at h
    exact h ▸ .nullFirst ha
  · have hb := hn.resolve_left ha
    rw [merge.eq_def, if_neg ha, if_pos hb, Run.outcome_pure, Except.ok.injEq] at h
    exact h ▸ .nullSecond (by simpa using ha) hb

/-- What is computed for fields of different shapes. -/
theorem merges_of_shape_ne {path : String} (h : (merge path a b).outcome = .ok c)
    (hn : a.isNull = false) (hn' : b.isNull = false)
    (hne : a.shape ≠ b.shape ∨ a.shape = .empty) : Merges a b c := by
  by_cases hm : a.shape = .map ∨ b.shape = .map
  · have hshape : a.shape ≠ b.shape := by
      rcases hne with hne | he
      · exact hne
      · rcases hm with hm | hm <;> simp_all
    exact absurd h (outcome_merge_map path hn hn' hshape hm)
  · obtain ⟨hm, hm'⟩ := not_or.mp hm
    rw [outcome_merge_raw path hn hn' hm hm' hne, Except.ok.injEq] at h
    exact h ▸ .raw hn hn' hm hm' hne

/-- What is computed follows the rules. -/
theorem merges_of_outcome {path : String} (ha : WellFormed a) (hb : WellFormed b)
    (h : (merge path a b).outcome = .ok c) : Merges a b c := by
  induction a generalizing path b c with
  | empty n =>
    by_cases hb : b.isNull = true
    · exact merges_of_isNull h (.inr hb)
    · exact merges_of_shape_ne h rfl (by simpa using hb) (.inr rfl)
  | scalar n k =>
    by_cases hnull : (scalar n k).isNull = true ∨ b.isNull = true
    · exact merges_of_isNull h hnull
    obtain ⟨hn, hn'⟩ := not_or.mp hnull
    cases b with
    | scalar n' k' =>
      rw [merge.eq_def, if_neg hn, if_neg hn', Run.outcome_pure, Except.ok.injEq] at h
      exact h ▸ .scalars (mt isNull_scalar.mpr hn) (mt isNull_scalar.mpr hn')
    | _ => exact merges_of_shape_ne h (by simpa using hn) rfl (.inl (by simp [shape]))
  | collection n e ih =>
    by_cases hnull : b.isNull = true
    · exact merges_of_isNull h (.inr hnull)
    cases b with
    | collection n' e' =>
      rw [merge.eq_def, if_neg (by simp [isNull]), if_neg (by simp [isNull]),
        Run.outcome_bind_eq_ok_iff] at h
      obtain ⟨x, hx, hc⟩ := h
      exact Except.ok.inj hc ▸ .collections (ih ha hb hx)
    | _ => exact merges_of_shape_ne h rfl (by simpa using hnull) (.inl (by simp [shape]))
  | map n es ih =>
    by_cases hnull : b.isNull = true
    · exact merges_of_isNull h (.inr hnull)
    cases b with
    | map n' es' =>
      obtain ⟨ho, -, hes⟩ := wellFormed_map_iff.mp ha
      obtain ⟨ho', -, hes'⟩ := wellFormed_map_iff.mp hb
      obtain ⟨fields, ms, rfl, hms, hu, hf, hk⟩ := (merge_maps_eq_ok_iff ho ho').mp h
      refine .maps fields (fun k e e' he he' => ?_) hms hu hk
      have hmem := mem_of_entryAt? he
      exact ih e hmem (hes e hmem) (hes' e' (mem_of_entryAt? he')) (hf k e e' he he')
    | _ => exact merges_of_shape_ne h rfl (by simpa using hnull) (.inl (by simp [shape]))

/-- **The merge computes what the rules say**, of well-formed fields and
at whatever path. -/
theorem merge_eq_ok_iff {path : String} (ha : WellFormed a) (hb : WellFormed b) :
    (merge path a b).outcome = .ok c ↔ Merges a b c :=
  ⟨merges_of_outcome ha hb, fun h => h.outcome_merge ha hb path⟩

/-- **A merge is determined** by what is merged. -/
theorem Merges.unique {d : Field} (h : Merges a b c) (h' : Merges a b d) (ha : WellFormed a)
    (hb : WellFormed b) : c = d :=
  Except.ok.inj ((h.outcome_merge ha hb "").symm.trans (h'.outcome_merge ha hb ""))

/-- **What well-formed fields merge to is well formed.** -/
theorem Merges.wellFormed (h : Merges a b c) (ha : WellFormed a) (hb : WellFormed b) :
    WellFormed c := by
  induction h with
  | nullFirst => exact hb
  | nullSecond => exact ha
  | scalars => trivial
  | collections _ ih => exact ih ha hb
  | @maps n n' es es' ms fields _ hms hu hk ih =>
    obtain ⟨-, -, hes⟩ := wellFormed_map_iff.mp ha
    obtain ⟨-, -, hes'⟩ := wellFormed_map_iff.mp hb
    refine wellFormed_map_iff.mpr ⟨hms, hu, fun m hm => ?_⟩
    rcases of_joinEntry_eq_some (hk m.key ▸ hms.entryAt?_of_mem hm) with
      ⟨e, he, -, rfl⟩ | ⟨e, e', he, he', hmem, hmem', -, -, hm⟩
    · exact he.elim (hes e) (hes' e)
    · rw [hm]
      exact ih _ e e' he he' (hes e hmem) (hes' e' hmem')
  | raw => trivial

/-! ## What merges -/

/-- A field without shape merges to the other. -/
theorem merges_unknown_iff {n : Json} : Merges (.scalar n .unknown) a c ↔ c = a := by
  refine ⟨fun h => ?_, fun h => h ▸ .nullFirst rfl⟩
  cases h with
  | nullFirst => rfl
  | nullSecond hn => nomatch hn
  | scalars hk => exact absurd rfl hk
  | raw hn => nomatch hn

/-- Two scalars always merge. -/
theorem exists_merges_scalars (n n' : Json) (k k' : Kind) :
    ∃ c, Merges (.scalar n k) (.scalar n' k') c := by
  by_cases hk : k = .unknown
  · exact ⟨_, .nullFirst (isNull_scalar.mpr hk)⟩
  · by_cases hk' : k' = .unknown
    · exact ⟨_, .nullSecond (by simpa using mt isNull_scalar.mp hk) (isNull_scalar.mpr hk')⟩
    · exact ⟨_, .scalars hk hk'⟩

/-- **A scalar merges with itself** to itself, one without shape
included. -/
theorem merges_scalar_self_iff {n : Json} {k : Kind} :
    Merges (.scalar n k) (.scalar n k) c ↔ c = .scalar n k := by
  have hself : ∀ c, Merges (.scalar n k) (.scalar n k) c → c = .scalar n k := by
    intro c h
    cases h with
    | nullFirst => rfl
    | nullSecond => rfl
    | scalars => rw [Kind.widen_self]
    | raw _ _ _ _ hs => simp [shape] at hs
  refine ⟨hself c, ?_⟩
  rintro rfl
  obtain ⟨c, hc⟩ := exists_merges_scalars n n k k
  exact hself c hc ▸ hc

/-- **Two maps merge** where the fields at their common keys do and their
accessors tell their keys apart. -/
theorem exists_merges_maps {n n' : Json} (h : Ordered es) (h' : Ordered es')
    (hf : ∀ k e e', entryAt? k es = some e → entryAt? k es' = some e' →
      ∃ x, Merges e.field e'.field x)
    (hd : Distinguishes (es ++ es')) : ∃ c, Merges (.map n es) (.map n' es') c := by
  have hfield : ∀ k, ∃ x, ∀ e e', entryAt? k es = some e → entryAt? k es' = some e' →
      Merges e.field e'.field x := by
    intro k
    cases he : entryAt? k es with
    | none => exact ⟨default, fun _ _ => nofun⟩
    | some e =>
      cases he' : entryAt? k es' with
      | none => exact ⟨default, fun _ _ _ => nofun⟩
      | some e' =>
        obtain ⟨x, hx⟩ := hf k e e' he he'
        exact ⟨x, fun _ _ h h' => Option.some.inj h ▸ Option.some.inj h' ▸ hx⟩
  obtain ⟨fields, hfields⟩ := Classical.axiomOfChoice hfield
  have hn := nodup_joinAll fields h.nodup h'.nodup
  have hp := sortEntries_perm (joinAll fields es es')
  have hdist : Distinguishes (joinAll fields es es') := by
    refine hd.of_forall_exists (fun a ha => ?_)
    rcases List.mem_append.mp ha with ha | ha
    · obtain ⟨e, he, rfl⟩ := List.mem_map.mp ha
      refine ⟨e, List.mem_append_left _ he, (key_joinFound ..).symm, ?_⟩
      unfold joinFound
      cases entryAt? e.key es' <;> rfl
    · obtain ⟨e, he, rfl⟩ := List.mem_map.mp ha
      exact ⟨e, List.mem_append_right _ (List.mem_filter.mp he).1, rfl, rfl⟩
  have hu : Unambiguous (sortEntries (joinAll fields es es')) := by
    refine (unambiguous_iff_distinguishes (ordered_sortEntries hn).nodup).mpr ?_
    exact hdist.of_forall_exists (fun a ha => ⟨a, hp.mem_iff.mp ha, rfl, rfl⟩)
  refine ⟨_, .maps fields hfields (ordered_sortEntries hn) hu (fun k => ?_)⟩
  rw [entryAt?_eq_of_perm (ordered_sortEntries hn).nodup hp, entryAt?_joinAll]

end Exemplar.Field
