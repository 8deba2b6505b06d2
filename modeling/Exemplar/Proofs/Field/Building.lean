import Exemplar.Proofs.Field.Merging

/-!
# What keeps a map from being built

A map is built of entries in any order, and it does not matter in which: they
are sorted by their keys before anything is asked of them. So what keeps a map
from being built can be told without an order as well. It is the least key that
stands twice (`Field.LeastRepeated`), or else, of the accessors that several keys
share, the one that has the least key among its owners (`Field.FirstShared`).

Sorted entries show both at once. A repeated key stands next to itself, and the
first key that does is the least one; an entry that shares its accessor with
entries behind it is the first of its owners.

Where keys are distinct, nothing is left but a shared accessor. This is so when
keys are left out of a map, which brings no accessors together, and when two maps
are merged, whose entries are joined key by key.
-/

namespace Exemplar

/-- **A failure that is a problem**, and no breach. -/
def Fault.IsProblem (f : Fault) : Prop := ∃ p, f = .problem p

namespace Field

variable {name : Json} {es es' all : List (Entry Field)} {e : Entry Field} {k : String}
  {before : Option String} {f : Fault}

/-! ## Keys that stand twice -/

/-- A key that stands twice is a breach, told with the name of the map. -/
def repeatedKey (name : Json) (k : String) : Breach :=
  ⟨.badValue, s!"Duplicate key in map '{name.display}': {k}"⟩

/-- **The least of the keys that stand twice.** -/
structure LeastRepeated (keys : List String) (k : String) : Prop where
  repeated : 2 ≤ keys.count k
  least : ∀ j, 2 ≤ keys.count j → k ≤ j

/-- There is one at most. -/
theorem LeastRepeated.unique {keys : List String} {j : String} (hj : LeastRepeated keys j)
    (hk : LeastRepeated keys k) : j = k :=
  String.le_antisymm (hj.least k hk.repeated) (hk.least j hj.repeated)

theorem LeastRepeated.of_perm {keys keys' : List String} (h : LeastRepeated keys k)
    (hp : keys.Perm keys') : LeastRepeated keys' k :=
  ⟨hp.count_eq k ▸ h.repeated, fun j hj => h.least j (hp.count_eq j ▸ hj)⟩

/-- **In sorted entries the first repeated key is the least one.** The key in front
of the entries counts as one of theirs. -/
theorem leastRepeated_of_breach? {b : Breach} (hs : es.Pairwise fun a b => a.key ≤ b.key)
    (hbefore : ∀ j ∈ before, ∀ a ∈ es, j ≤ a.key)
    (hacc : ∀ a ∈ es, a.accessor.isContainer = false) (h : breach? name before es = some b) :
    ∃ k, b = repeatedKey name k ∧ LeastRepeated (before.toList ++ es.map Entry.key) k := by
  induction es generalizing before with
  | nil => nomatch h
  | cons d es ih =>
    obtain ⟨hle, hs⟩ := List.pairwise_cons.mp hs
    obtain ⟨hd, hacc⟩ := List.forall_mem_cons.mp hacc
    have hfirst : ∀ j ∈ d.key :: es.map Entry.key, d.key ≤ j := by
      intro j hj
      rcases List.mem_cons.mp hj with rfl | hj
      · exact String.le_refl _
      · obtain ⟨a, ha, rfl⟩ := List.mem_map.mp hj
        exact hle a ha
    rw [breach?, if_neg (by simp [hd] : ¬ d.accessor.isContainer = true)] at h
    by_cases hrepeated : before = some d.key
    · rw [if_pos hrepeated] at h
      refine ⟨d.key, (Option.some.inj h).symm, ?_⟩
      rw [hrepeated, Option.toList_some, List.map_cons]
      refine ⟨by simp, fun j hj => ?_⟩
      have hj : j ∈ [d.key] ++ d.key :: es.map Entry.key :=
        List.count_pos_iff.mp (by omega)
      exact hfirst j (by simpa using hj)
    · rw [if_neg hrepeated] at h
      obtain ⟨k, rfl, hk⟩ := ih hs (by simpa using hle) hacc h
      rw [Option.toList_some, List.singleton_append] at hk
      refine ⟨k, rfl, ?_, fun j hj => hk.least j ?_⟩
      · rw [List.map_cons, List.count_append]
        exact Nat.le_add_left_of_le hk.repeated
      · -- The key in front is less than all others, so it stands only once.
        rw [List.map_cons, List.count_append] at hj
        cases before with
        | none => simpa using hj
        | some i =>
          have hi : i ≠ d.key := fun h => hrepeated (congrArg some h)
          have hlt : i < d.key := String.not_le.mp fun hge =>
            hi (String.le_antisymm (hbefore i rfl d List.mem_cons_self) hge)
          have hnot : i ∉ d.key :: es.map Entry.key := fun hmem =>
            String.not_le.mpr hlt (hfirst i hmem)
          by_cases hij : i = j
          · subst hij
            rw [List.count_eq_zero_of_not_mem hnot] at hj
            simp at hj
          · simpa [hij] using hj

/-! ## Accessors that several keys share -/

/-- **The first of the accessors that several keys share**: that of an entry whose
key is the least one of all that share their accessor with another, and the keys
that own it, in ascending order. -/
structure FirstShared (es : List (Entry Field)) (e : Entry Field) (owners : List String) :
    Prop where
  mem : e ∈ es
  shared : 2 ≤ owners.length
  ascending : owners.Pairwise (· < ·)
  mem_owners_iff : ∀ k, k ∈ owners ↔ ∃ o ∈ es, o.key = k ∧ o.accessor.key = e.accessor.key
  first : ∀ a ∈ es, ∀ b ∈ es, a.key ≠ b.key → a.accessor.key = b.accessor.key → e.key ≤ a.key

theorem FirstShared.of_perm {owners : List String} (h : FirstShared es e owners)
    (hp : es.Perm es') : FirstShared es' e owners where
  mem := hp.mem_iff.mp h.mem
  shared := h.shared
  ascending := h.ascending
  mem_owners_iff k := by simpa only [hp.mem_iff] using h.mem_owners_iff k
  first a ha b hb := h.first a (hp.mem_iff.mpr ha) b (hp.mem_iff.mpr hb)

/-- **Entries that share an accessor** come in the order of all, and none of them is
left out. -/
theorem sharing?_eq_some (h : sharing? es = some (e, all)) :
    all.Sublist es ∧ 2 ≤ all.length ∧ ∀ o, o ∈ all ↔ o ∈ es ∧ o.accessor.key = e.accessor.key := by
  induction es with
  | nil => nomatch h
  | cons d es ih =>
    rw [sharing?] at h
    split at h
    · next hnone =>
      obtain ⟨hsub, hlength, hall⟩ := ih h
      refine ⟨hsub.cons d, hlength, fun o => ?_⟩
      rw [hall, List.mem_cons, or_and_right]
      refine (or_iff_right ?_).symm
      -- The first entry shares with none behind it, so not with those that are told.
      rintro ⟨rfl, hshare⟩
      obtain ⟨x, hx⟩ := List.exists_mem_of_length_pos (Nat.lt_of_lt_of_le Nat.zero_lt_two hlength)
      obtain ⟨hmem, hkey⟩ := (hall x).mp hx
      have hfilter : x ∈ es.filter (shareAccessor o) :=
        List.mem_filter.mpr ⟨hmem, decide_eq_true (hshare.trans hkey.symm)⟩
      exact absurd (hnone ▸ hfilter) List.not_mem_nil
    · next hne =>
      obtain ⟨rfl, rfl⟩ := Prod.mk.inj (Option.some.inj h)
      have hlength : (es.filter (shareAccessor d)).length ≠ 0 := by
        simpa [List.length_eq_zero_iff] using hne
      refine ⟨List.filter_sublist.cons_cons d, by simp only [List.length_cons]; omega, fun o => ?_⟩
      rw [List.mem_cons, List.mem_cons, List.mem_filter, shareAccessor, decide_eq_true_iff]
      constructor
      · rintro (rfl | ⟨ho, hkey⟩)
        · exact ⟨.inl rfl, rfl⟩
        · exact ⟨.inr ho, hkey.symm⟩
      · rintro ⟨rfl | ho, hkey⟩
        · exact .inl rfl
        · exact .inr ⟨ho, hkey.symm⟩

/-- In ordered entries, no entry in front of the one that is told shares its
accessor. -/
theorem key_le_of_sharing? (ho : Ordered es) (h : sharing? es = some (e, all)) :
    e ∈ es ∧ ∀ a ∈ es, ∀ b ∈ es, a.key ≠ b.key → a.accessor.key = b.accessor.key →
      e.key ≤ a.key := by
  induction es with
  | nil => nomatch h
  | cons d es ih =>
    obtain ⟨hlt, ho⟩ := List.pairwise_cons.mp ho
    rw [sharing?] at h
    split at h
    · next hnone =>
      obtain ⟨he, hfirst⟩ := ih ho h
      have hd : ∀ x ∈ es, d.accessor.key ≠ x.accessor.key := by
        simpa [shareAccessor] using List.filter_eq_nil_iff.mp hnone
      refine ⟨List.mem_cons_of_mem d he, fun a ha b hb hne hab => ?_⟩
      rcases List.mem_cons.mp ha with rfl | hes
      · rcases List.mem_cons.mp hb with rfl | hb
        · exact absurd rfl hne
        · exact absurd hab (hd b hb)
      · rcases List.mem_cons.mp hb with rfl | hb
        · exact absurd hab.symm (hd a hes)
        · exact hfirst a hes b hb hne hab
    · obtain ⟨rfl, -⟩ := Prod.mk.inj (Option.some.inj h)
      refine ⟨List.mem_cons_self, fun a ha _ _ _ _ => ?_⟩
      rcases List.mem_cons.mp ha with rfl | ha
      · exact String.le_refl _
      · exact String.not_lt.mp (String.lt_asymm (hlt a ha))

/-- **In ordered entries the first shared accessor is told**, with all its owners. -/
theorem firstShared_of_sharing? (ho : Ordered es) (h : sharing? es = some (e, all)) :
    FirstShared es e (all.map Entry.key) := by
  obtain ⟨hsub, hlength, hall⟩ := sharing?_eq_some h
  obtain ⟨hmem, hfirst⟩ := key_le_of_sharing? ho h
  refine ⟨hmem, by simpa using hlength, List.pairwise_map.mpr (ho.sublist hsub), fun k => ?_,
    hfirst⟩
  simp only [List.mem_map, hall]
  exact ⟨fun ⟨o, ⟨ho, hkey⟩, hk⟩ => ⟨o, ho, hk, hkey⟩, fun ⟨o, ho, hk, hkey⟩ => ⟨o, ⟨ho, hkey⟩, hk⟩⟩

/-! ## Building maps -/

/-- Keys that stand once stand once in sorted entries. -/
theorem nodup_keys_of_ordered_sortEntries (h : Ordered (sortEntries es)) :
    (es.map Entry.key).Nodup :=
  ((sortEntries_perm es).map Entry.key).nodup_iff.mp h.nodup

theorem isContainer_of_mem_sortEntries (hacc : ∀ a ∈ es, a.accessor.isContainer = false) :
    ∀ a ∈ sortEntries es, a.accessor.isContainer = false :=
  fun a ha => hacc a ((sortEntries_perm es).mem_iff.mp ha)

/-- **A map whose keys are not distinct** is refused with the least of those that
stand twice. -/
theorem ofEntries_of_not_nodup (hacc : ∀ a ∈ es, a.accessor.isContainer = false)
    (hn : ¬ (es.map Entry.key).Nodup) (name : Json) :
    ∃ k, LeastRepeated (es.map Entry.key) k
      ∧ ofEntries name es = .error (.breach (repeatedKey name k)) := by
  have hsorted := pairwise_sortEntries es
  cases hb : breach? name none (sortEntries es) with
  | none =>
    obtain ⟨-, ho, -⟩ := (breach?_eq_none_iff hsorted).mp hb
    exact absurd (nodup_keys_of_ordered_sortEntries ho) hn
  | some b =>
    obtain ⟨k, rfl, hk⟩ := leastRepeated_of_breach? hsorted (by simp)
      (isContainer_of_mem_sortEntries hacc) hb
    refine ⟨k, hk.of_perm ((sortEntries_perm es).map Entry.key), ?_⟩
    rw [ofEntries, hb]

/-- **A map whose keys are distinct** is refused with the first accessor that several
of them share. -/
theorem ofEntries_of_not_unambiguous (hacc : ∀ a ∈ es, a.accessor.isContainer = false)
    (hn : (es.map Entry.key).Nodup) (hu : ¬ Unambiguous es) (name : Json) :
    ∃ e owners, FirstShared es e owners
      ∧ ofEntries name es = .error (.ofCause (.accessorConflict e.accessor (owners.map .str))) := by
  have ho := ordered_sortEntries hn
  have hb : breach? name none (sortEntries es) = none :=
    (breach?_eq_none_iff (pairwise_sortEntries es)).mpr
      ⟨fun _ _ => nofun, ho, isContainer_of_mem_sortEntries hacc⟩
  cases hs : sharing? (sortEntries es) with
  | none =>
    have hperm := sortEntries_perm es
    have hpairwise := sharing?_eq_none_iff.mp hs
    exact absurd ⟨hperm.pairwise_iff (fun h => h.symm) |>.mp hpairwise, hacc⟩ hu
  | some found =>
    obtain ⟨e, all⟩ := found
    refine ⟨e, all.map Entry.key, (firstShared_of_sharing? ho hs).of_perm (sortEntries_perm es), ?_⟩
    rw [ofEntries, hb, hs, List.map_map]
    rfl

/-- **The order of the entries makes no difference**, neither to the map that is built
of them nor to what keeps it from being built. -/
theorem ofEntries_perm (hacc : ∀ a ∈ es, a.accessor.isContainer = false) (hp : es.Perm es')
    (name : Json) : ofEntries name es = ofEntries name es' := by
  by_cases hn : (es.map Entry.key).Nodup
  · exact ofEntries_eq_of_perm hn hp name
  · have hkeys := hp.map Entry.key
    obtain ⟨k, hk, hes⟩ := ofEntries_of_not_nodup hacc hn name
    obtain ⟨j, hj, hes'⟩ := ofEntries_of_not_nodup (fun a ha => hacc a (hp.mem_iff.mpr ha))
      (mt hkeys.nodup_iff.mpr hn) name
    rw [hes, hes', (hk.of_perm hkeys).unique hj]

/-- **A map that cannot be made** has a breach, or two entries or more that share
an accessor. -/
theorem ofEntries_eq_error (h : ofEntries name es = .error f) :
    (∃ b, f = .breach b) ∨ ∃ (accessor : Json) (all : List (Entry Field)),
      f = .ofCause (.accessorConflict accessor (all.map fun o => .str o.key))
        ∧ 2 ≤ all.length ∧ Ordered all
        ∧ ∀ o ∈ all, o ∈ es ∧ o.accessor.key = accessor.key := by
  unfold ofEntries at h
  dsimp only at h
  split at h
  · exact .inl ⟨_, (Except.error.inj h).symm⟩
  · next hbreach =>
    split at h
    · next e all hshare =>
      obtain ⟨-, ho, -⟩ := (breach?_eq_none_iff (pairwise_sortEntries es)).mp hbreach
      obtain ⟨hsub, hlength, hall⟩ := sharing?_eq_some hshare
      refine .inr ⟨e.accessor, all, (Except.error.inj h).symm, hlength, ho.sublist hsub,
        fun o hmem => ⟨(sortEntries_perm es).mem_iff.mp (hsub.subset hmem), ((hall o).mp hmem).2⟩⟩
    · nomatch h

/-- A map whose keys are distinct has a problem at most. -/
theorem isProblem_of_ofEntries (hacc : ∀ a ∈ es, a.accessor.isContainer = false)
    (hn : (es.map Entry.key).Nodup) (h : ofEntries name es = .error f) : f.IsProblem := by
  by_cases hu : Unambiguous es
  · have hok : ofEntries name es = .ok _ := ofEntries_eq_ok_iff.mpr
      ⟨_, rfl, sortEntries_perm es, ordered_sortEntries hn,
        (sortEntries_perm es).pairwise_iff (fun h => h.symm) |>.mpr hu.1,
        isContainer_of_mem_sortEntries hacc⟩
    nomatch hok.symm.trans h
  · obtain ⟨e, owners, -, herror⟩ := ofEntries_of_not_unambiguous hacc hn hu name
    exact ⟨_, Except.error.inj (h.symm.trans herror)⟩

/-! ## Merging -/

/-- **The merge of entries** fails as the merge of two fields at one key does. -/
theorem failsAs_mergeEntries {P : Fault → Prop} {path : String}
    (h : ∀ e ∈ es, ∀ e', entryAt? e.key es' = some e' →
      (merge (childPath path e.key) e.field e'.field).FailsAs P) :
    (mergeEntries path es es').FailsAs P := by
  induction es with
  | nil =>
    rw [mergeEntries]
    exact .pure _
  | cons e es ih =>
    obtain ⟨hfirst, hrest⟩ := List.forall_mem_cons.mp h
    obtain ⟨key, accessor, field, required⟩ := e
    rw [mergeEntries.eq_def]
    dsimp only
    cases hfound : entryAt? key es' with
    | none => exact (ih hrest).bind fun _ => .pure _
    | some e' => exact (hfirst e' hfound).bind fun _ => (ih hrest).bind fun _ => .pure _

/-- **A merge fails** with a cause of its own, as the merge of two elements does, or as
the map of two maps that are merged cannot be built. -/
theorem failsAs_merge {P : Fault → Prop} {path : String} {a b : Field}
    (hcause : ∀ cause, P (.ofCause cause))
    (helement : ∀ n e n' e', a = .collection n e → b = .collection n' e' →
      (merge path e e').FailsAs P)
    (hmaps : ∀ n es n' es', a = .map n es → b = .map n' es' →
      (mergeEntries path es es').FailsAs P ∧ ∀ common,
        (mergeEntries path es es').outcome = .ok common → ∀ f,
          ofEntries n (common ++ (es'.filter fun e => (entryAt? e.key es).isNone).map optional)
            = .error f → P f) :
    (merge path a b).FailsAs P := by
  rw [merge.eq_def]
  split_ifs
  · exact .pure _
  · exact .pure _
  cases a with
  | empty n =>
    cases b with
    | map => exact .fail (hcause _)
    | _ => exact (Run.FailsAs.note _ _).bind fun _ => .pure _
  | scalar n k =>
    cases b with
    | map => exact .fail (hcause _)
    | scalar => exact .pure _
    | _ => exact (Run.FailsAs.note _ _).bind fun _ => .pure _
  | collection n e =>
    cases b with
    | map => exact .fail (hcause _)
    | collection n' e' => exact (helement n e n' e' rfl rfl).bind fun _ => .pure _
    | _ => exact (Run.FailsAs.note _ _).bind fun _ => .pure _
  | map n es =>
    cases b with
    | map n' es' =>
      obtain ⟨hentries, hbuilt⟩ := hmaps n es n' es' rfl rfl
      exact hentries.bind_of_ok fun common hcommon => .ofExcept (hbuilt common hcommon)
    | _ => exact .fail (hcause _)

/-- An entry that was merged has the accessor of the first one. -/
theorem accessor_joinFound (fields : String → Field) (es' : List (Entry Field))
    (e : Entry Field) : (joinFound fields es' e).accessor = e.accessor := by
  unfold joinFound
  cases entryAt? e.key es' <;> rfl

/-- The entries of two maps together have the accessors of both. -/
theorem isContainer_of_mem_joinAll {fields : String → Field}
    (hacc : ∀ a ∈ es, a.accessor.isContainer = false)
    (hacc' : ∀ a ∈ es', a.accessor.isContainer = false) :
    ∀ a ∈ joinAll fields es es', a.accessor.isContainer = false := by
  intro a ha
  rcases List.mem_append.mp ha with ha | ha
  · obtain ⟨e, he, rfl⟩ := List.mem_map.mp ha
    rw [accessor_joinFound]
    exact hacc e he
  · obtain ⟨e, he, rfl⟩ := List.mem_map.mp ha
    exact hacc' e (List.mem_filter.mp he).1

/-- **Merging well-formed fields** fails with a problem, never with a breach. -/
theorem merge_failsAs_isProblem {a b : Field} (path : String) (ha : WellFormed a)
    (hb : WellFormed b) : (merge path a b).FailsAs Fault.IsProblem := by
  induction a generalizing b path with
  | collection n e ih =>
    refine failsAs_merge (fun _ => ⟨_, rfl⟩) (fun n e n' e' he he' => ?_) nofun
    obtain ⟨-, rfl⟩ := Field.collection.inj he
    subst he'
    exact ih path ha hb
  | map n es ih =>
    refine failsAs_merge (fun _ => ⟨_, rfl⟩) nofun fun n es n' es' hes hes' => ?_
    obtain ⟨-, rfl⟩ := Field.map.inj hes
    subst hes'
    obtain ⟨ho, hu, hentries⟩ := wellFormed_map_iff.mp ha
    obtain ⟨ho', hu', hentries'⟩ := wellFormed_map_iff.mp hb
    refine ⟨failsAs_mergeEntries fun e he e' hfound => ?_, fun common hcommon f hf => ?_⟩
    · exact ih e he _ (hentries e he) (hentries' e' (mem_of_entryAt? hfound))
    · obtain ⟨fields, -, rfl⟩ := (mergeEntries_eq_ok_iff ho.nodup).mp hcommon
      exact isProblem_of_ofEntries (isContainer_of_mem_joinAll hu.2 hu'.2)
        (nodup_joinAll fields ho.nodup ho'.nodup) hf
  | _ => exact failsAs_merge (fun _ => ⟨_, rfl⟩) nofun nofun

/-! ## The construction as a whole -/

/-- **What becomes of some entries.** They make a map exactly if their keys are
distinct and their accessors are, and the map has them in ascending order of their
keys. As far as accessors can be keys at all, the order in which the entries are
given makes no difference; keys that are not distinct are told by the least one
that stands twice, whatever the accessors are, and otherwise the first shared
accessor is told with all its owners.

So leaving keys out of a well-formed map is always possible, and merging two of
them ends in no breach. -/
theorem ofEntries_outcome (name : Json) (es : List (Entry Field)) :
    ((∃ f, ofEntries name es = .ok f) ↔ (es.map Entry.key).Nodup ∧ Unambiguous es)
    ∧ (∀ f, ofEntries name es = .ok f → ∃ es', f = .map name es' ∧ es'.Perm es ∧ Ordered es')
    ∧ ((∀ e ∈ es, e.accessor.isContainer = false) →
      (∀ es', es'.Perm es → ofEntries name es' = ofEntries name es)
      ∧ (¬ (es.map Entry.key).Nodup → ∃ k, LeastRepeated (es.map Entry.key) k
        ∧ ofEntries name es = .error (.breach (repeatedKey name k)))
      ∧ ((es.map Entry.key).Nodup → ¬ Unambiguous es → ∃ e owners, FirstShared es e owners
        ∧ ofEntries name es
          = .error (.ofCause (.accessorConflict e.accessor (owners.map .str)))))
    ∧ (WellFormed (.map name es) →
      (∀ keys newName, withoutKeys name es keys newName
        = .ok (.map (newName.getD name) (es.filter fun e => e.key ∉ keys)))
      ∧ ∀ path n es', WellFormed (.map n es') → ∀ b,
        (merge path (.map name es) (.map n es')).outcome ≠ .error (.breach b)) := by
  refine ⟨⟨?_, fun ⟨hn, hu⟩ => ?_⟩, fun f hf => ?_, fun hacc => ⟨fun es' hp => ?_, ?_, ?_⟩,
    fun hwf => ⟨?_, fun path n es' hwf' b hb => ?_⟩⟩
  · rintro ⟨f, hf⟩
    obtain ⟨es', -, hp, ho, hu⟩ := ofEntries_eq_ok_iff.mp hf
    exact ⟨(hp.map Entry.key).nodup_iff.mp ho.nodup,
      hp.pairwise_iff (fun h => h.symm) |>.mp hu.1, fun e he => hu.2 e (hp.mem_iff.mpr he)⟩
  · exact ⟨_, ofEntries_eq_ok_iff.mpr ⟨_, rfl, sortEntries_perm es, ordered_sortEntries hn,
      (sortEntries_perm es).pairwise_iff (fun h => h.symm) |>.mpr hu.1,
      isContainer_of_mem_sortEntries hu.2⟩⟩
  · obtain ⟨es', rfl, hp, ho, -⟩ := ofEntries_eq_ok_iff.mp hf
    exact ⟨es', rfl, hp, ho⟩
  · exact ofEntries_perm (fun a ha => hacc a (hp.mem_iff.mp ha)) hp name
  · exact fun hn => ofEntries_of_not_nodup hacc hn name
  · exact fun hn hu => ofEntries_of_not_unambiguous hacc hn hu name
  · obtain ⟨ho, hu, -⟩ := wellFormed_map_iff.mp hwf
    exact withoutKeys_eq_ok ho hu name
  · obtain ⟨p, hp⟩ := merge_failsAs_isProblem path hwf hwf' _ hb
    nomatch hp

/-- The accessor that two of three keys share is told with both of them, and a key
that stands twice is told in place of that. A record of the first and the last of
the entries is merged with itself. -/
theorem ofEntries_outcome_shared :
    let b : Entry Field := ⟨"b", .str "x", .empty (.str "b"), true⟩
    let a : Entry Field := ⟨"a", .str "x", .empty (.str "a"), true⟩
    let c : Entry Field := ⟨"c", .str "y", .empty (.str "c"), true⟩
    (∃ e owners, FirstShared [b, a, c] e owners
      ∧ ofEntries (.str "R") [b, a, c]
        = .error (.ofCause (.accessorConflict e.accessor (owners.map .str))))
      ∧ (∃ k, LeastRepeated ["b", "a", "c", "b"] k
        ∧ ofEntries (.str "R") [b, a, c, b] = .error (.breach (repeatedKey (.str "R") k)))
      ∧ ∀ path b', (merge path (.map (.str "R") [b, c]) (.map (.str "R") [b, c])).outcome
        ≠ .error (.breach b') := by
  intro b a c
  have hu : ¬ Unambiguous [b, a, c] := by unfold Unambiguous; decide
  have hwf : WellFormed (.map (.str "R") [b, c]) := wellFormed_map_iff.mpr
    ⟨by unfold Ordered; decide, by unfold Unambiguous; decide, by simp [b, c, WellFormed]⟩
  obtain ⟨-, -, hshared, -⟩ := ofEntries_outcome (.str "R") [b, a, c]
  obtain ⟨-, -, hrepeated, -⟩ := ofEntries_outcome (.str "R") [b, a, c, b]
  obtain ⟨-, -, -, hmerge⟩ := ofEntries_outcome (.str "R") [b, c]
  exact ⟨(hshared (by decide)).2.2 (by decide) hu, (hrepeated (by decide)).2.1 (by decide),
    fun path b' => (hmerge hwf).2 path _ _ hwf b'⟩

end Field

end Exemplar
