import Exemplar.Field

/-!
# Entries as a finite map

The entries of a well-formed map are in strictly ascending order of their
keys, so the list is no more than a way to write down a finite map: what
`Field.entryAt?` finds at each key determines it
(`Field.eq_of_entryAt?`), and sorting any list of entries with distinct
keys gives that one list (`Field.sortEntries_eq_iff`).

`Field.ofEntries_eq_ok_iff` reads the construction of a map this way: it
succeeds exactly where the given entries can be put into an ordered and
unambiguous list at all, and what it builds is that list. Everything
above this module reads maps by `entryAt?` and never asks how they were
sorted.
-/

namespace Exemplar.Field

variable {es es' : List (Entry Field)} {e e' : Entry Field} {k : String}

/-- **Induction on fields**: a property that holds of a collection if it
holds of the element, and of a map if it holds of all the entries, holds
of every field. -/
@[elab_as_elim, induction_eliminator]
theorem induction {P : Field → Prop} (empty : ∀ n, P (.empty n))
    (scalar : ∀ n k, P (.scalar n k)) (collection : ∀ n e, P e → P (.collection n e))
    (map : ∀ n es, (∀ e ∈ es, P e.field) → P (.map n es)) : ∀ f, P f
  | .empty n => empty n
  | .scalar n k => scalar n k
  | .collection n e => collection n e (induction empty scalar collection map e)
  | .map n es => map n es (entries es)
where
  /-- The property holds of every entry's field. -/
  entries : ∀ es : List (Entry Field), ∀ e ∈ es, P e.field
    | [], _, he => absurd he List.not_mem_nil
    | ⟨_, _, f, _⟩ :: es, e, he => by
      rcases List.mem_cons.mp he with rfl | he
      · exact induction empty scalar collection map f
      · exact entries es e he

/-! ## Finding entries -/

theorem mem_of_entryAt? (h : entryAt? k es = some e) : e ∈ es :=
  List.mem_of_find?_eq_some h

/-- An entry is found at its own key. -/
theorem key_of_entryAt? (h : entryAt? k es = some e) : e.key = k := by
  simpa using List.find?_some h

theorem entryAt?_cons (k : String) (e : Entry Field) (es : List (Entry Field)) :
    entryAt? k (e :: es) = if e.key = k then some e else entryAt? k es := by
  rw [entryAt?, List.find?_cons]
  by_cases h : e.key = k
  · simp [h]
  · rw [if_neg h, beq_eq_false_iff_ne.mpr h]
    rfl

/-- Nothing is found where no entry has the key. -/
theorem entryAt?_eq_none_iff : entryAt? k es = none ↔ ∀ e ∈ es, e.key ≠ k := by
  simp [entryAt?]

/-- **Where keys are distinct, an entry is found exactly at its key.** -/
theorem entryAt?_eq_some_iff_of_nodup (h : (es.map Entry.key).Nodup) :
    entryAt? k es = some e ↔ e ∈ es ∧ e.key = k := by
  refine ⟨fun he => ⟨mem_of_entryAt? he, key_of_entryAt? he⟩, ?_⟩
  rintro ⟨he, hk⟩
  induction es with
  | nil => exact absurd he List.not_mem_nil
  | cons d es ih =>
    obtain ⟨hd, hes⟩ := List.nodup_cons.mp (List.map_cons ▸ h)
    rw [entryAt?_cons]
    rcases List.mem_cons.mp he with rfl | he
    · rw [if_pos hk]
    · have hne : d.key ≠ k := by
        rintro rfl
        exact hd (hk ▸ List.mem_map_of_mem he)
      rw [if_neg hne]
      exact ih hes he

/-- Entries with distinct keys are distinct. -/
theorem nodup_of_nodup_keys (h : (es.map Entry.key).Nodup) : es.Nodup :=
  (List.pairwise_map.mp h).imp (fun hab he => hab (congrArg Entry.key he))

/-- Lists with distinct keys that find the same have the same entries. -/
theorem perm_of_entryAt? (h : (es.map Entry.key).Nodup) (h' : (es'.map Entry.key).Nodup)
    (hf : ∀ k, entryAt? k es = entryAt? k es') : es.Perm es' := by
  refine (List.perm_ext_iff_of_nodup (nodup_of_nodup_keys h) (nodup_of_nodup_keys h')).mpr
    (fun e => ?_)
  have hm := (entryAt?_eq_some_iff_of_nodup (k := e.key) (e := e) h).symm
  rw [hf, entryAt?_eq_some_iff_of_nodup h'] at hm
  simpa using hm

/-- Reordering entries with distinct keys does not change what is found. -/
theorem entryAt?_eq_of_perm (h : (es.map Entry.key).Nodup) (hp : es.Perm es') (k : String) :
    entryAt? k es = entryAt? k es' := by
  have h' : (es'.map Entry.key).Nodup := (hp.map Entry.key).nodup_iff.mp h
  refine Option.ext (fun e => ?_)
  rw [entryAt?_eq_some_iff_of_nodup h, entryAt?_eq_some_iff_of_nodup h', hp.mem_iff]

/-! ## Ordered entries -/

instance : Decidable (Ordered es) :=
  inferInstanceAs (Decidable (es.Pairwise fun a b => a.key < b.key))

/-- Ordered entries have distinct keys. -/
theorem Ordered.nodup (h : Ordered es) : (es.map Entry.key).Nodup := by
  refine List.pairwise_map.mpr (List.Pairwise.imp (fun hab hk => ?_) h)
  rw [hk] at hab
  exact String.lt_irrefl _ hab

theorem Ordered.entryAt?_eq_some_iff (h : Ordered es) :
    entryAt? k es = some e ↔ e ∈ es ∧ e.key = k :=
  entryAt?_eq_some_iff_of_nodup h.nodup

/-- Every entry of an ordered list is the one found at its key. -/
theorem Ordered.entryAt?_of_mem (h : Ordered es) (he : e ∈ es) : entryAt? e.key es = some e :=
  h.entryAt?_eq_some_iff.mpr ⟨he, rfl⟩

/-- **Ordered entries are determined by what is found in them.** -/
theorem eq_of_entryAt? (h : Ordered es) (h' : Ordered es')
    (hf : ∀ k, entryAt? k es = entryAt? k es') : es = es' := by
  have hanti : ∀ a b : Entry Field, a ∈ es → b ∈ es' → a.key < b.key → b.key < a.key → a = b :=
    fun a b _ _ hab hba => absurd (String.lt_trans hab hba) (String.lt_irrefl _)
  exact List.Perm.eq_of_pairwise hanti h h' (perm_of_entryAt? h.nodup h'.nodup hf)

/-- Sorting entries only reorders them. -/
theorem sortEntries_perm (es : List (Entry Field)) : (sortEntries es).Perm es :=
  List.mergeSort_perm _ _

/-- Whatever is sorted by its keys is in their order. -/
theorem pairwise_mergeSort_key {α : Type} (key : α → String) (xs : List α) :
    (xs.mergeSort fun a b => decide (key a ≤ key b)).Pairwise fun a b => key a ≤ key b := by
  refine List.Pairwise.imp (fun h => of_decide_eq_true h) (List.pairwise_mergeSort ?_ ?_ xs)
  · intro a b c hab hbc
    exact decide_eq_true (String.le_trans (of_decide_eq_true hab) (of_decide_eq_true hbc))
  · intro a b
    simpa using String.le_total (key a) (key b)

theorem pairwise_sortEntries (es : List (Entry Field)) :
    (sortEntries es).Pairwise fun a b => a.key ≤ b.key :=
  pairwise_mergeSort_key Entry.key es

/-- Sorting entries with distinct keys puts them in order. -/
theorem ordered_sortEntries (h : (es.map Entry.key).Nodup) : Ordered (sortEntries es) := by
  have hn : ((sortEntries es).map Entry.key).Nodup :=
    ((sortEntries_perm es).map Entry.key).nodup_iff.mpr h
  refine List.Pairwise.imp₂ (fun a b hle hne => ?_) (pairwise_sortEntries es)
    (List.pairwise_map.mp hn)
  exact String.not_le.mp (fun hba => hne (String.le_antisymm hle hba))

/-- **Sorting gives the one ordered list** of the entries, if there is
one. -/
theorem sortEntries_eq_iff : sortEntries es = es' ∧ Ordered es' ↔ Ordered es' ∧ es'.Perm es := by
  constructor
  · rintro ⟨rfl, ho⟩
    exact ⟨ho, sortEntries_perm es⟩
  · rintro ⟨ho, hp⟩
    have hn : (es.map Entry.key).Nodup := (hp.map Entry.key).nodup_iff.mp ho.nodup
    refine ⟨eq_of_entryAt? (ordered_sortEntries hn) ho (fun k => ?_), ho⟩
    rw [entryAt?_eq_of_perm ho.nodup hp, entryAt?_eq_of_perm _ (sortEntries_perm es)]
    exact (ordered_sortEntries hn).nodup

/-! ## Accessors that tell keys apart -/

instance : Decidable (Unambiguous es) :=
  inferInstanceAs (Decidable ((es.Pairwise fun a b => a.accessor.key ≠ b.accessor.key)
    ∧ ∀ e ∈ es, e.accessor.isContainer = false))

/-- **Accessors that tell keys apart**: each can be a key itself, and one
accessor means one key. This is what `Unambiguous` says of entries with
distinct keys, put so that it does not depend on their order. -/
def Distinguishes (es : List (Entry Field)) : Prop :=
  (∀ a ∈ es, ∀ b ∈ es, a.accessor.key = b.accessor.key → a.key = b.key)
    ∧ ∀ a ∈ es, a.accessor.isContainer = false

theorem unambiguous_iff_distinguishes (h : (es.map Entry.key).Nodup) :
    Unambiguous es ↔ Distinguishes es := by
  let OneKey (a b : Entry Field) : Prop := a.accessor.key = b.accessor.key → a.key = b.key
  refine and_congr_left (fun _ => ⟨fun hp a ha b hb => ?_, fun hm => ?_⟩)
  · have hfst : es.Pairwise OneKey := hp.imp (fun hne hab => absurd hab hne)
    have hsnd : es.Pairwise (flip OneKey) := hp.imp (fun hne hba => absurd hba.symm hne)
    exact List.Pairwise.forall_of_forall_of_flip (fun _ _ _ => rfl) hfst hsnd ha hb
  · refine List.Pairwise.imp_of_mem (fun ha hb hne hab => ?_) (List.pairwise_map.mp h)
    exact hne (hm _ ha _ hb hab)

/-- Keys and accessors that stand among others are told apart with them. -/
theorem Distinguishes.of_forall_exists (h : Distinguishes es')
    (hsub : ∀ a ∈ es, ∃ b ∈ es', b.key = a.key ∧ b.accessor = a.accessor) :
    Distinguishes es := by
  refine ⟨fun a ha b hb hab => ?_, fun a ha => ?_⟩
  · obtain ⟨a', ha', hak, haa⟩ := hsub a ha
    obtain ⟨b', hb', hbk, hba⟩ := hsub b hb
    rw [← hak, ← hbk]
    exact h.1 a' ha' b' hb' (by rw [haa, hba, hab])
  · obtain ⟨a', ha', -, haa⟩ := hsub a ha
    exact haa ▸ h.2 a' ha'

/-! ## Building maps -/

/-- In sorted entries nothing keeps a map from being built but a repeated
key, or an accessor that can be no key. -/
theorem breach?_eq_none_iff {name : Json} {before : Option String}
    (hs : es.Pairwise fun a b => a.key ≤ b.key) :
    breach? name before es = none ↔ (∀ a ∈ es.head?, before ≠ some a.key)
      ∧ Ordered es ∧ ∀ a ∈ es, a.accessor.isContainer = false := by
  induction es generalizing before with
  | nil => simp [breach?, Ordered]
  | cons d es ih =>
    obtain ⟨hle, hs⟩ := List.pairwise_cons.mp hs
    have hchain : ((∀ a ∈ es.head?, some d.key ≠ some a.key) ∧ Ordered es) ↔
        Ordered (d :: es) := by
      refine ⟨fun ⟨hhead, ho⟩ => List.pairwise_cons.mpr ⟨fun b hb => ?_, ho⟩, fun ho => ?_⟩
      · cases es with
        | nil => exact absurd hb List.not_mem_nil
        | cons c es =>
          have hne : d.key ≠ c.key := fun h => hhead c rfl (congrArg some h)
          have hdc : d.key < c.key :=
            String.not_le.mp (fun h => hne (String.le_antisymm (hle c List.mem_cons_self) h))
          rcases List.mem_cons.mp hb with rfl | hb
          · exact hdc
          · exact String.lt_trans hdc ((List.pairwise_cons.mp ho).1 b hb)
      · obtain ⟨hlt, ho⟩ := List.pairwise_cons.mp ho
        refine ⟨fun a ha h => ?_, ho⟩
        have hda := hlt a (List.mem_of_mem_head? ha)
        rw [Option.some.inj h] at hda
        exact String.lt_irrefl _ hda
    -- In sorted entries a repeated key stands next to itself.
    rw [breach?]
    by_cases hb : before = some d.key
    · simp [hb]
    · by_cases hc : d.accessor.isContainer = true
      · simp [hb, hc]
      · rw [if_neg hb, if_neg hc, ih hs, ← and_assoc, hchain]
        simp [hb, hc]

/-- No entry shares its accessor exactly where all accessors differ. -/
theorem sharing?_eq_none_iff :
    sharing? es = none ↔ es.Pairwise fun a b => a.accessor.key ≠ b.accessor.key := by
  induction es with
  | nil => simp [sharing?]
  | cons d es ih =>
    rw [sharing?, List.pairwise_cons]
    cases hf : es.filter (shareAccessor d) with
    | nil =>
      have hd : ∀ b ∈ es, d.accessor.key ≠ b.accessor.key := by
        simpa [shareAccessor] using List.filter_eq_nil_iff.mp hf
      simpa [ih] using fun _ => hd
    | cons b bs =>
      have hb : b ∈ es.filter (shareAccessor d) := hf ▸ List.mem_cons_self
      obtain ⟨hmem, hshare⟩ := List.mem_filter.mp hb
      simp only [reduceCtorEq, false_iff, not_and]
      exact fun hd => absurd (of_decide_eq_true hshare) (hd b hmem)

/-- **What building a map gives**: it succeeds exactly where the entries
can be put into an ordered and unambiguous list, and that list is the one
of the map. -/
theorem ofEntries_eq_ok_iff {name : Json} {f : Field} :
    ofEntries name es = .ok f ↔
      ∃ es', f = .map name es' ∧ es'.Perm es ∧ Ordered es' ∧ Unambiguous es' := by
  have hiff : ofEntries name es = .ok f ↔ f = .map name (sortEntries es)
      ∧ Ordered (sortEntries es) ∧ Unambiguous (sortEntries es) := by
    have hb : breach? name none (sortEntries es) = none ↔ _ :=
      breach?_eq_none_iff (pairwise_sortEntries es)
    have hs : sharing? (sortEntries es) = none ↔ _ := sharing?_eq_none_iff
    unfold ofEntries Unambiguous
    simp only
    split
    · next b hbreach =>
      simp only [hbreach, reduceCtorEq, false_iff] at hb ⊢
      exact fun ⟨_, ho, _, hc⟩ => hb ⟨fun _ _ => nofun, ho, hc⟩
    · next hbreach =>
      obtain ⟨-, ho, hc⟩ := hb.mp hbreach
      split
      · next hshare =>
        simp only [hshare, reduceCtorEq, false_iff] at hs ⊢
        exact fun ⟨_, _, hp, _⟩ => hs hp
      · next hshare =>
        simp only [Except.ok.injEq]
        exact ⟨fun h => ⟨h.symm, ho, hs.mp hshare, hc⟩, fun h => h.1.symm⟩
  rw [hiff]
  constructor
  · rintro ⟨rfl, ho, hu⟩
    exact ⟨_, rfl, sortEntries_perm es, ho, hu⟩
  · rintro ⟨es', rfl, hp, ho, hu⟩
    rw [(sortEntries_eq_iff.mpr ⟨ho, hp⟩).1]
    exact ⟨rfl, ho, hu⟩

/-- Entries that are ordered and unambiguous stay as they are. -/
theorem ofEntries_of_ordered {name : Json} (ho : Ordered es) (hu : Unambiguous es) :
    ofEntries name es = .ok (.map name es) :=
  ofEntries_eq_ok_iff.mpr ⟨es, rfl, .refl es, ho, hu⟩

/-- Building a map does not depend on the order of its entries. -/
theorem ofEntries_eq_of_perm (h : (es.map Entry.key).Nodup) (hp : es.Perm es') (n : Json) :
    ofEntries n es = ofEntries n es' := by
  have h' : (es'.map Entry.key).Nodup := (hp.map Entry.key).nodup_iff.mp h
  have hsort : sortEntries es = sortEntries es' :=
    (sortEntries_eq_iff.mpr ⟨ordered_sortEntries h', (sortEntries_perm es').trans hp.symm⟩).1
  rw [ofEntries, ofEntries, hsort]

/-- **Leaving keys out** of an ordered and unambiguous map gives one again,
with the entries that are left as they were. -/
theorem withoutKeys_eq_ok (ho : Ordered es) (hu : Unambiguous es) (name : Json)
    (keys : List String) (newName : Option Json) :
    withoutKeys name es keys newName
      = .ok (.map (newName.getD name) (es.filter fun e => e.key ∉ keys)) := by
  rw [withoutKeys, ofEntries_eq_ok_iff]
  exact ⟨_, rfl, List.Perm.refl _, ho.filter _, hu.1.filter _,
    fun e he => hu.2 e (List.mem_filter.mp he).1⟩

/-! ## Well-formed fields -/

theorem wellFormedEntries_iff : WellFormedEntries es ↔ ∀ e ∈ es, WellFormed e.field := by
  induction es with
  | nil => simp [WellFormedEntries]
  | cons d es ih => simp [WellFormedEntries, ih]

/-- **A well-formed map**, by its entries. -/
theorem wellFormed_map_iff {name : Json} :
    WellFormed (.map name es) ↔ Ordered es ∧ Unambiguous es ∧ ∀ e ∈ es, WellFormed e.field := by
  rw [WellFormed, wellFormedEntries_iff]

end Exemplar.Field
