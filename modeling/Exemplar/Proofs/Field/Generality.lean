import Exemplar.Proofs.Field.Merging

/-!
# The order of generality

One field is **below** another if the other describes every value that it
describes. A field without shape is below all fields of its name, every
scalar below raw text, a collection below one with a more general
element, and a map below one that has its entries, made more general, and
requires no more. Maps are below nothing but maps.

Whether a collection is below raw text as well is a parameter, `lossy`.
It is in the order the merge climbs: a collection and a scalar merge to
raw text, and what the collection said of its items is lost. Without it
the order is the one that merging climbs as long as no collection meets a
scalar (`Field.Meet`), and there it is well behaved: two fields below a
third one do merge (`Field.exists_merges_of_below`), which fails in the
lossy order, where raw text is above collections that do not merge.

In both orders a merge is the **least** field above what it merges
(`Field.Merges.above`, `Field.Merges.least`). Nothing more has to be known
of merging to see that the merge of many fields depends on nothing but
which fields they are.
-/

namespace Exemplar.Field

variable {lossy : Prop} {a b c d u : Field} {es es' : List (Entry Field)}

/-- **A field below another**: what it describes, the other describes. -/
inductive Below (lossy : Prop) : Field → Field → Prop where
  /-- A field without shape is below all others. -/
  | null {n : Json} {f : Field} : f.name = n → Below lossy (.scalar n .unknown) f
  | scalar {n : Json} {k : Kind} : Below lossy (.scalar n k) (.scalar n k)
  /-- Every scalar is below raw text. -/
  | rawScalar {n : Json} {k : Kind} : Below lossy (.scalar n k) (.scalar n .opaque_)
  /-- A collection may be given up for raw text. -/
  | rawCollection {n : Json} {e : Field} : lossy →
      Below lossy (.collection n e) (.scalar n .opaque_)
  | collection {n : Json} {e e' : Field} : Below lossy e e' →
      Below lossy (.collection n e) (.collection n e')
  /-- A map is below one that has its entries, each above its own and
  required only where it is; what it lacks is not required. -/
  | map {n : Json} {es es' : List (Entry Field)} :
      (∀ k e, entryAt? k es = some e → ∃ e', entryAt? k es' = some e' ∧
        e'.accessor = e.accessor ∧ (e'.required = true → e.required = true)) →
      (∀ k e e', entryAt? k es = some e → entryAt? k es' = some e' →
        Below lossy e.field e'.field) →
      (∀ k e', entryAt? k es = none → entryAt? k es' = some e' → e'.required = false) →
      Below lossy (.map n es) (.map n es')

/-- **A field without an empty one in it.** -/
inductive Solid : Field → Prop where
  | scalar {n : Json} {k : Kind} : Solid (.scalar n k)
  | collection {n : Json} {e : Field} : Solid e → Solid (.collection n e)
  | map {n : Json} {es : List (Entry Field)} :
      (∀ k e, entryAt? k es = some e → Solid e.field) → Solid (.map n es)

/-- **Fields that agree** in their names, and in their accessors wherever
both have an entry. -/
inductive Agree : Field → Field → Prop where
  | collection {n : Json} {e e' : Field} : Agree e e' →
      Agree (.collection n e) (.collection n e')
  | map {n : Json} {es es' : List (Entry Field)} :
      (∀ k e e', entryAt? k es = some e → entryAt? k es' = some e' →
        e.accessor = e'.accessor) →
      (∀ k e e', entryAt? k es = some e → entryAt? k es' = some e' →
        Agree e.field e'.field) →
      Agree (.map n es) (.map n es')
  /-- Nothing below the names is in a common place. -/
  | leaf {a b : Field} : a.name = b.name → (a.shape ≠ b.shape ∨ a.shape = .scalar) → Agree a b

/-- **A collection meets a scalar** with a shape at some place that both
fields have. -/
inductive Meet : Field → Field → Prop where
  | collectionScalar {n n' : Json} {e : Field} {k : Kind} : k ≠ .unknown →
      Meet (.collection n e) (.scalar n' k)
  | scalarCollection {n n' : Json} {e : Field} {k : Kind} : k ≠ .unknown →
      Meet (.scalar n' k) (.collection n e)
  | element {n n' : Json} {e e' : Field} : Meet e e' →
      Meet (.collection n e) (.collection n' e')
  | entry {n n' k} {es es' : List (Entry Field)} {e e' : Entry Field} :
      entryAt? k es = some e → entryAt? k es' = some e' → Meet e.field e'.field →
      Meet (.map n es) (.map n' es')

/-! ## An order -/

theorem Agree.name_eq (h : Agree a b) : a.name = b.name := by
  cases h with
  | leaf hn => exact hn
  | _ => rfl

theorem Meet.symm (h : Meet a b) : Meet b a := by
  induction h with
  | collectionScalar hk => exact .scalarCollection hk
  | scalarCollection hk => exact .collectionScalar hk
  | element _ ih => exact .element ih
  | entry he he' _ ih => exact .entry he' he ih

theorem Below.name_eq (h : Below lossy a b) : a.name = b.name := by
  cases h with
  | null hn => exact hn.symm
  | _ => rfl

/-- Nothing but raw text is above raw text. -/
theorem Below.eq_of_raw {n : Json} (h : Below lossy (.scalar n .opaque_) b) :
    b = .scalar n .opaque_ := by
  cases h <;> rfl

/-- Every solid field is below itself. -/
theorem Below.refl (h : Solid a) : Below lossy a a := by
  induction h with
  | scalar => exact .scalar
  | collection _ ih => exact .collection ih
  | map _ ih =>
    refine .map (fun k e he => ⟨e, he, rfl, id⟩) ?_ ?_
    · intro k e e' he he'
      exact Option.some.inj (he.symm.trans he') ▸ ih k e he
    · intro k e' he he'
      nomatch he.symm.trans he'

/-- **Generality is transitive.** -/
theorem Below.trans (h : Below lossy a b) (h' : Below lossy b c) : Below lossy a c := by
  induction h generalizing c with
  | null hn => exact .null (h'.name_eq ▸ hn)
  | scalar => exact h'
  | rawScalar => exact h'.eq_of_raw ▸ .rawScalar
  | rawCollection hl => exact h'.eq_of_raw ▸ .rawCollection hl
  | collection _ ih =>
    cases h' with
    | rawCollection hl => exact .rawCollection hl
    | collection he => exact .collection (ih he)
  | map hentry hfield hlate ih =>
    cases h' with
    | map hentry' hfield' hlate' =>
      refine .map ?_ ?_ ?_
      · intro k e he
        obtain ⟨e', he', hacc, hreq⟩ := hentry k e he
        obtain ⟨e'', he'', hacc', hreq'⟩ := hentry' k e' he'
        exact ⟨e'', he'', hacc'.trans hacc, fun h => hreq (hreq' h)⟩
      · intro k e e'' he he''
        obtain ⟨e', he', -, -⟩ := hentry k e he
        exact ih k e e' he he' (hfield' k e' e'' he' he'')
      · intro k e'' he he''
        cases he' : entryAt? k _ with
        | none => exact hlate' k e'' he' he''
        | some e' =>
          obtain ⟨x, hx, -, hreq⟩ := hentry' k e' he'
          obtain rfl : x = e'' := Option.some.inj (hx.symm.trans he'')
          -- What the first map lacks the second does not require, and the
          -- third requires no more.
          have hnot := hlate k e' he he'
          by_contra hr
          rw [hreq (by simpa using hr)] at hnot
          nomatch hnot

/-- **Generality is antisymmetric**, on well-formed fields: two that are
below each other are one. -/
theorem Below.antisymm (h : Below lossy a b) (h' : Below lossy b a) (ha : WellFormed a)
    (hb : WellFormed b) : a = b := by
  induction h with
  | null hn =>
    cases h' with
    | null => exact congrArg (fun m => Field.scalar m .unknown) hn.symm
    | scalar => rfl
  | scalar => rfl
  | rawScalar => exact h'.eq_of_raw
  | rawCollection hl => nomatch h'
  | collection _ ih =>
    cases h' with
    | collection he => rw [ih he ha hb]
  | @map n es es' hentry hfield hlate ih =>
    cases h' with
    | map hentry' hfield' hlate' =>
      obtain ⟨ho, -, hes⟩ := wellFormed_map_iff.mp ha
      obtain ⟨ho', -, hes'⟩ := wellFormed_map_iff.mp hb
      refine congrArg (Field.map n) (eq_of_entryAt? ho ho' (fun k => ?_))
      cases he : entryAt? k es with
      | none =>
        cases he' : entryAt? k es' with
        | none => rfl
        | some e' =>
          obtain ⟨e, hk, -, -⟩ := hentry' k e' he'
          nomatch he.symm.trans hk
      | some e =>
        obtain ⟨e', he', hacc, hreq⟩ := hentry k e he
        obtain ⟨x, hx, -, hreq'⟩ := hentry' k e' he'
        obtain rfl : e = x := Option.some.inj (he.symm.trans hx)
        have hfld := ih k e e' he he' (hfield' k e' e he' he) (hes e (mem_of_entryAt? he))
          (hes' e' (mem_of_entryAt? he'))
        have hkey : e.key = e'.key := (key_of_entryAt? he).trans (key_of_entryAt? he').symm
        have hr : e.required = e'.required := Bool.eq_iff_iff.mpr ⟨hreq', hreq⟩
        rw [he']
        cases e
        cases e'
        simp_all

/-! ## Merging climbs the order -/

/-- A map below another, with all that is asked of one entry in one
place. -/
theorem Below.map_of_forall {n : Json}
    (hentry : ∀ k e, entryAt? k es = some e → ∃ e', entryAt? k es' = some e' ∧
      e'.accessor = e.accessor ∧ (e'.required = true → e.required = true) ∧
      Below lossy e.field e'.field)
    (hlate : ∀ k e', entryAt? k es = none → entryAt? k es' = some e' → e'.required = false) :
    Below lossy (.map n es) (.map n es') := by
  refine .map (fun k e he => ?_) (fun k e e' he he' => ?_) hlate
  · obtain ⟨e', he', hacc, hreq, -⟩ := hentry k e he
    exact ⟨e', he', hacc, hreq⟩
  · obtain ⟨x, hx, -, -, hbelow⟩ := hentry k e he
    exact Option.some.inj (hx.symm.trans he') ▸ hbelow

section Join

/-! Of two maps, `ms` has the entries of both. Each of the two has its own
entries there, and lacks what only the other one has, which is therefore
not required. -/

variable {n : Json} {ms : List (Entry Field)} {fields : String → Field}
  (hk : ∀ k, entryAt? k ms = joinEntry (fields k) (entryAt? k es) (entryAt? k es'))
include hk

/-- The first map is below the map of both. -/
theorem Below.join_left (hes : ∀ k e, entryAt? k es = some e → Below lossy e.field e.field)
    (hfield : ∀ k e e', entryAt? k es = some e → entryAt? k es' = some e' →
      Below lossy e.field (fields k)) :
    Below lossy (.map n es) (.map n ms) := by
  refine .map_of_forall (fun k e he => ?_) (fun k m he hm => ?_)
  · rw [hk, he]
    cases he' : entryAt? k es' with
    | none => exact ⟨_, rfl, rfl, fun h => absurd h Bool.false_ne_true, hes k e he⟩
    | some e' =>
      exact ⟨_, rfl, rfl, fun h => (Bool.and_eq_true_iff.mp h).1, hfield k e e' he he'⟩
  · rw [hk, he] at hm
    cases he' : entryAt? k es' with
    | none => rw [he'] at hm; exact absurd hm (Option.some_ne_none m).symm
    | some e' => rw [he'] at hm; exact Option.some.inj hm ▸ rfl

/-- The second map is below the map of both, if the accessors agree. -/
theorem Below.join_right (hes' : ∀ k e, entryAt? k es' = some e → Below lossy e.field e.field)
    (hacc : ∀ k e e', entryAt? k es = some e → entryAt? k es' = some e' →
      e.accessor = e'.accessor)
    (hfield : ∀ k e e', entryAt? k es = some e → entryAt? k es' = some e' →
      Below lossy e'.field (fields k)) :
    Below lossy (.map n es') (.map n ms) := by
  refine .map_of_forall (fun k e' he' => ?_) (fun k m he' hm => ?_)
  · rw [hk, he']
    cases he : entryAt? k es with
    | none => exact ⟨_, rfl, rfl, fun h => absurd h Bool.false_ne_true, hes' k e' he'⟩
    | some e =>
      exact ⟨_, rfl, hacc k e e' he he', fun h => (Bool.and_eq_true_iff.mp h).2,
        hfield k e e' he he'⟩
  · rw [hk, he'] at hm
    cases he : entryAt? k es with
    | none => rw [he] at hm; exact absurd hm (Option.some_ne_none m).symm
    | some e => rw [he] at hm; exact Option.some.inj hm ▸ rfl

end Join

/-- **What is merged is below the merge**, if the fields agree and, unless
losing is allowed, no collection meets a scalar. -/
theorem Merges.above (h : Merges a b c) (ha : Solid a) (hb : Solid b) (hab : Agree a b)
    (hl : lossy ∨ ¬ Meet a b) : Below lossy a c ∧ Below lossy b c := by
  induction h with
  | @nullFirst a b hn =>
    refine ⟨?_, .refl hb⟩
    cases a with
    | scalar n k =>
      rw [isNull_scalar.mp hn]
      exact .null hab.name_eq.symm
    | _ => nomatch hn
  | @nullSecond a b _ hn =>
    refine ⟨.refl ha, ?_⟩
    cases b with
    | scalar n k =>
      rw [isNull_scalar.mp hn]
      exact .null hab.name_eq
    | _ => nomatch hn
  | @scalars n n' k k' hk hk' =>
    obtain rfl : n = n' := hab.name_eq
    by_cases hkk : k = k'
    · rw [hkk, Kind.widen_self]
      exact ⟨.scalar, .scalar⟩
    · rw [Kind.widen, if_neg hkk, if_neg hk, if_neg hk']
      exact ⟨.rawScalar, .rawScalar⟩
  | collections _ ih =>
    cases hab with
    | leaf _ hs => simp [shape] at hs
    | collection hab =>
      cases ha with | collection ha =>
      cases hb with | collection hb =>
      have hbelow := ih ha hb hab (hl.imp_right fun hm h => hm (.element h))
      exact ⟨.collection hbelow.1, .collection hbelow.2⟩
  | @maps n n' es es' ms fields _ _ _ hk ih =>
    cases hab with
    | leaf _ hs => simp [shape] at hs
    | map hacc hab =>
      cases ha with | map ha =>
      cases hb with | map hb =>
      have hfield : ∀ k e e', entryAt? k es = some e → entryAt? k es' = some e' →
          Below lossy e.field (fields k) ∧ Below lossy e'.field (fields k) :=
        fun k e e' he he' => ih k e e' he he' (ha k e he) (hb k e' he')
          (hab k e e' he he') (hl.imp_right fun hm h => hm (.entry he he' h))
      exact ⟨.join_left hk (fun k e he => .refl (ha k e he))
          (fun k e e' he he' => (hfield k e e' he he').1),
        .join_right hk (fun k e' he' => .refl (hb k e' he')) hacc
          (fun k e e' he he' => (hfield k e e' he he').2)⟩
  | @raw a b hn hn' _ _ hs =>
    have hname := hab.name_eq
    cases ha with
    | map => contradiction
    | @scalar n k =>
      have hk : k ≠ .unknown := fun h => by simp [h, isNull] at hn
      cases hb with
      | scalar => simp [shape] at hs
      | map => contradiction
      | collection =>
        have hl := hl.resolve_right (not_not_intro (.scalarCollection hk))
        exact ⟨.rawScalar, hname ▸ .rawCollection hl⟩
    | @collection n e =>
      cases hb with
      | collection => simp [shape] at hs
      | map => contradiction
      | @scalar n' k =>
        have hk : k ≠ .unknown := fun h => by simp [h, isNull] at hn'
        have hl := hl.resolve_right (not_not_intro (.collectionScalar hk))
        exact ⟨.rawCollection hl, hname ▸ .rawScalar⟩

/-- **A merge is the least field above** what is merged. -/
theorem Merges.least (h : Merges a b c) (ha : Below lossy a u) (hb : Below lossy b u) :
    Below lossy c u := by
  induction h generalizing u with
  | nullFirst _ => exact hb
  | nullSecond _ _ => exact ha
  | scalars hk hk' =>
    cases ha with
    | null => contradiction
    | rawScalar => exact .rawScalar
    | scalar =>
      cases hb with
      | null => contradiction
      | scalar => exact (Kind.widen_self _).symm ▸ .scalar
      | rawScalar => exact .rawScalar
  | collections _ ih =>
    cases ha with
    | rawCollection hl => exact .rawCollection hl
    | collection he =>
      cases hb with
      | collection he' => exact .collection (ih he he')
  | @maps n n' es es' ms fields _ _ _ hk ih =>
    cases ha with
    | @map _ _ us hentry hfield hlate =>
      cases hb with
      | map hentry' hfield' hlate' =>
        refine .map_of_forall (fun k m hm => ?_) (fun k x hm hx => ?_)
        · rw [hk] at hm
          cases he : entryAt? k es with
          | none =>
            cases he' : entryAt? k es' with
            | none => rw [he, he'] at hm; nomatch hm
            | some e' =>
              rw [he, he'] at hm
              obtain ⟨x, hx, hacc, -⟩ := hentry' k e' he'
              obtain rfl := Option.some.inj hm
              refine ⟨x, hx, hacc, fun hr => ?_, hfield' k e' x he' hx⟩
              exact absurd hr (by simp [hlate k x he hx])
          | some e =>
            obtain ⟨x, hx, hacc, hreq⟩ := hentry k e he
            cases he' : entryAt? k es' with
            | none =>
              rw [he, he'] at hm
              obtain rfl := Option.some.inj hm
              refine ⟨x, hx, hacc, fun hr => ?_, hfield k e x he hx⟩
              exact absurd hr (by simp [hlate' k x he' hx])
            | some e' =>
              rw [he, he'] at hm
              obtain ⟨y, hy, -, hreq'⟩ := hentry' k e' he'
              obtain rfl : x = y := Option.some.inj (hx.symm.trans hy)
              obtain rfl := Option.some.inj hm
              exact ⟨x, hx, hacc, fun hr => Bool.and_eq_true_iff.mpr ⟨hreq hr, hreq' hr⟩,
                ih k e e' he he' (hfield k e x he hx) (hfield' k e' x he' hx)⟩
        · rw [hk] at hm
          cases he : entryAt? k es with
          | none => exact hlate k x he hx
          | some e => rw [he] at hm; cases h' : entryAt? k es' <;> rw [h'] at hm <;> nomatch hm
  | @raw a b hn hn' _ _ hs =>
    cases ha with
    | null => contradiction
    | rawScalar => exact .scalar
    | rawCollection => exact .scalar
    | scalar =>
      cases hb with
      | null => contradiction
      | scalar => simp [shape] at hs
      | rawScalar => simp [shape] at hs
      | rawCollection => exact .scalar
    | collection =>
      cases hb with
      | null => contradiction
      | collection => simp [shape] at hs
    | map => contradiction

/-! ## Where nothing is lost -/

/-- **Fields below a third one merge**, as long as nothing is lost on the
way up to it. -/
theorem exists_merges_of_below (ha : Below False a u) (hb : Below False b u)
    (hwa : WellFormed a) (hwb : WellFormed b) (hwu : WellFormed u) : ∃ c, Merges a b c := by
  induction ha generalizing b with
  | null => exact ⟨b, .nullFirst rfl⟩
  | rawCollection hl => exact hl.elim
  | scalar | rawScalar =>
    cases hb with
    | rawCollection hl => exact hl.elim
    | _ => exact exists_merges_scalars ..
  | collection _ ih =>
    cases hb with
    | null => exact ⟨_, .nullSecond rfl rfl⟩
    | collection hd =>
      obtain ⟨x, hx⟩ := ih hd hwa hwb hwu
      exact ⟨_, .collections hx⟩
  | @map n es us hentry _ _ ih =>
    cases hb with
    | null => exact ⟨_, .nullSecond rfl rfl⟩
    | @map _ ds _ hentry' hfield' _ =>
      obtain ⟨ho, -, hes⟩ := wellFormed_map_iff.mp hwa
      obtain ⟨ho', -, hds⟩ := wellFormed_map_iff.mp hwb
      obtain ⟨hou, huu, hus⟩ := wellFormed_map_iff.mp hwu
      refine exists_merges_maps ho ho' (fun k e d he hd => ?_) ?_
      · obtain ⟨x, hx, -⟩ := hentry k e he
        exact ih k e x he hx (hfield' k d x hd hx) (hes e (mem_of_entryAt? he))
          (hds d (mem_of_entryAt? hd)) (hus x (mem_of_entryAt? hx))
      · refine ((unambiguous_iff_distinguishes hou.nodup).mp huu).of_forall_exists
          (fun y hy => ?_)
        have hup : ∃ x, entryAt? y.key us = some x ∧ x.accessor = y.accessor := by
          rcases List.mem_append.mp hy with hy | hy
          · obtain ⟨x, hx, hacc, -⟩ := hentry y.key y (ho.entryAt?_of_mem hy)
            exact ⟨x, hx, hacc⟩
          · obtain ⟨x, hx, hacc, -⟩ := hentry' y.key y (ho'.entryAt?_of_mem hy)
            exact ⟨x, hx, hacc⟩
        obtain ⟨x, hx, hacc⟩ := hup
        exact ⟨x, mem_of_entryAt? hx, key_of_entryAt? hx, hacc⟩

/-- **What a merge meets, one of the merged fields meets**, if no
collection has met a scalar in it. -/
theorem Merges.meet (h : Merges a b c) (ha : Solid a) (hb : Solid b) (hab : ¬ Meet a b)
    (hc : Meet c d) : Meet a d ∨ Meet b d := by
  induction h generalizing d with
  | nullFirst _ => exact .inr hc
  | nullSecond _ _ => exact .inl hc
  | scalars hk hk' =>
    cases hc with
    | scalarCollection => exact .inl (.scalarCollection hk)
  | collections _ ih =>
    cases hc with
    | collectionScalar hk => exact .inl (.collectionScalar hk)
    | element hc =>
      cases ha with | collection ha =>
      cases hb with | collection hb =>
      exact (ih ha hb (fun h => hab (.element h)) hc).imp .element .element
  | @maps n n' es es' ms fields _ _ _ hk ih =>
    cases hc with
    | @entry _ _ k _ ds m x hm hx hc =>
      cases ha with | map ha =>
      cases hb with | map hb =>
      rw [hk] at hm
      cases he : entryAt? k es with
      | none =>
        cases he' : entryAt? k es' with
        | none => rw [he, he'] at hm; nomatch hm
        | some e' =>
          rw [he, he'] at hm
          obtain rfl := Option.some.inj hm
          exact .inr (.entry he' hx hc)
      | some e =>
        cases he' : entryAt? k es' with
        | none =>
          rw [he, he'] at hm
          obtain rfl := Option.some.inj hm
          exact .inl (.entry he hx hc)
        | some e' =>
          rw [he, he'] at hm
          obtain rfl := Option.some.inj hm
          exact (ih k e e' he he' (ha k e he) (hb k e' he')
            (fun h => hab (.entry he he' h)) hc).imp (.entry he hx) (.entry he' hx)
  | raw hn hn' _ _ hs =>
    refine absurd ?_ hab
    cases ha with
    | map => contradiction
    | scalar =>
      cases hb with
      | scalar => simp [shape] at hs
      | map => contradiction
      | collection => exact .scalarCollection (fun h => by simp [h, isNull] at hn)
    | collection =>
      cases hb with
      | collection => simp [shape] at hs
      | map => contradiction
      | scalar => exact .collectionScalar (fun h => by simp [h, isNull] at hn')

end Exemplar.Field
