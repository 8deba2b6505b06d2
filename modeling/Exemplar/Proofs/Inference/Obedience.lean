import Exemplar.Inference
import Exemplar.Proofs.Field.Generality

/-!
# Fields that obey a view

What the inference builds at one path under one name follows the rules of
the view: it has that name, no entry at a path that is to be left out, the
accessors the view gives to the keys, the forced kinds, and no entry
required that may be absent (`Obeys`).

Fields of one place that obey one view agree, so they can be compared, and
merging keeps obedience (`Obeys.merges`). It is the invariant under which
all items of an array are merged.
-/

namespace Exemplar.Inference

open Exemplar.Field

variable {view : OverrideView} {name : Json} {path : String} {a b c : Field}

/-- **An entry that obeys the rules** for its path. -/
structure EntryObeys (view : OverrideView) (path : String) (e : Entry Field) : Prop where
  /-- Entries that are to be left out are. -/
  notSkipped : view.isSkipped (.str path) = false
  accessor_eq : e.accessor = accessor view e.key path
  field_eq_of_forced : ∀ kind, view.forcedKind? (.str path) = some kind →
    e.field = .scalar e.accessor kind
  not_required : view.isOptional (.str path) = true → e.required = false

/-- **A field that obeys a view**, at a path and under a name: it has the
name, and so have the elements of its collections; its maps are well
formed, and their entries obey the rules for their paths. -/
inductive Obeys (view : OverrideView) : Json → String → Field → Prop where
  | scalar {name : Json} {path : String} {k : Kind} : Obeys view name path (.scalar name k)
  | collection {name : Json} {path : String} {e : Field} : Obeys view name path e →
      Obeys view name path (.collection name e)
  | map {name : Json} {path : String} {es : List (Entry Field)} : Ordered es → Unambiguous es →
      (∀ e ∈ es, EntryObeys view (childPath path e.key) e) →
      (∀ e ∈ es, Obeys view e.accessor (childPath path e.key) e.field) →
      Obeys view name path (.map name es)

theorem Obeys.name_eq (h : Obeys view name path a) : a.name = name := by
  cases h <;> rfl

/-- What obeys a view is well formed. -/
theorem Obeys.wellFormed (h : Obeys view name path a) : WellFormed a := by
  induction h with
  | scalar => trivial
  | collection _ ih => exact ih
  | map ho hu _ _ ih => exact wellFormed_map_iff.mpr ⟨ho, hu, ih⟩

/-- What obeys a view has no empty field in it. -/
theorem Obeys.solid (h : Obeys view name path a) : Solid a := by
  induction h with
  | scalar => exact .scalar
  | collection _ ih => exact .collection ih
  | map _ _ _ _ ih => exact .map (fun k e he => ih e (mem_of_entryAt? he))

/-- **Fields of one place** that obey one view agree. -/
theorem Obeys.agree (ha : Obeys view name path a) (hb : Obeys view name path b) : Agree a b := by
  induction ha generalizing b with
  | scalar => exact .leaf hb.name_eq.symm (.inr rfl)
  | collection _ ih =>
    cases hb with
    | collection hb => exact .collection (ih hb)
    | _ => exact .leaf rfl (.inl (by simp [shape]))
  | @map _ _ es _ _ hentry _ ih =>
    cases hb with
    | @map _ _ es' _ _ hentry' hb =>
      have hacc : ∀ k e e', entryAt? k es = some e → entryAt? k es' = some e' →
          e.accessor = e'.accessor := by
        intro k e e' he he'
        rw [(hentry e (mem_of_entryAt? he)).accessor_eq,
          (hentry' e' (mem_of_entryAt? he')).accessor_eq, key_of_entryAt? he,
          key_of_entryAt? he']
      refine .map hacc (fun k e e' he he' => ih e (mem_of_entryAt? he) ?_)
      have hobeys := hb e' (mem_of_entryAt? he')
      rwa [← hacc k e e' he he', key_of_entryAt? he', ← key_of_entryAt? he] at hobeys
    | _ => exact .leaf rfl (.inl (by simp [shape]))

/-- An entry that is required no longer obeys as it did. -/
theorem EntryObeys.optional {e : Entry Field} (h : EntryObeys view path e) :
    EntryObeys view path (optional e) :=
  ⟨h.notSkipped, h.accessor_eq, h.field_eq_of_forced, fun _ => rfl⟩

/-- Two entries that obey make one that does. -/
theorem EntryObeys.join {e e' : Entry Field} {x : Field} (h : EntryObeys view path e)
    (h' : EntryObeys view path e') (hkey : e'.key = e.key)
    (hx : Merges e.field e'.field x) :
    EntryObeys view path { e with field := x, required := e.required && e'.required } := by
  refine ⟨h.notSkipped, h.accessor_eq, fun kind hkind => ?_, fun hopt => ?_⟩
  · have hacc : e'.accessor = e.accessor := by rw [h'.accessor_eq, h.accessor_eq, hkey]
    rw [h.field_eq_of_forced kind hkind, h'.field_eq_of_forced kind hkind, hacc] at hx
    exact merges_scalar_self_iff.mp hx
  · simp [h.not_required hopt]

/-- **Merging keeps obedience.** -/
theorem Obeys.merges (h : Merges a b c) (ha : Obeys view name path a)
    (hb : Obeys view name path b) : Obeys view name path c := by
  induction h generalizing name path with
  | nullFirst _ => exact hb
  | nullSecond _ _ => exact ha
  | scalars _ _ => exact ha.name_eq ▸ .scalar
  | raw _ _ _ _ _ => exact ha.name_eq ▸ .scalar
  | collections _ ih =>
    cases ha with | collection ha =>
    cases hb with | collection hb =>
    exact .collection (ih ha hb)
  | @maps _ _ es es' ms fields hmerge hms hu hk ih =>
    cases ha with | map _ _ hentry hfield =>
    cases hb with | map _ _ hentry' hfield' =>
    -- Only an entry of both maps is new; the view gives both one accessor.
    have hjoined : ∀ k m, entryAt? k ms = some m → EntryObeys view (childPath path k) m
        ∧ Obeys view m.accessor (childPath path k) m.field := by
      intro k m hm
      rw [hk] at hm
      rcases of_joinEntry_eq_some hm with
        ⟨e, he | he, rfl, rfl⟩ | ⟨e, e', he, he', hmem, hmem', rfl, hkey, rfl⟩
      · exact ⟨(hentry e he).optional, hfield e he⟩
      · exact ⟨(hentry' e he).optional, hfield' e he⟩
      · have hobeys := hentry e hmem
        have hobeys' := hkey ▸ hentry' e' hmem'
        have hacc : e'.accessor = e.accessor := by
          rw [hobeys.accessor_eq, hobeys'.accessor_eq, hkey]
        have hsub' : Obeys view e.accessor (childPath path e.key) e'.field :=
          hacc ▸ hkey ▸ hfield' e' hmem'
        exact ⟨hobeys.join hobeys' hkey (hmerge _ e e' he he'),
          ih _ e e' he he' (hfield e hmem) hsub'⟩
    exact .map hms hu (fun m hm => (hjoined m.key m (hms.entryAt?_of_mem hm)).1)
      (fun m hm => (hjoined m.key m (hms.entryAt?_of_mem hm)).2)

end Exemplar.Inference
