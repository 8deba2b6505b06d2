import Exemplar.Proofs.Inference.Elements

/-!
# The values behind a field

A field that was merged from many values is grounded in them: it has a
collection or a scalar only where one of the values has an array or something
that is no object, a map only where one of them has an object, and an entry
only for a key that one of the objects has (`Grounded`). Merging keeps a field
grounded (`Grounded.merges`), and so whatever is inferred is grounded in what it
is inferred from (`inferValue_grounded`). A clash of two fields can then be traced
back to two values that clash.

Where a value lies in another is told by the steps to it (`Reaches`). A step by a
key is made only where the rules of the view let the inference make it, and of a
path the keys alone are told (`extend`).
-/

namespace Exemplar

namespace Inference

open Exemplar.Field

variable {view : OverrideView} {room : Nat} {name : Json} {path : String} {a b c f : Field}
  {k : String} {u v w x : Json} {V W : Json → Prop} {items : List Json}

/-! ## Steps -/

/-- **A step into a value**: by a key of an object, or into an array. -/
inductive Step where
  | key (k : String)
  | item
  deriving DecidableEq, Repr

/-- **The path that some steps lead to.** Arrays add nothing to it. -/
def extend (path : String) : List Step → String
  | [] => path
  | .key k :: steps => extend (childPath path k) steps
  | .item :: steps => extend path steps

/-- **A value is reached** from a value at a path by some steps. No step leads
through a key that is left out or whose kind is forced. -/
inductive Reaches (view : OverrideView) : String → Json → List Step → Json → Prop where
  | here {path : String} {x : Json} : Reaches view path x [] x
  | item {path : String} {items : List Json} {x w : Json} {steps : List Step} : x ∈ items →
      Reaches view path x steps w → Reaches view path (.arr items) (.item :: steps) w
  | key {path k : String} {ms : List (String × Json)} {x w : Json} {steps : List Step} :
      view.isSkipped (.str (childPath path k)) = false →
      view.forcedKind? (.str (childPath path k)) = none → (k, x) ∈ ms →
      Reaches view (childPath path k) x steps w → Reaches view path (.obj ms) (.key k :: steps) w

/-- A value that is reached from one of some values. -/
def ReachedFrom (view : OverrideView) (path : String) (V : Json → Prop) (steps : List Step)
    (w : Json) : Prop :=
  ∃ u, V u ∧ Reaches view path u steps w

/-- The items of the arrays among some values. -/
def itemsOf (V : Json → Prop) (z : Json) : Prop := ∃ items, V (.arr items) ∧ z ∈ items

/-- The values at a key of the objects among some values. -/
def valuesAt (V : Json → Prop) (k : String) (z : Json) : Prop := ∃ ms, V (.obj ms) ∧ (k, z) ∈ ms

theorem ReachedFrom.item {steps : List Step} (h : ReachedFrom view path (itemsOf V) steps w) :
    ReachedFrom view path V (.item :: steps) w := by
  obtain ⟨u, ⟨items, hitems, hu⟩, hreach⟩ := h
  exact ⟨_, hitems, .item hu hreach⟩

theorem ReachedFrom.key {steps : List Step}
    (hskip : view.isSkipped (.str (childPath path k)) = false)
    (hforced : view.forcedKind? (.str (childPath path k)) = none)
    (h : ReachedFrom view (childPath path k) (valuesAt V k) steps w) :
    ReachedFrom view path V (.key k :: steps) w := by
  obtain ⟨u, ⟨ms, hms, hu⟩, hreach⟩ := h
  exact ⟨_, hms, .key hskip hforced hu hreach⟩

/-! ## Grounded fields -/

/-- A value that clashes with objects: it is neither an object nor `null`. -/
def IsOther (v : Json) : Prop := itemSort? v = some .scalar ∨ itemSort? v = some .array

/-- **A field is grounded in some values** at a path. A field without shape
needs none. What is said of a forced kind is not asked of the values. -/
inductive Grounded (view : OverrideView) : String → (Json → Prop) → Field → Prop where
  | unknown {path : String} {V : Json → Prop} {n : Json} : Grounded view path V (.scalar n .unknown)
  | scalar {path : String} {V : Json → Prop} {n v : Json} {k : Kind} : V v → IsOther v →
      Grounded view path V (.scalar n k)
  | collection {path : String} {V : Json → Prop} {n : Json} {items : List Json} {e : Field} :
      V (.arr items) → Grounded view path (itemsOf V) e → Grounded view path V (.collection n e)
  | map {path : String} {V : Json → Prop} {n : Json} {ms : List (String × Json)}
      {es : List (Entry Field)} : V (.obj ms) → (∀ e ∈ es, ∃ v, valuesAt V e.key v) →
      (∀ e ∈ es, view.forcedKind? (.str (childPath path e.key)) = none →
        Grounded view (childPath path e.key) (valuesAt V e.key) e.field) →
      Grounded view path V (.map n es)

/-- **More values** ground what fewer do. -/
theorem Grounded.mono (h : Grounded view path V f) (hVW : ∀ z, V z → W z) :
    Grounded view path W f := by
  induction h generalizing W with
  | unknown => exact .unknown
  | scalar hv hother => exact .scalar (hVW _ hv) hother
  | collection hitems _ ih =>
    exact .collection (hVW _ hitems) (ih fun z ⟨items, h, hz⟩ => ⟨items, hVW _ h, hz⟩)
  | map hms hkeys _ ih =>
    have hat : ∀ k z, valuesAt _ k z → valuesAt W k z :=
      fun k z ⟨ms, h, hz⟩ => ⟨ms, hVW _ h, hz⟩
    refine .map (hVW _ hms) (fun e he => ?_) (fun e he hforced => ih e he hforced (hat e.key))
    obtain ⟨v, hv⟩ := hkeys e he
    exact ⟨v, hat _ _ hv⟩

/-- A grounded field that is neither without shape nor a map has something behind
it that is no object. -/
theorem Grounded.exists_other (h : Grounded view path V f) (hn : f.isNull = false)
    (hm : f.shape ≠ .map) : ∃ v, V v ∧ IsOther v := by
  cases h with
  | unknown => nomatch hn
  | scalar hv hother => exact ⟨_, hv, hother⟩
  | collection hitems _ => exact ⟨_, hitems, .inr rfl⟩
  | map => exact absurd rfl hm

/-- A grounded map has an object behind it. -/
theorem Grounded.exists_object (h : Grounded view path V f) (hm : f.shape = .map) :
    ∃ ms, V (.obj ms) := by
  cases h with
  | map hms _ _ => exact ⟨_, hms⟩
  | _ => nomatch hm

/-- **Merging keeps a field grounded.** -/
theorem Grounded.merges (h : Merges a b c) (ha : Grounded view path V a)
    (hb : Grounded view path V b) : Grounded view path V c := by
  induction h generalizing path V with
  | nullFirst => exact hb
  | nullSecond => exact ha
  | scalars hk =>
    cases ha with
    | unknown => exact absurd rfl hk
    | scalar hv hother => exact .scalar hv hother
  | collections _ ih =>
    cases ha with | collection hitems ha =>
    cases hb with | collection _ hb =>
    exact .collection hitems (ih ha hb)
  | raw hn _ hm =>
    obtain ⟨v, hv, hother⟩ := ha.exists_other hn hm
    exact .scalar hv hother
  | @maps n n' es es' ms fields hmerge hms hu hk ih =>
    cases ha with | map hobj hkeys hfields =>
    cases hb with | map _ hkeys' hfields' =>
    have hjoined : ∀ k m, entryAt? k ms = some m → (∃ v, valuesAt V m.key v)
        ∧ (view.forcedKind? (.str (childPath path m.key)) = none →
          Grounded view (childPath path m.key) (valuesAt V m.key) m.field) := by
      intro k m hm
      rw [hk] at hm
      rcases of_joinEntry_eq_some hm with
        ⟨e, he | he, -, rfl⟩ | ⟨e, e', he, he', hmem, hmem', -, hkey, rfl⟩
      · exact ⟨hkeys e he, hfields e he⟩
      · exact ⟨hkeys' e he, hfields' e he⟩
      · refine ⟨hkeys e hmem, fun hforced => ?_⟩
        have hfield' := hfields' e' hmem'
        rw [hkey] at hfield'
        exact ih k e e' he he' (hfields e hmem hforced) (hfield' hforced)
    exact .map hobj (fun m hm => (hjoined m.key m (hms.entryAt?_of_mem hm)).1)
      (fun m hm => (hjoined m.key m (hms.entryAt?_of_mem hm)).2)

/-! ## What is inferred -/

/-- The element of some items is grounded where their fields are. -/
theorem inferElementWithin_grounded
    (hitems : ∀ x ∈ items, ∀ f, (inferValue view room name path x).outcome = .ok f →
      Grounded view path V f)
    (h : (inferElementWithin view room name path items).outcome = .ok c) :
    Grounded view path V c := by
  induction items using List.reverseRecOn generalizing c with
  | nil =>
    rw [outcome_inferElementWithin_nil, Except.ok.injEq] at h
    exact h ▸ .unknown
  | append_singleton items x ih =>
    obtain ⟨a, b, ha, hb, hc⟩ := inferElementWithin_concat_eq_ok_iff.mp h
    exact .merges hc (ih (fun y hy => hitems y (List.mem_append_left _ hy)) ha)
      (hitems x (by simp) b hb)

/-- **Whatever is inferred is grounded** in the value that it is inferred
from. -/
theorem inferValue_grounded (h : (inferValue view room name path x).outcome = .ok f) :
    Grounded view path (· = x) f := by
  refine inferValue_induction (P := fun _ _ path x f => Grounded view path (· = x) f) ?leaf ?obj
    ?arr h
  case leaf =>
    intro _ _ _ x k hk
    cases x with
    | null =>
      obtain rfl := Option.some.inj hk
      exact .unknown
    | arr => nomatch hk
    | obj => nomatch hk
    | _ => exact .scalar rfl (.inl rfl)
  case obj =>
    intro room name path ms es ih _ _ hes _
    have hmember : ∀ e ∈ es, ∃ v, (e.key, v) ∈ ms
        ∧ (view.forcedKind? (.str (childPath path e.key)) = none →
          Grounded view (childPath path e.key) (· = v) e.field) := by
      intro e he
      obtain ⟨⟨k, v⟩, hm, hrun⟩ := (hes e).mp he
      obtain rfl := key_of_inferMember hrun
      refine ⟨v, hm, fun hforced => ?_⟩
      obtain ⟨-, -, hfield⟩ := inferMember_eq_some_iff.mp hrun
      rw [fieldAt, hforced] at hfield
      exact ih _ _ _ _ hfield
    refine .map rfl (fun e he => ?_) (fun e he hforced => ?_)
    · obtain ⟨v, hv, -⟩ := hmember e he
      exact ⟨v, ms, rfl, hv⟩
    · obtain ⟨v, hv, hfield⟩ := hmember e he
      refine (hfield hforced).mono ?_
      rintro _ rfl
      exact ⟨ms, rfl, hv⟩
  case arr =>
    intro room name path items e ih he
    refine .collection rfl (inferElementWithin_grounded (fun x hx f hf => ?_) he)
    refine (ih _ _ _ _ hf).mono ?_
    rintro _ rfl
    exact ⟨items, rfl, hx⟩

end Inference

end Exemplar
