import Exemplar.Proofs.Inference.Steps
import Exemplar.Proofs.Override

/-!
# Rules at every place

A schema obeys its view, and this is said from the root downwards: a map's
entries obey, and so do the fields in them. Here it is read off at any one place
of the tree, and in terms of the rules themselves (`infer_followsRules`). A place
is a field in the tree together with the dotted path that leads to it (`LiesIn`).

The view answers with the first rule of a sort that is addressed to a path
(`OverrideView.first?_eq_find?`). A rule that forces a kind always names one,
because no other is made (`OverrideRule.exists_forcedKind`), so what it addresses
is a scalar of that kind, and of no kind found in the example.
-/

namespace Exemplar

/-! ## The rules for a path -/

/-- A rule is addressed to a path and is of a sort. -/
def OverrideRule.Addresses (r : OverrideRule) (path : String) (kind : OverrideKind) : Prop :=
  r.path = .str path ∧ r.kind = kind

instance (r : OverrideRule) (path : String) (kind : OverrideKind) :
    Decidable (r.Addresses path kind) :=
  inferInstanceAs (Decidable (_ ∧ _))

/-- **The first rule for a path** is the first of all rules that is addressed to
it. -/
theorem OverrideView.first?_eq_find? (view : OverrideView) (path : String)
    (kind : OverrideKind) :
    view.first? (.str path) kind = view.rules.find? (·.Addresses path kind) := by
  rw [first?, lookup, List.find?_filter]
  refine congrArg (List.find? · view.rules) (funext fun r => Bool.eq_iff_iff.mpr ?_)
  simp only [decide_eq_true_eq, Json.key_str, Json.key_eq_str_iff]
  rfl

namespace Inference

open Exemplar.Field

variable {view : OverrideView} {name : Json} {path q : String} {tree f : Field}
  {es : List (Entry Field)} {e : Entry Field}

/-! ## Places -/

/-- **A field lies in another** at a path: the field itself at the path given for
it, the element of a collection at the path of the collection, and the field of
an entry one key further down. -/
inductive LiesIn : String → Field → String → Field → Prop where
  | here {path : String} {f : Field} : LiesIn path f path f
  | element {path q : String} {n : Json} {e f : Field} : LiesIn path e q f →
      LiesIn path (.collection n e) q f
  | entry {path q : String} {n : Json} {es : List (Entry Field)} {e : Entry Field} {f : Field} :
      e ∈ es → LiesIn (childPath path e.key) e.field q f → LiesIn path (.map n es) q f

/-- What obeys a view obeys it at every place. -/
theorem Obeys.at_place (h : Obeys view name path tree) (hf : LiesIn path tree q f) :
    ∃ n, Obeys view n q f := by
  induction hf generalizing name with
  | here => exact ⟨name, h⟩
  | element _ ih =>
    cases h with | collection he =>
    exact ih he
  | entry he _ ih =>
    cases h with | map _ _ _ hfields =>
    exact ih (hfields _ he)

/-! ## Entries and their rules -/

/-- **An entry follows the rules** for its path. -/
structure FollowsRules (view : OverrideView) (path : String) (e : Entry Field) : Prop where
  /-- No rule leaves it out. -/
  notSkipped : ∀ r ∈ view.rules, ¬ r.Addresses path .skip
  /-- Its accessor is the new name that the first rule gives to it, and otherwise
  its key in camel case. -/
  accessor_eq : e.accessor = ((view.rules.find? (·.Addresses path .rename)).map (·.value)).getD
    (.str (Naming.toCamel e.key))
  name_eq : e.field.name = e.accessor
  /-- If a kind is forced on it, it is the scalar of the first kind. -/
  forced : ∀ r, view.rules.find? (·.Addresses path .forceType) = some r →
    ∃ kind, Kind.ofToken? r.value = some kind ∧ e.field = .scalar e.accessor kind
  /-- If a rule makes it optional, it is not required. -/
  not_required : (∃ r ∈ view.rules, r.Addresses path .optional) → e.required = false

/-- What obeys the view follows its rules. -/
theorem EntryObeys.followsRules (h : EntryObeys view path e) (hname : e.field.name = e.accessor)
    (hrules : ∀ r ∈ view.rules, r.flaw? = none) : FollowsRules view path e := by
  refine ⟨fun r hr haddr => ?_, ?_, hname, fun r hr => ?_, fun ⟨r, hr, haddr⟩ => ?_⟩
  · have hskip := h.notSkipped
    rw [OverrideView.isSkipped, OverrideView.first?_eq_find?, Option.isSome_eq_false_iff,
      Option.isNone_iff_eq_none, List.find?_eq_none] at hskip
    exact hskip r hr (by simpa using haddr)
  · rw [h.accessor_eq, accessor, OverrideView.renamed?, OverrideView.first?_eq_find?]
  · have haddr : r.Addresses path .forceType := by simpa using List.find?_some hr
    obtain ⟨kind, hk⟩ :=
      OverrideRule.exists_forcedKind (hrules r (List.mem_of_find?_eq_some hr)) haddr.2
    refine ⟨kind, hk, h.field_eq_of_forced kind ?_⟩
    rw [OverrideView.forcedKind?, OverrideView.first?_eq_find?, hr, Option.bind_some,
      OverrideRule.forcedKind?, if_pos haddr.2, hk]
  · refine h.not_required ?_
    rw [OverrideView.isOptional, OverrideView.first?_eq_find?, List.find?_isSome]
    exact ⟨r, hr, by simpa using haddr⟩

end Inference

open Inference Exemplar.Field

/-- **Every schema follows the rules of its view**, at every place of it. No field
in it is empty; the element of a collection has the name of the collection; and
the entries of a map are in strictly ascending order of their keys, have pairwise
distinct accessors, and follow each the rules for the path of its key. -/
theorem infer_followsRules {view : OverrideView} {name example_ : Json} {tree : Field}
    (hrules : ∀ r ∈ view.rules, r.flaw? = none)
    (h : (infer view name example_).outcome = .ok tree) {q : String} {f : Field}
    (hf : LiesIn "" tree q f) :
    f.shape ≠ .empty
      ∧ (∀ n e, f = .collection n e → e.name = n)
      ∧ ∀ n es, f = .map n es → Ordered es
        ∧ (es.Pairwise fun a b => a.accessor.key ≠ b.accessor.key)
        ∧ ∀ e ∈ es, FollowsRules view (childPath q e.key) e := by
  obtain ⟨n, hobeys⟩ := (infer_obeys h).at_place hf
  cases hobeys with
  | scalar => simp [shape]
  | collection he =>
    refine ⟨by simp [shape], fun n e hfe => ?_, by simp⟩
    obtain ⟨rfl, rfl⟩ := Field.collection.inj hfe
    exact he.name_eq
  | map ho hu hentry hfield =>
    refine ⟨by simp [shape], by simp, fun n es hfe => ?_⟩
    obtain ⟨rfl, rfl⟩ := Field.map.inj hfe
    exact ⟨ho, hu.1, fun e he => (hentry e he).followsRules (hfield e he).name_eq hrules⟩

/-- Two rows, with all that can be said of one key. The first of two new names
holds, and the kind that is forced is that of no value, which any other would
supersede if it were merged with it. -/
theorem infer_followsRules_rows :
    let rule (path : String) (kind : OverrideKind) (value : Json) : OverrideRule :=
      .of "components" "search" path kind value
    let view : OverrideView := ⟨.str "components", .str "search", [
      rule "rows.n" .rename (.str "Kind"), rule "rows.n" .rename (.str "Sort"),
      rule "rows.n" .forceType (.str " Unknown"), rule "rows.n" .optional .null,
      rule "rows.tags" .skip .null]⟩
    let row (n : Json) : Json := .obj [("key", .str "a"), ("tags", .null), ("n", n)]
    let example_ : Json := .obj [("rows", .arr [row (.int 12), row (.arr [])])]
    let entries : List (Entry Field) := [
      ⟨"key", .str "Key", .scalar (.str "Key") .string, true⟩,
      ⟨"n", .str "Kind", .scalar (.str "Kind") .unknown, false⟩]
    let tree : Field := .map (.str "Page")
      [⟨"rows", .str "Rows", .collection (.str "Rows") (.map (.str "Rows") entries), true⟩]
    (∀ r ∈ view.rules, r.flaw? = none)
      ∧ (infer view (.str "Page") example_).outcome = .ok tree
      ∧ LiesIn "" tree "rows" (.map (.str "Rows") entries)
      ∧ ∀ e ∈ entries, FollowsRules view (childPath "rows" e.key) e := by
  intro rule view row example_ entries tree
  have hrules : ∀ r ∈ view.rules, r.flaw? = none := by decide
  have hpaths : view.paths = .ok [.str "rows.n", .str "rows.tags"] := by decide +kernel
  have hkind : Kind.ofToken? (.str " Unknown") = some .unknown := by decide
  have hrows : Naming.toCamel "rows" = "Rows" := rfl
  have hkey : Naming.toCamel "key" = "Key" := rfl
  have hinfer : (infer view (.str "Page") example_).outcome = .ok tree := by
    rw [outcome_infer rfl hpaths]
    simp +decide [view, rule, OverrideRule.of, OverrideView.isSkipped, OverrideView.forcedKind?,
      OverrideView.renamed?, OverrideView.isOptional, OverrideView.first?, OverrideView.lookup,
      OverrideRule.forcedKind?, hkind, example_, row, tree, entries, nestingRoom, inferValue,
      inferMembers, accessor, inKeyOrder, List.mergeSort, Run.sequence, ofEntries_of_ordered,
      checkItems, itemClash?, mergeItems, merge, mergeEntries, entryAt?, Kind.widen, childPath_root,
      childPath_of_ne, Except.bind, Except.mapError, hrows, hkey]
  have hplace : LiesIn "" tree "rows" (.map (.str "Rows") entries) :=
    .entry List.mem_cons_self (.element .here)
  obtain ⟨-, -, hmap⟩ := infer_followsRules hrules hinfer hplace
  exact ⟨hrules, hinfer, hplace, (hmap _ _ rfl).2.2⟩

end Exemplar
