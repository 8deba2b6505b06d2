import Exemplar.Proofs.Field.Pruning
import Exemplar.Proofs.Inference.Elements

/-!
# Rules act where they are addressed

Two views that differ at one path alone give schemas that differ at that
path alone: without the entries there, at every depth and in the elements
of all collections, the two schemas are one (`infer_prune_eq`). The rules
at other keys see nothing of it, and neither does what is inferred beside
and above.

A rule acts in every item of every array on its way, before the items are
merged. So it has to be known of a merge that it takes no notice of the
entries at the path (`Field.Merges.prune`), and the rest follows the
inference: leaves do not ask for rules, the entries of an object ask for
those of their own path, and items are merged one by one.
-/

namespace Exemplar

namespace Inference

open Exemplar.Field

variable {v w : OverrideView} {room : Nat} {name x : Json} {path parent target : String}
  {f g : Field} {items : List Json}

/-- **Views that have the same rules** at every path but one. -/
def AgreeExcept (target : String) (v w : OverrideView) : Prop :=
  ∀ path : String, path ≠ target → v.lookup (.str path) = w.lookup (.str path)

namespace AgreeExcept

variable (h : AgreeExcept target v w)
include h

theorem symm : AgreeExcept target w v := fun path hp => (h path hp).symm

/-- At other paths the first rule of a kind is the same. -/
theorem first?_eq (hp : path ≠ target) (kind : OverrideKind) :
    v.first? (.str path) kind = w.first? (.str path) kind := by
  rw [OverrideView.first?, h path hp, OverrideView.first?]

theorem isSkipped_eq (hp : path ≠ target) :
    v.isSkipped (.str path) = w.isSkipped (.str path) := by
  rw [OverrideView.isSkipped, h.first?_eq hp, OverrideView.isSkipped]

theorem forcedKind?_eq (hp : path ≠ target) :
    v.forcedKind? (.str path) = w.forcedKind? (.str path) := by
  rw [OverrideView.forcedKind?, h.first?_eq hp, OverrideView.forcedKind?]

theorem accessor_eq (hp : path ≠ target) (key : String) :
    accessor v key path = accessor w key path := by
  rw [accessor, OverrideView.renamed?, h.first?_eq hp, accessor, OverrideView.renamed?]

/-- Entries for one key differ in their fields at most. -/
theorem entryFor_eq {key : String} (hp : childPath parent key ≠ target) (field : Field) :
    entryFor v parent key field = entryFor w parent key field := by
  rw [entryFor, h.accessor_eq hp, OverrideView.isOptional, h.first?_eq hp, entryFor,
    OverrideView.isOptional]

end AgreeExcept

/-- What is inferred for one value under two views, pruned, is one. -/
def PrunesAlike (target : String) (v w : OverrideView) (room : Nat) (path : String)
    (x : Json) : Prop :=
  ∀ name f g, (inferValue v room name path x).outcome = .ok f →
    (inferValue w room name path x).outcome = .ok g → prune target path f = prune target path g

/-- **The entries of a key** that is elsewhere are one once their fields
are pruned. -/
theorem pruneEntry_eq_of_inferMember (h : AgreeExcept target v w) {m : String × Json}
    {e e' : Entry Field} (hp : childPath parent m.1 ≠ target)
    (hx : PrunesAlike target v w room (childPath parent m.1) m.2)
    (he : (inferMember v room parent m).outcome = .ok (some e))
    (he' : (inferMember w room parent m).outcome = .ok (some e')) :
    pruneEntry target parent e = pruneEntry target parent e' := by
  obtain ⟨-, heq, hf⟩ := inferMember_eq_some_iff.mp he
  obtain ⟨-, heq', hf'⟩ := inferMember_eq_some_iff.mp he'
  have hacc : e.accessor = e'.accessor := by
    rw [heq, heq']
    exact h.accessor_eq hp m.1
  have hfield : prune target (childPath parent m.1) e.field
      = prune target (childPath parent m.1) e'.field := by
    unfold fieldAt at hf hf'
    rw [← h.forcedKind?_eq hp, ← hacc] at hf'
    cases hforced : v.forcedKind? (.str (childPath parent m.1)) with
    | none =>
      rw [hforced] at hf hf'
      exact hx e.accessor e.field e'.field hf hf'
    | some kind =>
      rw [hforced] at hf hf'
      rw [Except.ok.inj (hf.symm.trans hf')]
  have hentry : e = { e' with field := e.field } := by
    rw [heq, h.entryFor_eq hp, heq']
    rfl
  rw [pruneEntry, pruneEntry, key_of_inferMember he, key_of_inferMember he', hfield, hentry]

/-- **A key that gives an entry under one view** gives one under the other,
if it is elsewhere. -/
theorem exists_inferMember_of_agree (h : AgreeExcept target v w) {m : String × Json}
    {e : Entry Field} {o : Option (Entry Field)} (hp : childPath parent m.1 ≠ target)
    (he : (inferMember v room parent m).outcome = .ok (some e))
    (ho : (inferMember w room parent m).outcome = .ok o) :
    ∃ e', (inferMember w room parent m).outcome = .ok (some e') := by
  obtain ⟨hskip, -, -⟩ := inferMember_eq_some_iff.mp he
  obtain ⟨e', rfl⟩ := exists_eq_some_of_inferMember (h.isSkipped_eq hp ▸ hskip) ho
  exact ⟨e', ho⟩

/-- **Elements differ at the path alone** if what is inferred for the items
does. -/
theorem prune_eq_of_inferElementWithin
    (hitems : ∀ x ∈ items, PrunesAlike target v w room path x)
    (hf : (inferElementWithin v room name path items).outcome = .ok f)
    (hg : (inferElementWithin w room name path items).outcome = .ok g) :
    prune target path f = prune target path g := by
  induction items using List.reverseRecOn generalizing f g with
  | nil =>
    rw [outcome_inferElementWithin_nil] at hf hg
    rw [Except.ok.inj (hf.symm.trans hg)]
  | append_singleton items x ih =>
    obtain ⟨a, b, ha, hb, hf⟩ := inferElementWithin_concat_eq_ok_iff.mp hf
    obtain ⟨a', b', ha', hb', hg⟩ := inferElementWithin_concat_eq_ok_iff.mp hg
    have haa : prune target path a = prune target path a' :=
      ih (fun y hy => hitems y (List.mem_append_left _ hy)) ha ha'
    have hbb : prune target path b = prune target path b' := hitems x (by simp) name b b' hb hb'
    have hmerge := hg.prune target path
    rw [← haa, ← hbb] at hmerge
    exact (hf.prune target path).unique hmerge
      (wellFormed_prune (inferElementWithin_obeys ha).wellFormed)
      (wellFormed_prune (inferValue_obeys hb).wellFormed)

/-- **What is inferred for a value** differs at the path alone. -/
theorem inferValue_prune_eq (h : AgreeExcept target v w)
    (hf : (inferValue v room name path x).outcome = .ok f)
    (hg : (inferValue w room name path x).outcome = .ok g) :
    prune target path f = prune target path g := by
  refine inferValue_induction (P := fun room name path x f => ∀ g,
    (inferValue w room name path x).outcome = .ok g → prune target path f = prune target path g)
    ?leaf ?obj ?arr hf g hg
  case leaf =>
    intro room name path x k hk g hg
    rw [outcome_inferValue_of_kind hk, Except.ok.injEq] at hg
    rw [hg]
  case arr =>
    intro room name path items e ih he g hg
    obtain ⟨e', he', rfl⟩ := inferValue_arr_eq_ok_iff.mp hg
    have heq : prune target path e = prune target path e' :=
      prune_eq_of_inferElementWithin (fun y _ name f g hf hg => ih name path y f hf g hg) he he'
    simp only [prune, heq]
  case obj =>
    intro room name path ms es ih ho _ hes hok g hg
    obtain ⟨es', rfl, ho', -, hes', hok'⟩ := inferValue_obj_ok hg
    simp only [prune]
    refine congrArg (Field.map name) (eq_of_entryAt? (ordered_pruneEntries ho)
      (ordered_pruneEntries ho') (fun k => ?_))
    rw [entryAt?_pruneEntries, entryAt?_pruneEntries]
    by_cases ht : childPath path k = target
    · rw [if_pos ht, if_pos ht]
    · rw [if_neg ht, if_neg ht]
      -- An entry on either side comes from a member that gives one on both.
      have hboth : ∀ m ∈ ms, m.1 = k → ∀ e e',
          (inferMember v room path m).outcome = .ok (some e) →
          (inferMember w room path m).outcome = .ok (some e') →
          (entryAt? k es).map (pruneEntry target path)
            = (entryAt? k es').map (pruneEntry target path) := by
        rintro m hm rfl e e' he he'
        have hfound := ho.entryAt?_of_mem ((hes e).mpr ⟨m, hm, he⟩)
        have hfound' := ho'.entryAt?_of_mem ((hes' e').mpr ⟨m, hm, he'⟩)
        rw [key_of_inferMember he] at hfound
        rw [key_of_inferMember he'] at hfound'
        rw [hfound, hfound', Option.map_some, Option.map_some,
          pruneEntry_eq_of_inferMember h ht
            (fun name f g hf hg => ih name _ m.2 f hf g hg) he he']
      cases he : entryAt? k es with
      | some e =>
        rw [← he]
        obtain ⟨m, hm, hrun⟩ := (hes e).mp (mem_of_entryAt? he)
        obtain rfl : m.1 = k := (key_of_inferMember hrun).symm.trans (key_of_entryAt? he)
        obtain ⟨o, ho⟩ := hok' m hm
        obtain ⟨e', hrun'⟩ := exists_inferMember_of_agree h ht hrun ho
        exact hboth m hm rfl e e' hrun hrun'
      | none =>
        rw [← he]
        cases he' : entryAt? k es' with
        | none => rw [he]
        | some e' =>
          rw [← he']
          obtain ⟨m, hm, hrun'⟩ := (hes' e').mp (mem_of_entryAt? he')
          obtain rfl : m.1 = k := (key_of_inferMember hrun').symm.trans (key_of_entryAt? he')
          obtain ⟨o, ho⟩ := hok m hm
          obtain ⟨e, hrun⟩ := exists_inferMember_of_agree h.symm ht hrun' ho
          exact hboth m hm rfl e e' hrun hrun'

end Inference

open Inference Exemplar.Field

/-- **Rules act where they are addressed.** If two views have the same
rules at every path but one, the schemas that an example gets under them
are one without the entries at that path, at every depth. -/
theorem infer_prune_eq (v w : OverrideView) (name x : Json) (target : String)
    (h : AgreeExcept target v w) {f g : Field} (hf : (infer v name x).outcome = .ok f)
    (hg : (infer w name x).outcome = .ok g) : prune target "" f = prune target "" g := by
  unfold infer at hf hg
  cases hraw : isRaw x with
  | true =>
    simp only [hraw, if_true, Run.outcome_bind_eq_ok_iff, Run.outcome_pure] at hf hg
    obtain ⟨-, -, hf⟩ := hf
    obtain ⟨-, -, hg⟩ := hg
    rw [Except.ok.inj (hf.symm.trans hg)]
  | false =>
    simp only [hraw, Bool.false_eq_true, if_false, Run.outcome_bind_eq_ok_iff,
      Run.outcome_mapFault_eq_ok_iff, Run.outcome_pure] at hf hg
    obtain ⟨f', hf', -, -, hf⟩ := hf
    obtain ⟨g', hg', -, -, hg⟩ := hg
    rw [← Except.ok.inj hf, ← Except.ok.inj hg]
    exact inferValue_prune_eq h hf' hg'

/-- A tag that is renamed under one view and left out under the other, in
rows beside a total that both make a text. -/
theorem infer_prune_eq_rows :
    let rule := OverrideRule.of "issues" "search"
    let total := rule "total" .forceType (.str "string")
    let v : OverrideView :=
      ⟨.str "issues", .str "search", [total, rule "rows.tag" .rename (.str "Label")]⟩
    let w : OverrideView := ⟨.str "issues", .str "search", [rule "rows.tag" .skip .null, total]⟩
    let page : Json := .obj [("total", .int 1),
      ("rows", .arr [.obj [("id", .int 1), ("tag", .str "a")], .null, .obj [("id", .int 2)]])]
    ∃ f g, AgreeExcept "rows.tag" v w ∧ (infer v (.str "Page") page).outcome = .ok f
      ∧ (infer w (.str "Page") page).outcome = .ok g ∧ f ≠ g
      ∧ prune "rows.tag" "" f = prune "rows.tag" "" g := by
  intro rule total v w page
  let number (name : String) : Field := .scalar (.str name) .number
  let totalEntry : Entry Field := ⟨"total", .str "Total", .scalar (.str "Total") .string, true⟩
  let table (entries : List (Entry Field)) : Field := .map (.str "Page") [
    ⟨"rows", .str "Rows", .collection (.str "Rows") (.map (.str "Rows") entries), true⟩, totalEntry]
  let id : Entry Field := ⟨"id", .str "Id", number "Id", true⟩
  let tag : Entry Field := ⟨"tag", .str "Label", .scalar (.str "Label") .string, false⟩
  have h : AgreeExcept "rows.tag" v w := by
    intro path hp
    have hne : "rows.tag" ≠ path := Ne.symm hp
    simp [OverrideView.lookup, v, w, rule, total, OverrideRule.of, List.filter_cons, hne]
  have hpaths : v.paths = .ok [.str "rows.tag", .str "total"] := by decide +kernel
  have hpaths' : w.paths = .ok [.str "rows.tag", .str "total"] := by decide +kernel
  have hrows : Naming.toCamel "rows" = "Rows" := rfl
  have htotal : Naming.toCamel "total" = "Total" := rfl
  have hid : Naming.toCamel "id" = "Id" := rfl
  have hkind : Kind.ofToken? (.str "string") = some .string := by decide
  have hf : (infer v (.str "Page") page).outcome = .ok (table [id, tag]) := by
    rw [outcome_infer rfl hpaths]
    simp +decide [v, rule, total, OverrideRule.of, OverrideView.isSkipped, OverrideView.forcedKind?,
      OverrideView.renamed?, OverrideView.isOptional, OverrideView.first?, OverrideView.lookup,
      OverrideRule.forcedKind?, hkind, page, table, id, tag, totalEntry, number, nestingRoom,
      inferValue, inferMembers, accessor, inKeyOrder, List.mergeSort, Run.sequence,
      ofEntries_of_ordered, checkItems, itemClash?, mergeItems, merge, mergeEntries, entryAt?,
      childPath_root, childPath_of_ne, Except.bind, Except.mapError, hrows, htotal, hid]
  have hg : (infer w (.str "Page") page).outcome = .ok (table [id]) := by
    rw [outcome_infer rfl hpaths']
    simp +decide [w, rule, total, OverrideRule.of, OverrideView.isSkipped, OverrideView.forcedKind?,
      OverrideView.renamed?, OverrideView.isOptional, OverrideView.first?, OverrideView.lookup,
      OverrideRule.forcedKind?, hkind, page, table, id, totalEntry, number, nestingRoom, inferValue,
      inferMembers, accessor, inKeyOrder, List.mergeSort, Run.sequence, ofEntries_of_ordered,
      checkItems, itemClash?, mergeItems, merge, mergeEntries, entryAt?, Kind.widen, childPath_root,
      childPath_of_ne, Except.bind, Except.mapError, hrows, htotal, hid]
  exact ⟨_, _, h, hf, hg, by decide, infer_prune_eq v w (.str "Page") page "rows.tag" h hf hg⟩

end Exemplar
