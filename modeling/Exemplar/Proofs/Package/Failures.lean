import Exemplar.Proofs.Code.Failures
import Exemplar.Proofs.Code.Roots
import Exemplar.Proofs.Package.Writing

/-!
# All actions of a service or none

A service whose module cannot be drafted is told and left out, and a module cannot
be drafted if one of its actions fails on its own. So the actions of a service
share their module in all things: either it holds what every one of them defines,
or nothing of any is written, and the problem of the first that fails is printed
(`module_all_or_none`). No action changes how another one fails.
-/

namespace Exemplar.Package

open Exemplar.Code

variable {s : ServiceSchema} {e : String} {p : Problem} {config : GeneratorConfig}
  {before after : List ServiceSchema} {st st' : Session.State}

/-! ## Drafts -/

/-- A module is drafted as the first of its actions that fails on its own. -/
theorem fault?_drafted (he : s.endpoint = .ok e) :
    fault? (drafted s).outcome = (rendered s).findSome? actionFault? :=
  endsIn_serviceModule he _

/-- **A module whose actions do not fail** holds what all of them define. -/
theorem exists_drafted (he : s.endpoint = .ok e)
    (h : ∀ a ∈ rendered s, actionFault? a = none) :
    ∃ blocks : List Block,
      (drafted s).outcome = .ok (moduleText s.service (blocks.map Block.definition))
      ∧ blocks.map Block.origin = contents s
      ∧ ∀ a ∈ rendered s, definedRoots a ⊆ blocks.map fun b => b.definition.name := by
  have hfault : (rendered s).findSome? actionFault? = none := List.findSome?_eq_none_iff.mpr h
  have hends := endsIn_serviceModule he
  rw [hfault] at hends
  obtain ⟨text, after, hperform⟩ := hends.exists_perform { taken := [] }
  obtain ⟨blocks, htext, -, ho, -, hbuilt⟩ := serviceModule_built hperform
  refine ⟨blocks, ?_, ho, fun a ha name hname => ?_⟩
  · rw [← htext]
    exact congrArg Prod.fst hperform
  · have hgiven : name ∈ givenNames s :=
      List.mem_append_right _ (List.mem_flatMap.mpr ⟨a, ha, hname⟩)
    rw [← map_name_roots ho hbuilt] at hgiven
    exact (List.filter_sublist.map _).subset hgiven

/-- **A module with an action that fails** is not drafted. -/
theorem drafted_eq_problem (he : s.endpoint = .ok e)
    (h : (rendered s).findSome? actionFault? = some (.problem p)) :
    (drafted s).outcome = .error (.problem p) := by
  have hfault := fault?_drafted he
  rw [h] at hfault
  cases houtcome : (drafted s).outcome with
  | ok text =>
    rw [houtcome] at hfault
    nomatch hfault
  | error f =>
    rw [houtcome] at hfault
    rw [Option.some.inj hfault]

/-! ## Files -/

/-- **A module that is not drafted** is told, and writing goes on. -/
theorem perform_writeModule_of_problem (he : s.endpoint = .ok e)
    (h : (drafted s).outcome = .error (.problem p)) (output : Path) (taken : List String)
    (st : Session.State) :
    ∃ left notices, (writeModule output taken s).perform st
      = (.ok (0, left), { st with notices, printed := st.printed ++ [problemLine e p] }) := by
  rw [writeModule, finish_serviceModule]
  have htry : (Effect.try_ (Session.ofRun (drafted s))).perform st
      = (.ok (.error (.problem p)), { st with notices := st.notices ++ (drafted s).notices }) := by
    rw [Effect.perform_try_, Session.perform_ofRun, h]
  rcases hfinish : (serviceModule s).finish [] with ⟨run, left⟩
  obtain rfl : drafted s = run := congrArg Prod.fst hfinish
  rw [Effect.perform_bind, htry]
  dsimp only
  rw [Effect.perform_bind, Effect.perform_ofExcept, he]
  exact ⟨left, _, rfl⟩

/-- What is in the file of the module of an endpoint. -/
def moduleFileText (config : GeneratorConfig) (e : String) (st : Session.State) : Option String :=
  st.files.text? ((Place.ofPath config.output).child (moduleFile e))

/-- **A package is written** with a service in it whose module shares its file with
none of another service. -/
def Packs (config : GeneratorConfig) (s : ServiceSchema) (e : String)
    (st st' : Session.State) : Prop :=
  ∃ before after, (write config (before ++ s :: after)).perform st = (.ok (), st')
    ∧ ∀ t ∈ before ++ after, hasModule t = true → ∀ e', t.endpoint = .ok e' →
      moduleFile e' ≠ moduleFile e

/-- The file of such a module is written for its service only. -/
theorem Packs.text_eq (h : Packs config s e st st') (hmodule : hasModule s = true) :
    moduleFileText config e st'
      = (lastText (moduleFile e) [s]).or (moduleFileText config e st) := by
  obtain ⟨before, after, hwrite, hother⟩ := h
  have hnone : ∀ schemas ⊆ before ++ after,
      lastText (moduleFile e) (schemas.filter hasModule) = none := by
    intro schemas hsub
    refine lastText_eq_none fun t ht => ?_
    obtain ⟨ht, hhas⟩ := List.mem_filter.mp ht
    exact hother t (hsub ht) hhas
  unfold moduleFileText
  rw [(written_of_perform_write hwrite).files, List.filter_append, List.filter_cons_of_pos hmodule,
    lastText_append, ← List.singleton_append, lastText_append,
    hnone before (List.subset_append_left _ _), hnone after (List.subset_append_right _ _),
    Option.none_or, Option.or_none]

/-- And its service is settled. -/
theorem Packs.settled (h : Packs config s e st st') (hmodule : hasModule s = true) :
    Settled s st'.printed := by
  obtain ⟨before, after, hwrite, -⟩ := h
  exact (written_of_perform_write hwrite).settled s
    (List.mem_filter.mpr ⟨List.mem_append_right _ List.mem_cons_self, hmodule⟩)

/-- **The actions of a service stand and fall together**, though each one fails for
itself. -/
structure AllOrNone (s : ServiceSchema) (e : String) : Prop where
  /-- How drafting an action fails does not depend on what was drafted before. -/
  own : ∀ a st, fault? ((actionDefinitions a).perform st).1 = actionFault? a
  /-- If no action fails on its own, the module holds what all of them define. -/
  all : (∀ a ∈ rendered s, actionFault? a = none) → ∃ blocks : List Block,
    (drafted s).outcome = .ok (moduleText s.service (blocks.map Block.definition))
    ∧ blocks.map Block.origin = contents s
    ∧ (∀ a ∈ rendered s, definedRoots a ⊆ blocks.map fun b => b.definition.name)
    ∧ ∀ config st st', Packs config s e st st' → moduleFileText config e st'
      = some (moduleText s.service (blocks.map Block.definition))
  /-- If one does, the problem is printed, writing goes on, and the file stays as it
  was. -/
  none : ∀ p, (rendered s).findSome? actionFault? = some (.problem p) →
    (∀ output taken st, ∃ left notices, (writeModule output taken s).perform st
      = (.ok (0, left), { st with notices, printed := st.printed ++ [problemLine e p] }))
    ∧ ∀ config st st', Packs config s e st st' →
      moduleFileText config e st' = moduleFileText config e st ∧ problemLine e p ∈ st'.printed

/-- **All actions of a service or none.** A module that a package has to itself holds
what all actions of its service define, if none of them fails on its own. If one
does, nothing of any of them is written, and the problem of the first that fails is
printed. -/
theorem module_all_or_none (s : ServiceSchema) (e : String) (he : s.endpoint = .ok e)
    (hmodule : hasModule s = true) : AllOrNone s e where
  own a st := endsIn_actionDefinitions a st
  all := by
    intro hnone
    obtain ⟨blocks, htext, ho, hroots⟩ := exists_drafted he hnone
    refine ⟨blocks, htext, ho, hroots, fun config st st' h => ?_⟩
    rw [h.text_eq hmodule, lastText_singleton he htext, if_pos rfl, Option.some_or]
  none := by
    intro p hfault
    have hproblem := drafted_eq_problem he hfault
    refine ⟨perform_writeModule_of_problem he hproblem, fun config st st' h => ⟨?_, ?_⟩⟩
    · have hlast : lastText (moduleFile e) [s] = none := by
        simp [lastText, module?, he, hproblem]
      rw [h.text_eq hmodule, hlast, Option.none_or]
    · obtain ⟨e', he', ⟨text, htext⟩ | ⟨p', hp', hline⟩⟩ := h.settled hmodule
      · exact absurd (htext.symm.trans hproblem) (by simp)
      · obtain rfl := Except.ok.inj (he.symm.trans he')
        obtain rfl := Fault.problem.inj (Except.error.inj (hproblem.symm.trans hp'))
        exact hline

/-- An action that conflicts, and one that does not. -/
theorem module_all_or_none_issues :
    let search : ActionSchema := { action := { key := .str "search", params := [
      { key := .str "pageSize" }, { key := .str "page_size" }] } }
    let tags : ActionSchema := { action := { key := .str "tags" } }
    let s : ServiceSchema := { service := { path := .str "api/issues" }, actions := [search, tags] }
    s.endpoint = .ok "issues" ∧ hasModule s = true ∧ AllOrNone s "issues"
      ∧ actionFault? search = some (.ofCause (.accessorConflict (.str "page_size")
        [.str "pageSize", .str "page_size"]))
      ∧ actionFault? tags = .none := by
  intro search tags s
  exact ⟨by decide +kernel, by decide,
    module_all_or_none s "issues" (by decide +kernel) (by decide), by decide +kernel,
    by decide +kernel⟩

/-- **An action that takes another one with it**: the first action of a service
conflicts, and of the second one, which does not, nothing is written. -/
theorem write_omits_tags :
    let config : GeneratorConfig := { snapshot := false }
    let search : ActionSchema := { action := { key := .str "search", params := [
      { key := .str "pageSize" }, { key := .str "page_size" }] } }
    let tags : ActionSchema :=
      { action := { key := .str "tags" }
        response := .map (.str "TagsResponse")
          [⟨"tags", .str "Tags", .collection (.str "Tags") (.scalar (.str "Tags") .string), true⟩] }
    let s : ServiceSchema := { service := { path := .str "api/issues" }, actions := [search, tags] }
    let ended := (write config [s]).perform {}
    ended.1 = .ok ()
      ∧ actionFault? search = some (.ofCause (.accessorConflict (.str "page_size")
        [.str "pageSize", .str "page_size"]))
      ∧ actionFault? tags = .none ∧ definedRoots tags = ["TagsRequest", "TagsResponse"]
      ∧ moduleFileText config "issues" ended.2 = .none := by
  decide +kernel

end Exemplar.Package
