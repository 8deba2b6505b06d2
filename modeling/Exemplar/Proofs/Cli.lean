import Exemplar.Cli
import Exemplar.Proofs.Package.Writing

/-!
# What the exit status says

A command that generates a package ends with status zero if nothing went wrong
while the services were surveyed. What goes wrong while the modules are drafted
is told, and does not count. So after such a run each service of the catalog is
surveyed without a problem, and each one that is not left out has its module
drafted, and in its file up to later modules of the same name, or the problem
with it among the printed lines (`generate_status_zero`).
-/

namespace Exemplar.Cli

open Package (drafted hasModule lastText moduleFile problemLine Written)
open Session (OnlyPrints)

variable {server : Server} {config : Config} {host auth overrides : Option String}
  {internals : Bool} {generator : GeneratorConfig} {exit : Exit} {st st' : Session.State}

/-- **Connecting**: the rules are loaded, a fetcher is opened, and, after some
printing, the server gives its catalog. -/
inductive Connects (server : Server) (config : Config) (host auth overrides : Option String)
    (internals : Bool) (st : Session.State) :
    OverrideRegistry → Fetcher → Catalog → Session.State → Prop
  | intro {registry : OverrideRegistry} {fetcher : Fetcher} {catalog : Catalog}
    {u₁ u₂ u₃ st' : Session.State}
    (hrules : (loadRules config overrides).perform st = (.ok registry, u₁))
    (hfetcher : (openFetcher config host auth).perform u₁ = (.ok fetcher, u₂))
    (hprints : u₂.Prints u₃)
    (hcatalog : (Fetcher.fetchCatalog server fetcher
      (internals || config.server.internals)).perform u₃ = (.ok catalog, st')) :
    Connects server config host auth overrides internals st registry fetcher catalog st'

/-- A command goes on only with what a session gives; otherwise it fails. -/
theorem exists_of_perform_orTell {α : Type} {x : Session α} {next : α → Session Exit}
    (h : (orTell x next).perform st = (.ok exit, st')) (hstatus : exit.status = 0) :
    ∃ a u, x.perform st = (.ok a, u) ∧ (next a).perform u = (.ok exit, st') := by
  rw [orTell] at h
  obtain ⟨r, u, hr, h⟩ := Effect.perform_bind_eq_ok_iff.mp h
  rw [Effect.perform_try_, Prod.mk.injEq, Except.ok.injEq] at hr
  cases r with
  | ok a => exact ⟨a, u, Prod.ext hr.1 hr.2, h⟩
  | error f =>
    cases f with
    | breach b => nomatch h
    | problem p =>
      obtain ⟨_, _, -, h⟩ := Effect.perform_bind_eq_ok_iff.mp h
      obtain ⟨rfl, -⟩ := Effect.perform_pure_eq_ok_iff.mp h
      nomatch hstatus

/-- **A run with status zero**, step by step: it connects, surveys the catalog, and
writes the modules. No schema has a problem. -/
theorem exists_steps_of_status_zero
    (h : (generate server config host auth overrides internals generator).perform st
      = (.ok exit, st')) (hstatus : exit.status = 0) :
    ∃ registry fetcher catalog schemas u₁ u₂ u₃ u₄, st.Prints u₁
      ∧ Connects server config host auth overrides internals u₁ registry fetcher catalog u₂
      ∧ u₂.Prints u₃
      ∧ (Survey.catalog { server, fetcher, registry, config := generator } catalog).perform u₃
        = (.ok schemas, u₄)
      ∧ Written (Place.ofPath generator.output) (schemas.filter hasModule) u₄ st'
      ∧ ∀ s ∈ schemas, s.isOk = true := by
  rw [generate] at h
  obtain ⟨_, u₁, hbanner, h⟩ := Effect.perform_bind_eq_ok_iff.mp h
  obtain ⟨⟨registry, fetcher, catalog⟩, u₂, hconnect, h⟩ := exists_of_perform_orTell h hstatus
  have hconnects : Connects server config host auth overrides internals u₁ registry fetcher
      catalog u₂ := by
    obtain ⟨registry', _, hrules, hconnect⟩ := Effect.perform_bind_eq_ok_iff.mp hconnect
    obtain ⟨fetcher', _, hfetcher, hconnect⟩ := Effect.perform_bind_eq_ok_iff.mp hconnect
    obtain ⟨_, _, hprint, hconnect⟩ := Effect.perform_bind_eq_ok_iff.mp hconnect
    obtain ⟨catalog', _, hcatalog, hconnect⟩ := Effect.perform_bind_eq_ok_iff.mp hconnect
    obtain ⟨heq, rfl⟩ := Effect.perform_pure_eq_ok_iff.mp hconnect
    obtain ⟨rfl, rfl, rfl⟩ : registry' = registry ∧ fetcher' = fetcher ∧ catalog' = catalog := by
      simpa using heq
    exact .intro hrules hfetcher ((OnlyPrints.print _).prints hprint) hcatalog
  obtain ⟨_, u₃, hfound, h⟩ := Effect.perform_bind_eq_ok_iff.mp h
  obtain ⟨schemas, _, hgenerate, h⟩ := Effect.perform_bind_eq_ok_iff.mp h
  obtain ⟨u₄, hsurvey, hwritten⟩ := Package.of_perform_generate hgenerate
  split at h
  · next hok =>
    obtain ⟨_, _, hprint, h⟩ := Effect.perform_bind_eq_ok_iff.mp h
    obtain ⟨-, rfl⟩ := Effect.perform_pure_eq_ok_iff.mp h
    have hdone := hwritten.trans (.of_prints ((OnlyPrints.print _).prints hprint))
    rw [List.append_nil] at hdone
    exact ⟨registry, fetcher, catalog, schemas, u₁, u₂, u₃, u₄,
      (OnlyPrints.printLines banner).prints hbanner, hconnects,
      (OnlyPrints.print _).prints hfound, hsurvey, hdone, List.all_eq_true.mp hok⟩
  · obtain ⟨rfl, -⟩ := Effect.perform_pure_eq_ok_iff.mp h
    nomatch hstatus

/-- A service without a problem that is not left out is one for a module. -/
theorem hasModule_of_isOk {s : ServiceSchema} (hok : s.isOk = true)
    (hskipped : s.skipped = false) : hasModule s = true := by
  have hproblem : s.problem = none := by
    cases hs : s.problem with
    | none => rfl
    | some p => simp [ServiceSchema.isOk, ServiceSchema.problems, hs] at hok
  simp [hasModule, hskipped, hproblem]

/-- **What becomes of the module of a service**, its endpoint given: it is drafted,
and its file holds it or a later module of the same name; or it cannot be
drafted, and that is told. -/
def WrittenOrTold (generator : GeneratorConfig) (schemas : List ServiceSchema)
    (st : Session.State) (e : String) (s : ServiceSchema) : Prop :=
  (∃ text last, (drafted s).outcome = .ok text
      ∧ lastText (moduleFile e) (schemas.filter hasModule) = some last
      ∧ st.files.text? ((Place.ofPath generator.output).child (moduleFile e)) = some last)
    ∨ ∃ p, (drafted s).outcome = .error (.problem p) ∧ problemLine e p ∈ st.printed

/-- **What status zero says.** The command has connected; the survey of the catalog
gives a schema for each service, in order, none of them with a problem; and the
module of each service that is not left out is written or told. -/
theorem generate_status_zero
    (h : (generate server config host auth overrides internals generator).perform st
      = (.ok exit, st')) (hstatus : exit.status = 0) :
    ∃ registry fetcher catalog schemas u₁ u₂ u₃ u₄, st.Prints u₁
      ∧ Connects server config host auth overrides internals u₁ registry fetcher catalog u₂
      ∧ u₂.Prints u₃
      ∧ (Survey.catalog { server, fetcher, registry, config := generator } catalog).perform u₃
        = (.ok schemas, u₄)
      ∧ schemas.map ServiceSchema.service = catalog.services
      ∧ ∀ s ∈ schemas, s.isOk = true ∧ ∃ e, s.endpoint = .ok e
        ∧ (generator.skipsEndpoint e = false → WrittenOrTold generator schemas st' e s) := by
  obtain ⟨registry, fetcher, catalog, schemas, u₁, u₂, u₃, u₄, hbanner, hconnects, hfound,
    hsurvey, hwritten, hok⟩ := exists_steps_of_status_zero h hstatus
  refine ⟨registry, fetcher, catalog, schemas, u₁, u₂, u₃, u₄, hbanner, hconnects, hfound,
    hsurvey, Survey.service_of_catalog hsurvey, fun s hs => ⟨hok s hs, ?_⟩⟩
  obtain ⟨e, he, hskipped⟩ := Survey.skipped_of_catalog hsurvey hs
  refine ⟨e, he, fun hskip => ?_⟩
  have hs' : s ∈ schemas.filter hasModule :=
    List.mem_filter.mpr ⟨hs, hasModule_of_isOk (hok s hs) (hskipped.trans hskip)⟩
  obtain ⟨e', he', hsettled⟩ := hwritten.settled s hs'
  obtain rfl : e = e' := Except.ok.inj (he.symm.trans he')
  refine hsettled.imp_left fun ⟨text, htext⟩ => ?_
  obtain ⟨last, hlast⟩ := Package.exists_lastText hs' he htext
  exact ⟨text, last, htext, hlast, by rw [hwritten.files, hlast, Option.some_or]⟩

/-- A server with one service, which has one action: the module is written. -/
theorem generate_status_zero_search :
    let document : Json := .obj [("webServices", .arr [.obj [("path", .str "api/issues"),
      ("actions", .arr [.obj [("key", .str "search")]])]])]
    let server : Server := fun _ => .answered 200 "OK" document.write
    let generator : GeneratorConfig := { snapshot := false }
    let after := ((generate server {} none none none false generator).perform {}).2
    ((generate server {} none none none false generator).perform {} = (.ok .done, after)
      ∧ Exit.done.status = 0)
    ∧ ∃ registry fetcher catalog schemas u₁ u₂ u₃ u₄, Session.State.Prints {} u₁
      ∧ Connects server {} none none none false u₁ registry fetcher catalog u₂
      ∧ u₂.Prints u₃
      ∧ (Survey.catalog { server, fetcher, registry, config := generator } catalog).perform u₃
        = (.ok schemas, u₄)
      ∧ schemas.map ServiceSchema.service = catalog.services
      ∧ ∀ s ∈ schemas, s.isOk = true ∧ ∃ e, s.endpoint = .ok e
        ∧ (generator.skipsEndpoint e = false → WrittenOrTold generator schemas after e s) := by
  intro document server generator after
  have hrun : (generate server {} none none none false generator).perform {} = (.ok .done, after) :=
    Prod.ext (by decide +kernel) rfl
  exact ⟨⟨hrun, rfl⟩, generate_status_zero hrun rfl⟩

/-- **A module that is missing although the status is zero**: two parameters have
the same attribute name, so the request cannot be drafted. That is printed, and
the run ends as one that went well. -/
theorem generate_status_zero_missing :
    let parameter (key : String) : Json := .obj [("key", .str key)]
    let document : Json := .obj [("webServices", .arr [.obj [("path", .str "api/issues"),
      ("actions", .arr [.obj [("key", .str "search"),
        ("params", .arr [parameter "pageSize", parameter "page_size"])]])]])]
    let server : Server := fun _ => .answered 200 "OK" document.write
    let search : Action :=
      { key := .str "search", params := [{ key := .str "pageSize" }, { key := .str "page_size" }] }
    let issues : Service := { path := .str "api/issues", actions := some [search] }
    let ended := (run server {} ["generate", "--no-snapshot"]).perform {}
    Catalog.parse document = .ok ⟨[issues]⟩
    ∧ issues.endpoint = .ok "issues" ∧ GeneratorConfig.skipsEndpoint {} "issues" = false
    ∧ ended.1 = .ok .done ∧ Exit.done.status = 0
    ∧ ended.2.files.text? ((Place.ofPath (Path.ofText "./generated")).child "issues.py") = none
    ∧ "   ❌ [issues/?] keys 'pageSize', 'page_size' all render as accessor 'page_size'"
      ∈ ended.2.printed := by
  decide +kernel

end Exemplar.Cli
