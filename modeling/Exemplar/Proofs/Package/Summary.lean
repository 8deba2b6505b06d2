import Exemplar.Package
import Exemplar.Proofs.Session
import Exemplar.Proofs.Survey

/-!
# Runs that come to an end

A summary has a line for each service, and needs nothing but the endpoint of
each to be printed (`onlyPrints_printSummary`). A run that writes no package
surveys the catalog and prints the summary, and so ends as the survey does: with
one schema for each service, in the order of the catalog, exactly if the path of
each service is a text (`generate_completes_iff`). What goes wrong with a
service that has such a path never gets in the way of the others; a service
that has none takes all of them down (`outcome_generate_of_error`).
-/

namespace Exemplar.Package

open Session (OnlyPrints)

variable {v : Survey} {c : Catalog} {st : Session.State} {schemas : List ServiceSchema}

/-- **The summary can be printed** if each service has an endpoint. -/
theorem onlyPrints_printSummary (h : ∀ s ∈ schemas, ∃ e, s.endpoint = .ok e) :
    OnlyPrints (printSummary schemas) := by
  refine .bind (.print _) fun _ => .bind (.print _) fun _ => .bind (.print _) fun _ =>
    .bind (.forIn (fun s hs _ => ?_) _) fun _ => .print _
  obtain ⟨e, he⟩ := h s hs
  rw [he]
  exact .bind (.pure e) fun e => .bind (.printLines (serviceLines e s)) fun _ => .pure _

/-- **A run that writes nothing** ends as its survey. -/
theorem outcome_generate (v : Survey) (c : Catalog) (st : Session.State) :
    ((generate v c false).perform st).1 = ((v.catalog c).perform st).1 := by
  rw [generate, Effect.perform_bind]
  rcases hsurvey : (v.catalog c).perform st with ⟨r, st₁⟩
  cases r with
  | error f => rfl
  | ok schemas =>
    obtain ⟨⟨⟩, st₂, hsummary, -⟩ := onlyPrints_printSummary
      (fun s hs => (Survey.skipped_of_catalog hsurvey hs).imp fun _ h => h.1) st₁
    simp only [Bool.false_eq_true, if_false, Effect.perform_bind, Effect.perform_pure, hsummary]

/-- A service that has no endpoint is what the run fails for. -/
theorem outcome_generate_of_error {f : Fault} (h : c.services.mapM Service.endpoint = .error f)
    (v : Survey) (st : Session.State) : ((generate v c false).perform st).1 = .error f := by
  have houtcome := Survey.outcome_catalog v c st
  rw [h, ← outcome_generate] at houtcome
  cases hrun : ((generate v c false).perform st).1 with
  | ok schemas => simp [hrun, Except.map] at houtcome
  | error g => simpa [hrun, Except.map] using houtcome

/-- **When a run completes.** A run that writes nothing gives one schema for each
service, in the order of the catalog, exactly if the path of each service is a
text, whatever the server answers and the rules and the configuration are. -/
theorem generate_completes_iff (v : Survey) (c : Catalog) (st : Session.State) :
    (∃ schemas st', (generate v c false).perform st = (.ok schemas, st')
        ∧ schemas.map ServiceSchema.service = c.services)
      ↔ ∀ s ∈ c.services, ∃ path, s.path = .str path := by
  have hsurvey := Survey.exists_perform_catalog_iff v c st
  simp only [Service.exists_endpoint_iff] at hsurvey
  have hrun := outcome_generate v c st
  rw [← hsurvey]
  constructor
  · rintro ⟨schemas, st', hperform, -⟩
    rw [hperform] at hrun
    exact ⟨schemas, ((v.catalog c).perform st).2, Prod.ext hrun.symm rfl⟩
  · rintro ⟨schemas, st', hcatalog⟩
    rw [hcatalog] at hrun
    exact ⟨schemas, ((generate v c false).perform st).2, Prod.ext hrun rfl,
      Survey.service_of_catalog hcatalog⟩

/-- **A service without an endpoint**: the catalog is accepted, and no run over
it completes, although nothing is wrong with its other service. -/
theorem generate_pathless :
    let document : Json := .obj [("webServices", .arr [
      .obj [("path", .int 5)],
      .obj [("path", .str "api/system"), ("actions", .arr [])]])]
    let catalog : Catalog := ⟨[{ path := .int 5 }, { path := .str "api/system" }]⟩
    Catalog.parse document = .ok catalog
    ∧ ∀ (v : Survey) (st : Session.State), ((generate v catalog false).perform st).1
        = .error (.breach (.noAttribute (.int 5) "rstrip")) := by
  intro document catalog
  exact ⟨by decide +kernel, outcome_generate_of_error rfl⟩

end Exemplar.Package
