import Exemplar.Proofs.Learner
import Exemplar.Proofs.Run
import Exemplar.Survey

/-!
# Surveys that come to an end

What goes wrong with a service as a whole is caught, and then the endpoint
of the service is asked for a second time, to say which service it was: a
service that has none fails for good (`perform_oneOfMany_of_error`). A
catalog is surveyed, then, exactly if each of its services has an endpoint,
and there is one schema for each service (`outcome_catalog`).
-/

namespace Exemplar

variable {v : Survey} {e : String} {a : Action} {s : Service} {c : Catalog}
  {st st' : Session.State} {schemas : List ServiceSchema}

namespace Survey

/-! ## Services -/

/-- **A service with an endpoint never stops the others.** -/
theorem exists_perform_oneOfMany (he : s.endpoint = .ok e) (v : Survey) (st : Session.State) :
    ∃ schema st', (v.oneOfMany s).perform st = (.ok schema, st')
      ∧ schema.service = s ∧ schema.skipped = v.config.skipsEndpoint e := by
  rw [oneOfMany, Effect.perform_bind, Session.perform_say]
  dsimp only
  rw [Effect.perform_bind, Effect.perform_try_]
  dsimp only
  rcases hservice : (v.service s).perform _ with ⟨r, st'⟩
  cases r with
  | ok schema => exact ⟨schema, st', rfl, Learner.of_perform_service he hservice⟩
  | error f =>
    have hskip : v.config.skipsEndpoint e = false := by
      rw [Bool.eq_false_iff]
      intro hskip
      obtain ⟨_, hperform⟩ := Learner.perform_service_of_skips (v := v.learner) he hskip _
      rw [service, hperform] at hservice
      nomatch hservice
    dsimp only
    rw [Effect.perform_bind, Session.perform_say]
    dsimp only
    rw [he]
    exact ⟨_, _, rfl, rfl, hskip.symm⟩

/-- **A service without an endpoint fails**, the second time that the endpoint
is asked for. -/
theorem perform_oneOfMany_of_error {f : Fault} (h : s.endpoint = .error f) (v : Survey)
    (st : Session.State) : ∃ st', (v.oneOfMany s).perform st = (.error f, st') := by
  rw [oneOfMany, Effect.perform_bind, Session.perform_say]
  dsimp only
  rw [Effect.perform_bind, Effect.perform_try_, service, Learner.perform_service_of_error h]
  dsimp only
  rw [Effect.perform_bind, Session.perform_say]
  dsimp only
  rw [h]
  exact ⟨_, rfl⟩

/-! ## Catalogs -/

/-- **How the survey of a service ends**: in a schema of the service, if it
has an endpoint, and otherwise as asking for the endpoint does. -/
inductive Ends (v : Survey) (s : Service) : Except Fault ServiceSchema → Prop
  | surveyed {e : String} {schema : ServiceSchema} (hendpoint : s.endpoint = .ok e)
    (hservice : schema.service = s) (hskipped : schema.skipped = v.config.skipsEndpoint e) :
    Ends v s (.ok schema)
  | lost {f : Fault} (hendpoint : s.endpoint = .error f) : Ends v s (.error f)

theorem exists_ends (v : Survey) (s : Service) (st : Session.State) :
    ∃ r st', (Effect.try_ (v.oneOfMany s)).perform st = (.ok r, st') ∧ v.Ends s r := by
  rw [Effect.perform_try_]
  refine ⟨_, _, rfl, ?_⟩
  cases hendpoint : s.endpoint with
  | ok e =>
    obtain ⟨schema, st', hschema, hservice, hskipped⟩ := exists_perform_oneOfMany hendpoint v st
    rw [hschema]
    exact .surveyed hendpoint hservice hskipped
  | error f =>
    obtain ⟨st', hfails⟩ := perform_oneOfMany_of_error hendpoint v st
    rw [hfails]
    exact .lost hendpoint

/-- All services are surveyed before the first failure counts. -/
theorem exists_perform_catalog (v : Survey) (c : Catalog) (st : Session.State) :
    ∃ outcomes, List.Forall₂ v.Ends c.services outcomes
      ∧ ((v.catalog c).perform st).1 = outcomes.mapM id := by
  obtain ⟨outcomes, st', houtcomes, hends⟩ :=
    Effect.exists_perform_forEach (fun s (_ : s ∈ c.services) st => exists_ends v s st) st
  refine ⟨outcomes, hends, ?_⟩
  rw [catalog, Effect.perform_bind, houtcomes]
  dsimp only
  rw [Effect.perform_ofExcept]

/-- The first service that is lost counts, in both ways of asking. -/
theorem map_service_of_ends {services : List Service} {outcomes : List (Except Fault ServiceSchema)}
    (h : List.Forall₂ v.Ends services outcomes) :
    (outcomes.mapM id).map (List.map ServiceSchema.service)
      = (services.mapM Service.endpoint).map fun _ => services := by
  induction h with
  | nil => rfl
  | @cons s r services outcomes hends _ ih =>
    rw [List.mapM_cons, List.mapM_cons, id_eq]
    cases hends with
    | lost hendpoint =>
      rw [hendpoint]
      rfl
    | surveyed hendpoint hservice _ =>
      rw [hendpoint]
      cases hall : outcomes.mapM id <;> cases hes : services.mapM Service.endpoint <;>
        simp_all [Except.map, bind, Except.bind, pure, Except.pure]

/-- Each schema is one that the survey of a service ends in. -/
theorem exists_ends_of_mem {services : List Service} {outcomes : List (Except Fault ServiceSchema)}
    (h : List.Forall₂ v.Ends services outcomes) (hall : outcomes.mapM id = .ok schemas)
    {s : ServiceSchema} (hs : s ∈ schemas) : ∃ service, v.Ends service (.ok s) := by
  induction h generalizing schemas with
  | nil =>
    obtain rfl : [] = schemas := Except.ok.inj hall
    exact absurd hs List.not_mem_nil
  | @cons service r services outcomes hends _ ih =>
    rw [List.mapM_cons, id_eq] at hall
    cases r with
    | error f => nomatch hall
    | ok schema =>
      cases hrest : outcomes.mapM id with
      | error f =>
        rw [hrest] at hall
        nomatch hall
      | ok rest =>
        rw [hrest] at hall
        obtain rfl : schema :: rest = schemas := Except.ok.inj hall
        rcases List.mem_cons.mp hs with rfl | hs
        · exact ⟨service, hends⟩
        · exact ih hrest hs

/-- **A catalog is surveyed** to its end exactly if each service has an
endpoint, with one schema for each service, in order; and otherwise the survey
fails as asking the services for their endpoints does. -/
theorem outcome_catalog (v : Survey) (c : Catalog) (st : Session.State) :
    ((v.catalog c).perform st).1.map (List.map ServiceSchema.service)
      = (c.services.mapM Service.endpoint).map fun _ => c.services := by
  obtain ⟨outcomes, hends, houtcome⟩ := exists_perform_catalog v c st
  rw [houtcome]
  exact map_service_of_ends hends

/-- **A catalog can be surveyed** exactly if each service has an endpoint. -/
theorem exists_perform_catalog_iff (v : Survey) (c : Catalog) (st : Session.State) :
    (∃ schemas st', (v.catalog c).perform st = (.ok schemas, st'))
      ↔ ∀ s ∈ c.services, ∃ e, s.endpoint = .ok e := by
  have houtcome := outcome_catalog v c st
  rw [← Service.exists_mapM_endpoint_iff]
  rcases hsurvey : (v.catalog c).perform st with ⟨r, st'⟩
  rw [hsurvey] at houtcome
  cases r <;> cases hes : c.services.mapM Service.endpoint <;>
    simp_all [Except.map]

/-- **There is one schema for each service of a catalog**, in order. -/
theorem service_of_catalog (h : (v.catalog c).perform st = (.ok schemas, st')) :
    schemas.map ServiceSchema.service = c.services := by
  have houtcome := outcome_catalog v c st
  rw [h] at houtcome
  cases hes : c.services.mapM Service.endpoint <;> simp_all [Except.map]

/-- **Each of the schemas has an endpoint**, and is left out exactly if that
is. -/
theorem skipped_of_catalog (h : (v.catalog c).perform st = (.ok schemas, st'))
    {s : ServiceSchema} (hs : s ∈ schemas) :
    ∃ e, s.endpoint = .ok e ∧ s.skipped = v.config.skipsEndpoint e := by
  obtain ⟨outcomes, hends, houtcome⟩ := exists_perform_catalog v c st
  rw [h] at houtcome
  obtain ⟨service, hschema⟩ := exists_ends_of_mem hends houtcome.symm hs
  cases hschema with
  | surveyed hendpoint hservice hskipped =>
    exact ⟨_, (congrArg Service.endpoint hservice).trans hendpoint, hskipped⟩

end Survey

end Exemplar
