import Exemplar.Proofs.Inference.KeyOrder
import Exemplar.Proofs.Isolation
import Exemplar.Proofs.Package.Writing

/-!
# The order of the services

A catalog lists its services in some order, and the order is no part of what is
generated. A survey without a cache asks the server for each service anew, so
what comes of a service does not depend on the services before it
(`Survey.exists_outcomes`). The names that one module has taken are given back
before the next one is drafted (`finish_serviceModule`), modules with different
names are different files, and the snapshot is in the order of the endpoints. So
two runs over the same services in different orders end with the same files
(`generate_perm`).
-/

namespace Exemplar

/-! ## Surveys -/

namespace Survey

variable {v : Survey} {c : Catalog} {st st' : Session.State} {schemas : List ServiceSchema}

/-- **Surveying a service of several is settled** if there is no cache. -/
theorem settles_oneOfMany (hcache : v.fetcher.cache = none) (s : Service) :
    ∃ r, (v.oneOfMany s).Settles r := by
  obtain ⟨r, hr⟩ := Learner.settles_service (v := v.learner)
    (fun e key => (answers_of_uncached hcache e key).imp fun _ h => h.1) s
  have htry : Session.Settles (Effect.try_ (v.service s)) (.ok r) := hr.try_
  rw [oneOfMany]
  cases r with
  | ok schema => exact ⟨.ok schema, (Session.Settles.say _ _).bind (htry.bind (.pure schema))⟩
  | error f =>
    cases he : s.endpoint with
    | error g =>
      exact ⟨.error g, (Session.Settles.say _ _).bind
        (htry.bind ((Session.Settles.say _ _).bind (.bind_error (.ofExcept _))))⟩
    | ok e =>
      exact ⟨.ok { service := s, problem := some (f.toProblem.attributeTo (.str e) .null) },
        (Session.Settles.say _ _).bind (htry.bind
          ((Session.Settles.say _ _).bind ((Session.Settles.ofExcept _).bind (.pure _))))⟩

/-- **What comes of a service** does not depend on the catalog it is in. -/
theorem exists_outcomes (hcache : v.fetcher.cache = none) :
    ∃ f : Service → Except Fault ServiceSchema,
      ∀ c, (v.catalog c).Settles ((c.services.map f).mapM id) := by
  choose f hf using settles_oneOfMany hcache
  exact ⟨f, fun c => (Session.Settles.forEach fun s _ => (hf s).try_).bind (.ofExcept _)⟩

/-- **What comes of a service**, in a catalog that is surveyed to its end, does
not depend on the catalog. -/
theorem exists_schemaOf (hcache : v.fetcher.cache = none) :
    ∃ f : Service → ServiceSchema, ∀ c schemas st st',
      (v.catalog c).perform st = (.ok schemas, st') →
        schemas = c.services.map f ∧ st'.files = st.files := by
  obtain ⟨f, hf⟩ := exists_outcomes hcache
  refine ⟨fun s => (f s).toOption.getD { service := s }, fun c schemas st st' h => ?_⟩
  obtain ⟨hschemas, hfiles⟩ := (hf c).of_perform h
  rw [List.mapM_map] at hschemas
  exact ⟨eq_map_of_mapM (f := f) _ hschemas.symm, hfiles⟩

end Survey

namespace Package

variable {config : GeneratorConfig} {p : Path} {s : ServiceSchema}
  {schemas schemas' : List ServiceSchema} {st st' : Session.State}

/-! ## Files -/

/-- **Writing modules** sets the text of each module that can be drafted. -/
theorem files_of_perform_writeModules {taken : List String} {n : Nat} (hp : p.IsTidy)
    (h : (writeModules p taken schemas).perform st = (.ok n, st')) :
    st'.files = st.files.putAll (Place.ofPath p) (schemas.filterMap module?) := by
  induction schemas generalizing st taken n with
  | nil =>
    obtain ⟨-, rfl⟩ := Effect.perform_pure_eq_ok_iff.mp h
    rfl
  | cons s schemas ih =>
    obtain ⟨r, u, m, hs, hrest, -⟩ := perform_writeModules_cons_eq_ok_iff.mp h
    rw [ih hrest]
    obtain ⟨e, he, ⟨text, htext, hfiles, -⟩ | ⟨problem, hproblem, hfiles, -⟩⟩ :=
      of_perform_writeModule hp hs
    · rw [List.filterMap_cons, module?_eq_some he htext, hfiles]
      rfl
    · have hmodule : module? s = none := by rw [module?, he, hproblem]
      rw [List.filterMap_cons, hmodule, hfiles]

/-- **Services whose modules are called differently.** -/
def CalledApart (services : List Service) : Prop :=
  services.Pairwise fun s t => ∀ e e', s.endpoint = .ok e → t.endpoint = .ok e' →
    Code.moduleName e ≠ Code.moduleName e'

theorem moduleName_of_moduleFile {e e' : String} (h : moduleFile e = moduleFile e') :
    Code.moduleName e = Code.moduleName e' := by
  have hlist := congrArg String.toList h
  rw [moduleFile, moduleFile, String.toList_append, String.toList_append] at hlist
  exact String.toList_injective (List.append_cancel_right hlist)

/-- Their modules are different files. -/
theorem nodup_modules (h : CalledApart (schemas.map ServiceSchema.service)) :
    ((schemas.filterMap module?).map Prod.fst).Nodup := by
  rw [CalledApart, List.pairwise_map] at h
  rw [List.Nodup, List.pairwise_map, List.pairwise_filterMap]
  refine h.imp fun {s t} hst m hm m' hm' heq => ?_
  obtain ⟨e, he, hname⟩ := exists_of_module?_eq_some hm
  obtain ⟨e', he', hname'⟩ := exists_of_module?_eq_some hm'
  exact hst e e' he he' (moduleName_of_moduleFile (hname.symm.trans (heq.trans hname')))

/-- **The snapshot is in the order of the endpoints**, whatever the order of the
services is. -/
theorem byEndpoint_perm (hperm : schemas.Perm schemas')
    (h : CalledApart (schemas.map ServiceSchema.service)) {sorted sorted' : List ServiceSchema}
    (hsorted : byEndpoint schemas = .ok sorted) (hsorted' : byEndpoint schemas' = .ok sorted') :
    sorted = sorted' := by
  have hkeyed : ∀ {schemas sorted}, byEndpoint schemas = .ok sorted →
      ∃ keyed, schemas.mapM (fun s : ServiceSchema => do return (← s.endpoint, s)) = .ok keyed
        ∧ sorted = Inference.inKeyOrder keyed := by
    intro schemas sorted h
    rw [byEndpoint] at h
    cases hm : schemas.mapM (fun s : ServiceSchema => do return (← s.endpoint, s)) with
    | error e =>
      rw [hm] at h
      nomatch h
    | ok keyed =>
      rw [hm] at h
      exact ⟨keyed, rfl, (Except.ok.inj h).symm⟩
  obtain ⟨keyed, hm, rfl⟩ := hkeyed hsorted
  obtain ⟨keyed', hm', rfl⟩ := hkeyed hsorted'
  have hkey : ∀ s ∈ schemas, ∃ e, s.endpoint = .ok e := by
    intro s hs
    obtain ⟨b, hb⟩ := exists_of_mapM hm hs
    cases he : s.endpoint with
    | error f =>
      rw [he] at hb
      nomatch hb
    | ok e => exact ⟨e, rfl⟩
  have hmap := eq_map_of_mapM (fun s => ("", s)) hm
  refine Inference.inKeyOrder_eq_of_perm ?_ ?_
  · rw [CalledApart, List.pairwise_map] at h
    rw [hmap, List.map_map, List.Nodup, List.pairwise_map]
    refine h.imp_of_mem fun {s t} hs ht hst heq => ?_
    obtain ⟨e, he⟩ := hkey s hs
    obtain ⟨e', he'⟩ := hkey t ht
    simp only [Function.comp_apply, he, he'] at heq
    obtain rfl : e = e' := heq
    exact hst e e he he' rfl
  · rw [hmap, eq_map_of_mapM (fun s => ("", s)) hm']
    exact hperm.map _

/-- So it is the same for all orders. -/
theorem snapshot_perm (hperm : schemas.Perm schemas')
    (h : CalledApart (schemas.map ServiceSchema.service)) {document document' : Json}
    (hdocument : snapshot schemas = .ok document)
    (hdocument' : snapshot schemas' = .ok document') : document = document' := by
  rw [snapshot] at hdocument hdocument'
  cases hsorted : byEndpoint schemas with
  | error e =>
    rw [hsorted] at hdocument
    nomatch hdocument
  | ok sorted =>
    cases hsorted' : byEndpoint schemas' with
    | error e =>
      rw [hsorted'] at hdocument'
      nomatch hdocument'
    | ok sorted' =>
      rw [hsorted] at hdocument
      rw [hsorted', ← byEndpoint_perm hperm h hsorted hsorted'] at hdocument'
      exact Except.ok.inj (hdocument.symm.trans hdocument')

/-! ## Runs -/

/-- **The package of some services** is the same for all orders of them. -/
theorem files_of_perform_write_perm {start start' ended ended' : Session.State}
    (hperm : schemas.Perm schemas') (hnames : CalledApart (schemas.map ServiceSchema.service))
    (hstart : start.files = start'.files)
    (h : (write config schemas).perform start = (.ok (), ended))
    (h' : (write config schemas').perform start' = (.ok (), ended')) :
    ended.files.Same ended'.files := by
  have hp : config.output.IsTidy := Path.isTidy_ofText config.outputDir
  obtain ⟨fs, n, u, document, hmade, hmodules, hdocument, hfiles, -⟩ := of_perform_write h
  obtain ⟨fs', n', u', document', hmade', hmodules', hdocument', hfiles', -⟩ := of_perform_write h'
  obtain rfl : fs = fs' := by
    rw [hstart, hmade'] at hmade
    exact (Except.ok.inj hmade).symm
  -- The modules are set in some order, but each under a name of its own.
  have hsame : u.files.Same u'.files := by
    rw [files_of_perform_writeModules hp hmodules, files_of_perform_writeModules hp hmodules']
    have hapart : CalledApart ((schemas.filter hasModule).map ServiceSchema.service) :=
      List.Pairwise.sublist ((List.filter_sublist).map _) hnames
    exact Files.putAll_perm ((hperm.filter hasModule).filterMap module?) (nodup_modules hapart) _ _
  rw [hfiles, hfiles']
  simp only [putFrame]
  split
  · next hsnapshot =>
    rw [snapshot_perm hperm hnames (hdocument hsnapshot) (hdocument' hsnapshot)]
    exact (hsame.put _ _).put _ _
  · exact hsame.put _ _

/-- **The order of the services is no part of what is generated.** Let two runs
that write start from the same files, without a cache, over catalogs with the same
services in different orders, where no two services have modules of one name. If
both complete, each service has the same schemas in both, and they end with the
same files. -/
theorem generate_perm {v : Survey} {c c' : Catalog} {start start' ended ended' : Session.State}
    (hcache : v.fetcher.cache = none) (hperm : c.services.Perm c'.services)
    (hnames : CalledApart c.services) (hstart : start.files = start'.files)
    (h : (generate v c true).perform start = (.ok schemas, ended))
    (h' : (generate v c' true).perform start' = (.ok schemas', ended')) :
    (∃ f : Service → ServiceSchema, (∀ s ∈ c.services, (f s).service = s)
        ∧ schemas = c.services.map f ∧ schemas' = c'.services.map f)
      ∧ ended.files.Same ended'.files := by
  obtain ⟨u, t, hsurvey, hwrite, hprints⟩ := steps_of_perform_generate h
  obtain ⟨u', t', hsurvey', hwrite', hprints'⟩ := steps_of_perform_generate h'
  obtain ⟨f, hf⟩ := Survey.exists_schemaOf hcache
  obtain ⟨hschemas, hu⟩ := hf _ _ _ _ hsurvey
  obtain ⟨hschemas', hu'⟩ := hf _ _ _ _ hsurvey'
  have hservices : schemas.map ServiceSchema.service = c.services :=
    Survey.service_of_catalog hsurvey
  refine ⟨⟨f, fun s hs => ?_, hschemas, hschemas'⟩, ?_⟩
  · rw [hschemas, List.map_map] at hservices
    exact List.map_inj_left.mp (hservices.trans (List.map_id _).symm) s hs
  · rw [hprints.files, hprints'.files]
    refine files_of_perform_write_perm ?_ (hservices ▸ hnames) (by rw [hu, hu', hstart])
      hwrite hwrite'
    rw [hschemas, hschemas']
    exact hperm.map f

/-- Two services, the first of which has an action whose example is not to be
had. -/
theorem generate_perm_issues :
    let server : Server := fun _ => .failed "refused"
    let config : GeneratorConfig := { snapshot := false }
    let v : Survey := { server, fetcher := { host := "http://h" }, registry := ⟨[]⟩, config }
    let search : Action := { key := .str "search", hasExample := .bool true }
    let issues : Service := { path := .str "api/issues", actions := some [search] }
    let system : Service := { path := .str "api/system" }
    let problem : Problem := ⟨.fetch (.exampleUnreachable "refused"), .str "issues", .str "search"⟩
    let found : List ServiceSchema := [
      { service := issues, actions := [{ action := search, problem := some problem }] },
      { service := system }]
    let first := (generate v ⟨[issues, system]⟩ true).perform {}
    let second := (generate v ⟨[system, issues]⟩ true).perform {}
    (v.fetcher.cache = none ∧ List.Perm [issues, system] [system, issues]
      ∧ CalledApart [issues, system] ∧ first.1 = .ok found ∧ second.1 = .ok found.reverse)
    ∧ (∃ f : Service → ServiceSchema, (∀ s ∈ [issues, system], (f s).service = s)
        ∧ found = [issues, system].map f ∧ found.reverse = [system, issues].map f)
      ∧ first.2.files.Same second.2.files := by
  intro server config v search issues system problem found first second
  have hperm : List.Perm [issues, system] [system, issues] := .swap ..
  have hapart : CalledApart [issues, system] := by
    rw [CalledApart, List.pairwise_pair]
    rintro e e' ⟨⟩ ⟨⟩
    decide +kernel
  have hfirst : first.1 = .ok found := by decide +kernel
  have hsecond : second.1 = .ok found.reverse := by decide +kernel
  have hrun : (generate v ⟨[issues, system]⟩ true).perform {} = (.ok found, first.2) :=
    Prod.ext hfirst rfl
  have hrun' : (generate v ⟨[system, issues]⟩ true).perform {} = (.ok found.reverse, second.2) :=
    Prod.ext hsecond rfl
  exact ⟨⟨rfl, hperm, hapart, hfirst, hsecond⟩, generate_perm rfl hperm hapart rfl hrun hrun'⟩

end Package

end Exemplar
