import Exemplar.Proofs.Files
import Exemplar.Proofs.Naming
import Exemplar.Proofs.Package.Summary

/-!
# What a package holds

The modules of a package are written one after the other, each to the file that
its endpoint gives it. Two endpoints may give the same file, and a file holds
what was written to it last: so a module is in the package exactly as it was
drafted, unless a later service has a module of the same name
(`module_of_write`). A service whose module cannot be drafted is told, and
the others are written all the same.

What one step of writing does to the files of modules and to what is printed is
the relation `Written`. Steps that write no module are in it, for no service,
and it is closed under one step after another (`Written.trans`).
-/

namespace Exemplar.Package

variable {config : GeneratorConfig} {output p : Path} {d : Place} {e name text : String}
  {s : ServiceSchema} {schemas before after : List ServiceSchema} {st st' : Session.State}

/-! ## File names -/

/-- **A name for a file**: a walk along it is one step down. -/
structure IsFileName (name : String) : Prop where
  slash : '/' ∉ name.toList
  empty : name ≠ ""
  dot : name ≠ "."
  up : name ≠ ".."

theorem toList_moduleFile (e : String) :
    (moduleFile e).toList = Naming.snake (Naming.toCamel e).toList ++ ['.', 'p', 'y'] := by
  simp [moduleFile, Code.moduleName, Naming.attributeName, Naming.toSnake]

/-- The file of a module has such a name. -/
theorem isFileName_moduleFile (e : String) : IsFileName (moduleFile e) := by
  have hy : 'y' ∈ (moduleFile e).toList := by simp [toList_moduleFile]
  have hne : ∀ other : String, 'y' ∉ other.toList → moduleFile e ≠ other := by
    rintro other hother rfl
    exact hother hy
  refine ⟨fun hslash => ?_, hne _ (by decide), hne _ (by decide), hne _ (by decide)⟩
  rw [toList_moduleFile, List.mem_append] at hslash
  rcases hslash with hslash | hslash
  · exact absurd (Naming.isNameChar_of_mem_snake hslash) (by decide)
  · exact absurd hslash (by decide)

/-- **No module is written to the file that makes a package**: that starts with
two underscores. -/
theorem moduleFile_ne_init (e : String) : moduleFile e ≠ "__init__.py" := by
  intro h
  have hlist := congrArg String.toList h
  have hinit : "__init__.py".toList = '_' :: '_' :: "init__.py".toList := by decide
  rw [toList_moduleFile, hinit] at hlist
  cases hname : Naming.snake (Naming.toCamel e).toList with
  | nil => simp [hname] at hlist
  | cons c cs =>
    cases cs with
    | nil => simp [hname] at hlist
    | cons c' cs =>
      rw [hname, List.cons_append, List.cons_append, List.cons.injEq, List.cons.injEq] at hlist
      obtain ⟨rfl, rfl, -⟩ := hlist
      exact Naming.snake_ne_dunder _ _ hname

/-- Nor is one written to the snapshot, which is no module. -/
theorem moduleFile_ne_snapshotFile (e : String) : moduleFile e ≠ snapshotFile := by
  intro h
  have hlast := congrArg (fun name : String => name.toList.getLast?) h
  simp [toList_moduleFile, snapshotFile] at hlast

/-! ## Steps of writing -/

/-- A file right below a path is written where the path leads. -/
theorem eq_of_perform_writeFile (hp : p.IsTidy) (hname : IsFileName name)
    (h : (writeFile (p.below name) text).perform st = (.ok (), st')) :
    st' = { st with files := st.files.put ((Place.ofPath p).child name) text } := by
  rw [writeFile, Effect.perform_bind, Effect.perform_get] at h
  dsimp only at h
  cases hwrite : st.files.write (p.below name) text with
  | error t =>
    rw [hwrite] at h
    nomatch h
  | ok files =>
    rw [hwrite] at h
    obtain ⟨q, hq, -, rfl⟩ := Files.eq_put_of_write hwrite
    rw [← Files.eq_child_of_locate_below hp hname.slash hname.empty hname.dot hname.up hq]
    exact (Prod.ext_iff.mp h).2.symm

/-! ## Modules -/

/-- **What the module of a service is drafted as.** -/
def drafted (s : ServiceSchema) : Run String := ((Code.serviceModule s).finish []).1

/-- **The module of a service**, if it can be drafted: the name of its file, and
its text. -/
def module? (s : ServiceSchema) : Option (String × String) :=
  match s.endpoint, (drafted s).outcome with
  | .ok e, .ok text => some (moduleFile e, text)
  | _, _ => none

theorem module?_eq_some (he : s.endpoint = .ok e) (htext : (drafted s).outcome = .ok text) :
    module? s = some (moduleFile e, text) := by
  rw [module?, he, htext]

/-- The file of a module is called after the endpoint of its service. -/
theorem exists_of_module?_eq_some {m : String × String} (h : module? s = some m) :
    ∃ e, s.endpoint = .ok e ∧ m.1 = moduleFile e := by
  cases he : s.endpoint with
  | error _ => simp [module?, he] at h
  | ok e =>
    cases htext : (drafted s).outcome with
    | error _ => simp [module?, he, htext] at h
    | ok text =>
      obtain rfl : (moduleFile e, text) = m :=
        Option.some.inj ((module?_eq_some he htext).symm.trans h)
      exact ⟨e, rfl, rfl⟩

/-- **The text of the last module** with the given file name. -/
def lastText (name : String) (schemas : List ServiceSchema) : Option String :=
  (schemas.filterMap module?).reverse.lookup name

theorem lastText_append (name : String) (before after : List ServiceSchema) :
    lastText name (before ++ after) = (lastText name after).or (lastText name before) := by
  rw [lastText, List.filterMap_append, List.reverse_append, List.lookup_append]
  rfl

/-- One service has one module. -/
theorem lastText_singleton (he : s.endpoint = .ok e) (htext : (drafted s).outcome = .ok text)
    (name : String) : lastText name [s] = if moduleFile e = name then some text else none := by
  rw [lastText, List.filterMap_cons, module?_eq_some he htext]
  by_cases hname : moduleFile e = name
  · simp [hname]
  · have hbeq : (name == moduleFile e) = false := by simpa using Ne.symm hname
    simp [List.lookup_cons, hname, hbeq]

/-- There is none if no service has that file. -/
theorem lastText_eq_none
    (h : ∀ t ∈ schemas, ∀ e, t.endpoint = .ok e → moduleFile e ≠ name) :
    lastText name schemas = none := by
  rw [lastText, List.lookup_eq_none_iff]
  intro m hm
  obtain ⟨t, ht, hmodule⟩ := List.mem_filterMap.mp (List.mem_reverse.mp hm)
  obtain ⟨e, he, hfile⟩ := exists_of_module?_eq_some hmodule
  rw [hfile]
  simpa using Ne.symm (h t ht e he)

/-- There is one if some service has a module in that file. -/
theorem exists_lastText (hs : s ∈ schemas) (he : s.endpoint = .ok e)
    (htext : (drafted s).outcome = .ok text) :
    ∃ last, lastText (moduleFile e) schemas = some last := by
  have hmem : (moduleFile e, text) ∈ schemas.filterMap module? :=
    List.mem_filterMap.mpr ⟨s, hs, module?_eq_some he htext⟩
  rw [← Option.isSome_iff_exists, lastText, List.lookup_isSome_iff]
  exact ⟨_, List.mem_reverse.mpr hmem, beq_self_eq_true _⟩

/-- What is printed of a module that cannot be drafted. -/
def problemLine (e : String) (p : Problem) : String :=
  Text.withoutControls s!"   ❌ {(p.attributeTo (.str e) .null).message}"

/-- **A service is settled**: its module is drafted, or its problem is among
the printed lines. -/
def Settled (s : ServiceSchema) (printed : List String) : Prop :=
  ∃ e, s.endpoint = .ok e ∧ ((∃ text, (drafted s).outcome = .ok text)
    ∨ ∃ p, (drafted s).outcome = .error (.problem p) ∧ problemLine e p ∈ printed)

/-- **Writing the modules of services** in a directory, as far as the files of
modules and the printed lines are concerned. -/
structure Written (d : Place) (schemas : List ServiceSchema) (st st' : Session.State) : Prop where
  files : ∀ e, st'.files.text? (d.child (moduleFile e))
    = (lastText (moduleFile e) schemas).or (st.files.text? (d.child (moduleFile e)))
  printed : st.printed <+: st'.printed
  settled : ∀ s ∈ schemas, Settled s st'.printed

namespace Written

/-- A step that leaves the files of modules alone writes none. -/
theorem of_files_eq (hfiles : ∀ e, st'.files.text? (d.child (moduleFile e))
      = st.files.text? (d.child (moduleFile e)))
    (hprinted : st.printed <+: st'.printed) : Written d [] st st' where
  files := fun e => by rw [hfiles e]; rfl
  printed := hprinted
  settled := fun s hs => absurd hs List.not_mem_nil

/-- Nor does one that only prints. -/
theorem of_prints (h : st.Prints st') : Written d [] st st' :=
  of_files_eq (fun _ => by rw [h.files]) h.printed

/-- **One step after another.** -/
theorem trans {u : Session.State} (h : Written d before st u) (h' : Written d after u st') :
    Written d (before ++ after) st st' where
  files := fun e => by rw [h'.files, h.files, lastText_append, Option.or_assoc]
  printed := h.printed.trans h'.printed
  settled := by
    intro s hs
    rcases List.mem_append.mp hs with hs | hs
    · obtain ⟨e, he, htext | ⟨p, hp, hline⟩⟩ := h.settled s hs
      · exact ⟨e, he, .inl htext⟩
      · exact ⟨e, he, .inr ⟨p, hp, h'.printed.subset hline⟩⟩
    · exact h'.settled s hs

/-- A module that is drafted is written to its file. -/
theorem of_text (he : s.endpoint = .ok e) (htext : (drafted s).outcome = .ok text)
    (hfiles : st'.files = st.files.put (d.child (moduleFile e)) text)
    (hprinted : st'.printed = st.printed) : Written d [s] st st' where
  files := by
    intro e'
    rw [hfiles, Files.text?_put, lastText_singleton he htext]
    by_cases hsame : moduleFile e = moduleFile e'
    · rw [if_pos hsame, if_pos (Files.child_inj.mpr hsame), Option.some_or]
    · rw [if_neg hsame, if_neg (mt Files.child_inj.mp hsame), Option.none_or]
  printed := hprinted ▸ List.prefix_rfl
  settled := List.forall_mem_singleton.mpr ⟨e, he, .inl ⟨text, htext⟩⟩

/-- A module that cannot be drafted is told. -/
theorem of_problem {problem : Problem} (he : s.endpoint = .ok e)
    (hproblem : (drafted s).outcome = .error (.problem problem)) (hfiles : st'.files = st.files)
    (hprinted : st'.printed = st.printed ++ [problemLine e problem]) : Written d [s] st st' where
  files := by
    intro e'
    have hmodule : module? s = none := by rw [module?, he, hproblem]
    rw [lastText, List.filterMap_cons, hmodule, hfiles]
    rfl
  printed := hprinted ▸ List.prefix_append _ _
  settled := List.forall_mem_singleton.mpr
    ⟨e, he, .inr ⟨problem, hproblem, hprinted ▸ List.mem_append_right _ List.mem_cons_self⟩⟩

end Written

/-! ## Writing modules -/

/-- **A module is drafted on its own**: the names that are taken when it is
begun are given back first. -/
theorem finish_serviceModule (s : ServiceSchema) (taken : List String) :
    (Code.serviceModule s).finish taken = (Code.serviceModule s).finish [] := by
  simp only [Code.Draft.finish, Code.serviceModule, Effect.perform_bind, Code.Draft.perform_release]

/-- **What writing the module of a service does**: its module is drafted and put
into its file, or its problem is printed. -/
theorem of_perform_writeModule {taken : List String} {r : Nat × List String} (hp : p.IsTidy)
    (h : (writeModule p taken s).perform st = (.ok r, st')) :
    ∃ e, s.endpoint = .ok e
      ∧ ((∃ text, (drafted s).outcome = .ok text
          ∧ st'.files = st.files.put ((Place.ofPath p).child (moduleFile e)) text
          ∧ st'.printed = st.printed)
        ∨ ∃ problem, (drafted s).outcome = .error (.problem problem)
          ∧ st'.files = st.files ∧ st'.printed = st.printed ++ [problemLine e problem]) := by
  rw [writeModule, finish_serviceModule] at h
  obtain ⟨r, u, hr, h⟩ := Effect.perform_bind_eq_ok_iff.mp h
  rw [Effect.perform_try_, Session.perform_ofRun, Prod.mk.injEq, Except.ok.injEq] at hr
  obtain ⟨hdraft, hu⟩ := hr
  change (drafted s).outcome = r at hdraft
  -- What is said while drafting concerns neither files nor printed lines.
  have hfiles : u.files = st.files := by rw [← hu]
  have hprinted : u.printed = st.printed := by rw [← hu]
  clear hu
  cases r with
  | ok text =>
    obtain ⟨e, _, hendpoint, h⟩ := Effect.perform_bind_eq_ok_iff.mp h
    obtain ⟨he, rfl⟩ := Effect.perform_ofExcept_eq_ok_iff.mp hendpoint
    obtain ⟨_, _, hwrite, h⟩ := Effect.perform_bind_eq_ok_iff.mp h
    obtain ⟨-, rfl⟩ := Effect.perform_pure_eq_ok_iff.mp h
    rw [eq_of_perform_writeFile hp (isFileName_moduleFile e) hwrite]
    exact ⟨e, he, .inl ⟨text, hdraft, by rw [hfiles], hprinted⟩⟩
  | error f =>
    cases f with
    | breach b => nomatch h
    | problem problem =>
      obtain ⟨e, _, hendpoint, h⟩ := Effect.perform_bind_eq_ok_iff.mp h
      obtain ⟨he, rfl⟩ := Effect.perform_ofExcept_eq_ok_iff.mp hendpoint
      obtain rfl : { u with
          notices := u.notices ++ [⟨.error, _⟩]
          printed := u.printed ++ [problemLine e problem] } = st' := congrArg Prod.snd h
      exact ⟨e, he, .inr ⟨problem, hdraft, hfiles, by rw [hprinted]⟩⟩

/-- **Writing the module of a service** is a step of that service. -/
theorem written_of_perform_writeModule {taken : List String} {r : Nat × List String}
    (hp : p.IsTidy) (h : (writeModule p taken s).perform st = (.ok r, st')) :
    Written (Place.ofPath p) [s] st st' := by
  obtain ⟨e, he, ⟨text, htext, hfiles, hprinted⟩ | ⟨problem, hproblem, hfiles, hprinted⟩⟩ :=
    of_perform_writeModule hp h
  · exact .of_text he htext hfiles hprinted
  · exact .of_problem he hproblem hfiles hprinted

/-- Writing modules one after the other takes the first step, and then the
others. -/
theorem perform_writeModules_cons_eq_ok_iff {taken : List String} {n : Nat} :
    (writeModules p taken (s :: schemas)).perform st = (.ok n, st') ↔
      ∃ r u m, (writeModule p taken s).perform st = (.ok r, u)
        ∧ (writeModules p r.2 schemas).perform u = (.ok m, st') ∧ n = r.1 + m := by
  simp only [writeModules, Effect.perform_bind_eq_ok_iff, Effect.perform_pure_eq_ok_iff]
  constructor
  · rintro ⟨r, u, hr, m, _, hm, rfl, rfl⟩
    exact ⟨r, u, m, hr, hm, rfl⟩
  · rintro ⟨r, u, m, hr, hm, rfl⟩
    exact ⟨r, u, hr, m, st', hm, rfl, rfl⟩

/-- **Writing the modules of several services** is a step of all of them. -/
theorem written_of_perform_writeModules {taken : List String} {n : Nat} (hp : p.IsTidy)
    (h : (writeModules p taken schemas).perform st = (.ok n, st')) :
    Written (Place.ofPath p) schemas st st' := by
  induction schemas generalizing st taken n with
  | nil =>
    obtain ⟨-, rfl⟩ := Effect.perform_pure_eq_ok_iff.mp h
    exact .of_files_eq (fun _ => rfl) List.prefix_rfl
  | cons s schemas ih =>
    obtain ⟨r, u, m, hs, hrest, -⟩ := perform_writeModules_cons_eq_ok_iff.mp h
    exact (written_of_perform_writeModule hp hs).trans (ih hrest)

/-! ## Packages -/

/-- The file that makes a package has a name for a file. -/
theorem isFileName_init : IsFileName "__init__.py" := ⟨by decide, by decide, by decide, by decide⟩

/-- So has the snapshot. -/
theorem isFileName_snapshotFile : IsFileName snapshotFile :=
  ⟨by decide, by decide, by decide, by decide⟩

/-- **The files of a package beside its modules**: one that makes a package of
them, and the snapshot, if it is wanted. -/
def putFrame (config : GeneratorConfig) (document : Json) (fs : Files) : Files :=
  let d := Place.ofPath config.output
  let fs := fs.put (d.child "__init__.py") (Code.warning ++ "\n")
  if config.snapshot then fs.put (d.child snapshotFile) (document.writeIndented ++ "\n") else fs

/-- They leave the files of modules alone. -/
theorem text?_putFrame (config : GeneratorConfig) (document : Json) (fs : Files) (e : String) :
    (putFrame config document fs).text? ((Place.ofPath config.output).child (moduleFile e))
      = fs.text? ((Place.ofPath config.output).child (moduleFile e)) := by
  have hinit : "__init__.py" ≠ moduleFile e := (moduleFile_ne_init e).symm
  have hsnapshot : snapshotFile ≠ moduleFile e := (moduleFile_ne_snapshotFile e).symm
  rw [putFrame]
  split
  · rw [Files.text?_put, if_neg (mt Files.child_inj.mp hsnapshot), Files.text?_put,
      if_neg (mt Files.child_inj.mp hinit)]
  · rw [Files.text?_put, if_neg (mt Files.child_inj.mp hinit)]

/-- A directory is made, and nothing else is changed. -/
theorem of_perform_makeDirectory (h : (makeDirectory p).perform st = (.ok (), st')) :
    ∃ fs, st.files.makeDirs p = .ok fs ∧ { st with files := fs } = st' := by
  rw [makeDirectory, Effect.perform_bind, Effect.perform_get] at h
  dsimp only at h
  cases hmade : st.files.makeDirs p with
  | error b =>
    rw [hmade] at h
    nomatch h
  | ok files =>
    rw [hmade] at h
    exact ⟨files, rfl, (Prod.ext_iff.mp h).2⟩

/-- **What writing a package does**: it makes the directory, writes the modules,
and then the files beside them. -/
theorem of_perform_write (h : (write config schemas).perform st = (.ok (), st')) :
    ∃ fs n u document, st.files.makeDirs config.output = .ok fs
      ∧ (writeModules config.output [] (schemas.filter hasModule)).perform { st with files := fs }
        = (.ok n, u)
      ∧ (config.snapshot = true → snapshot schemas = .ok document)
      ∧ st'.files = putFrame config document u.files ∧ st'.printed = u.printed := by
  have hp : config.output.IsTidy := Path.isTidy_ofText config.outputDir
  rw [write] at h
  obtain ⟨_, st₁, hmake, hrest⟩ := Effect.perform_bind_eq_ok_iff.mp h
  obtain ⟨n, u, hmodules, hrest⟩ := Effect.perform_bind_eq_ok_iff.mp hrest
  obtain ⟨_, st₂, hinit, hframe⟩ := Effect.perform_bind_eq_ok_iff.mp hrest
  obtain ⟨fs, hfs, rfl⟩ := of_perform_makeDirectory hmake
  have hinit := eq_of_perform_writeFile hp isFileName_init hinit
  refine ⟨fs, n, u, ?_⟩
  dsimp only at hframe
  split at hframe
  · next hsnapshot =>
    obtain ⟨document, _, hcompute, hframe⟩ := Effect.perform_bind_eq_ok_iff.mp hframe
    obtain ⟨hdocument, rfl⟩ := Effect.perform_ofExcept_eq_ok_iff.mp hcompute
    obtain ⟨_, st₃, hfile, hsay⟩ := Effect.perform_bind_eq_ok_iff.mp hframe
    have hfile := eq_of_perform_writeFile hp isFileName_snapshotFile hfile
    obtain rfl : { st₃ with notices := st₃.notices ++ [⟨.info, _⟩] } = st' := congrArg Prod.snd hsay
    exact ⟨document, hfs, hmodules, fun _ => hdocument, by
      rw [putFrame, if_pos hsnapshot, hfile, hinit], by rw [hfile, hinit]⟩
  · next hsnapshot =>
    obtain rfl : { st₂ with notices := st₂.notices ++ [⟨.info, _⟩] } = st' :=
      congrArg Prod.snd hframe
    exact ⟨.null, hfs, hmodules, fun hwanted => absurd hwanted hsnapshot, by
      rw [putFrame, if_neg hsnapshot, hinit], by rw [hinit]⟩

/-- **Writing a package** writes the modules of the services that have one, and
nothing else to their files. -/
theorem written_of_perform_write (h : (write config schemas).perform st = (.ok (), st')) :
    Written (Place.ofPath config.output) (schemas.filter hasModule) st st' := by
  obtain ⟨fs, n, u, document, hmade, hmodules, -, hfiles, hprinted⟩ := of_perform_write h
  have hdirectory : Written (Place.ofPath config.output) [] st { st with files := fs } :=
    .of_files_eq (fun e => by rw [Files.text?, Files.text?, Files.texts_of_makeDirs hmade])
      List.prefix_rfl
  have hframe : Written (Place.ofPath config.output) [] u st' :=
    .of_files_eq (fun e => by rw [hfiles, text?_putFrame]) (hprinted ▸ List.prefix_rfl)
  have hwritten := (hdirectory.trans (written_of_perform_writeModules
    (Path.isTidy_ofText config.outputDir) hmodules)).trans hframe
  simpa using hwritten

/-- **A run that writes** surveys the catalog, then writes the package, and then
only prints. -/
theorem steps_of_perform_generate {v : Survey} {c : Catalog}
    (h : (generate v c true).perform st = (.ok schemas, st')) :
    ∃ u u', (v.catalog c).perform st = (.ok schemas, u)
      ∧ (write v.config schemas).perform u = (.ok (), u') ∧ u'.Prints st' := by
  rw [generate] at h
  obtain ⟨_, u, hsurvey, h⟩ := Effect.perform_bind_eq_ok_iff.mp h
  rw [if_pos rfl] at h
  obtain ⟨_, u', hwrite, h⟩ := Effect.perform_bind_eq_ok_iff.mp h
  obtain ⟨_, _, hsummary, h⟩ := Effect.perform_bind_eq_ok_iff.mp h
  obtain ⟨rfl, rfl⟩ := Effect.perform_pure_eq_ok_iff.mp h
  exact ⟨u, u', hsurvey, hwrite, (onlyPrints_printSummary fun s hs =>
    (Survey.skipped_of_catalog hsurvey hs).imp fun _ h => h.1).prints hsummary⟩

/-- So the modules are written to their files. -/
theorem of_perform_generate {v : Survey} {c : Catalog}
    (h : (generate v c true).perform st = (.ok schemas, st')) :
    ∃ u, (v.catalog c).perform st = (.ok schemas, u)
      ∧ Written (Place.ofPath v.config.output) (schemas.filter hasModule) u st' := by
  obtain ⟨u, u', hsurvey, hwrite, hprints⟩ := steps_of_perform_generate h
  have hwritten := (written_of_perform_write hwrite).trans (.of_prints hprints)
  exact ⟨u, hsurvey, by simpa using hwritten⟩

/-- **What becomes of a module.** After a package is written, the file of each
module that can be drafted holds the text of the last module that was written
to it: the module of the service itself, if no later service has a module in a
file of that name. -/
theorem module_of_write (h : (write config schemas).perform st = (.ok (), st'))
    (hschemas : schemas = before ++ s :: after) (hmodule : hasModule s = true)
    (htext : (drafted s).outcome = .ok text) :
    ∃ e, s.endpoint = .ok e
      ∧ st'.files.text? ((Place.ofPath config.output).child (moduleFile e))
        = some ((lastText (moduleFile e) (after.filter hasModule)).getD text)
      ∧ ((∀ t ∈ after, hasModule t = true → ∀ e', t.endpoint = .ok e' →
          moduleFile e' ≠ moduleFile e) →
        st'.files.text? ((Place.ofPath config.output).child (moduleFile e)) = some text) := by
  have hwritten := written_of_perform_write h
  rw [hschemas, List.filter_append, List.filter_cons_of_pos hmodule] at hwritten
  obtain ⟨e, he, -⟩ := hwritten.settled s (List.mem_append_right _ List.mem_cons_self)
  have hfile : st'.files.text? ((Place.ofPath config.output).child (moduleFile e))
      = some ((lastText (moduleFile e) (after.filter hasModule)).getD text) := by
    have hself : lastText (moduleFile e) [s] = some text := by
      rw [lastText_singleton he htext, if_pos rfl]
    rw [hwritten.files, lastText_append, ← List.singleton_append, lastText_append, hself]
    cases lastText (moduleFile e) (after.filter hasModule) <;> rfl
  refine ⟨e, he, hfile, fun hother => ?_⟩
  rw [hfile, lastText_eq_none fun t ht => ?_, Option.getD_none]
  obtain ⟨ht, hhas⟩ := List.mem_filter.mp ht
  exact hother t ht (by simpa using hhas)

/-- Of two services the first one keeps its module. -/
theorem module_of_write_issues :
    let config : GeneratorConfig := { snapshot := false }
    let issues : ServiceSchema := { service := { path := .str "api/issues" } }
    let system : ServiceSchema := { service := { path := .str "api/system" } }
    let text := Code.moduleText issues.service []
    let after := ((write config [issues, system]).perform {}).2
    ((write config [issues, system]).perform {} = (.ok (), after)
      ∧ hasModule issues = true ∧ (drafted issues).outcome = .ok text)
    ∧ ∃ e, issues.endpoint = .ok e
      ∧ after.files.text? ((Place.ofPath config.output).child (moduleFile e))
        = some ((lastText (moduleFile e) ([system].filter hasModule)).getD text)
      ∧ ((∀ t ∈ [system], hasModule t = true → ∀ e', t.endpoint = .ok e' →
          moduleFile e' ≠ moduleFile e) →
        after.files.text? ((Place.ofPath config.output).child (moduleFile e)) = some text) := by
  intro config issues system text after
  have hwrite : (write config [issues, system]).perform {} = (.ok (), after) :=
    Prod.ext (by decide +kernel) rfl
  have hschemas : [issues, system] = [] ++ issues :: [system] := rfl
  have htext : (drafted issues).outcome = .ok text := by decide +kernel
  exact ⟨⟨hwrite, rfl, htext⟩, module_of_write hwrite hschemas rfl htext⟩

/-- **A module that is lost**: a hyphen and an underscore are alike in the name
of a file, so the module of the second service takes the place of the first. -/
theorem module_of_write_tokens :
    let config : GeneratorConfig := { snapshot := false }
    let first : ServiceSchema := { service := { path := .str "api/user_tokens" } }
    let second : ServiceSchema := { service := { path := .str "api/user-tokens" } }
    let text := Code.moduleText first.service []
    let other := Code.moduleText second.service []
    let ended := (write config [first, second]).perform {}
    ended.1 = .ok ()
    ∧ hasModule first = true ∧ (drafted first).outcome = .ok text
    ∧ hasModule second = true ∧ (drafted second).outcome = .ok other
    ∧ first.endpoint.map moduleFile = .ok "user_tokens.py"
    ∧ second.endpoint.map moduleFile = .ok "user_tokens.py"
    ∧ ended.2.files.text? ((Place.ofPath config.output).child "user_tokens.py") = some other
    ∧ other ≠ text := by
  decide +kernel

end Exemplar.Package
