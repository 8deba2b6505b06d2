import Exemplar.Code.Module
import Exemplar.Json.Writer
import Exemplar.Survey
import Exemplar.Text.Shown

/-!
# The generated package

From the schemas of all services comes a directory with one module for
each service, a file that makes a package of them, and, if it is wanted,
a snapshot of the schemas for comparing one run with the next. A service
whose module cannot be generated is told and left out. A summary ends a
run: what became of each service, and the totals.
-/

namespace Exemplar.Package

/-! ## Files -/

/-- Writes a file; trouble with it is a breach. -/
def writeFile (p : Path) (text : String) : Session Unit := do
  match (← get).files.write p text with
  | .ok files => modify fun s => { s with files }
  | .error t => Effect.breach (t.breach p)

/-- Makes a directory, unless it is there. -/
def makeDirectory (p : Path) : Session Unit := do
  match (← get).files.makeDirs p with
  | .ok files => modify fun s => { s with files }
  | .error b => Effect.breach b

/-- The name of the file of a module. -/
def moduleFile (endpoint : String) : String := Code.moduleName endpoint ++ ".py"

/-- **Writes the module of a service**, drafted with the given names taken.
If it cannot be generated, that is told, and no file is written. Gives the
number of files, and the names that are taken then. -/
def writeModule (output : Path) (taken : List String) (s : ServiceSchema) :
    Session (Nat × List String) := do
  let (drafted, taken) := (Code.serviceModule s).finish taken
  match ← Effect.try_ (Session.ofRun drafted) with
  | .ok text =>
    let endpoint ← Effect.ofExcept s.endpoint
    writeFile (output.below (moduleFile endpoint)) text
    pure (1, taken)
  | .error (.problem p) =>
    let endpoint ← Effect.ofExcept s.endpoint
    let message := (p.attributeTo (.str endpoint) .null).message
    Session.say .error s!"Could not render module for {endpoint}: {message}"
    Session.print s!"   ❌ {message}"
    pure (0, taken)
  | .error (.breach b) => Effect.breach b

/-- **Writes the modules of several services**, in order. Each is drafted
with the names taken that the one before it has left, whether or not that
could be generated. Gives the number of files. -/
def writeModules (output : Path) : (taken : List String) → List ServiceSchema → Session Nat
  | _, [] => pure 0
  | taken, s :: rest => do
    let (written, taken) ← writeModule output taken s
    return written + (← writeModules output taken rest)

/-- A service that a module is written for: neither left out nor failed
as a whole. -/
def hasModule (s : ServiceSchema) : Bool := !s.skipped && s.problem.isNone

/-! ## The snapshot -/

/-- The name of the file of the snapshot. -/
def snapshotFile : String := "schemas.json"

/-- The schemas in ascending order of their endpoints; services with one
endpoint stay in their order. -/
def byEndpoint (schemas : List ServiceSchema) : Except Fault (List ServiceSchema) := do
  let keyed ← schemas.mapM fun s => do return (← s.endpoint, s)
  return (keyed.mergeSort fun a b => decide (a.1 ≤ b.1)).map Prod.snd

/-- **The snapshot**: the schemas of all services that are not left out,
as a document. -/
def snapshot (schemas : List ServiceSchema) : Except Fault Json := do
  let sorted ← byEndpoint schemas
  let services ← (sorted.filter (!·.skipped)).mapM ServiceSchema.toJson
  return .obj [("services", .arr services)]

/-! ## The package -/

/-- **Writes the package.** -/
def write (config : GeneratorConfig) (schemas : List ServiceSchema) : Session Unit := do
  let output := config.output
  makeDirectory output
  let written ← writeModules output [] (schemas.filter hasModule)
  writeFile (output.below "__init__.py") (Code.warning ++ "\n")
  if config.snapshot then
    let document ← Effect.ofExcept (snapshot schemas)
    writeFile (output.below snapshotFile) (document.writeIndented ++ "\n")
  let shown := output.text
  Session.say .info s!"Wrote {written} modules to {shown}"

/-! ## The summary -/

/-- The total of some counts. -/
def total (counts : List Nat) : Nat := counts.foldr (· + ·) 0

/-- How many actions went well. -/
def generated (s : ServiceSchema) : Nat := (s.actions.filter ActionSchema.isOk).length

/-- The lines on a service, its endpoint given. -/
def serviceLines (endpoint : String) (s : ServiceSchema) : List String :=
  let shown := Text.padRight 30 endpoint
  if s.skipped then [s!"⏭  {shown} → skipped"]
  else
    let icon := if s.isOk then "✅" else "❌"
    let done := Text.padLeft 4 (generated s)
    let failed := Text.padLeft 4 s.problems.length
    s!"{icon} {shown} → {done} actions, {failed} errors"
      :: s.problems.map fun p => "      " ++ p.message

/-- The line that separates the parts of a summary. -/
def rule : String := "".pushn '=' 70

/-- **Prints the summary** of a run. -/
def printSummary (schemas : List ServiceSchema) : Session Unit := do
  Session.print ("\n" ++ rule)
  Session.print "📈 GENERATION SUMMARY"
  Session.print (rule ++ "\n")
  for s in schemas do
    let endpoint ← Effect.ofExcept s.endpoint
    for line in serviceLines endpoint s do Session.print line
  let counted := schemas.filter (!·.skipped)
  let done := total (counted.map generated)
  let failed := total (counted.map fun s => s.problems.length)
  Session.print s!"\nTOTAL: {done} actions generated, {failed} errors\n"

/-- **A whole run**: surveys a catalog, writes the package if that is
wanted, and prints the summary. -/
def generate (v : Survey) (c : Catalog) (wanted : Bool) : Session (List ServiceSchema) := do
  let schemas ← v.catalog c
  if wanted then write v.config schemas
  printSummary schemas
  pure schemas

end Exemplar.Package
