import Exemplar.Cli.Invocation
import Exemplar.Package

/-!
# The command line

The three commands as sessions. Each loads the override rules if it needs
them, asks the server for its catalog, and does its work; a problem with
either is told in one line and ends the command, while a breach ends it
with nothing said. Generating a package counts as failed if anything went
wrong for any service.
-/

namespace Exemplar.Cli

/-- **How a command ends.** -/
inductive Exit where
  | done
  | failed
  /-- The command line does not fit. -/
  | misused
  deriving DecidableEq, Repr

/-- The exit status. -/
def Exit.status : Exit → Nat
  | done => 0
  | failed => 1
  | misused => 2

/-- What is printed for the version. -/
def versionLine : String := "cli, version 0.1.0"

/-- What is printed before a package is generated. -/
def banner : List String := [
  "".pushn '=' 44,
  "║   clientgen                            ║",
  "║   Typed clients from API examples      ║",
  "".pushn '=' 44,
  ""]

/-! ## What the commands share -/

/-- The first of two texts that is there and not empty. -/
def firstOf (a b : Option String) : Option String :=
  (a.filter (· ≠ "")).or (b.filter (· ≠ ""))

/-- **Loads the override rules**, the built-in ones first. -/
def loadRules (config : Config) (overrides : Option String) : Session OverrideRegistry := do
  let files := (← get).files
  let file := (firstOf overrides config.generator.overridesFile).map fun name =>
    let p := Path.ofText name
    OverrideRegistry.ofFile p ((files.read p).map fun s => s.toUTF8.toList.map (·.toNat))
  Session.ofRun (OverrideRegistry.load file true)

/-- **The fetcher of a command.** -/
def openFetcher (config : Config) (host auth : Option String) : Session Fetcher :=
  Fetcher.open_ ((firstOf host none).getD config.server.host)
    ((firstOf auth (some config.server.auth)).elim .null .str) (.int config.server.timeout)
    (config.generator.cacheDir.map fun name =>
      ⟨Path.ofText name, .int config.generator.cacheLifetime⟩)

/-- Goes on with what a session gives. A problem is printed instead and
ends the command. -/
def orTell {α : Type} (x : Session α) (next : α → Session Exit) : Session Exit := do
  match ← Effect.try_ x with
  | .ok a => next a
  | .error (.problem p) =>
    Session.print ("Error: " ++ p.message)
    pure .failed
  | .error (.breach b) => Effect.breach b

/-! ## Commands -/

/-- The configuration of a run, as the command line changes it. -/
def adjust (c : GeneratorConfig) (output : Option String) (workers : Option Int)
    (snapshot : Option Bool) : GeneratorConfig :=
  { c with
    outputDir := (firstOf output none).getD c.outputDir
    workers := (workers.filter (· ≠ 0)).getD c.workers
    snapshot := snapshot.getD c.snapshot }

/-- **Generates the package.** -/
def generate (server : Server) (config : Config) (host auth overrides : Option String)
    (internals : Bool) (generator : GeneratorConfig) : Session Exit := do
  for line in banner do Session.print line
  let connect : Session (OverrideRegistry × Fetcher × Catalog) := do
    let registry ← loadRules config overrides
    let fetcher ← openFetcher config host auth
    Session.print s!"Connecting to {fetcher.host}..."
    let catalog ← Fetcher.fetchCatalog server fetcher (internals || config.server.internals)
    pure (registry, fetcher, catalog)
  orTell connect fun (registry, fetcher, catalog) => do
    Session.print s!"Found {catalog.services.length} web services"
    let survey : Survey := { server, fetcher, registry, config := generator }
    let schemas ← Package.generate survey catalog true
    if schemas.all ServiceSchema.isOk then
      Session.print s!"✅ Generated into {generator.outputDir}"
      pure .done
    else pure .failed

/-- **Shows the schemas of one action** as a document. -/
def inspect (server : Server) (config : Config) (endpoint action : String)
    (host auth overrides : Option String) : Session Exit := do
  let connect : Session (OverrideRegistry × Fetcher × Catalog) := do
    let registry ← loadRules config overrides
    let fetcher ← openFetcher config host auth
    let catalog ← Fetcher.fetchCatalog server fetcher true
    pure (registry, fetcher, catalog)
  orTell connect fun (registry, fetcher, catalog) => do
    let found ← Effect.ofExcept (catalog.find? (.str endpoint))
    match found, found.bind (·.action? (.str action)) with
    | some s, some a =>
      let survey : Survey := { server, fetcher, registry, config := config.generator }
      let schema ← survey.action (← Effect.ofExcept s.endpoint) a
      match schema.problem with
      | some p =>
        Session.print ("Error: " ++ p.message)
        pure .failed
      | none =>
        Session.print (← Effect.ofExcept schema.toJson).writeIndented
        pure .done
    | _, _ =>
      Session.print s!"Unknown action {endpoint}/{action}"
      pure .failed

/-- The key of an action as a column; only a text can be one. -/
def keyColumn : Json → Except Fault String
  | .str s => .ok (Text.padRight 30 s)
  | .int n => .error (.breach (notText (.int n)))
  | .float x => .error (.breach (notText (.float x)))
  | .bool b => .error (.breach (notText (.bool b)))
  | v => .error (.breach (.wrongType
      s!"unsupported format string passed to {v.typeWord}.__format__"))
where
  /-- A number has no such column. -/
  notText (v : Json) : Breach :=
    ⟨.badValue, s!"Unknown format code 's' for object of type '{v.typeWord}'"⟩

/-- The line for an action: its key, and what is to know about it. -/
def actionLine (a : Action) : Except Fault String := do
  let paged ← a.isPaged
  let column ← keyColumn a.key
  let marks := (if a.post.truthy then ["POST"] else [])
    ++ (if a.hasExample.truthy then ["example"] else []) ++ (if paged then ["paged"] else [])
  return "  " ++ column ++ " " ++ ", ".intercalate marks

/-- **Lists the services** and their actions. -/
def listServices (server : Server) (config : Config) (host auth : Option String)
    (internals : Bool) : Session Exit :=
  let connect : Session Catalog := do
    let fetcher ← openFetcher config host auth
    Fetcher.fetchCatalog server fetcher internals
  orTell connect fun catalog => do
    for s in catalog.services do
      let endpoint ← Effect.ofExcept s.endpoint
      let mark := if config.generator.skipsEndpoint endpoint then " (skipped)" else ""
      Session.print ("📍 " ++ s.path.display ++ mark)
      for a in s.actions.getD [] do
        Session.print (← Effect.ofExcept (actionLine a))
    pure .done

/-! ## What a command may read -/

/-- The names on a command line that may be those of files. -/
def argumentNames (args : List String) : List String :=
  args ++ args.filterMap fun a => (splitValue a).2

/-- The names in a configuration that may be those of files. -/
def configuredNames (c : GeneratorConfig) : List String :=
  c.outputDir :: c.overridesFile.toList ++ c.cacheDir.toList

/-- The cache files of a server, for a host that the command line or the
configuration names. -/
def cacheFiles (server : Server) (config : Config) (args : List String) : List Path :=
  let hosts := config.server.host :: argumentNames args
  match ((server (.catalog true)).document "").toOption.bind fun v => (Catalog.parse v).toOption,
    config.generator.cacheDir with
  | some catalog, some name =>
    let cache : Cache := ⟨Path.ofText name, .int config.generator.cacheLifetime⟩
    catalog.services.flatMap fun s =>
      (s.actions.getD []).flatMap fun a =>
        hosts.filterMap fun host =>
          s.endpoint.toOption.map fun endpoint =>
            cache.file (Fetcher.normalHost host) (Fetcher.controller (.str endpoint)) a.key
  | _, _ => []

/-! ## Running -/

/-- **Runs a command line** against a server. -/
def run (server : Server) (config : Config) (args : List String) : Session Exit := do
  match Invocation.ofArguments (← get).files args with
  | .error .misuse => pure .misused
  | .error (.breach b) => Effect.breach b
  | .ok .help => pure .done
  | .ok .version =>
    Session.print versionLine
    pure .done
  | .ok (.generate host auth output overrides internals workers snapshot) =>
    generate server config host auth overrides internals
      (adjust config.generator output workers snapshot)
  | .ok (.inspect endpoint action host auth overrides) =>
    inspect server config endpoint action host auth overrides
  | .ok (.listServices host auth internals) => listServices server config host auth internals

end Exemplar.Cli
