import Exemplar.Catalog
import Exemplar.Files
import Exemplar.Number.Numeral

/-!
# Configuration

How a run is set up: where the server is and who asks, where the
generated package goes, which override rules and which cache to use, and
what is left out. All of it has defaults, and the environment may set
each of them. A flag is set by one of four words in any case; a list is
separated by commas, blanks around its items not counted; a number that
is none is a breach.
-/

namespace Exemplar

/-- **The environment**: the values of its variables by their names. -/
abbrev Environment := List (String × String)

namespace Environment

/-- The value of a variable, or another one if it is not set. -/
def textOr (env : Environment) (name default : String) : String :=
  (env.lookup name).getD default

/-- The value of a variable that is set and not empty. -/
def nonEmpty? (env : Environment) (name : String) : Option String :=
  (env.lookup name).filter (· ≠ "")

/-- The words that set a flag. -/
def flagWords : List String := ["1", "true", "yes", "on"]

/-- The value of a flag. -/
def flag (env : Environment) (name : String) (default : Bool) : Bool :=
  match env.lookup name with
  | none => default
  | some v => decide (Text.lower (String.ofList (Text.strip v.toList)) ∈ flagWords)

/-- The items of a list separated by commas. -/
def itemsOf (s : String) : List String :=
  ((s.splitOn ",").map fun item => String.ofList (Text.strip item.toList)).filter (· ≠ "")

/-- The value of a list; an empty value is the same as none. -/
def list (env : Environment) (name : String) (default : List String) : List String :=
  match env.nonEmpty? name with
  | none => default
  | some v => itemsOf v

/-- The value of a number. -/
def integer (env : Environment) (name default : String) : Except Fault Int :=
  match Number.parseInt (env.textOr name default) with
  | .ok n => .ok n
  | .error e => .error (.breach ⟨.badValue, e.message⟩)

end Environment

/-- **How the server is reached.** -/
structure ServerConfig where
  host : String := "http://localhost:9000"
  auth : String := ""
  timeout : Int := 10
  internals : Bool := false
  deriving DecidableEq, Repr

/-- **What is generated, and from what.** -/
structure GeneratorConfig where
  outputDir : String := "./generated"
  overridesFile : Option String := none
  cacheDir : Option String := none
  cacheLifetime : Int := 3600
  workers : Int := 8
  /-- The schemas are written beside the modules. -/
  snapshot : Bool := true
  /-- Endpoints that are left out: one has numbers for keys, two are
  deprecated, and one has the name of the record for positions. -/
  skippedEndpoints : List String := ["duplications", "properties", "favourites", "paging"]
  /-- Actions that are left out, each with its endpoint in front. -/
  skippedActions : List String := ["sources/index"]
  deriving DecidableEq, Repr

namespace GeneratorConfig

/-- The directory of the generated package. -/
def output (c : GeneratorConfig) : Path := Path.ofText c.outputDir

/-- An endpoint is left out. -/
def skipsEndpoint (c : GeneratorConfig) (endpoint : String) : Bool :=
  endpoint ∈ c.skippedEndpoints

/-- An action is left out. -/
def skipsAction (c : GeneratorConfig) (endpoint : String) (action : Json) : Bool :=
  (endpoint ++ "/" ++ action.display) ∈ c.skippedActions

end GeneratorConfig

/-- **The configuration of a run.** -/
structure Config where
  server : ServerConfig := {}
  generator : GeneratorConfig := {}
  deriving DecidableEq, Repr

/-- The variables that set up a run. -/
def Environment.names : List String := [
  "SONAR_HOST", "SONAR_AUTH", "SONAR_TIMEOUT", "SONAR_INCLUDE_INTERNALS",
  "CLIENTGEN_OUTPUT_DIR", "CLIENTGEN_OVERRIDES", "CLIENTGEN_CACHE_DIR", "CLIENTGEN_CACHE_TTL",
  "CLIENTGEN_WORKERS", "CLIENTGEN_SNAPSHOT", "CLIENTGEN_SKIPPED_ENDPOINTS",
  "CLIENTGEN_SKIPPED_ACTIONS"]

/-- How the server is reached, from the environment. -/
def ServerConfig.ofEnvironment (env : Environment) : Except Fault ServerConfig := do
  let standard : ServerConfig := {}
  let timeout ← env.integer "SONAR_TIMEOUT" "10"
  return {
    host := env.textOr "SONAR_HOST" standard.host
    auth := env.textOr "SONAR_AUTH" standard.auth
    timeout
    internals := env.flag "SONAR_INCLUDE_INTERNALS" standard.internals }

/-- What is generated, from the environment. -/
def GeneratorConfig.ofEnvironment (env : Environment) : Except Fault GeneratorConfig := do
  let standard : GeneratorConfig := {}
  let cacheLifetime ← env.integer "CLIENTGEN_CACHE_TTL" "3600"
  let workers ← env.integer "CLIENTGEN_WORKERS" "8"
  return {
    outputDir := env.textOr "CLIENTGEN_OUTPUT_DIR" standard.outputDir
    overridesFile := env.nonEmpty? "CLIENTGEN_OVERRIDES"
    cacheDir := env.nonEmpty? "CLIENTGEN_CACHE_DIR"
    cacheLifetime, workers
    snapshot := env.flag "CLIENTGEN_SNAPSHOT" standard.snapshot
    skippedEndpoints := env.list "CLIENTGEN_SKIPPED_ENDPOINTS" standard.skippedEndpoints
    skippedActions := env.list "CLIENTGEN_SKIPPED_ACTIONS" standard.skippedActions }

/-- **The configuration from the environment.** -/
def Config.ofEnvironment (env : Environment) : Except Fault Config := do
  let server ← ServerConfig.ofEnvironment env
  let generator ← GeneratorConfig.ofEnvironment env
  return { server, generator }

end Exemplar
