import Exemplar.Catalog
import Exemplar.Digest
import Exemplar.Example
import Exemplar.Json.Key
import Exemplar.Json.Writer
import Exemplar.Session

/-!
# Fetching the catalog and the examples

A fetcher knows a server by its address. It asks for the catalog and, one
by one, for the documents of the examples. With a cache directory, the
document of an example is written to a file of its own, named by server,
service and action, and served from there as long as the file is fresh.
What is stored is the document as it came, before it is decoded, so a
stored document goes through the same checks as a new one.
-/

namespace Exemplar

/-- **A cache directory**, and how many seconds a file in it stays
fresh. -/
structure Cache where
  directory : Path
  /-- A number; it need not be a whole one. -/
  lifetime : Json := .int 3600
  deriving DecidableEq

/-- **A fetcher** for one server. -/
structure Fetcher where
  /-- The address of the server, without slashes at the end. -/
  host : String
  /-- Who asks, `null` if that is not told. -/
  auth : Json := .null
  /-- How many seconds to wait for a reply. -/
  timeout : Json := .int 10
  cache : Option Cache := none
  deriving DecidableEq

/-! ## Cache files -/

namespace Cache

/-- The name of the file for an example. -/
def fileName (host controller : String) (action : Json) : String :=
  let digest := String.ofList ((Digest.ofText host).toList.take 8)
  let safe := String.ofList (controller.toList.map fun c => if c = '/' then '_' else c)
  let key := action.display
  s!"example_{digest}_{safe}_{key}.json"

/-- **The file for an example.** -/
def file (c : Cache) (host controller : String) (action : Json) : Path :=
  c.directory.below (fileName host controller action)

/-- **A file that was written before now is too old**: the lifetime is not
above zero. The undefined number sets no limit, and what is no number
cannot be one. -/
def isExpired (c : Cache) : Except Fault Bool :=
  match c.lifetime.size? with
  | some .undefined => .ok false
  | some size => .ok (!(Json.Size.finite 0 1).less size)
  | none => .error (.breach (.wrongType
      s!"'>' not supported between instances of 'float' and '{c.lifetime.typeWord}'"))

/-- What is found in a cache file that is there. -/
def read (p : Path) (fs : Files) : Session (Option Json) :=
  let failed (reason : String) : Session (Option Json) := do
    let shown := p.text
    Session.say .warning s!"Error loading cache file {shown}: {reason}"
    pure none
  match fs.read p with
  | .error t => failed (t.message p)
  | .ok s =>
    match Json.decode s with
    | .ok .null => pure none
    | .ok v => pure (some v)
    | .error e =>
      match e with
      | .malformed _ _ _ _ => failed e.message
      | .tooLong _ => Effect.breach ⟨.badValue, e.message⟩
      | .tooDeep _ => Effect.breach ⟨.tooDeep, e.message⟩

/-- **Loads a document** from its file, if the file is there, fresh and
readable. -/
def load (c : Cache) (p : Path) : Session (Option Json) := do
  let fs := (← get).files
  match fs.leadsToDir p.text with
  | .error .nameTooLong => Effect.breach (FileTrouble.nameTooLong.breach p)
  | .error _ => pure none
  | .ok _ =>
    if ← Effect.ofExcept c.isExpired then
      let shown := p.text
      Session.say .debug s!"Cache file expired: {shown}"
      pure none
    else read p fs

/-- **Stores a document** in its file. A file that cannot be written is
worth a warning and nothing more. -/
def store (p : Path) (document : Json) : Session Unit := do
  let fs := (← get).files
  let shown := p.text
  match fs.write p document.writeIndented with
  | .ok fs =>
    modify fun s => { s with files := fs }
    Session.say .debug s!"Saved example to cache file: {shown}"
  | .error .nul => Effect.breach (FileTrouble.nul.breach p)
  | .error t =>
    let reason := t.message p
    Session.say .warning s!"Error saving cache file: {reason}"

end Cache

namespace Fetcher

/-- An address without the slashes at its end. -/
def normalHost (address : String) : String :=
  String.ofList (Text.dropEndWhile (· == '/') address.toList)

/-- **A fetcher for an address.** Who asks is not told if there is nothing
to tell, and the directory of the cache is made. -/
def open_ (address : String) (auth timeout : Json) (cache : Option Cache) :
    Session Fetcher := do
  let host := normalHost address
  match cache with
  | none => pure ()
  | some c =>
    match (← get).files.makeDirs c.directory with
    | .ok fs => modify fun s => { s with files := fs }
    | .error b => Effect.breach b
  pure { host, auth := if auth.truthy then auth else .null, timeout, cache }

/-- The request for a query. -/
def request (f : Fetcher) (q : Query) : Request where
  host := f.host
  query := q
  timeout := f.timeout
  authorization := f.auth

/-! ## The catalog -/

/-- **Fetches the catalog.** -/
def fetchCatalog (server : Server) (f : Fetcher) (internals : Bool) : Session Catalog := do
  let request := f.request (.catalog internals)
  let url := request.url
  Session.say .debug s!"Fetching web services from {url}"
  let reply ← Session.send server request
  if reply.isUnauthorized then Effect.raise (.fetch (.unauthorized url))
  match reply.document url with
  | .ok v => Session.ofRun (Catalog.ofJson v)
  | .error (.unreachable reason) => Effect.raise (.fetch (.catalogUnreachable url reason))
  | .error (.unreadable reason) => Effect.raise (.fetch (.catalogUnreadable url reason))
  | .error (.tooDeep reason) => Effect.breach ⟨.tooDeep, reason⟩

/-! ## Examples -/

/-- The name under which the server knows a service. -/
def controller (endpoint : Json) : String := "api/" ++ endpoint.display

/-- The name of a service whose endpoint is a text. -/
@[simp]
theorem controller_str (endpoint : String) : controller (.str endpoint) = "api/" ++ endpoint := by
  simp [controller]

/-- The cache file for an example, if there is a cache. -/
def cacheFile? (f : Fetcher) (endpoint action : Json) : Option (Cache × Path) :=
  f.cache.map fun c => (c, c.file f.host (controller endpoint) action)

/-- **The document of an example in a reply**, the address it comes from
given. -/
def documentIn (url : String) (reply : Reply) : Except Fault Json :=
  match reply.document url with
  | .ok (.obj ms) => .ok (.obj ms)
  | .ok _ => .error (.ofCause (.fetch .exampleNotObject))
  | .error (.unreachable reason) => .error (.ofCause (.fetch (.exampleUnreachable reason)))
  | .error (.unreadable reason) => .error (.ofCause (.fetch (.exampleUnreadable reason)))
  | .error (.tooDeep reason) => .error (.breach ⟨.tooDeep, reason⟩)

/-- **Asks the server for the document of an example.** -/
def requestDocument (server : Server) (f : Fetcher) (endpoint action : Json) :
    Session Json := do
  let request := f.request (.example_ (controller endpoint) action)
  let reply ← Session.send server request
  Effect.ofExcept (documentIn request.url reply)

/-- **The document of an example**, from the cache or else from the
server, which then fills the cache. -/
def loadDocument (server : Server) (f : Fetcher) (endpoint action : Json) :
    Session Json := do
  match f.cacheFile? endpoint action with
  | none => requestDocument server f endpoint action
  | some (c, p) =>
    match ← c.load p with
    | some document => pure document
    | none =>
      let document ← requestDocument server f endpoint action
      Cache.store p document
      pure document

/-- **Fetches the example of an action** and decodes it. Whatever problem
comes up belongs to the action. -/
def fetchExample (server : Server) (f : Fetcher) (endpoint action : Json) :
    Session Json :=
  Effect.mapFault (·.attributeTo endpoint action) do
    let document ← loadDocument server f endpoint action
    Effect.ofExcept (Example.decode document)

end Fetcher

end Exemplar
