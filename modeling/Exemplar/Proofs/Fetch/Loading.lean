import Exemplar.Fetch
import Exemplar.Proofs.Effect
import Exemplar.Proofs.Files

/-!
# Loading the document of one example

What the parts of a fetch do, one lemma each. A cache file is read and
nothing else changes (`load_eq`); a document is asked for with one request,
and no file changes (`requestDocument_eq`); a document that came is
written to its file, or nothing is written (`store_eq`).

Put together, the document of an example is the one in its file, or the one
in the reply (`loadDocument_eq`). Where files can be had, which of both it
is depends on the file alone (`loadDocument_of_holds`,
`loadDocument_of_free`).
-/

namespace Exemplar

namespace Cache

variable {c : Cache} {p : Path} {s : Session.State} {fs : Files} {q : Place} {d : Json}

/-- **The text that a reader finds** in the file of a stored document. -/
def written (d : Json) : String := String.ofList (Text.normalizeBreaks d.writeIndented.toList)

/-- **A file holds a document**: it is there, and its text reads as the
document. -/
def Holds (fs : Files) (p : Path) (d : Json) : Prop :=
  ∃ q text, fs.locate p.text = .ok q ∧ fs.isDir q = false ∧ fs.read? q = some text
    ∧ Json.decode text = .ok d ∧ d ≠ .null

/-! ## Reading a cache file -/

/-- Reading a file looks at what stands at its place. -/
theorem read_of_locate (hq : fs.locate p.text = .ok q) (hdir : fs.isDir q = false)
    {text : String} (htext : fs.read? q = some text) : fs.read p = .ok text := by
  simp [Files.read, hq, hdir, htext, bind, Except.bind, pure, Except.pure]

/-- What is read was there. -/
theorem exists_of_read_eq_ok {text : String} (h : fs.read p = .ok text) :
    ∃ q, fs.locate p.text = .ok q ∧ fs.isDir q = false ∧ fs.read? q = some text := by
  unfold Files.read at h
  cases hq : fs.locate p.text with
  | error t => simp [hq, bind, Except.bind] at h
  | ok q =>
    simp only [hq, bind, Except.bind] at h
    cases hdir : fs.isDir q with
    | true => simp [hdir] at h
    | false =>
      cases htext : fs.read? q with
      | none => simp [hdir, htext] at h
      | some found =>
        obtain rfl : found = text := by
          simpa [hdir, htext, pure, Except.pure] using h
        exact ⟨q, rfl, hdir, htext⟩

/-- **Reading a cache file** gives what it holds, and changes nothing but what
is said. -/
theorem read_eq (p : Path) (s : Session.State) :
    ∃ r notices, (read p s.files).perform s = (r, { s with notices := notices })
      ∧ ∀ d, r = .ok (some d) → Holds s.files p d := by
  unfold read
  cases htext : s.files.read p with
  | error t => exact ⟨_, _, rfl, fun d h => (nomatch h)⟩
  | ok text =>
    obtain ⟨q, hq, hdir, hread⟩ := exists_of_read_eq_ok htext
    dsimp only
    cases hdecode : Json.decode text with
    | ok v =>
      cases v with
      | null => exact ⟨_, _, rfl, fun d h => (nomatch h)⟩
      | _ =>
        refine ⟨_, _, rfl, fun d h => ?_⟩
        cases h
        exact ⟨q, text, hq, hdir, hread, hdecode, by simp⟩
    | error e => cases e <;> exact ⟨_, _, rfl, fun d h => (nomatch h)⟩

/-- **Loading a document** gives what its file holds, if it gives one, and
changes nothing but what is said. -/
theorem load_eq (c : Cache) (p : Path) (s : Session.State) :
    ∃ r notices, (c.load p).perform s = (r, { s with notices := notices })
      ∧ ∀ d, r = .ok (some d) → Holds s.files p d := by
  unfold load
  rw [Effect.perform_bind, Effect.perform_get]
  dsimp only
  cases hthere : s.files.leadsToDir p.text with
  | error t => cases t <;> exact ⟨_, _, rfl, fun d h => (nomatch h)⟩
  | ok dir =>
    simp only [Effect.perform_bind, Effect.perform_ofExcept]
    cases hexpired : c.isExpired with
    | error b => exact ⟨_, _, rfl, fun d h => (nomatch h)⟩
    | ok expired =>
      cases expired with
      | true => exact ⟨_, _, rfl, fun d h => (nomatch h)⟩
      | false => exact read_eq p s

/-- **A document in a fresh file is loaded.** -/
theorem load_of_holds (hfresh : c.isExpired = .ok false) (h : Holds s.files p d) :
    (c.load p).perform s = (.ok (some d), s) := by
  obtain ⟨q, text, hq, hdir, htext, hdecode, hnull⟩ := h
  have hfile : s.files.isFile q = true := by
    rw [Files.isFile_eq_isSome_read?, htext]
    rfl
  have hthere : s.files.leadsToDir p.text = .ok false := by
    simp [Files.leadsToDir, hq, hdir, hfile, bind, Except.bind, pure, Except.pure]
  unfold load
  rw [Effect.perform_bind, Effect.perform_get]
  dsimp only
  rw [hthere]
  simp only [Effect.perform_bind, Effect.perform_ofExcept, hfresh, Bool.false_eq_true, if_false]
  unfold read
  rw [read_of_locate hq hdir htext]
  dsimp only
  rw [hdecode]
  cases d with
  | null => exact absurd rfl hnull
  | _ => rfl

/-- Where nothing is, nothing is loaded. -/
theorem load_of_free (hq : s.files.locate p.text = .ok q) (hdir : s.files.isDir q = false)
    (hfree : s.files.read? q = none) : (c.load p).perform s = (.ok none, s) := by
  have hfile : s.files.isFile q = false := by
    rw [Files.isFile_eq_isSome_read?, hfree]
    rfl
  have hthere : s.files.leadsToDir p.text = .error .missing := by
    simp [Files.leadsToDir, hq, hdir, hfile, bind, Except.bind]
  unfold load
  rw [Effect.perform_bind, Effect.perform_get]
  dsimp only
  rw [hthere]
  rfl

/-! ## Writing a cache file -/

/-- **Storing a document** writes it to its file, or changes no file. -/
theorem store_eq (p : Path) (d : Json) (s : Session.State) :
    ∃ r fs notices, (store p d).perform s = (r, { s with files := fs, notices := notices })
      ∧ (fs = s.files ∨ ∃ q, s.files.locate p.text = .ok q ∧ s.files.isDir q = false
        ∧ fs = s.files.put q d.writeIndented) := by
  unfold store
  rw [Effect.perform_bind, Effect.perform_get]
  dsimp only
  cases hwrite : s.files.write p d.writeIndented with
  | error t => cases t <;> exact ⟨_, _, _, rfl, .inl rfl⟩
  | ok fs => exact ⟨_, _, _, rfl, .inr (Files.eq_put_of_write hwrite)⟩

/-- A document is written to a file that can be had. -/
theorem store_of_locate (hq : s.files.locate p.text = .ok q) (hdir : s.files.isDir q = false) :
    ∃ notices, (store p d).perform s
      = (.ok (), { s with files := s.files.put q d.writeIndented, notices := notices }) := by
  have hwrite : s.files.write p d.writeIndented = .ok (s.files.put q d.writeIndented) := by
    simp [Files.write, hq, hdir, bind, Except.bind, pure, Except.pure]
  unfold store
  rw [Effect.perform_bind, Effect.perform_get]
  dsimp only
  rw [hwrite]
  exact ⟨_, rfl⟩

end Cache

namespace Fetcher

open Cache

variable {server : Server} {f : Fetcher} {endpoint action : Json} {s : Session.State} {c : Cache}
  {q : Place} {d : Json}

/-! ## Asking the server -/

/-- The request for the example of an action. -/
def exampleRequest (f : Fetcher) (endpoint action : Json) : Request :=
  f.request (.example_ (controller endpoint) action)

/-- **The document that a server has** for an example: the object in its
reply. There is none if the connection fails, or the status says that
something went wrong, or the body is no JSON or no object. -/
def served (server : Server) (f : Fetcher) (endpoint action : Json) : Option Json :=
  match (server (.example_ (controller endpoint) action)).document
      (f.exampleRequest endpoint action).url with
  | .ok (.obj ms) => some (.obj ms)
  | _ => none

/-- **Asking for a document** is one request, and gives what the server
has. -/
theorem requestDocument_eq (server : Server) (f : Fetcher) (endpoint action : Json)
    (s : Session.State) :
    ∃ r, (requestDocument server f endpoint action).perform s
        = (r, { s with requests := s.requests ++ [f.exampleRequest endpoint action] })
      ∧ ∀ d, r = .ok d ↔ served server f endpoint action = some d := by
  refine ⟨documentIn (f.exampleRequest endpoint action).url
    (server (.example_ (controller endpoint) action)), ?_, fun d => ?_⟩
  · unfold requestDocument
    rw [Effect.perform_bind, Session.perform_send]
    exact Effect.perform_ofExcept _ _
  · unfold documentIn served
    cases (server (.example_ (controller endpoint) action)).document
        (f.exampleRequest endpoint action).url with
    | error trouble => cases trouble <;> simp
    | ok v => cases v <;> simp

/-! ## The document of an example -/

/-- The cache file for an example. -/
def exampleFile (f : Fetcher) (c : Cache) (endpoint action : Json) : Path :=
  c.file f.host (controller endpoint) action

/-- A cached fetcher looks into the file first. -/
theorem perform_loadDocument (hcache : f.cache = some c) :
    (loadDocument server f endpoint action).perform s =
      match (c.load (f.exampleFile c endpoint action)).perform s with
      | (.error e, t) => (.error e, t)
      | (.ok (some d), t) => (.ok d, t)
      | (.ok none, t) => (do
          let document ← requestDocument server f endpoint action
          Cache.store (f.exampleFile c endpoint action) document
          pure document : Session Json).perform t := by
  have hfile : f.cacheFile? endpoint action = some (c, f.exampleFile c endpoint action) := by
    simp [cacheFile?, hcache, exampleFile]
  unfold loadDocument
  rw [hfile]
  dsimp only
  rw [Effect.perform_bind]
  rcases (c.load (f.exampleFile c endpoint action)).perform s with ⟨r, t⟩
  cases r with
  | error e => rfl
  | ok found => cases found <;> rfl

/-- **What loading a document can do.** The document is held by the file or
served by the server. A file changes only where a served document is written
to the file for the example. -/
theorem loadDocument_eq (server : Server) (endpoint action : Json) (s : Session.State)
    (hcache : f.cache = some c) :
    ∃ r t, (loadDocument server f endpoint action).perform s = (r, t)
      ∧ (∀ d, r = .ok d → Holds s.files (f.exampleFile c endpoint action) d
        ∨ served server f endpoint action = some d)
      ∧ (t.files = s.files ∨ ∃ d q, served server f endpoint action = some d
        ∧ s.files.locate (f.exampleFile c endpoint action).text = .ok q
        ∧ s.files.isDir q = false ∧ t.files = s.files.put q d.writeIndented) := by
  rw [perform_loadDocument hcache]
  obtain ⟨r, notices, hload, hholds⟩ := load_eq c (f.exampleFile c endpoint action) s
  rw [hload]
  cases r with
  | error e => exact ⟨_, _, rfl, fun d h => (nomatch h), .inl rfl⟩
  | ok found =>
    cases found with
    | some d =>
      refine ⟨_, _, rfl, fun v hv => .inl (hholds v ?_), .inl rfl⟩
      rw [Except.ok.inj hv]
    | none =>
      dsimp only
      obtain ⟨r, hrequest, hserved⟩ :=
        requestDocument_eq server f endpoint action { s with notices := notices }
      rw [Effect.perform_bind, hrequest]
      cases r with
      | error e => exact ⟨_, _, rfl, fun d h => (nomatch h), .inl rfl⟩
      | ok d =>
        dsimp only
        obtain ⟨r, fs, _, hstore, hfiles⟩ := store_eq (f.exampleFile c endpoint action) d
          { s with
            requests := s.requests ++ [f.exampleRequest endpoint action]
            notices := notices }
        rw [Effect.perform_bind, hstore]
        have hd := (hserved d).mp rfl
        have hchange : fs = s.files ∨ ∃ d q, served server f endpoint action = some d
            ∧ s.files.locate (f.exampleFile c endpoint action).text = .ok q
            ∧ s.files.isDir q = false ∧ fs = s.files.put q d.writeIndented :=
          hfiles.imp_right fun ⟨q, hq, hdir, hput⟩ => ⟨d, q, hd, hq, hdir, hput⟩
        cases r with
        | error e => exact ⟨_, _, rfl, fun d h => (nomatch h), hchange⟩
        | ok _ =>
          refine ⟨_, _, rfl, fun v hv => .inr ?_, hchange⟩
          rw [← Except.ok.inj hv]
          exact hd

/-- **A document in a fresh file is taken from there**, and nothing happens
otherwise. -/
theorem loadDocument_of_holds (hcache : f.cache = some c) (hfresh : c.isExpired = .ok false)
    (h : Holds s.files (f.exampleFile c endpoint action) d) :
    (loadDocument server f endpoint action).perform s = (.ok d, s) := by
  rw [perform_loadDocument hcache, load_of_holds hfresh h]

/-- **Where there is no file**, the server is asked, and what it serves is
written to the file. -/
theorem loadDocument_of_free (server : Server) (hcache : f.cache = some c)
    (hq : s.files.locate (f.exampleFile c endpoint action).text = .ok q)
    (hdir : s.files.isDir q = false) (hfree : s.files.read? q = none) :
    ∃ r notices, (loadDocument server f endpoint action).perform s
        = (r, { s with
            files := (served server f endpoint action).elim s.files
              fun d => s.files.put q d.writeIndented
            requests := s.requests ++ [f.exampleRequest endpoint action]
            notices := notices })
      ∧ ∀ d, r = .ok d ↔ served server f endpoint action = some d := by
  rw [perform_loadDocument hcache, load_of_free hq hdir hfree]
  dsimp only
  obtain ⟨r, hrequest, hserved⟩ := requestDocument_eq server f endpoint action s
  rw [Effect.perform_bind, hrequest]
  cases r with
  | error e =>
    have hnone : served server f endpoint action = none :=
      Option.eq_none_iff_forall_ne_some.mpr fun d hd => nomatch (hserved d).mpr hd
    refine ⟨.error e, s.notices, ?_, hserved⟩
    rw [hnone]
    rfl
  | ok d =>
    dsimp only
    have hd := (hserved d).mp rfl
    obtain ⟨notices, hstore⟩ := store_of_locate (p := f.exampleFile c endpoint action) (d := d)
      (s := { s with requests := s.requests ++ [f.exampleRequest endpoint action] }) hq hdir
    refine ⟨.ok d, notices, ?_, hserved⟩
    rw [Effect.perform_bind, hstore, hd]
    rfl

/-- **Fetching an example** decodes its document, and attributes what goes
wrong. -/
theorem perform_fetchExample :
    (fetchExample server f endpoint action).perform s =
      ((((loadDocument server f endpoint action).perform s).1 >>= Example.decode).mapError
          (·.attributeTo endpoint action),
        ((loadDocument server f endpoint action).perform s).2) := by
  rw [fetchExample, Effect.perform_mapFault, Effect.perform_bind]
  rcases (loadDocument server f endpoint action).perform s with ⟨r, t⟩
  cases r with
  | error e => rfl
  | ok d =>
    dsimp only
    rw [Effect.perform_ofExcept]
    rfl

end Fetcher

end Exemplar
