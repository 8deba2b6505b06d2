import Exemplar.Proofs.Fetch.Runs
import Exemplar.Proofs.Fetch.Uncached

/-!
# What comes of fetching an example

Fetching an example ends in its value, in a problem of the action, or in a breach,
and which of these it is depends on what the cache file holds and on the reply of
the server. A look into the cache file gives a document, or nothing, or a breach
(`Cache.Look`), and where it gives nothing the reply decides (`Fetcher.Loads`).

A problem always is one of fetching or of an unknown format, and it is attributed
to exactly the action that was asked for. But there are breaches too, and
`Fetcher.Unforeseen` lists them by what is found where: a document in the file
that is no object is the plainest of them, since only the reply of the server is
asked for an object (`fetchExample_list`).
-/

namespace Exemplar

/-- **A cause that fetching foresees.** -/
inductive Cause.OfFetching : Cause → Prop
  | fetch (failure : FetchFailure) : OfFetching (.fetch failure)
  | unsupportedFormat (tag : Json) : OfFetching (.unsupportedFormat tag)

/-! ## Looking into a cache file -/

namespace Cache

/-- **What comes of a look into a cache file**: the document that it holds if it is
fresh, or nothing, or a breach. -/
inductive Look (c : Cache) (p : Path) (fs : Files) : Except Fault (Option Json) → Prop
  | holds {d : Json} (hfresh : c.isExpired = .ok false) (h : Holds fs p d) :
    Look c p fs (.ok (some d))
  /-- Nothing is where the path leads. -/
  | absent {t : FileTrouble} (h : fs.leadsToDir p.text = .error t) (ht : t ≠ .nameTooLong) :
    Look c p fs (.ok none)
  | expired {dir : Bool} (h : fs.leadsToDir p.text = .ok dir) (hexpired : c.isExpired = .ok true) :
    Look c p fs (.ok none)
  | unreadable {dir : Bool} {t : FileTrouble} (h : fs.leadsToDir p.text = .ok dir)
    (hfresh : c.isExpired = .ok false) (ht : fs.read p = .error t) : Look c p fs (.ok none)
  | malformed {dir : Bool} {text what : String} {line column offset : Nat}
    (h : fs.leadsToDir p.text = .ok dir) (hfresh : c.isExpired = .ok false)
    (htext : fs.read p = .ok text)
    (hdecode : Json.decode text = .error (.malformed what line column offset)) :
    Look c p fs (.ok none)
  | null {dir : Bool} {text : String} (h : fs.leadsToDir p.text = .ok dir)
    (hfresh : c.isExpired = .ok false) (htext : fs.read p = .ok text)
    (hdecode : Json.decode text = .ok .null) : Look c p fs (.ok none)
  | nameTooLong (h : fs.leadsToDir p.text = .error .nameTooLong) :
    Look c p fs (.error (.breach (FileTrouble.nameTooLong.breach p)))
  /-- The lifetime is no number. -/
  | ageless {dir : Bool} {b : Breach} (h : fs.leadsToDir p.text = .ok dir)
    (hage : c.isExpired = .error (.breach b)) : Look c p fs (.error (.breach b))
  | tooLong {dir : Bool} {text : String} {digits : Nat} (h : fs.leadsToDir p.text = .ok dir)
    (hfresh : c.isExpired = .ok false) (htext : fs.read p = .ok text)
    (hdecode : Json.decode text = .error (.tooLong digits)) :
    Look c p fs (.error (.breach ⟨.badValue, (Json.DecodeError.tooLong digits).message⟩))
  | tooDeep {dir : Bool} {text : String} {container : Json.Container}
    (h : fs.leadsToDir p.text = .ok dir) (hfresh : c.isExpired = .ok false)
    (htext : fs.read p = .ok text) (hdecode : Json.decode text = .error (.tooDeep container)) :
    Look c p fs (.error (.breach ⟨.tooDeep, (Json.DecodeError.tooDeep container).message⟩))

variable {c : Cache} {p : Path} {s : Session.State} {r : Except Fault (Option Json)}

/-- The outcome of reading a file that is there depends on its text. -/
theorem outcome_read (p : Path) (s : Session.State) : ((read p s.files).perform s).1 =
    match s.files.read p with
    | .error _ => .ok none
    | .ok text =>
      match Json.decode text with
      | .ok .null | .error (.malformed _ _ _ _) => .ok none
      | .ok v => .ok (some v)
      | .error (.tooLong digits) =>
        .error (.breach ⟨.badValue, (Json.DecodeError.tooLong digits).message⟩)
      | .error (.tooDeep container) =>
        .error (.breach ⟨.tooDeep, (Json.DecodeError.tooDeep container).message⟩) := by
  unfold read
  cases s.files.read p with
  | error t => rfl
  | ok text =>
    dsimp only
    cases Json.decode text with
    | ok v => cases v <;> rfl
    | error e => cases e <;> rfl

/-- The outcome of a look depends on what is there, and on its age. -/
theorem outcome_load (c : Cache) (p : Path) (s : Session.State) : ((c.load p).perform s).1 =
    match s.files.leadsToDir p.text with
    | .error .nameTooLong => .error (.breach (FileTrouble.nameTooLong.breach p))
    | .error _ => .ok none
    | .ok _ => c.isExpired >>= fun expired =>
      if expired then .ok none else ((read p s.files).perform s).1 := by
  unfold load
  rw [Effect.perform_bind, Effect.perform_get]
  dsimp only
  cases s.files.leadsToDir p.text with
  | error t => cases t <;> rfl
  | ok dir =>
    dsimp only
    rw [Effect.perform_bind, Effect.perform_ofExcept]
    cases c.isExpired with
    | error f => rfl
    | ok expired => cases expired <;> rfl

/-- A look into a cache file is what its constructors say. -/
theorem Look.outcome_load_eq (h : Look c p s.files r) : ((c.load p).perform s).1 = r := by
  cases h with
  | holds hfresh h => rw [load_of_holds hfresh h]
  | absent h ht =>
    rw [outcome_load, h]
    cases ‹FileTrouble› <;> first | rfl | exact absurd rfl ht
  | expired h hexpired =>
    rw [outcome_load, h, hexpired]
    rfl
  | nameTooLong h => rw [outcome_load, h]
  | ageless h hage =>
    rw [outcome_load, h, hage]
    rfl
  | unreadable h hfresh ht =>
    rw [outcome_load, h, hfresh, outcome_read, ht]
    rfl
  | malformed h hfresh htext hdecode | null h hfresh htext hdecode | tooLong h hfresh htext hdecode
  | tooDeep h hfresh htext hdecode =>
    rw [outcome_load, h, hfresh, outcome_read, htext]
    dsimp only
    rw [hdecode]
    rfl

theorem exists_of_isExpired_eq_error {g : Fault} (h : c.isExpired = .error g) :
    ∃ b, g = .breach b := by
  unfold isExpired at h
  split at h
  · nomatch h
  · nomatch h
  · exact ⟨_, (Except.error.inj h).symm⟩

/-- **There is no other.** -/
theorem look_load (c : Cache) (p : Path) (s : Session.State) :
    Look c p s.files ((c.load p).perform s).1 := by
  suffices h : ∃ r, Look c p s.files r by
    obtain ⟨r, h⟩ := h
    exact h.outcome_load_eq.symm ▸ h
  cases hthere : s.files.leadsToDir p.text with
  | error t =>
    by_cases ht : t = .nameTooLong
    · exact ⟨_, .nameTooLong (ht ▸ hthere)⟩
    · exact ⟨_, .absent hthere ht⟩
  | ok dir =>
    cases hage : c.isExpired with
    | error g =>
      obtain ⟨b, rfl⟩ := exists_of_isExpired_eq_error hage
      exact ⟨_, .ageless hthere hage⟩
    | ok expired =>
      cases expired with
      | true => exact ⟨_, .expired hthere hage⟩
      | false =>
        cases htext : s.files.read p with
        | error t => exact ⟨_, .unreadable hthere hage htext⟩
        | ok text =>
          cases hdecode : Json.decode text with
          | error e =>
            cases e with
            | malformed => exact ⟨_, .malformed hthere hage htext hdecode⟩
            | tooLong => exact ⟨_, .tooLong hthere hage htext hdecode⟩
            | tooDeep => exact ⟨_, .tooDeep hthere hage htext hdecode⟩
          | ok d =>
            by_cases hd : d = .null
            · exact ⟨_, .null hthere hage htext (hd ▸ hdecode)⟩
            · obtain ⟨q, hq, hdir, hread⟩ := exists_of_read_eq_ok htext
              exact ⟨_, .holds hage ⟨q, text, hq, hdir, hread, hdecode, hd⟩⟩

/-- A document can be stored, or not, without anybody noticing, unless the path
holds the character NUL. -/
theorem outcome_store (p : Path) (d : Json) (s : Session.State) : ((store p d).perform s).1 =
    if Char.ofNat 0 ∈ p.text.toList then .error (.breach (FileTrouble.nul.breach p))
    else .ok () := by
  have hnul : s.files.locate p.text = .error .nul ↔ Char.ofNat 0 ∈ p.text.toList :=
    Files.locate_eq_nul_iff
  have hwrite : s.files.write p d.writeIndented = s.files.locate p.text >>= fun q =>
    if s.files.isDir q then .error .isDirectory else .ok (s.files.put q d.writeIndented) := rfl
  unfold store
  rw [Effect.perform_bind, Effect.perform_get]
  dsimp only
  rw [hwrite]
  cases hlocate : s.files.locate p.text with
  | error t =>
    by_cases ht : t = .nul
    · rw [if_pos (hnul.mp (ht ▸ hlocate)), ht]
      rfl
    · rw [if_neg fun h => ht (Except.error.inj (hlocate.symm.trans (hnul.mpr h)))]
      cases t <;> first | rfl | exact absurd rfl ht
  | ok q =>
    rw [if_neg fun h => nomatch hlocate.symm.trans (hnul.mpr h)]
    cases hdir : s.files.isDir q <;> simp only [hdir, bind, Except.bind] <;> rfl

end Cache

/-! ## Decoding the document -/

namespace Example

/-- **No example**: a value that counts as false, or blanks alone. -/
def IsBlank (v : Json) : Prop := v.truthy = false ∨ Text.strip v.display.toList = []

/-- **A document breaks the decoder**: it is no object, or it is said to have a JSON
example, and that is no text, or one that holds a number which is too long, or one
that is nested too deep. -/
inductive Breaks : Json → Breach → Prop
  | notObject {d : Json} (h : ∀ ms, d ≠ .obj ms) : Breaks d (.noAttribute d "get")
  | notText {ms : List (String × Json)} {v : Json}
    (hformat : Json.find? "format" ms = some (.str "json"))
    (hcontent : Json.find? "example" ms = some v) (hblank : ¬ IsBlank v)
    (htext : ∀ text, v ≠ .str text) :
    Breaks (.obj ms)
      (.wrongType s!"the JSON object must be str, bytes or bytearray, not {v.typeWord}")
  | tooLong {ms : List (String × Json)} {text : String} {digits : Nat}
    (hformat : Json.find? "format" ms = some (.str "json"))
    (hcontent : Json.find? "example" ms = some (.str text)) (hblank : ¬ IsBlank (.str text))
    (hdecode : Json.decode text = .error (.tooLong digits)) :
    Breaks (.obj ms) ⟨.badValue, (Json.DecodeError.tooLong digits).message⟩
  | tooDeep {ms : List (String × Json)} {text : String} {container : Json.Container}
    (hformat : Json.find? "format" ms = some (.str "json"))
    (hcontent : Json.find? "example" ms = some (.str text)) (hblank : ¬ IsBlank (.str text))
    (hdecode : Json.decode text = .error (.tooDeep container)) :
    Breaks (.obj ms) ⟨.tooDeep, (Json.DecodeError.tooDeep container).message⟩

variable {d v : Json} {b : Breach} {g : Fault}

theorem isBlank_iff :
    (!v.truthy || (Text.strip v.display.toList).isEmpty) = true ↔ IsBlank v := by
  simp [IsBlank]

theorem decode_json {ms : List (String × Json)}
    (hformat : Json.find? "format" ms = some (.str "json"))
    (hcontent : Json.find? "example" ms = some v) : decode (.obj ms) = decodeText v := by
  simp only [decode, hformat, hcontent, Option.getD_some]

/-- **A document that breaks the decoder** ends in the breach. -/
theorem Breaks.decode_eq (h : Breaks d b) : decode d = .error (.breach b) := by
  cases h with
  | notObject h =>
    cases d with
    | obj ms => exact absurd rfl (h ms)
    | _ => rfl
  | notText hformat hcontent hblank htext =>
    rw [decode_json hformat hcontent, decodeText, if_neg (mt isBlank_iff.mp hblank)]
    exact htext
  | tooLong hformat hcontent hblank hdecode | tooDeep hformat hcontent hblank hdecode =>
    rw [decode_json hformat hcontent, decodeText, if_neg (mt isBlank_iff.mp hblank), hdecode]

/-- **There is nothing else that goes wrong** but what fetching foresees. -/
theorem decode_eq_error (h : decode d = .error g) :
    (∃ cause : Cause, cause.OfFetching ∧ g = .ofCause cause) ∨ ∃ b, g = .breach b ∧ Breaks d b := by
  cases d with
  | obj ms =>
    simp only [decode] at h
    split at h
    · next hformat =>
      have hformat : Json.find? "format" ms = some (.str "json") := by
        cases hfind : Json.find? "format" ms with
        | none => simp [hfind] at hformat
        | some v => simpa [hfind] using hformat
      unfold decodeText at h
      split at h
      · cases h
        exact .inl ⟨_, .fetch _, rfl⟩
      · next hblank =>
        rw [isBlank_iff] at hblank
        have hcontent :
            Json.find? "example" ms = some ((Json.find? "example" ms).getD (.str "")) := by
          cases hfind : Json.find? "example" ms with
          | none => exact absurd (.inl (by rw [hfind]; rfl)) hblank
          | some v => rfl
        split at h
        · next htext =>
          rw [htext] at hcontent hblank
          split at h
          · nomatch h
          · next e hdecode =>
            cases e with
            | malformed =>
              cases h
              exact .inl ⟨_, .fetch _, rfl⟩
            | tooLong =>
              cases h
              exact .inr ⟨_, rfl, .tooLong hformat hcontent hblank hdecode⟩
            | tooDeep =>
              cases h
              exact .inr ⟨_, rfl, .tooDeep hformat hcontent hblank hdecode⟩
        · next htext =>
          cases h
          exact .inr ⟨_, rfl, .notText hformat hcontent hblank htext⟩
    · split at h
      · nomatch h
      · cases h
        exact .inl ⟨_, .unsupportedFormat _, rfl⟩
    · cases h
      exact .inl ⟨_, .unsupportedFormat _, rfl⟩
  | _ =>
    cases h
    exact .inr ⟨_, rfl, .notObject fun _ => nofun⟩

end Example

namespace Fetcher

variable {server : Server} {f : Fetcher} {endpoint action : Json} {s : Session.State} {fs : Files}
  {c : Cache} {d : Json} {b : Breach} {g : Fault} {r : Except Fault Json}

/-! ## Loading the document -/

/-- **What comes of a look for a stored document**; without a cache, nothing. -/
inductive Look (f : Fetcher) (endpoint action : Json) (fs : Files) :
    Except Fault (Option Json) → Prop
  | uncached (hcache : f.cache = none) : Look f endpoint action fs (.ok none)
  | cached {c : Cache} {r : Except Fault (Option Json)} (hcache : f.cache = some c)
    (h : c.Look (f.exampleFile c endpoint action) fs r) : Look f endpoint action fs r

/-- **There is no file to store a document in**: its path holds the character NUL. -/
inductive Unstorable (f : Fetcher) (endpoint action : Json) : Breach → Prop
  | nul {c : Cache} (hcache : f.cache = some c)
    (h : Char.ofNat 0 ∈ (f.exampleFile c endpoint action).text.toList) :
    Unstorable f endpoint action (FileTrouble.nul.breach (f.exampleFile c endpoint action))

/-- **What comes of loading a document.** A stored one is taken as it is; where there
is none, the one in the reply is taken. -/
inductive Loads (server : Server) (f : Fetcher) (endpoint action : Json) (fs : Files) :
    Except Fault Json → Prop
  | stored {d : Json} (h : f.Look endpoint action fs (.ok (some d))) :
    Loads server f endpoint action fs (.ok d)
  | served {d : Json} (h : f.Look endpoint action fs (.ok none))
    (hd : served server f endpoint action = some d)
    (hstore : ∀ b, ¬ f.Unstorable endpoint action b) :
    Loads server f endpoint action fs (.ok d)
  | unreadable {g : Fault} (h : f.Look endpoint action fs (.error g)) :
    Loads server f endpoint action fs (.error g)
  | unserved {g : Fault} (h : f.Look endpoint action fs (.ok none))
    (hg : documentIn (f.exampleRequest endpoint action).url
      (server (.example_ (controller endpoint) action)) = .error g) :
    Loads server f endpoint action fs (.error g)
  | unstorable {d : Json} {b : Breach} (h : f.Look endpoint action fs (.ok none))
    (hd : served server f endpoint action = some d) (hb : f.Unstorable endpoint action b) :
    Loads server f endpoint action fs (.error (.breach b))

/-- A request is on record, and what comes of it is up to the reply. -/
theorem perform_requestDocument (server : Server) (f : Fetcher) (endpoint action : Json)
    (s : Session.State) : (requestDocument server f endpoint action).perform s =
      (documentIn (f.exampleRequest endpoint action).url
          (server (.example_ (controller endpoint) action)),
        { s with requests := s.requests ++ [f.exampleRequest endpoint action] }) := by
  unfold requestDocument
  rw [Effect.perform_bind, Session.perform_send]
  exact Effect.perform_ofExcept _ _

/-- A reply has a document if the server serves one. -/
theorem documentIn_eq_ok_iff : documentIn (f.exampleRequest endpoint action).url
      (server (.example_ (controller endpoint) action)) = .ok d
    ↔ served server f endpoint action = some d := by
  unfold documentIn served
  cases (server (.example_ (controller endpoint) action)).document
      (f.exampleRequest endpoint action).url with
  | error trouble => cases trouble <;> simp
  | ok v => cases v <;> simp

/-- **A reply without a document** is what fetching foresees, unless it is nested too
deep. -/
theorem documentIn_eq_error {url : String} {reply : Reply} (h : documentIn url reply = .error g) :
    (∃ cause : Cause, cause.OfFetching ∧ g = .ofCause cause)
      ∨ ∃ reason, reply.document url = .error (.tooDeep reason)
        ∧ g = .breach ⟨.tooDeep, reason⟩ := by
  unfold documentIn at h
  split at h <;> cases h
  · exact .inl ⟨_, .fetch _, rfl⟩
  · exact .inl ⟨_, .fetch _, rfl⟩
  · exact .inl ⟨_, .fetch _, rfl⟩
  · exact .inr ⟨_, ‹_›, rfl⟩

/-- Without a cache, what is loaded is up to the reply. -/
theorem outcome_loadDocument_uncached (hcache : f.cache = none) :
    ((loadDocument server f endpoint action).perform s).1 =
      documentIn (f.exampleRequest endpoint action).url
        (server (.example_ (controller endpoint) action)) := by
  simp only [loadDocument, cacheFile?, hcache, Option.map_none, perform_requestDocument]

/-- With a cache, what is loaded is up to the file first, and to the reply then. -/
theorem outcome_loadDocument (hcache : f.cache = some c) :
    ((loadDocument server f endpoint action).perform s).1 =
      match ((c.load (f.exampleFile c endpoint action)).perform s).1 with
      | .error g => .error g
      | .ok (some d) => .ok d
      | .ok none => documentIn (f.exampleRequest endpoint action).url
          (server (.example_ (controller endpoint) action)) >>= fun d =>
        if Char.ofNat 0 ∈ (f.exampleFile c endpoint action).text.toList then
          .error (.breach (FileTrouble.nul.breach (f.exampleFile c endpoint action)))
        else .ok d := by
  rw [perform_loadDocument hcache]
  obtain ⟨r, notices, hload, -⟩ := Cache.load_eq c (f.exampleFile c endpoint action) s
  rw [hload]
  cases r with
  | error g => rfl
  | ok found =>
    cases found with
    | some d => rfl
    | none =>
      dsimp only
      rw [Effect.perform_bind, perform_requestDocument]
      cases documentIn (f.exampleRequest endpoint action).url
          (server (.example_ (controller endpoint) action)) with
      | error g => rfl
      | ok d =>
        have hstore := Cache.outcome_store (f.exampleFile c endpoint action) d
          { s with
            requests := s.requests ++ [f.exampleRequest endpoint action], notices := notices }
        obtain ⟨r, fs, notices', hperform, -⟩ := Cache.store_eq (f.exampleFile c endpoint action) d
          { s with
            requests := s.requests ++ [f.exampleRequest endpoint action], notices := notices }
        rw [hperform] at hstore
        dsimp only at hstore ⊢
        rw [Effect.perform_bind, hperform, hstore]
        change _ = if Char.ofNat 0 ∈ _ then _ else _
        split_ifs <;> rfl

/-- Loading a document is what its constructors say. -/
theorem Loads.outcome_eq (h : Loads server f endpoint action s.files r) :
    ((loadDocument server f endpoint action).perform s).1 = r := by
  have hnul : ∀ {c : Cache}, f.cache = some c → (∀ b, ¬ f.Unstorable endpoint action b) →
      Char.ofNat 0 ∉ (f.exampleFile c endpoint action).text.toList :=
    fun hcache hstore h => hstore _ (.nul hcache h)
  cases h with
  | stored h =>
    cases h with
    | cached hcache h => rw [outcome_loadDocument hcache, h.outcome_load_eq]
  | unreadable h =>
    cases h with
    | cached hcache h => rw [outcome_loadDocument hcache, h.outcome_load_eq]
  | served h hd hstore =>
    cases h with
    | uncached hcache => rw [outcome_loadDocument_uncached hcache, documentIn_eq_ok_iff.mpr hd]
    | cached hcache h =>
      rw [outcome_loadDocument hcache, h.outcome_load_eq, documentIn_eq_ok_iff.mpr hd]
      exact if_neg (hnul hcache hstore)
  | unserved h hg =>
    cases h with
    | uncached hcache => rw [outcome_loadDocument_uncached hcache, hg]
    | cached hcache h =>
      rw [outcome_loadDocument hcache, h.outcome_load_eq, hg]
      rfl
  | unstorable h hd hb =>
    obtain ⟨hcache, hmem⟩ := hb
    cases h with
    | uncached hnone => nomatch hcache.symm.trans hnone
    | cached hcache' h =>
      obtain rfl := Option.some.inj (hcache.symm.trans hcache')
      rw [outcome_loadDocument hcache, h.outcome_load_eq, documentIn_eq_ok_iff.mpr hd]
      exact if_pos hmem

/-- **There is no other.** -/
theorem loads_loadDocument (server : Server) (f : Fetcher) (endpoint action : Json)
    (s : Session.State) :
    Loads server f endpoint action s.files
      ((loadDocument server f endpoint action).perform s).1 := by
  suffices h : ∃ r, Loads server f endpoint action s.files r by
    obtain ⟨r, h⟩ := h
    exact h.outcome_eq.symm ▸ h
  have hlook : ∃ r, f.Look endpoint action s.files r := by
    cases hcache : f.cache with
    | none => exact ⟨_, .uncached hcache⟩
    | some c => exact ⟨_, .cached hcache (Cache.look_load c _ s)⟩
  obtain ⟨r, hlook⟩ := hlook
  match r, hlook with
  | .error g, hlook => exact ⟨_, .unreadable hlook⟩
  | .ok (some d), hlook => exact ⟨_, .stored hlook⟩
  | .ok none, hlook =>
    cases hreply : documentIn (f.exampleRequest endpoint action).url
        (server (.example_ (controller endpoint) action)) with
    | error g => exact ⟨_, .unserved hlook hreply⟩
    | ok d =>
      have hd := documentIn_eq_ok_iff.mp hreply
      by_cases hb : ∃ b, f.Unstorable endpoint action b
      · obtain ⟨b, hb⟩ := hb
        exact ⟨_, .unstorable hlook hd hb⟩
      · exact ⟨_, .served hlook hd (not_exists.mp hb)⟩

/-! ## Fetching the example -/

/-- **What fetching does not foresee.** -/
inductive Unforeseen (server : Server) (f : Fetcher) (endpoint action : Json) (fs : Files) :
    Breach → Prop
  | unreadable {b : Breach} (h : f.Look endpoint action fs (.error (.breach b))) :
    Unforeseen server f endpoint action fs b
  | replyTooDeep {reason : String} (h : f.Look endpoint action fs (.ok none))
    (hreply : (server (.example_ (controller endpoint) action)).document
      (f.exampleRequest endpoint action).url = .error (.tooDeep reason)) :
    Unforeseen server f endpoint action fs ⟨.tooDeep, reason⟩
  | unstorable {d : Json} {b : Breach} (h : f.Look endpoint action fs (.ok none))
    (hd : served server f endpoint action = some d) (hb : f.Unstorable endpoint action b) :
    Unforeseen server f endpoint action fs b
  | notObject {d : Json} (h : f.Look endpoint action fs (.ok (some d))) (hd : ∀ ms, d ≠ .obj ms) :
    Unforeseen server f endpoint action fs (.noAttribute d "get")
  | content {ms : List (String × Json)} {b : Breach}
    (h : Loads server f endpoint action fs (.ok (.obj ms))) (hb : Example.Breaks (.obj ms) b) :
    Unforeseen server f endpoint action fs b

/-- What goes wrong in a look is a breach. -/
theorem Look.exists_breach (h : f.Look endpoint action fs (.error g)) : ∃ b, g = .breach b := by
  cases h with
  | cached hcache h => cases h <;> exact ⟨_, rfl⟩

/-- **Where no document is loaded**, the failure is one that fetching foresees, or it
is listed. -/
theorem of_loads_error (h : Loads server f endpoint action fs (.error g)) :
    (∃ cause : Cause, cause.OfFetching ∧ g = .ofCause cause)
      ∨ ∃ b, g = .breach b ∧ Unforeseen server f endpoint action fs b := by
  cases h with
  | unreadable h =>
    obtain ⟨b, rfl⟩ := h.exists_breach
    exact .inr ⟨b, rfl, .unreadable h⟩
  | unserved h hg =>
    rcases documentIn_eq_error hg with hcause | ⟨reason, hreply, rfl⟩
    · exact .inl hcause
    · exact .inr ⟨_, rfl, .replyTooDeep h hreply⟩
  | unstorable h hd hb => exact .inr ⟨_, rfl, .unstorable h hd hb⟩

/-- **A document that breaks the decoder** is one that was stored, or it is an
object. -/
theorem unforeseen_of_breaks (h : Loads server f endpoint action fs (.ok d))
    (hb : Example.Breaks d b) : Unforeseen server f endpoint action fs b := by
  cases h with
  | stored h =>
    cases d with
    | obj ms => exact .content (.stored h) hb
    | _ =>
      cases hb
      exact .notObject h fun _ => nofun
  | served h hd hstore =>
    obtain ⟨ms, rfl⟩ : ∃ ms, d = .obj ms := by
      unfold served at hd
      split at hd
      · exact ⟨_, (Option.some.inj hd).symm⟩
      · nomatch hd
    exact .content (.served h hd hstore) hb

/-- **What is not foreseen happens.** -/
theorem Unforeseen.outcome_eq (h : Unforeseen server f endpoint action s.files b) :
    ((fetchExample server f endpoint action).perform s).1 = .error (.breach b) := by
  rw [perform_fetchExample]
  dsimp only
  cases h with
  | unreadable h =>
    rw [(Loads.unreadable h).outcome_eq]
    rfl
  | replyTooDeep h hreply =>
    rw [(Loads.unserved h (by rw [documentIn, hreply])).outcome_eq]
    rfl
  | unstorable h hd hb =>
    rw [(Loads.unstorable h hd hb).outcome_eq]
    rfl
  | notObject h hd =>
    rw [(Loads.stored h).outcome_eq]
    exact congrArg _ (Example.Breaks.notObject hd).decode_eq
  | content h hb =>
    rw [h.outcome_eq]
    exact congrArg _ hb.decode_eq

/-- What was loaded is decoded. -/
theorem Loads.fetchExample_eq (h : Loads server f endpoint action s.files (.ok d)) :
    ((fetchExample server f endpoint action).perform s).1
      = (Example.decode d).mapError (·.attributeTo endpoint action) := by
  rw [perform_fetchExample]
  dsimp only
  rw [h.outcome_eq]
  rfl

/-- **What goes wrong** is foreseen and attributed, or it is listed. -/
theorem fetchExample_eq_error
    (h : ((fetchExample server f endpoint action).perform s).1 = .error g) :
    (∃ cause : Cause, cause.OfFetching ∧ g = .problem ⟨cause, endpoint, action⟩)
      ∨ ∃ b, g = .breach b ∧ Unforeseen server f endpoint action s.files b := by
  have hattributed : ∀ {g' : Fault}, g = g'.attributeTo endpoint action →
      ((∃ cause : Cause, cause.OfFetching ∧ g' = .ofCause cause)
        ∨ ∃ b, g' = .breach b ∧ Unforeseen server f endpoint action s.files b) →
      (∃ cause : Cause, cause.OfFetching ∧ g = .problem ⟨cause, endpoint, action⟩)
        ∨ ∃ b, g = .breach b ∧ Unforeseen server f endpoint action s.files b := by
    rintro g' rfl (⟨cause, hcause, rfl⟩ | ⟨b, rfl, hb⟩)
    · exact .inl ⟨cause, hcause, rfl⟩
    · exact .inr ⟨b, rfl, hb⟩
  have hloads := loads_loadDocument server f endpoint action s
  cases hload : ((loadDocument server f endpoint action).perform s).1 with
  | error g' =>
    rw [hload] at hloads
    rw [perform_fetchExample, hload] at h
    exact hattributed (Except.error.inj h).symm (of_loads_error hloads)
  | ok d =>
    rw [hload] at hloads
    rw [hloads.fetchExample_eq] at h
    cases hdecode : Example.decode d with
    | ok v => rw [hdecode] at h; nomatch h
    | error g' =>
      rw [hdecode] at h
      refine hattributed (Except.error.inj h).symm ((Example.decode_eq_error hdecode).imp_right ?_)
      rintro ⟨b, rfl, hb⟩
      exact ⟨b, rfl, unforeseen_of_breaks hloads hb⟩

/-- **What comes of fetching an example**, whatever the cache file holds and whatever
the server replies. A document that was stored is decoded as one that was served is,
and a value is that of such a document. What goes wrong is a problem of fetching or of
the format, attributed to exactly this endpoint and this action – or one of the
breaches that are listed, and these do happen: above all, it is not asked of a stored
document that it is an object, nor of a JSON example that it is a text. -/
theorem fetchExample_outcome (server : Server) (f : Fetcher) (endpoint action : Json)
    (s : Session.State) :
    let r := ((fetchExample server f endpoint action).perform s).1
    (∀ d, Loads server f endpoint action s.files (.ok d) →
        r = (Example.decode d).mapError (·.attributeTo endpoint action))
      ∧ (∀ v, r = .ok v →
        ∃ d, Loads server f endpoint action s.files (.ok d) ∧ Example.decode d = .ok v)
      ∧ (∀ p, r = .error (.problem p) →
        p.cause.OfFetching ∧ p.endpoint = endpoint ∧ p.action = action)
      ∧ ∀ b, r = .error (.breach b) ↔ Unforeseen server f endpoint action s.files b := by
  refine ⟨fun d hd => hd.fetchExample_eq, fun v hv => ?_, fun p hp => ?_,
    fun b => ⟨fun hb => ?_, Unforeseen.outcome_eq⟩⟩
  · have hloads := loads_loadDocument server f endpoint action s
    cases hload : ((loadDocument server f endpoint action).perform s).1 with
    | error g =>
      rw [perform_fetchExample, hload] at hv
      nomatch hv
    | ok d =>
      rw [hload] at hloads
      rw [hloads.fetchExample_eq] at hv
      refine ⟨d, hloads, ?_⟩
      cases hdecode : Example.decode d with
      | ok w =>
        rw [hdecode] at hv
        exact hv
      | error g =>
        rw [hdecode] at hv
        nomatch hv
  · rcases fetchExample_eq_error hp with ⟨cause, hcause, hp⟩ | ⟨b, hb, -⟩
    · cases hp
      exact ⟨hcause, rfl, rfl⟩
    · nomatch hb
  · rcases fetchExample_eq_error hb with ⟨cause, -, hp⟩ | ⟨b', hb', hunforeseen⟩
    · nomatch hp
    · cases hb'
      exact hunforeseen

/-- A server that has nothing. -/
def unreachable : Server := fun _ => .failed "no route"

/-- A server that replies with a list. -/
def listing : Server := fun _ => .answered 200 "OK" "[1]"

/-- A session in which a text stands in the cache file of an example. -/
def seeded (text : String) : Session.State where
  files := fresh.files.put (hourCache.place hourly.host (controller (.str "e")) (.str "a")) text

/-- A document in that file is loaded. -/
theorem look_seeded {text : String} (hdecode : Json.decode text = .ok d) (hd : d ≠ .null)
    (hbreaks : String.ofList (Text.normalizeBreaks text.toList) = text) :
    hourly.Look (.str "e") (.str "a") (seeded text).files (.ok (some d)) := by
  have hq : fresh.files.locate (hourly.exampleFile hourCache (.str "e") (.str "a")).text
      = .ok (hourCache.place hourly.host (controller (.str "e")) (.str "a")) := by decide +kernel
  have hflat := (sound_of_isEmpty (f := hourly) isEmpty_hourCache).flat
  refine .cached rfl (.holds (by decide) ⟨_, text, Files.locate_put (hflat _) hq _,
    Files.isDir_put_child (hflat _) _ _, ?_, hdecode, hd⟩)
  rw [seeded, Files.read?_put, if_pos rfl, hbreaks]

/-- A stored document in an unknown format is a problem of the action, and from a
stored text the JSON example is decoded. -/
theorem fetchExample_outcome_stored :
    let stored (text : String) := ((fetchExample unreachable hourly (.str "e") (.str "a")).perform
      (seeded text)).1
    stored "\x7b\"format\": \"html\"\x7d"
        = .error (.problem ⟨.unsupportedFormat (.str "html"), .str "e", .str "a"⟩)
      ∧ Cause.OfFetching (.unsupportedFormat (.str "html"))
      ∧ stored "\x7b\"format\": \"json\", \"example\": \"7\"\x7d" = .ok (.int 7)
      ∧ ∃ d, Loads unreachable hourly (.str "e") (.str "a")
          (seeded "\x7b\"format\": \"json\", \"example\": \"7\"\x7d").files (.ok d)
        ∧ Example.decode d = .ok (.int 7) := by
  intro stored
  obtain ⟨hdecoded, -, hproblem, -⟩ := fetchExample_outcome unreachable hourly (.str "e") (.str "a")
    (seeded "\x7b\"format\": \"html\"\x7d")
  have hhtml := hdecoded (.obj [("format", .str "html")])
    (.stored (look_seeded (by decide +kernel) (by simp) (by decide +kernel)))
  obtain ⟨hdecoded, hvalue, -, -⟩ := fetchExample_outcome unreachable hourly (.str "e") (.str "a")
    (seeded "\x7b\"format\": \"json\", \"example\": \"7\"\x7d")
  have hjson := hdecoded (.obj [("format", .str "json"), ("example", .str "7")])
    (.stored (look_seeded (by decide +kernel) (by simp) (by decide +kernel)))
  have hseven : Example.decode (.obj [("format", .str "json"), ("example", .str "7")])
      = .ok (.int 7) := by decide +kernel
  rw [hseven] at hjson
  exact ⟨hhtml, (hproblem _ hhtml).1, hjson, hvalue _ hjson⟩

/-- **A list in place of a document.** In a reply it is a problem of the action, and
in a cache file a breach that nobody is blamed for. -/
theorem fetchExample_list :
    ((fetchExample listing hourly (.str "e") (.str "a")).perform fresh).1
        = .error (.problem ⟨.fetch .exampleNotObject, .str "e", .str "a"⟩)
      ∧ ((fetchExample listing hourly (.str "e") (.str "a")).perform (seeded "[1]")).1
        = .error (.breach (.noAttribute (.arr [.int 1]) "get")) := by
  constructor
  · decide +kernel
  · have hlook : hourly.Look (.str "e") (.str "a") (seeded "[1]").files
        (.ok (some (.arr [.int 1]))) :=
      look_seeded (by decide +kernel) (by simp) (by decide +kernel)
    exact (Unforeseen.notObject hlook fun _ => nofun).outcome_eq

end Fetcher

end Exemplar
