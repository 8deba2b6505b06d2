import Exemplar.Proofs.Fetch.CacheFiles
import Exemplar.Proofs.Fetch.Loading
import Mathlib.Data.List.Induction

/-!
# Fetching examples one after the other

A fetcher with a cache is called for one example after the other, in any
order, and the server may answer otherwise each time. Whatever a file in the
cache holds was served in a call for that file, if the directory of the cache
is empty at first: this is kept by every call (`Sound.step`) and holds after
all of them (`sound_after`).

So the document of an example is one that was served for the same file
(`loadDocument_served`). That is one for the same action as long as different
actions have different files, and files are shared where the endpoint and the
key, joined by an underscore, are the same text (`loadDocument_other_action`).
-/

namespace Exemplar

namespace Fetcher

open Cache

/-- **A call** for an example, and the server as it is at that time. -/
structure Call where
  server : Server
  endpoint : Json
  action : Json

namespace Call

/-- What a call is for. -/
def pair (x : Call) : Json × Json := (x.endpoint, x.action)

/-- The outcome of a call, and the state it leaves. -/
def perform (f : Fetcher) (x : Call) (s : Session.State) : Except Fault Json × Session.State :=
  (f.fetchExample x.server x.endpoint x.action).perform s

/-- The document that the server has in a call. -/
def served (f : Fetcher) (x : Call) : Option Json :=
  Fetcher.served x.server f x.endpoint x.action

/-- The cache file for a call. -/
def file (f : Fetcher) (c : Cache) (x : Call) : Path := f.exampleFile c x.endpoint x.action

/-- The name of the cache file for a call. -/
def fileName (f : Fetcher) (x : Call) : String :=
  Cache.fileName f.host (controller x.endpoint) x.action

/-- The place of the cache file for a call. -/
def place (f : Fetcher) (c : Cache) (x : Call) : Place :=
  c.place f.host (controller x.endpoint) x.action

end Call

/-- **The state after some calls**, one after the other. -/
def after (f : Fetcher) (s : Session.State) (calls : List Call) : Session.State :=
  calls.foldl (fun t x => (x.perform f t).2) s

/-- **The first document that was served** for what a call is for, in the
calls before it. -/
def firstServed (f : Fetcher) (x : Call) (before : List Call) : Option Json :=
  (before.filter fun y => y.pair = x.pair).findSome? (Call.served f)

variable {f : Fetcher} {c : Cache} {s : Session.State} {x y : Call} {before calls : List Call}
  {d : Json} {q : Place}

theorem after_concat (f : Fetcher) (s : Session.State) (before : List Call) (x : Call) :
    after f s (before ++ [x]) = (x.perform f (after f s before)).2 := by
  simp [after]

theorem firstServed_concat (f : Fetcher) (x y : Call) (before : List Call) :
    firstServed f x (before ++ [y]) =
      if y.pair = x.pair then (firstServed f x before).or (y.served f)
      else firstServed f x before := by
  by_cases h : y.pair = x.pair
  · simp [firstServed, List.filter_append, List.findSome?_append, h]
  · simp [firstServed, List.filter_append, h]

/-- What was served first was served in some call. -/
theorem exists_of_firstServed (h : firstServed f x before = some d) :
    ∃ y ∈ before, y.pair = x.pair ∧ y.served f = some d := by
  obtain ⟨y, hy, hd⟩ := List.exists_of_findSome?_eq_some h
  obtain ⟨hmem, hpair⟩ := List.mem_filter.mp hy
  exact ⟨y, hmem, of_decide_eq_true hpair, hd⟩

/-- A call loads a document and decodes it. -/
theorem perform_call (f : Fetcher) (x : Call) (s : Session.State) :
    x.perform f s =
      ((((loadDocument x.server f x.endpoint x.action).perform s).1 >>= Example.decode).mapError
          (·.attributeTo x.endpoint x.action),
        ((loadDocument x.server f x.endpoint x.action).perform s).2) :=
  perform_fetchExample

/-- **A call whose file holds a document** decodes it, and leaves the state as
it is. -/
theorem perform_of_holds (hcache : f.cache = some c) (hfresh : c.isExpired = .ok false)
    (h : Holds s.files (x.file f c) d) :
    x.perform f s = ((Example.decode d).mapError (·.attributeTo x.endpoint x.action), s) := by
  rw [perform_call, loadDocument_of_holds hcache hfresh h]
  rfl

/-- **A call whose file is not there** asks the server, and stores what it
serves. -/
theorem perform_of_free (x : Call) (hcache : f.cache = some c)
    (hq : s.files.locate (x.file f c).text = .ok q) (hdir : s.files.isDir q = false)
    (hfree : s.files.read? q = none) :
    ∃ r notices, x.perform f s =
        ((r >>= Example.decode).mapError (·.attributeTo x.endpoint x.action),
          { s with
            files := (x.served f).elim s.files fun d => s.files.put q d.writeIndented
            requests := s.requests ++ [f.exampleRequest x.endpoint x.action]
            notices := notices })
      ∧ ∀ d, r = .ok d ↔ x.served f = some d := by
  obtain ⟨r, notices, hload, hserved⟩ := loadDocument_of_free x.server hcache hq hdir hfree
  refine ⟨r, notices, ?_, hserved⟩
  rw [perform_call, hload]
  rfl

/-! ## Files that were served -/

/-- **What stands in a cache was served.** There are no directories in it,
and each file was written in a call for that file. -/
structure Sound (f : Fetcher) (c : Cache) (before : List Call) (s : Session.State) : Prop where
  flat : ∀ name, s.files.isDir ((Place.ofPath c.directory).child name) = false
  origin : ∀ name text, s.files.read? ((Place.ofPath c.directory).child name) = some text →
    ∃ y ∈ before, name = y.fileName f ∧ ∃ d, y.served f = some d ∧ text = written d

theorem sound_of_isEmpty (h : c.IsEmpty s.files) : Sound f c [] s where
  flat name := (h name).1
  origin name text htext := by simp [(h name).2] at htext

/-- A file that can be had in a sound cache is right in its directory. -/
theorem Sound.eq_place (h : Sound f c before s) (hc : c.directory.IsTidy)
    (hq : s.files.locate (x.file f c).text = .ok q) : q = x.place f c :=
  (locate_file hc h.flat hq).2

/-- **A call keeps a cache sound.** -/
theorem Sound.step (h : Sound f c before s) (hc : c.directory.IsTidy) (hcache : f.cache = some c)
    (x : Call) : Sound f c (before ++ [x]) (x.perform f s).2 := by
  obtain ⟨hflat, horigin⟩ := h
  obtain ⟨r, t, hload, -, hfiles⟩ := loadDocument_eq x.server x.endpoint x.action s hcache
  have hstate : (x.perform f s).2 = t := by rw [perform_call, hload]
  rw [hstate]
  have hlater : ∀ {P : Call → Prop}, (∃ y ∈ before, P y) → ∃ y ∈ before ++ [x], P y :=
    fun ⟨y, hy, hP⟩ => ⟨y, List.mem_append_left [x] hy, hP⟩
  rcases hfiles with hfiles | ⟨d, q, hd, hq, -, hfiles⟩
  · refine ⟨fun name => hfiles ▸ hflat name, fun name text htext => hlater ?_⟩
    exact horigin name text (hfiles ▸ htext)
  · obtain rfl : q = x.place f c := (locate_file hc hflat hq).2
    refine ⟨fun name => ?_, fun name text htext => ?_⟩
    · rw [hfiles]
      exact Files.isDir_put_child (hflat name) (x.fileName f) d.writeIndented
    · rw [hfiles, Files.read?_put] at htext
      by_cases hname : x.place f c = (Place.ofPath c.directory).child name
      · rw [if_pos hname] at htext
        refine ⟨x, by simp, (Files.child_inj.mp hname).symm, d, hd, ?_⟩
        exact (Option.some.inj htext).symm
      · rw [if_neg hname] at htext
        exact hlater (horigin name text htext)

/-- **Every cache stays sound** that is empty at first. -/
theorem sound_after (hempty : c.IsEmpty s.files) (hc : c.directory.IsTidy)
    (hcache : f.cache = some c) (before : List Call) : Sound f c before (after f s before) := by
  induction before using List.reverseRecOn with
  | nil => exact sound_of_isEmpty hempty
  | append_singleton before x ih =>
    rw [after_concat]
    exact ih.step hc hcache x

/-- What a file in a sound cache holds was served in a call for it. -/
theorem Sound.exists_of_holds (h : Sound f c before s) (hc : c.directory.IsTidy)
    (hd : Holds s.files (x.file f c) d) :
    ∃ y ∈ before, y.file f c = x.file f c
      ∧ ∃ e, y.served f = some e ∧ Json.decode (written e) = .ok d := by
  obtain ⟨q, text, hq, -, htext, hdecode, -⟩ := hd
  obtain rfl := h.eq_place hc hq
  obtain ⟨y, hy, hname, e, he, rfl⟩ := h.origin _ _ htext
  refine ⟨y, hy, ?_, e, he, hdecode⟩
  show c.directory.below (y.fileName f) = c.directory.below (x.fileName f)
  exact congrArg _ hname.symm

/-- **Documents are not mixed up, except in shared files.** Two examples have
one cache file exactly if endpoint and key, joined by an underscore, lead the
same way. And the document that is decoded for an example was served for it,
in this call or, read back, in an earlier one for the same file. -/
theorem loadDocument_served (f : Fetcher) (c : Cache) (directory : String) (s : Session.State)
    (hcache : f.cache = some c) (hdirectory : c.directory = Path.ofText directory)
    (hempty : c.IsEmpty s.files) :
    (∀ (host e e' : String) (a a' : Json), '/' ∉ e.toList → '/' ∉ e'.toList →
      (c.file host (controller (.str e)) a = c.file host (controller (.str e')) a' ↔
        Path.namesIn (e ++ "_" ++ (a.display ++ ".json"))
          = Path.namesIn (e' ++ "_" ++ (a'.display ++ ".json"))))
    ∧ ∀ (before : List Call) (x : Call) (d : Json) (t : Session.State),
      (loadDocument x.server f x.endpoint x.action).perform (after f s before) = (.ok d, t) →
        x.served f = some d ∨ ∃ y ∈ before, y.file f c = x.file f c
          ∧ ∃ e, y.served f = some e ∧ Json.decode (written e) = .ok d := by
  have hc : c.directory.IsTidy := hdirectory ▸ Path.isTidy_ofText directory
  constructor
  · intro host e e' a a' he he'
    rw [controller_str, controller_str]
    exact file_eq_file_iff he he'
  · intro before x d t h
    obtain ⟨r, t', hload, hd, -⟩ :=
      loadDocument_eq x.server x.endpoint x.action (after f s before) hcache
    obtain ⟨rfl, rfl⟩ := Prod.mk.inj (hload.symm.trans h)
    rcases hd d rfl with hd | hd
    · exact .inr ((sound_after hempty hc hcache before).exists_of_holds hc hd)
    · exact .inl hd

/-- A document of a JSON example. -/
def jsonExample (content : String) : Json :=
  .obj [("example", .str content), ("format", .str "json")]

/-- It is written on two lines between those of its braces. -/
theorem writeIndented_jsonExample (content : String) : (jsonExample content).writeIndented
    = Json.layOut "\x7b" "\x7d" 0 [Json.writeString "example" ++ ": " ++ Json.writeString content,
      Json.writeString "format" ++ ": " ++ Json.writeString "json"] := by
  simp only [jsonExample, Json.writeIndented, Json.writeIndentedAt, Json.writeIndentedMembers]
  rw [List.mergeSort_of_pairwise (by simp)]
  rfl

/-- A cache whose files stay fresh for an hour. -/
def hourCache : Cache := ⟨Path.ofText "cache", .int 3600⟩

/-- A fetcher with that cache. -/
def hourly : Fetcher where
  host := "http://sonar"
  cache := some hourCache

/-- A session in which there is nothing but the directory of the cache. -/
def fresh : Session.State := { files := ⟨[], [Place.working.child "cache"]⟩ }

theorem isEmpty_hourCache : hourCache.IsEmpty fresh.files := by
  intro name
  have hdirectory : Place.ofPath hourCache.directory = Place.working.child "cache" := by
    decide +kernel
  rw [hdirectory]
  simp [fresh, Files.isDir, Files.read?, Place.child, Place.working, Place.isAbove]

/-- A server that has one document for an action, and another one for all
others. -/
def twoExamples : Server := fun q => .answered 200 "OK"
  (jsonExample (if q = .example_ "api/a_b" (.str "c") then "1" else "2")).write

/-- A call for that action. -/
def earlier : Call := ⟨twoExamples, .str "a_b", .str "c"⟩

/-- A call for another one, whose cache file is the same. -/
def later : Call := ⟨twoExamples, .str "a", .str "b_c"⟩

theorem served_earlier : earlier.served hourly = some (jsonExample "1") := by
  decide +kernel

theorem file_later : earlier.file hourly hourCache = later.file hourly hourCache := by
  decide +kernel

/-- The second call reads what the first one has stored. -/
theorem loadDocument_later :
    (loadDocument later.server hourly later.endpoint later.action).perform
        (after hourly fresh [earlier]) = (.ok (jsonExample "1"), after hourly fresh [earlier]) := by
  have hq : fresh.files.locate (earlier.file hourly hourCache).text
      = .ok (earlier.place hourly hourCache) := by
    decide +kernel
  have hflat := (sound_of_isEmpty (f := hourly) isEmpty_hourCache).flat
  obtain ⟨r, notices, hperform, -⟩ :=
    perform_of_free earlier (f := hourly) rfl hq (hflat _) (isEmpty_hourCache _).2
  have hafter : (after hourly fresh [earlier]).files
      = fresh.files.put (earlier.place hourly hourCache) (jsonExample "1").writeIndented := by
    rw [after, List.foldl_cons, List.foldl_nil, hperform, served_earlier]
    rfl
  have hdecode : Json.decode (written (jsonExample "1")) = .ok (jsonExample "1") := by
    rw [written, writeIndented_jsonExample]
    decide +kernel
  have hholds : Holds (after hourly fresh [earlier]).files (later.file hourly hourCache)
      (jsonExample "1") := by
    rw [← file_later, hafter]
    refine ⟨earlier.place hourly hourCache, written (jsonExample "1"),
      Files.locate_put (hflat _) hq _, Files.isDir_put_child (hflat _) _ _, ?_, hdecode,
      by simp [jsonExample]⟩
    rw [Files.read?_put, if_pos rfl]
    rfl
  exact loadDocument_of_holds rfl (by decide) hholds

/-- What is read back in a call for a shared file was served in the call
before. -/
theorem loadDocument_served_shared :
    (hourCache.file hourly.host (controller (.str "a_b")) (.str "c")
        = hourCache.file hourly.host (controller (.str "a")) (.str "b_c") ↔
      Path.namesIn ("a_b" ++ "_" ++ ((Json.str "c").display ++ ".json"))
        = Path.namesIn ("a" ++ "_" ++ ((Json.str "b_c").display ++ ".json")))
    ∧ (later.served hourly = some (jsonExample "1")
      ∨ ∃ y ∈ [earlier], y.file hourly hourCache = later.file hourly hourCache
        ∧ ∃ e, y.served hourly = some e ∧ Json.decode (written e) = .ok (jsonExample "1")) := by
  obtain ⟨hshared, hserved⟩ :=
    loadDocument_served hourly hourCache "cache" fresh rfl rfl isEmpty_hourCache
  exact ⟨hshared hourly.host "a_b" "a" (.str "c") (.str "b_c") (by decide) (by decide),
    hserved [earlier] later (jsonExample "1") _ loadDocument_later⟩

/-- **Two actions that share a file.** The second one gets the document of the
first one, which the server never had for it. -/
theorem loadDocument_other_action :
    earlier.pair ≠ later.pair ∧ '/' ∉ "a_b".toList ∧ '/' ∉ "a".toList
      ∧ earlier.file hourly hourCache = later.file hourly hourCache
      ∧ earlier.served hourly = some (jsonExample "1")
      ∧ later.served hourly = some (jsonExample "2")
      ∧ (loadDocument later.server hourly later.endpoint later.action).perform
          (after hourly fresh [earlier])
        = (.ok (jsonExample "1"), after hourly fresh [earlier]) :=
  ⟨by decide, by decide, by decide, file_later, served_earlier, by decide +kernel,
    loadDocument_later⟩

end Fetcher

end Exemplar
