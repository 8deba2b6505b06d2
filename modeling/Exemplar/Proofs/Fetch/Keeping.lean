import Exemplar.Proofs.Fetch.Runs
import Exemplar.Proofs.Json

/-!
# What a cache keeps

If the files of a cache stay fresh and can be had, and what is written reads
back, the file for an example holds the first document that was served for
it, and nothing is there before (`Kept`). Every call keeps it so, whatever
the server answers (`Kept.step`). Hence the server is asked for an example
until it has served a document, and that document answers all later calls
(`calls_answered`). What is stored is the document as it came: one that
cannot be decoded is stored too, and fails in the same way each time.
-/

namespace Exemplar

namespace Fetcher

open Cache

variable {f : Fetcher} {c : Cache} {s : Session.State} {x y : Call} {before calls : List Call}
  {d : Json} {q : Place}

/-! ## Documents that read back -/

/-- **A document of an example**: an object whose format and example are
texts. -/
def IsExample (d : Json) : Prop :=
  ∃ ms format content, d = .obj ms ∧ Json.find? "format" ms = some (.str format)
    ∧ Json.find? "example" ms = some (.str content)

/-- **A document reads back** from what is written of it, up to the order of
keys. -/
def ReadsBack (d : Json) : Prop := ∃ e, Json.decode (written d) = .ok e ∧ d.Reordered e

/-- A text is found in a reordered object too. -/
theorem find?_of_reordered {ms ns : List (String × Json)} {key text : String}
    (h : Json.Reordered (.obj ms) (.obj ns)) (hkey : Json.find? key ms = some (.str text)) :
    Json.find? key ns = some (.str text) := by
  have hmem := Json.mem_of_find? hkey
  cases h with
  | leaf h => nomatch h
  | obj hperm hvalues =>
    cases hfind : Json.find? key ns with
    | none =>
      refine absurd ?_ (Json.find?_eq_none_iff.mp hfind)
      exact hperm.mem_iff.mp (List.mem_map_of_mem hmem)
    | some v =>
      cases hvalues key _ v hmem (Json.mem_of_find? hfind) with
      | leaf _ => rfl

/-- **Decoding does not see the order of keys** in a document of an
example. -/
theorem decode_eq_of_reordered {e : Json} (hd : IsExample d) (h : d.Reordered e) :
    Example.decode d = Example.decode e := by
  obtain ⟨ms, format, content, rfl, hformat, hcontent⟩ := hd
  cases e with
  | obj ns =>
    simp only [Example.decode, hformat, hcontent, find?_of_reordered h hformat,
      find?_of_reordered h hcontent]
  | _ => exact absurd h (by rintro (_ | _))

/-! ## Files that hold what was served first -/

/-- **The file for each call is the one of its place**, and holds what was
served first for the same example. -/
structure Kept (f : Fetcher) (c : Cache) (calls before : List Call) (s : Session.State) :
    Prop where
  located : ∀ x ∈ calls, s.files.locate (x.file f c).text = .ok (x.place f c)
  content : ∀ x ∈ calls, s.files.read? (x.place f c) = (firstServed f x before).map written

/-- What was served first depends on what a call is for, and on nothing else
of it. -/
theorem firstServed_congr (h : y.pair = x.pair) :
    firstServed f y before = firstServed f x before := by
  rw [firstServed, firstServed, h]

theorem place_congr (h : y.pair = x.pair) : y.place f c = x.place f c := by
  obtain ⟨_, e, a⟩ := x
  obtain ⟨_, e', a'⟩ := y
  obtain ⟨rfl, rfl⟩ := Prod.mk.inj h
  rfl

/-- The file of a call for what was served before holds a document that
decodes alike. -/
theorem Kept.exists_holds (h : Kept f c calls before s) (hx : x ∈ calls)
    (hdir : s.files.isDir (x.place f c) = false) (hd : firstServed f x before = some d)
    (hexample : IsExample d) (hback : ReadsBack d) :
    ∃ e, Holds s.files (x.file f c) e ∧ Example.decode d = Example.decode e := by
  obtain ⟨e, hdecode, hreordered⟩ := hback
  have hnull : e ≠ .null := by
    obtain ⟨ms, -, -, rfl, -⟩ := hexample
    rintro rfl
    exact nomatch hreordered
  refine ⟨e, ⟨x.place f c, written d, h.located x hx, hdir, ?_, hdecode, hnull⟩,
    decode_eq_of_reordered hexample hreordered⟩
  rw [h.content x hx, hd]
  rfl

/-- **A call for what was served before** decodes it again, and leaves the
state as it is. -/
theorem Kept.perform_of_some (h : Kept f c calls before s) (hx : x ∈ calls)
    (hcache : f.cache = some c) (hfresh : c.isExpired = .ok false)
    (hdir : s.files.isDir (x.place f c) = false) (hd : firstServed f x before = some d)
    (hexample : IsExample d) (hback : ReadsBack d) :
    x.perform f s = ((Example.decode d).mapError (·.attributeTo x.endpoint x.action), s) := by
  obtain ⟨e, hholds, hdecode⟩ := h.exists_holds hx hdir hd hexample hback
  rw [perform_of_holds hcache hfresh hholds, hdecode]

/-- There is no file for what was not served before. -/
theorem Kept.read?_of_none (h : Kept f c calls before s) (hx : x ∈ calls)
    (hnone : firstServed f x before = none) : s.files.read? (x.place f c) = none := by
  rw [h.content x hx, hnone]
  rfl

/-- **A call keeps the files**, given that different examples have different
ones. -/
theorem Kept.step (h : Kept f c calls before s) (hx : x ∈ calls) (hcache : f.cache = some c)
    (hfresh : c.isExpired = .ok false)
    (hflat : ∀ name, s.files.isDir ((Place.ofPath c.directory).child name) = false)
    (hnames : ∀ y ∈ calls, y.fileName f = x.fileName f → y.pair = x.pair)
    (hfirst : ∀ d, firstServed f x before = some d → IsExample d ∧ ReadsBack d) :
    Kept f c calls (before ++ [x]) (x.perform f s).2 := by
  cases hd : firstServed f x before with
  | some d =>
    obtain ⟨hexample, hback⟩ := hfirst d hd
    rw [h.perform_of_some hx hcache hfresh (hflat _) hd hexample hback]
    refine ⟨h.located, fun y hy => ?_⟩
    rw [h.content y hy, firstServed_concat]
    by_cases hpair : x.pair = y.pair
    · rw [if_pos hpair, firstServed_congr hpair.symm, hd, Option.some_or]
    · rw [if_neg hpair]
  | none =>
    obtain ⟨r, notices, hperform, -⟩ :=
      perform_of_free x hcache (h.located x hx) (hflat _) (h.read?_of_none hx hd)
    rw [hperform]
    cases hserved : x.served f with
    | none =>
      refine ⟨h.located, fun y hy => ?_⟩
      rw [firstServed_concat, hserved, Option.or_none, ite_self]
      exact h.content y hy
    | some d =>
      refine ⟨fun y hy => Files.locate_put (hflat _) (h.located y hy) _, fun y hy => ?_⟩
      show (s.files.put (x.place f c) d.writeIndented).read? (y.place f c) = _
      rw [Files.read?_put, firstServed_concat, hserved]
      by_cases hpair : x.pair = y.pair
      · rw [if_pos (place_congr hpair), if_pos hpair, firstServed_congr hpair.symm, hd]
        rfl
      · have hplace : x.place f c ≠ y.place f c := fun h =>
          hpair (hnames y hy (Files.child_inj.mp h).symm).symm
        rw [if_neg hplace, if_neg hpair]
        exact h.content y hy

/-! ## Answers -/

/-- **How a call is answered** after others.

The place of its cache file holds the first document that was served for the
same example. If there is one, no request is made, and the outcome is what
decoding that document comes to. Otherwise there is exactly one request, and
the document in the reply is stored as it is before it is decoded; without
one the call fails and changes no file. In no case does another file
change. -/
structure Answered (f : Fetcher) (c : Cache) (before : List Call) (x : Call)
    (s : Session.State) : Prop where
  located : s.files.locate (x.file f c).text = .ok (x.place f c)
  content : s.files.read? (x.place f c) = (firstServed f x before).map written
  silent_iff : (x.perform f s).2.requests = s.requests ↔ ∃ d, firstServed f x before = some d
  stored : ∀ d, firstServed f x before = some d → x.perform f s
    = ((Example.decode d).mapError (·.attributeTo x.endpoint x.action), s)
  asked : firstServed f x before = none →
    (x.perform f s).2.requests = s.requests ++ [f.exampleRequest x.endpoint x.action]
  fetched : firstServed f x before = none → ∀ d, x.served f = some d →
    (x.perform f s).1 = (Example.decode d).mapError (·.attributeTo x.endpoint x.action)
      ∧ (x.perform f s).2.files.read? (x.place f c) = some (written d)
  failed : firstServed f x before = none → x.served f = none →
    (∃ fault, (x.perform f s).1 = .error fault) ∧ (x.perform f s).2.files = s.files
  others : ∀ q ≠ x.place f c, (x.perform f s).2.files.read? q = s.files.read? q
  made : (x.perform f s).2.files.made = s.files.made

/-- **Where files are kept**, a call is answered from them or by the
server. -/
theorem Kept.answered (h : Kept f c calls before s) (hx : x ∈ calls) (hcache : f.cache = some c)
    (hfresh : c.isExpired = .ok false) (hdir : s.files.isDir (x.place f c) = false)
    (hfirst : ∀ d, firstServed f x before = some d → IsExample d ∧ ReadsBack d) :
    Answered f c before x s := by
  have hstored : ∀ d, firstServed f x before = some d → x.perform f s
      = ((Example.decode d).mapError (·.attributeTo x.endpoint x.action), s) :=
    fun d hd =>
      h.perform_of_some hx hcache hfresh hdir hd (hfirst d hd).1 (hfirst d hd).2
  cases hd : firstServed f x before with
  | some d =>
    have hperform := hstored d hd
    refine ⟨h.located x hx, h.content x hx, ?_, hstored, ?_, ?_, ?_, ?_, ?_⟩
    all_goals simp [hperform, hd]
  | none =>
    obtain ⟨r, notices, hperform, hserved⟩ :=
      perform_of_free x hcache (h.located x hx) hdir (h.read?_of_none hx hd)
    refine ⟨h.located x hx, h.content x hx, ?_, hstored, ?_, ?_, ?_, ?_, ?_⟩
    · simp [hperform, hd]
    · simp [hperform]
    · intro _ d hxd
      rw [hperform, (hserved d).mpr hxd, hxd]
      refine ⟨rfl, ?_⟩
      show (s.files.put (x.place f c) d.writeIndented).read? (x.place f c) = _
      rw [Files.read?_put, if_pos rfl]
      rfl
    · intro _ hxd
      rw [hperform, hxd]
      refine ⟨?_, rfl⟩
      cases r with
      | error e => exact ⟨_, rfl⟩
      | ok d => exact nomatch hxd.symm.trans ((hserved d).mp rfl)
    · intro q hq
      rw [hperform]
      cases x.served f with
      | none => rfl
      | some d =>
        show (s.files.put (x.place f c) d.writeIndented).read? q = _
        rw [Files.read?_put, if_neg hq.symm]
    · rw [hperform]
      cases x.served f <;> rfl

/-- **Files are kept in every run** that starts with an empty cache. -/
theorem kept_after (hempty : c.IsEmpty s.files) (hc : c.directory.IsTidy)
    (hcache : f.cache = some c) (hfresh : c.isExpired = .ok false)
    (hfiles : ∀ x ∈ calls, ∃ q, s.files.locate (x.file f c).text = .ok q)
    (hnames : ∀ x ∈ calls, ∀ y ∈ calls, x.fileName f = y.fileName f → x.pair = y.pair)
    (hdocuments : ∀ x ∈ calls, ∀ d, x.served f = some d → IsExample d ∧ ReadsBack d)
    (hbefore : ∀ y ∈ before, y ∈ calls) : Kept f c calls before (after f s before) := by
  induction before using List.reverseRecOn with
  | nil =>
    refine ⟨fun x hx => ?_, fun x _ => (hempty (x.fileName f)).2⟩
    obtain ⟨q, hq⟩ := hfiles x hx
    rw [← (sound_of_isEmpty (f := f) hempty).eq_place hc hq]
    exact hq
  | append_singleton before x ih =>
    have hx : x ∈ calls := hbefore x (by simp)
    have hkept := ih fun y hy => hbefore y (List.mem_append_left [x] hy)
    rw [after_concat]
    refine hkept.step hx hcache hfresh (sound_after hempty hc hcache before).flat
      (fun y hy => hnames y hy x hx) fun d hd => ?_
    obtain ⟨y, hy, -, hserved⟩ := exists_of_firstServed hd
    exact hdocuments y (hbefore y (List.mem_append_left [x] hy)) d hserved

/-- **The cache is right in every run.** If its directory is empty at first,
its files stay fresh and can be had, different examples have files of
different names, and documents read back, then each call is answered by the
first document that was served for its example, and the server is asked only
as long as there is none. -/
theorem calls_answered (f : Fetcher) (c : Cache) (directory : String) (s : Session.State)
    (calls : List Call) (hcache : f.cache = some c)
    (hdirectory : c.directory = Path.ofText directory) (hfresh : c.isExpired = .ok false)
    (hempty : c.IsEmpty s.files)
    (hfiles : ∀ x ∈ calls, ∃ q, s.files.locate (x.file f c).text = .ok q)
    (hnames : ∀ x ∈ calls, ∀ y ∈ calls, x.fileName f = y.fileName f → x.pair = y.pair)
    (hdocuments : ∀ x ∈ calls, ∀ d, x.served f = some d → IsExample d ∧ ReadsBack d) :
    ∀ before x rest, calls = before ++ x :: rest → Answered f c before x (after f s before) := by
  intro before x rest heq
  have hc : c.directory.IsTidy := hdirectory ▸ Path.isTidy_ofText directory
  have hx : x ∈ calls := by simp [heq]
  have hbefore : ∀ y ∈ before, y ∈ calls := fun y hy => by simp [heq, hy]
  have hkept := kept_after hempty hc hcache hfresh hfiles hnames hdocuments hbefore
  refine hkept.answered hx hcache hfresh ((sound_after hempty hc hcache before).flat _) ?_
  intro d hd
  obtain ⟨y, hy, -, hserved⟩ := exists_of_firstServed hd
  exact hdocuments y (hbefore y hy) d hserved

/-- A JSON example is a document of an example. -/
theorem isExample_jsonExample (content : String) : IsExample (jsonExample content) :=
  ⟨_, "json", content, rfl, rfl, rfl⟩

/-- It reads back if its text is read as it was. -/
theorem readsBack_jsonExample {content : String}
    (h : Json.decode (written (jsonExample content)) = .ok (jsonExample content)) :
    ReadsBack (jsonExample content) := by
  refine ⟨_, h, .obj (List.Perm.refl _) fun k v w hv hw => ?_⟩
  simp only [List.mem_cons, Prod.mk.injEq, List.not_mem_nil, or_false] at hv hw
  rcases hv with ⟨rfl, rfl⟩ | ⟨rfl, rfl⟩ <;> rcases hw with ⟨hk, rfl⟩ | ⟨hk, rfl⟩
  · exact .leaf rfl
  · exact absurd hk (by decide)
  · exact absurd hk (by decide)
  · exact .leaf rfl

/-- The server fails at first, then has one example and later another one,
and for a second action one that cannot be decoded. -/
theorem calls_answered_search :
    let answering (content : String) : Server :=
      fun _ => .answered 200 "OK" (jsonExample content).write
    let failed : Call := ⟨fun _ => .failed "no route", .str "issues", .str "search"⟩
    let first : Call := ⟨answering "[1]", .str "issues", .str "search"⟩
    let broken : Call := ⟨answering "[", .str "issues", .str "list"⟩
    let second : Call := ⟨answering "[2]", .str "issues", .str "search"⟩
    let calls := [failed, first, broken, second]
    (hourCache.isExpired = .ok false ∧ hourCache.IsEmpty fresh.files
      ∧ (∀ x ∈ calls, ∃ q, fresh.files.locate (x.file hourly hourCache).text = .ok q)
      ∧ (∀ x ∈ calls, ∀ y ∈ calls, x.fileName hourly = y.fileName hourly → x.pair = y.pair)
      ∧ ∀ x ∈ calls, ∀ d, x.served hourly = some d → IsExample d ∧ ReadsBack d)
    ∧ firstServed hourly second [failed, first, broken] = some (jsonExample "[1]")
    ∧ Answered hourly hourCache [failed, first, broken] second
      (after hourly fresh [failed, first, broken]) := by
  intro answering failed first broken second calls
  have hplaces : ∀ x ∈ calls,
      fresh.files.locate (x.file hourly hourCache).text = .ok (x.place hourly hourCache) := by
    decide +kernel
  have hfiles : ∀ x ∈ calls, ∃ q, fresh.files.locate (x.file hourly hourCache).text = .ok q :=
    fun x hx => ⟨_, hplaces x hx⟩
  have hnames : ∀ x ∈ calls, ∀ y ∈ calls,
      x.fileName hourly = y.fileName hourly → x.pair = y.pair := by
    decide +kernel
  have hserved : calls.map (Call.served hourly)
      = [none, some (jsonExample "[1]"), some (jsonExample "["), some (jsonExample "[2]")] := by
    decide +kernel
  have hdecode : ∀ content ∈ ["[1]", "[", "[2]"],
      Json.decode (written (jsonExample content)) = .ok (jsonExample content) := by
    intro content
    rw [written, writeIndented_jsonExample]
    revert content
    decide +kernel
  have hdocuments : ∀ x ∈ calls, ∀ d, x.served hourly = some d → IsExample d ∧ ReadsBack d := by
    intro x hx d hd
    have hmem : some d ∈ calls.map (Call.served hourly) := hd ▸ List.mem_map_of_mem hx
    rw [hserved] at hmem
    simp only [List.mem_cons, Option.some.injEq, List.not_mem_nil, or_false, reduceCtorEq,
      false_or] at hmem
    rcases hmem with rfl | rfl | rfl <;>
      exact ⟨isExample_jsonExample _, readsBack_jsonExample (hdecode _ (by simp))⟩
  refine ⟨⟨by decide, isEmpty_hourCache, hfiles, hnames, hdocuments⟩, by decide +kernel, ?_⟩
  exact calls_answered hourly hourCache "cache" fresh calls rfl rfl (by decide) isEmpty_hourCache
    hfiles hnames hdocuments [failed, first, broken] second [] rfl

end Fetcher

end Exemplar
