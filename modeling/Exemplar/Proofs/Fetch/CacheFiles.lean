import Exemplar.Fetch
import Exemplar.Proofs.Files

/-!
# Files of a cache

The file for an example is named by a stem, which stands for the server and
the service, and by the key of the action. The stem has no slash, so the
file lies in the directory of the cache unless the key has one, and then it
would lie in a directory that no cache makes (`locate_file`).

The service and the key are joined by an underscore that either may hold
too. Two files are one exactly if the joined texts are
(`file_eq_file_iff`).
-/

namespace Exemplar

open Exemplar.Path

/-! ## Digits -/

/-- There is no slash among the digits of a number. -/
theorem Text.slash_not_mem_hex (width n : Nat) : '/' ∉ Text.hex width n := by
  have hdigit : ∀ m < 16, '/' ≠ Nat.digitChar m := by decide
  have hdigits : ∀ n : Nat, '/' ∉ Nat.toDigits 16 n := by
    intro n
    induction n using Nat.strongRecOn with
    | ind n ih =>
      rw [Nat.toDigits_eq_if (by decide)]
      by_cases hn : n < 16
      · rw [if_pos hn, List.mem_singleton]
        exact hdigit n hn
      · rw [if_neg hn, List.mem_append, List.mem_singleton, not_or]
        exact ⟨ih (n / 16) (by omega), hdigit _ (Nat.mod_lt n (by decide))⟩
  rw [Text.hex, List.mem_append, not_or]
  exact ⟨fun h => absurd (List.eq_of_mem_replicate h) (by decide), hdigits n⟩

/-- Nor in a digest. -/
theorem Digest.slash_not_mem_ofText (s : String) : '/' ∉ (Digest.ofText s).toList := by
  rw [Digest.ofText, String.toList_ofList]
  simp only [List.mem_flatMap, not_exists, not_and]
  exact fun _ _ _ _ => Text.slash_not_mem_hex 2 _

namespace Cache

/-! ## Names of files -/

/-- What the names of all files for a server start with. -/
def mark (host : String) : String :=
  "example_" ++ String.ofList ((Digest.ofText host).toList.take 8) ++ "_"

/-- What the names of all files for a service start with. -/
def stem (host controller : String) : String :=
  mark host ++ String.ofList (controller.toList.map fun c => if c = '/' then '_' else c) ++ "_"

variable {host controller : String} {action : Json} {c : Cache} {fs : Files} {q : Place}

theorem fileName_eq (host controller : String) (action : Json) :
    fileName host controller action = stem host controller ++ (action.display ++ ".json") := by
  simp only [fileName, stem, mark, toString, String.append_assoc]

/-- There is no slash in a stem, but a character that is no dot. -/
theorem slash_not_mem_stem (host controller : String) : '/' ∉ (stem host controller).toList := by
  have hdigest : '/' ∉ (Digest.ofText host).toList.take 8 :=
    fun h => Digest.slash_not_mem_ofText host (List.mem_of_mem_take h)
  have hsafe : '/' ∉ controller.toList.map fun c => if c = '/' then '_' else c := by
    intro h
    obtain ⟨c, -, hc⟩ := List.mem_map.mp h
    by_cases hslash : c = '/' <;> simp_all
  simp [stem, mark, hdigest, hsafe]

theorem underscore_mem_stem (host controller : String) : '_' ∈ (stem host controller).toList := by
  simp [stem]

/-- **The file for an action whose key has no slash** has one name. -/
theorem namesIn_fileName (ha : '/' ∉ action.display.toList) :
    namesIn (fileName host controller action) = [fileName host controller action] := by
  have hkey : partsOf (action.display ++ ".json") = [action.display ++ ".json"] :=
    partsOf_of_not_mem (by simp [ha])
  rw [fileName_eq, namesIn_append (slash_not_mem_stem host controller)
    (underscore_mem_stem host controller) (by decide) hkey]
  rfl

/-- A text with a slash that ends in a name has several names. -/
theorem partsOf_of_mem {key : String} (hkey : '/' ∈ key.toList) :
    ∃ first rest, partsOf (key ++ ".json") = first :: rest
      ∧ rest.filter (fun part => part ≠ "" ∧ part ≠ ".") ≠ [] := by
  obtain ⟨xs, ys, hsplit, hxs⟩ := List.eq_append_cons_of_mem hkey
  have hkey : key ++ ".json"
      = String.ofList xs ++ ("/" ++ (String.ofList ys ++ ".json")) := by
    rw [← String.toList_inj]
    simp [hsplit]
  obtain ⟨part, hpart, hc⟩ := exists_mem_partsOf (s := String.ofList ys ++ ".json") (c := 'j')
    (by simp) (by decide)
  refine ⟨String.ofList xs ++ "", partsOf (String.ofList ys ++ ".json"), ?_, ?_⟩
  · rw [hkey, partsOf_append (by simpa using hxs), partsOf_slash_append, List.modifyHead_cons]
  · refine List.ne_nil_of_mem (List.mem_filter.mpr ⟨hpart, ?_⟩)
    have hempty : part ≠ "" := fun h => by simp [h] at hc
    have hdot : part ≠ "." := fun h => by simp [h] at hc
    simp [hempty, hdot]

/-! ## Places of files -/

/-- **The place of the file for an example**, if the key of the action has no
slash. -/
def place (c : Cache) (host controller : String) (action : Json) : Place :=
  (Place.ofPath c.directory).child (fileName host controller action)

/-- **A cache is empty**: nothing stands right in its directory. -/
def IsEmpty (c : Cache) (fs : Files) : Prop :=
  ∀ name, fs.isDir ((Place.ofPath c.directory).child name) = false
    ∧ fs.read? ((Place.ofPath c.directory).child name) = none

/-- The names of cache files are none of the two dots. -/
theorem stem_append_ne (host controller part : String) : stem host controller ++ part ≠ ".." := by
  intro h
  have hmem : '_' ∈ (stem host controller ++ part).toList := by
    simp [underscore_mem_stem host controller]
  simp [h] at hmem

/-- **Where a cache file leads to**, if there are no directories in that of
the cache: right into it, and only if the key of the action has no slash. -/
theorem locate_file (hc : c.directory.IsTidy)
    (hflat : ∀ name, fs.isDir ((Place.ofPath c.directory).child name) = false)
    (hq : fs.locate (c.file host controller action).text = .ok q) :
    '/' ∉ action.display.toList ∧ q = c.place host controller action := by
  by_cases ha : '/' ∈ action.display.toList
  · obtain ⟨first, rest, hparts, hrest⟩ := partsOf_of_mem ha
    have hnames := namesIn_append (slash_not_mem_stem host controller)
      (underscore_mem_stem host controller) (by decide) hparts
    rw [← fileName_eq] at hnames
    have hup := stem_append_ne host controller first
    rcases Files.locate_below hc hnames hup hq with ⟨hnil, -⟩ | hdir
    · exact absurd hnil hrest
    · exact absurd hdir (by simp [hflat])
  · have hup : fileName host controller action ≠ ".." := by
      rw [fileName_eq]
      exact stem_append_ne host controller _
    rcases Files.locate_below hc (namesIn_fileName ha) hup hq with ⟨-, hq⟩ | hdir
    · exact ⟨ha, hq⟩
    · exact absurd hdir (by simp [hflat])

/-! ## Files that are one -/

/-- Two files of a cache are one exactly if their names lead the same way. -/
theorem file_eq_iff {host' controller' : String} {action' : Json} :
    c.file host controller action = c.file host' controller' action'
      ↔ namesIn (fileName host controller action)
        = namesIn (fileName host' controller' action') := by
  simp [file, below]

/-- The stem for a service whose endpoint has no slash ends in it. -/
theorem stem_controller {endpoint : String} (he : '/' ∉ endpoint.toList) (host : String) :
    stem host ("api/" ++ endpoint) = mark host ++ "api_" ++ (endpoint ++ "_") := by
  have hsafe : (endpoint.toList.map fun c => if c = '/' then '_' else c) = endpoint.toList := by
    refine (List.map_congr_left fun c hc => if_neg ?_).trans (List.map_id _)
    rintro rfl
    exact he hc
  have hfront : ("api/".toList.map fun c => if c = '/' then '_' else c) = "api_".toList := rfl
  rw [stem, String.toList_append, List.map_append, hsafe, hfront, ← String.toList_append,
    String.ofList_toList]
  simp only [String.append_assoc]

/-- **Two examples share a file** exactly if service and action, joined by an
underscore, lead the same way. -/
theorem file_eq_file_iff {e e' : String} {a a' : Json} (he : '/' ∉ e.toList)
    (he' : '/' ∉ e'.toList) :
    c.file host ("api/" ++ e) a = c.file host ("api/" ++ e') a' ↔
      namesIn (e ++ "_" ++ (a.display ++ ".json"))
        = namesIn (e' ++ "_" ++ (a'.display ++ ".json")) := by
  obtain ⟨part, rest, hparts⟩ := exists_partsOf_eq_cons (a.display ++ ".json")
  obtain ⟨part', rest', hparts'⟩ := exists_partsOf_eq_cons (a'.display ++ ".json")
  have hjoined : ∀ {e : String} {key part : String} {rest : List String}, '/' ∉ e.toList →
      partsOf key = part :: rest →
      namesIn (e ++ "_" ++ key)
        = (e ++ "_" ++ part) :: rest.filter (fun part => part ≠ "" ∧ part ≠ ".") :=
    fun he hkey => namesIn_append (c := '_') (by simp [he]) (by simp) (by decide) hkey
  have hfile : ∀ {e : String} {key part : String} {rest : List String},
      partsOf key = part :: rest →
      namesIn (stem host ("api/" ++ e) ++ key) = (stem host ("api/" ++ e) ++ part)
        :: rest.filter (fun part => part ≠ "" ∧ part ≠ ".") :=
    fun hkey => namesIn_append (slash_not_mem_stem host _) (underscore_mem_stem host _)
      (by decide) hkey
  have hassoc : ∀ x y : String, mark host ++ "api_" ++ x ++ y = mark host ++ "api_" ++ (x ++ y) :=
    fun _ _ => String.append_assoc
  rw [file_eq_iff, fileName_eq, fileName_eq, hfile hparts, hfile hparts', hjoined he hparts,
    hjoined he' hparts', List.cons.injEq, List.cons.injEq, stem_controller he,
    stem_controller he', hassoc, hassoc, String.append_right_inj]

end Cache

end Exemplar
