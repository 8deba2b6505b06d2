import Exemplar.Files
import Mathlib.Data.List.Basic

/-!
# Where paths lead

A path that was read is **tidy**: none of its names is empty, a dot, or has
a slash in it. The text of a tidy path has the names of the path again
(`stepsOf_text`), so a walk along the text is a walk along the names
(`walk_of_locate`). And a walk that comes to its end is at the place
that the names lead to, whatever the files are (`ofPath_of_walk`): files
decide whether a path leads anywhere, and not where.

Writing a file where no directory is leaves all walks as they are
(`locate_put`). Of the directories that are there none is lost, and none is
made except above the file (`isDir_put_child`).
-/

namespace Exemplar

variable {s t part name other : String} {p : Path} {fs : Files} {q place d : Place}

namespace Path

/-! ## Names in a text -/

/-- A text without slashes is one part. -/
theorem partsOf_of_not_mem (h : '/' ∉ s.toList) : partsOf s = [s] := by
  rw [partsOf, List.splitOn_eq_singleton h]
  simp

/-- The parts of a text behind a slash. -/
theorem partsOf_slash_append (s : String) : partsOf ("/" ++ s) = "" :: partsOf s := by
  simp [partsOf, List.splitOn_cons_eq_if_modifyHead]

/-- **Names with slashes between them** are the parts of the text. -/
theorem partsOf_intercalate {parts : List String} (h : ∀ part ∈ parts, '/' ∉ part.toList)
    (hne : parts ≠ []) : partsOf ("/".intercalate parts) = parts := by
  have hlist : ("/".intercalate parts).toList = ['/'].intercalate (parts.map String.toList) :=
    String.toList_intercalate
  rw [partsOf, hlist, List.splitOn_intercalate '/' _ (by simpa using hne), List.map_map]
  · simp [Function.comp_def]
  · simpa using h

/-- What lies between separators has none in it. -/
theorem not_mem_of_mem_splitOn {sep : Char} {xs ys : List Char} (h : ys ∈ xs.splitOn sep) :
    sep ∉ ys := by
  induction xs generalizing ys with
  | nil =>
    rw [List.splitOn_nil, List.mem_singleton] at h
    simp [h]
  | cons x xs ih =>
    rw [List.splitOn_cons_eq_if_modifyHead] at h
    by_cases hx : x = sep
    · rw [if_pos (beq_iff_eq.mpr hx), List.mem_cons] at h
      rcases h with rfl | h
      · exact List.not_mem_nil
      · exact ih h
    · rw [if_neg (by simpa using hx)] at h
      cases hsplit : xs.splitOn sep with
      | nil => simp [hsplit] at h
      | cons zs rest =>
        rw [hsplit, List.modifyHead_cons, List.mem_cons] at h
        rcases h with rfl | h
        · have hzs : sep ∉ zs := ih (by simp [hsplit])
          simp [hzs, Ne.symm hx]
        · exact ih (by simp [hsplit, h])

/-- No part has a slash in it. -/
theorem slash_not_mem_of_mem_partsOf (h : part ∈ partsOf s) : '/' ∉ part.toList := by
  obtain ⟨cs, hcs, rfl⟩ := List.mem_map.mp h
  rw [String.toList_ofList]
  exact not_mem_of_mem_splitOn hcs

/-- Characters that are no separators, in front of a list, go to its first
part. -/
theorem splitOn_append_of_not_mem {sep : Char} {xs ys : List Char} (h : sep ∉ xs) :
    (xs ++ ys).splitOn sep = (ys.splitOn sep).modifyHead (xs ++ ·) := by
  induction xs with
  | nil => exact (congrFun List.modifyHead_id (ys.splitOn sep)).symm
  | cons x xs ih =>
    rw [List.mem_cons, not_or] at h
    rw [List.cons_append, List.splitOn_cons_eq_if_modifyHead, if_neg (by simpa using Ne.symm h.1),
      ih h.2, List.modifyHead_modifyHead]
    rfl

/-- A text without slashes in front of another one goes to its first
part. -/
theorem partsOf_append (h : '/' ∉ s.toList) (t : String) :
    partsOf (s ++ t) = (partsOf t).modifyHead (s ++ ·) := by
  rw [partsOf, String.toList_append, splitOn_append_of_not_mem h, partsOf]
  cases t.toList.splitOn '/' <;> simp [String.ofList_append]

/-- Nothing but separators is lost between the parts. -/
theorem exists_mem_splitOn {sep c : Char} {xs : List Char} (hc : c ∈ xs) (hne : c ≠ sep) :
    ∃ ys ∈ xs.splitOn sep, c ∈ ys := by
  induction xs with
  | nil => exact absurd hc List.not_mem_nil
  | cons x xs ih =>
    rw [List.splitOn_cons_eq_if_modifyHead]
    by_cases hx : x = sep
    · obtain ⟨ys, hys, hc⟩ := ih ((List.mem_cons.mp hc).resolve_left fun h => hne (h.trans hx))
      rw [if_pos (beq_iff_eq.mpr hx)]
      exact ⟨ys, List.mem_cons_of_mem _ hys, hc⟩
    · rw [if_neg (by simpa using hx)]
      obtain ⟨zs, rest, hsplit⟩ := List.exists_cons_of_ne_nil (List.splitOn_ne_nil sep xs)
      rw [hsplit, List.modifyHead_cons]
      rcases List.mem_cons.mp hc with rfl | hc
      · exact ⟨c :: zs, List.mem_cons_self, List.mem_cons_self⟩
      · obtain ⟨ys, hys, hc⟩ := ih hc
        rw [hsplit, List.mem_cons] at hys
        rcases hys with rfl | hys
        · exact ⟨x :: ys, List.mem_cons_self, List.mem_cons_of_mem x hc⟩
        · exact ⟨ys, List.mem_cons_of_mem _ hys, hc⟩

theorem exists_partsOf_eq_cons (s : String) : ∃ part rest, partsOf s = part :: rest :=
  List.exists_cons_of_ne_nil (by simp [partsOf, List.splitOn_ne_nil])

theorem exists_mem_partsOf {c : Char} (hc : c ∈ s.toList) (hne : c ≠ '/') :
    ∃ part ∈ partsOf s, c ∈ part.toList := by
  obtain ⟨cs, hcs, hc⟩ := exists_mem_splitOn hc hne
  exact ⟨String.ofList cs, List.mem_map_of_mem hcs, by simpa using hc⟩

theorem mem_namesIn_iff : part ∈ namesIn s ↔ part ∈ partsOf s ∧ part ≠ "" ∧ part ≠ "." := by
  simp [namesIn]

/-- **A stem in front of a text** goes to its first name, if it has no slash
and is not made of dots alone. -/
theorem namesIn_append {c : Char} {rest : List String} (hs : '/' ∉ s.toList)
    (hc : c ∈ s.toList) (hdot : c ≠ '.') (ht : partsOf t = part :: rest) :
    namesIn (s ++ t)
      = (s ++ part) :: rest.filter (fun part => part ≠ "" ∧ part ≠ ".") := by
  have hmem : c ∈ (s ++ part).toList := by simp [hc]
  have hempty : s ++ part ≠ "" := fun h => by simp [h] at hmem
  have hpoint : s ++ part ≠ "." := fun h => hdot (by simpa [h] using hmem)
  rw [namesIn, partsOf_append hs, ht, List.modifyHead_cons, List.filter_cons,
    if_pos (by simp only [hempty, hpoint, ne_eq, not_false_eq_true, and_self, decide_true])]

/-! ## Tidy paths -/

/-- **A tidy path**, as reading gives it. -/
structure IsTidy (p : Path) : Prop where
  root : p.root = "" ∨ p.root = "/" ∨ p.root = "//"
  parts : ∀ part ∈ p.parts, part ≠ "" ∧ part ≠ "." ∧ '/' ∉ part.toList

theorem isTidy_ofText (s : String) : (ofText s).IsTidy where
  root := by
    unfold ofText
    split <;> simp
  parts := by
    intro part hpart
    obtain ⟨hmem, hne, hdot⟩ := mem_namesIn_iff.mp hpart
    exact ⟨hne, hdot, slash_not_mem_of_mem_partsOf hmem⟩

theorem IsTidy.below (h : p.IsTidy) (name : String) : (p.below name).IsTidy where
  root := h.root
  parts := by
    intro part hpart
    rcases List.mem_append.mp hpart with hpart | hpart
    · exact h.parts part hpart
    · obtain ⟨hmem, hne, hdot⟩ := mem_namesIn_iff.mp hpart
      exact ⟨hne, hdot, slash_not_mem_of_mem_partsOf hmem⟩

/-- The text of a tidy path, from its root on. -/
theorem text_eq (hne : p.parts ≠ []) : p.text = p.root ++ "/".intercalate p.parts := by
  rw [text, if_neg (fun h => hne h.2)]

/-- **The text of a tidy path has the names of the path**, and what its root
leaves in front of them. -/
theorem IsTidy.partsOf_text (h : p.IsTidy) (hne : p.parts ≠ []) :
    ∃ k, partsOf p.text = List.replicate k "" ++ p.parts := by
  have hparts : partsOf ("/".intercalate p.parts) = p.parts :=
    partsOf_intercalate (fun part hpart => (h.parts part hpart).2.2) hne
  rw [text_eq hne]
  rcases h.root with hroot | hroot | hroot
  · exact ⟨0, by simpa [hroot] using hparts⟩
  · exact ⟨1, by rw [hroot, partsOf_slash_append, hparts]; rfl⟩
  · refine ⟨2, ?_⟩
    have htwo : ("//" : String) ++ "/".intercalate p.parts
        = "/" ++ ("/" ++ "/".intercalate p.parts) := by
      rw [← String.append_assoc]
      rfl
    rw [hroot, htwo, partsOf_slash_append, partsOf_slash_append, hparts]
    rfl

/-- A text of names starts and ends in a name. -/
theorem exists_ends_intercalate {parts : List String}
    (h : ∀ part ∈ parts, part ≠ "" ∧ '/' ∉ part.toList) (hne : parts ≠ []) :
    (∃ c ≠ '/', ("/".intercalate parts).toList.head? = some c)
      ∧ ∃ c ≠ '/', ("/".intercalate parts).toList.getLast? = some c := by
  have hends : ∀ part : String, part ≠ "" → '/' ∉ part.toList →
      (∃ c ≠ '/', part.toList.head? = some c) ∧ ∃ c ≠ '/', part.toList.getLast? = some c := by
    intro part hpart hslash
    have hlist : part.toList ≠ [] := fun h => hpart (String.toList_eq_nil_iff.mp h)
    exact ⟨⟨_, fun h => hslash (h ▸ List.head_mem hlist), List.head?_eq_some_head hlist⟩,
      ⟨_, fun h => hslash (h ▸ List.getLast_mem hlist), List.getLast?_eq_some_getLast hlist⟩⟩
  induction parts with
  | nil => exact absurd rfl hne
  | cons part parts ih =>
    obtain ⟨hpart, hslash⟩ := h part List.mem_cons_self
    cases parts with
    | nil => simpa using hends part hpart hslash
    | cons other parts =>
      obtain ⟨-, c, hc, hlast⟩ :=
        ih (fun x hx => h x (List.mem_cons_of_mem part hx)) (List.cons_ne_nil _ _)
      obtain ⟨⟨b, hb, hhead⟩, -⟩ := hends part hpart hslash
      rw [String.intercalate_cons_cons]
      exact ⟨⟨b, hb, by simp [List.head?_append, hhead]⟩, c, hc, by
        rw [String.toList_append, List.getLast?_append, hlast, Option.some_or]⟩

/-- The text of a tidy path ends in a name. -/
theorem IsTidy.getLast?_text_ne (h : p.IsTidy) (hne : p.parts ≠ []) :
    p.text.toList.getLast? ≠ some '/' := by
  obtain ⟨-, c, hc, hlast⟩ := exists_ends_intercalate
    (fun part hpart => ⟨(h.parts part hpart).1, (h.parts part hpart).2.2⟩) hne
  rw [text_eq hne, String.toList_append, List.getLast?_append, hlast, Option.some_or]
  exact fun h => hc (Option.some.inj h)

/-- It starts with a slash only if its root does. -/
theorem IsTidy.start_text (h : p.IsTidy) (hne : p.parts ≠ []) :
    Place.start p.text = Place.start p.root := by
  obtain ⟨⟨c, hc, hhead⟩, -⟩ := exists_ends_intercalate
    (fun part hpart => ⟨(h.parts part hpart).1, (h.parts part hpart).2.2⟩) hne
  rw [text_eq hne]
  rcases h.root with hroot | hroot | hroot
  · rw [hroot, String.empty_append, Place.start, hhead, if_neg (fun h => hc (Option.some.inj h))]
    rfl
  · simp [Place.start, hroot]
  · simp [Place.start, hroot]

/-- The names of a tidy path are all kept. -/
theorem IsTidy.filter_partsOf_text (h : p.IsTidy) (hne : p.parts ≠ []) :
    (partsOf p.text).filter (· ≠ "") = p.parts := by
  obtain ⟨k, hk⟩ := h.partsOf_text hne
  have hroot : (List.replicate k "").filter (· ≠ "") = [] :=
    List.filter_eq_nil_iff.mpr fun part hpart => by simp [(List.mem_replicate.mp hpart).2]
  have hparts : p.parts.filter (· ≠ "") = p.parts :=
    List.filter_eq_self.mpr fun part hpart => by simpa using (h.parts part hpart).1
  rw [hk, List.filter_append, hroot, hparts, List.nil_append]

end Path

namespace Files

open Exemplar.Path

/-! ## Walks along a path -/

/-- **A walk along the names of a path.** -/
def walk (fs : Files) (p : Path) : Except FileTrouble Place :=
  p.parts.foldlM fs.step (Place.start p.root)

/-- **The steps along the text of a tidy path** are its names. -/
theorem stepsOf_text (h : p.IsTidy) (hne : p.parts ≠ []) : stepsOf p.text = p.parts := by
  rw [stepsOf, if_neg (h.getLast?_text_ne hne)]
  exact h.filter_partsOf_text hne

/-- **A walk along a text** is made step by step, if texts like this can be
walked along at all. -/
theorem locate_eq_ok_iff : fs.locate t = .ok q ↔
    (Char.ofNat 0 ∉ t.toList ∧ t ≠ "" ∧ t.utf8ByteSize ≤ pathLimit)
      ∧ (stepsOf t).foldlM fs.step (Place.start t) = .ok q := by
  rw [locate]
  by_cases hnul : Char.ofNat 0 ∈ t.toList
  · simp [hnul]
  · by_cases hempty : t = ""
    · simp [hempty]
    · by_cases hlong : pathLimit < t.utf8ByteSize
      · simp [hnul, hempty, hlong, Nat.not_le.mpr hlong]
      · simp [hnul, hempty, hlong, Nat.not_lt.mp hlong]

/-- **The character NUL** is what no text may hold, and no step of a walk finds it. -/
theorem locate_eq_nul_iff : fs.locate t = .error .nul ↔ Char.ofNat 0 ∈ t.toList := by
  have hstep : ∀ place name, fs.step place name ≠ .error .nul := by
    intro place name
    rw [step]
    split_ifs <;> simp
  have hwalk : ∀ (names : List String) (place : Place),
      names.foldlM fs.step place ≠ .error .nul := by
    intro names
    induction names with
    | nil => exact fun place => nofun
    | cons name names ih =>
      intro place
      rw [List.foldlM_cons]
      cases hname : fs.step place name with
      | error t => exact fun h => hstep place name (hname.trans h)
      | ok q => exact ih q
  rw [locate]
  by_cases hnul : Char.ofNat 0 ∈ t.toList
  · simp [hnul]
  · rw [if_neg (by simpa using hnul)]
    refine iff_of_false ?_ hnul
    split_ifs
    · simp
    · simp
    · exact hwalk _ _

/-- The walk along the text of a tidy path is the one along its names. -/
theorem walk_of_locate (h : p.IsTidy) (hne : p.parts ≠ []) (hq : fs.locate p.text = .ok q) :
    fs.walk p = .ok q := by
  have hsteps := (locate_eq_ok_iff.mp hq).2
  rwa [stepsOf_text h hne, h.start_text hne] at hsteps

/-- **A step that can be made** leads along the name. -/
theorem step_eq_ok_iff : fs.step place name = .ok q ↔
    fs.isFile place = false ∧ fs.isDir place = true
      ∧ ¬ (name ≠ "." ∧ name ≠ ".." ∧ nameLimit < name.utf8ByteSize) ∧ place.along name = q := by
  rw [step]
  by_cases hfile : fs.isFile place = true
  · simp [hfile]
  · by_cases hdir : fs.isDir place = true
    · by_cases hlong : name ≠ "." ∧ name ≠ ".." ∧ nameLimit < name.utf8ByteSize
      · rw [if_neg hfile, if_neg (by simp [hdir]), if_pos hlong]
        simp [hlong]
      · rw [if_neg hfile, if_neg (by simp [hdir]), if_neg hlong, Except.ok.injEq]
        simp only [Bool.not_eq_true] at hfile
        simp only [hfile, hdir, hlong, true_and, not_false_eq_true]
    · simp [hfile, hdir]

/-- A step, and then the others. -/
theorem foldlM_step_cons_eq_ok_iff {names : List String} :
    (name :: names).foldlM fs.step place = .ok q ↔
      ∃ r, fs.step place name = .ok r ∧ names.foldlM fs.step r = .ok q := by
  rw [List.foldlM_cons]
  cases fs.step place name <;> simp [bind, Except.bind]

/-- Some steps, and then the others. -/
theorem foldlM_step_append_eq_ok_iff {names others : List String} :
    (names ++ others).foldlM fs.step place = .ok q ↔
      ∃ r, names.foldlM fs.step place = .ok r ∧ others.foldlM fs.step r = .ok q := by
  rw [List.foldlM_append]
  cases names.foldlM fs.step place <;> simp [bind, Except.bind]

/-- Steps that can all be made lead along the names. -/
theorem foldl_along_of_foldlM_step {names : List String}
    (h : names.foldlM fs.step place = .ok q) : names.foldl Place.along place = q := by
  induction names generalizing place with
  | nil => exact Except.ok.inj h
  | cons name names ih =>
    obtain ⟨r, hr, h⟩ := foldlM_step_cons_eq_ok_iff.mp h
    obtain ⟨-, -, -, rfl⟩ := step_eq_ok_iff.mp hr
    exact ih h

/-- **A walk that comes to its end** is where the names lead to. -/
theorem ofPath_of_walk (h : fs.walk p = .ok q) : Place.ofPath p = q :=
  foldl_along_of_foldlM_step h

/-- **Where a name below a path leads to**, if it leads anywhere. One name
leads right below the place of the path, and several names ask for a
directory there. -/
theorem locate_below (h : p.IsTidy) {names : List String} (hnames : namesIn s = name :: names)
    (hup : name ≠ "..") (hq : fs.locate (p.below s).text = .ok q) :
    (names = [] ∧ q = (Place.ofPath p).child name)
      ∨ fs.isDir ((Place.ofPath p).child name) = true := by
  have hparts : (p.below s).parts = p.parts ++ name :: names := by rw [below, hnames]
  have hwalk := walk_of_locate (h.below s) (by simp [hparts]) hq
  rw [walk, hparts, foldlM_step_append_eq_ok_iff] at hwalk
  obtain ⟨d, hd, hwalk⟩ := hwalk
  obtain rfl : Place.ofPath p = d := ofPath_of_walk hd
  obtain ⟨r, hr, hwalk⟩ := foldlM_step_cons_eq_ok_iff.mp hwalk
  obtain ⟨-, -, -, rfl⟩ := step_eq_ok_iff.mp hr
  have hdot : name ≠ "." := (mem_namesIn_iff.mp (hnames ▸ List.mem_cons_self)).2.2
  have halong : (Place.ofPath p).along name = (Place.ofPath p).child name := by
    rw [Place.along, if_neg hdot, if_neg hup]
  rw [halong] at hwalk
  cases names with
  | nil => exact .inl ⟨rfl, (Except.ok.inj hwalk).symm⟩
  | cons other names =>
    obtain ⟨_, hother, -⟩ := foldlM_step_cons_eq_ok_iff.mp hwalk
    exact .inr (step_eq_ok_iff.mp hother).2.1

/-- **One name below a path** leads right below the place of the path. -/
theorem eq_child_of_locate_below (h : p.IsTidy) (hslash : '/' ∉ s.toList) (hempty : s ≠ "")
    (hdot : s ≠ ".") (hup : s ≠ "..") (hq : fs.locate (p.below s).text = .ok q) :
    q = (Place.ofPath p).child s := by
  have hparts : (p.below s).parts = p.parts ++ [s] := by
    rw [below, namesIn, partsOf_of_not_mem hslash]
    simp [hempty, hdot]
  have hwalk := ofPath_of_walk (walk_of_locate (h.below s) (by simp [hparts]) hq)
  rw [← hwalk, Place.ofPath, hparts, List.foldl_append, List.foldl_cons, List.foldl_nil]
  show (Place.ofPath p).along s = _
  rw [Place.along, if_neg hdot, if_neg hup]

/-! ## Writing a file -/

/-- There is a file exactly where there is a text to read. -/
theorem isFile_eq_isSome_read? (fs : Files) (p : Place) : fs.isFile p = (fs.read? p).isSome := by
  rw [isFile, read?, Option.isSome_map, Bool.eq_iff_iff, List.any_eq_true, List.find?_isSome]

theorem isFile_put_of_ne (h : q ≠ place) (s : String) :
    (fs.put q s).isFile place = fs.isFile place := by
  rw [isFile_eq_isSome_read?, read?_put, if_neg h, isFile_eq_isSome_read?]

/-- No directory is lost when a file is written. -/
theorem isDir_put_of_isDir (h : fs.isDir d = true) (q : Place) (s : String) :
    (fs.put q s).isDir d = true := by
  simp only [isDir, put, Bool.or_eq_true, decide_eq_true_eq] at h ⊢
  rcases h with h | h
  · exact .inl h
  · obtain ⟨⟨r, text⟩, hr, habove⟩ := List.any_eq_true.mp h
    refine .inr (List.any_eq_true.mpr ?_)
    by_cases hrq : r = q
    · exact ⟨(q, s), List.mem_cons_self, hrq ▸ habove⟩
    · exact ⟨(r, text), List.mem_cons_of_mem _ (by simp [hr, hrq]), habove⟩

/-- A step that could be made can be made after a file is written where no
directory is. -/
theorem step_put (hq : fs.isDir q = false) (h : fs.step d name = .ok place) (s : String) :
    (fs.put q s).step d name = .ok place := by
  obtain ⟨hfile, hdir, hname, rfl⟩ := step_eq_ok_iff.mp h
  have hne : q ≠ d := by
    rintro rfl
    exact Bool.false_ne_true (hq.symm.trans hdir)
  exact step_eq_ok_iff.mpr
    ⟨(isFile_put_of_ne hne s).trans hfile, isDir_put_of_isDir hdir q s, hname, rfl⟩

/-- **A file that is written where no directory is** stands in nobody's
way. -/
theorem locate_put (hq : fs.isDir q = false) (h : fs.locate t = .ok place) (s : String) :
    (fs.put q s).locate t = .ok place := by
  have hsteps : ∀ (names : List String) (d : Place), names.foldlM fs.step d = .ok place →
      names.foldlM (fs.put q s).step d = .ok place := by
    intro names
    induction names with
    | nil => exact fun d h => h
    | cons name names ih =>
      intro d h
      obtain ⟨r, hr, h⟩ := foldlM_step_cons_eq_ok_iff.mp h
      exact foldlM_step_cons_eq_ok_iff.mpr ⟨r, step_put hq hr s, ih r h⟩
  obtain ⟨htext, hwalk⟩ := locate_eq_ok_iff.mp h
  exact locate_eq_ok_iff.mpr ⟨htext, hsteps _ _ hwalk⟩

theorem child_inj : d.child name = d.child other ↔ name = other := by
  simp [Place.child]

/-- Of two places in one directory none lies above the other. -/
theorem isAbove_child (d : Place) (name other : String) :
    (d.child name).isAbove (d.child other) = false := by
  by_cases h : name = other
  · simp [Place.isAbove, h]
  · have hprefix : (d.child name).names.isPrefixOf (d.child other).names = false := by
      rw [Bool.eq_false_iff, ne_eq, List.isPrefixOf_iff_prefix]
      intro hp
      have heq := hp.eq_of_length (by simp [Place.child])
      exact h (by simpa [Place.child] using heq)
    simp [Place.isAbove, hprefix]

/-- **A file makes no directory beside it.** -/
theorem isDir_put_child (h : fs.isDir (d.child name) = false) (other s : String) :
    (fs.put (d.child other) s).isDir (d.child name) = false := by
  simp only [isDir, put, Bool.or_eq_false_iff, List.any_cons, isAbove_child, true_and] at h ⊢
  obtain ⟨hmade, htexts⟩ := h
  refine ⟨hmade, Bool.eq_false_iff.mpr fun hany => ?_⟩
  obtain ⟨x, hx, habove⟩ := List.any_eq_true.mp hany
  exact Bool.false_ne_true
    (htexts.symm.trans (List.any_eq_true.mpr ⟨x, List.mem_of_mem_filter hx, habove⟩))

/-! ## What files hold -/

/-- **The text of a file**, as it was written. -/
def text? (fs : Files) (p : Place) : Option String := (fs.texts.find? (·.1 = p)).map Prod.snd

/-- **The last text written to a place is the one it holds**, and no other
place is touched. -/
theorem text?_put (fs : Files) (q place : Place) (s : String) :
    (fs.put q s).text? place = if q = place then some s else fs.text? place := by
  by_cases h : q = place
  · simp [put, text?, h]
  · rw [if_neg h, text?, put, List.find?_cons_of_neg (by simpa using h), List.find?_filter, text?]
    congr 2
    funext x
    by_cases hx : x.1 = place
    · simp [hx, Ne.symm h]
    · simp [hx]

/-- **Files that are the same** for whoever reads them: the same directories were
made, and each place holds the same text. -/
structure Same (fs fs' : Files) : Prop where
  text?_eq : ∀ place, fs.text? place = fs'.text? place
  made_eq : fs.made = fs'.made

namespace Same

variable {fs fs' : Files}

theorem refl (fs : Files) : fs.Same fs := ⟨fun _ => rfl, rfl⟩

theorem trans {fs'' : Files} (h : fs.Same fs') (h' : fs'.Same fs'') : fs.Same fs'' :=
  ⟨fun place => (h.text?_eq place).trans (h'.text?_eq place), h.made_eq.trans h'.made_eq⟩

theorem put (h : fs.Same fs') (q : Place) (s : String) : (fs.put q s).Same (fs'.put q s) where
  text?_eq := fun place => by rw [text?_put, text?_put, h.text?_eq]
  made_eq := h.made_eq

end Same

/-- Texts at different places may be set in either order. -/
theorem put_comm (h : q ≠ place) (fs : Files) (s t : String) :
    ((fs.put q s).put place t).Same ((fs.put place t).put q s) where
  text?_eq := by
    intro other
    simp only [text?_put]
    by_cases hq : q = other
    · rw [if_pos hq, if_pos hq, if_neg fun hplace => h (hq.trans hplace.symm)]
    · rw [if_neg hq, if_neg hq]
  made_eq := rfl

/-- **Several texts set**, one after the other, each under a name below a
place. -/
def putAll (fs : Files) (d : Place) (named : List (String × String)) : Files :=
  named.foldl (fun fs m => fs.put (d.child m.1) m.2) fs

theorem Same.putAll {fs' : Files} (h : fs.Same fs') (d : Place) (named : List (String × String)) :
    (fs.putAll d named).Same (fs'.putAll d named) := by
  induction named generalizing fs fs' with
  | nil => exact h
  | cons m named ih => exact ih (h.put (d.child m.1) m.2)

/-- **Texts under different names may be set in any order.** -/
theorem putAll_perm {named named' : List (String × String)} (hp : named.Perm named')
    (hn : (named.map Prod.fst).Nodup) (fs : Files) (d : Place) :
    (fs.putAll d named).Same (fs.putAll d named') := by
  induction hp generalizing fs with
  | nil => exact .refl fs
  | cons m _ ih => exact ih (List.nodup_cons.mp hn).2 _
  | swap m m' rest =>
    have hne : m'.1 ≠ m.1 := fun h => (List.nodup_cons.mp hn).1 (h ▸ List.mem_cons_self)
    exact (put_comm (mt child_inj.mp hne) fs m'.2 m.2).putAll d rest
  | trans hp _ ih ih' => exact (ih hn fs).trans (ih' ((hp.map Prod.fst).nodup_iff.mp hn) fs)

/-- What can be written was written. -/
theorem eq_put_of_write {fs' : Files} (h : fs.write p s = .ok fs') :
    ∃ q, fs.locate p.text = .ok q ∧ fs.isDir q = false ∧ fs' = fs.put q s := by
  rw [write] at h
  cases hq : fs.locate p.text with
  | error t => simp [hq, bind, Except.bind] at h
  | ok q =>
    cases hdir : fs.isDir q with
    | true => simp [hq, hdir, bind, Except.bind] at h
    | false =>
      refine ⟨q, rfl, hdir, ?_⟩
      simpa [hq, hdir, bind, Except.bind, pure, Except.pure] using h.symm

/-- Making a directory writes no file. -/
theorem texts_of_makeDir {fs' : Files} (h : fs.makeDir p = .ok fs') : fs'.texts = fs.texts := by
  rw [makeDir] at h
  cases hq : fs.locate p.text with
  | error t => simp [hq, bind, Except.bind] at h
  | ok q =>
    simp only [hq, bind, Except.bind] at h
    split at h
    · nomatch h
    · rw [← Except.ok.inj h]

/-- Nor does a directory that is there after all. -/
theorem eq_of_despite {fs' : Files} {t : FileTrouble} (h : fs.despite p t = .ok fs') :
    fs' = fs := by
  rw [despite] at h
  split at h
  · exact (Except.ok.inj h).symm
  · nomatch h

/-- **Making directories writes no file.** -/
theorem texts_of_makeDirsUp {root : String} {names : List String} {fs' : Files}
    (h : fs.makeDirsUp root names = .ok fs') : fs'.texts = fs.texts := by
  induction names generalizing fs fs' with
  | nil =>
    rw [makeDirsUp] at h
    rw [← Except.ok.inj h]
  | cons name above ih =>
    rw [makeDirsUp] at h
    split at h
    · next made hmade =>
      rw [← Except.ok.inj h]
      exact texts_of_makeDir hmade
    · cases habove : fs.makeDirsUp root above with
      | error b => simp [habove, bind, Except.bind] at h
      | ok made =>
        simp only [habove, bind, Except.bind] at h
        split at h
        · next again hagain =>
          rw [← Except.ok.inj h]
          exact (texts_of_makeDir hagain).trans (ih habove)
        · rw [eq_of_despite h]
          exact ih habove
    · rw [eq_of_despite h]

theorem texts_of_makeDirs {fs' : Files} (h : fs.makeDirs p = .ok fs') : fs'.texts = fs.texts :=
  texts_of_makeDirsUp h

end Files

end Exemplar
