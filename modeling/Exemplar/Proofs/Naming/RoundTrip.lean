import Exemplar.Proofs.Naming.CamelCase
import Exemplar.Proofs.Naming.SnakeCase

/-!
# From an accessor to its attribute name and back

The attribute name of an accessor marks every boundary of words and forgets the
capitals. Put back into camel case, it is the accessor with small letters for the
capitals that start no word (`camel_snake`), and every boundary is where it was: the
capital at one is kept. A small letter or digit in front of it is what it was, and a
capital in front of it is still one or has become a small letter; the small letter
behind it is small still. So the attribute name of what comes back is the one there was
(`snake_camel_snake`), whether the words are single letters, runs of capitals or end in
digits.

Together with the two normal forms, these are the laws of names (`naming_laws`).
-/

namespace Exemplar.Naming

open Text (isAlnum isDigit isLower isUpper)

variable {c d : Char} {cs : List Char}

/-! ## Boundaries of words in a row -/

/-- At a boundary stands a capital. -/
theorem isUpper_of_isBoundary {after : Option Char} (h : isBoundary c d after = true) :
    isUpper d = true :=
  ((Bool.and_eq_true _ _).mp h).1

theorem head?_splitWords (cs : List Char) : (splitWords cs).head? = cs.head? := by
  fun_cases splitWords cs <;> rfl

theorem exists_splitWords_cons (c : Char) (cs : List Char) :
    ∃ rest, splitWords (c :: cs) = c :: rest :=
  List.head?_eq_some_iff.mp (head?_splitWords (c :: cs))

theorem getLast?_splitWords (cs : List Char) : (splitWords cs).getLast? = cs.getLast? := by
  fun_induction splitWords cs with
  | case1 => rfl
  | case2 c => rfl
  | case3 c d cs hb ih =>
    obtain ⟨rest, hrest⟩ := exists_splitWords_cons d cs
    rw [hrest] at ih ⊢
    rw [List.getLast?_cons_cons, List.getLast?_cons_cons, List.getLast?_cons_cons, ih]
  | case4 c d cs hb ih =>
    obtain ⟨rest, hrest⟩ := exists_splitWords_cons d cs
    rw [hrest] at ih ⊢
    rw [List.getLast?_cons_cons, List.getLast?_cons_cons, ih]

theorem of_mem_splitWords (h : c ∈ splitWords cs) : c ∈ cs ∨ c = '_' := by
  fun_induction splitWords cs with
  | case1 => exact .inl h
  | case2 d => exact .inl h
  | case3 d e cs hb ih =>
    rcases List.mem_cons.mp h with rfl | h
    · exact .inl List.mem_cons_self
    · rcases List.mem_cons.mp h with rfl | h
      · exact .inr rfl
      · exact (ih h).imp_left (List.mem_cons_of_mem d)
  | case4 d e cs hb ih =>
    rcases List.mem_cons.mp h with rfl | h
    · exact .inl List.mem_cons_self
    · exact (ih h).imp_left (List.mem_cons_of_mem d)

theorem isChain_splitWords (h : ∀ c ∈ cs, isAlnum c = true) :
    (splitWords cs).IsChain Joined := by
  fun_induction splitWords cs with
  | case1 => exact .nil
  | case2 c => exact .singleton c
  | case3 c d cs hb ih =>
    obtain ⟨hc, hrest⟩ := List.forall_mem_cons.mp h
    refine .cons_cons (.inl hc) (List.isChain_cons.mpr ⟨fun e he => .inr ?_, ih hrest⟩)
    exact hrest e (List.mem_of_mem_head? (head?_splitWords (d :: cs) ▸ he))
  | case4 c d cs hb ih =>
    obtain ⟨hc, hrest⟩ := List.forall_mem_cons.mp h
    exact List.isChain_cons.mpr ⟨fun _ _ => .inl hc, ih hrest⟩

/-- **The words of a row** are spaced by single underscores. -/
theorem isSpaced_splitWords (h : ∀ c ∈ cs, isAlnum c = true) : IsSpaced (splitWords cs) where
  chars c hc := (of_mem_splitWords hc).imp_left (h c)
  single := isChain_splitWords h
  start c hc := h c (List.mem_of_mem_head? (head?_splitWords cs ▸ hc))
  stop c hc := h c (List.mem_of_mem_getLast? (getLast?_splitWords cs ▸ hc))

/-- The letters of its attribute name are these words in small letters. -/
theorem body_eq_map (h : ∀ c ∈ cs, isAlnum c = true) :
    body cs = (splitWords cs).map Char.toLower := by
  rw [body, dropWhile_underscore_eq_self fun c hc => h c (List.mem_of_mem_head? hc),
    (isSpaced_splitWords h).trimUnderscores_eq]

/-! ## Settled rows -/

/-- Small letters for the capitals that start no word, behind a given character. -/
def lowerInside (before : Char) : List Char → List Char
  | [] => []
  | c :: cs => (if isBoundary before c cs.head? then c else c.toLower) :: lowerInside c cs

/-- **A row with capitals only where words start.** -/
def settled : List Char → List Char
  | [] => []
  | c :: cs => c :: lowerInside c cs

theorem isAlnum_of_mem_lowerInside (h : ∀ c ∈ cs, isAlnum c = true) (before : Char) :
    ∀ c ∈ lowerInside before cs, isAlnum c = true := by
  induction cs generalizing before with
  | nil => exact nofun
  | cons c cs ih =>
    obtain ⟨hc, hcs⟩ := List.forall_mem_cons.mp h
    refine List.forall_mem_cons.mpr ⟨?_, ih hcs c⟩
    split_ifs
    · exact hc
    · rwa [isAlnum_toLower]

/-- A capital behind a digit starts a word, so no digit gets a small letter behind it. -/
theorem isChain_lowerInside {before : Char} (hbefore : isDigit before = isDigit c)
    (h : (c :: cs).IsChain Raised) : (before :: lowerInside c cs).IsChain Raised := by
  induction cs generalizing before c with
  | nil => exact .singleton _
  | cons d cs ih =>
    obtain ⟨hcd, hrest⟩ := List.isChain_cons_cons.mp h
    refine List.isChain_cons_cons.mpr ⟨fun hdigit => ?_, ih ?_ hrest⟩
    · rw [hbefore] at hdigit
      have hd : isLower d = false := hcd hdigit
      split_ifs with hb
      · exact hd
      · have hupper : isUpper d = false := by simpa [isBoundary, hdigit] using hb
        rw [toLower_eq_self hupper, hd]
    · split_ifs
      · rfl
      · exact isDigit_toLower d

/-- **A settled row** is a row. -/
theorem IsRow.isRow_settled (h : IsRow cs) : IsRow (settled cs) := by
  cases cs with
  | nil => exact h
  | cons c cs =>
    obtain ⟨hc, hcs⟩ := List.forall_mem_cons.mp h.alnum
    exact ⟨List.forall_mem_cons.mpr ⟨hc, isAlnum_of_mem_lowerInside hcs c⟩, h.start,
      isChain_lowerInside rfl h.raised⟩

/-- Behind its first letter, the words of a row in small letters make what is behind it
in the settled row, once they have their capitals. -/
theorem exists_words_map_splitWords (h : ∀ d ∈ c :: cs, isAlnum d = true) :
    ∃ w ws, words ((splitWords (c :: cs)).map Char.toLower) = (c.toLower :: w) :: ws
      ∧ w ++ ws.flatMap capitalize = lowerInside c cs := by
  induction cs generalizing c with
  | nil =>
    refine ⟨[], [], words_eq_singleton ?_, rfl⟩
    simpa using h
  | cons d cs ih =>
    obtain ⟨hc, hrest⟩ := List.forall_mem_cons.mp h
    have hc' : isAlnum c.toLower = true := (isAlnum_toLower c).trans hc
    have hd' : isAlnum d.toLower = true := (isAlnum_toLower d).trans (hrest d List.mem_cons_self)
    obtain ⟨w, ws, hwords, hjoin⟩ := ih hrest
    by_cases hb : isBoundary c d cs.head? = true
    · -- The word in front ends, and the capital is what the word behind starts with.
      have hupper := isUpper_of_isBoundary hb
      refine ⟨[], (d.toLower :: w) :: ws, ?_, ?_⟩
      · rw [splitWords, if_pos hb, List.map_cons, List.map_cons, ← List.singleton_append,
          words_append_cons (by decide), words_eq_singleton (List.forall_mem_singleton.mpr hc'),
          hwords, List.singleton_append]
      · rw [lowerInside, if_pos hb, ← hjoin, List.nil_append, List.flatMap_cons, capitalize,
          toUpper_toLower (not_isLower_of_isUpper hupper).1, List.cons_append]
    · refine ⟨d.toLower :: w, ws, ?_, ?_⟩
      · obtain ⟨rest, hsplit⟩ := exists_splitWords_cons d cs
        rw [hsplit, List.map_cons] at hwords
        rw [splitWords, if_neg hb, hsplit, List.map_cons, List.map_cons]
        exact words_cons_cons hc' hd' hwords
      · rw [lowerInside, if_neg hb, ← hjoin, List.cons_append]

/-- **The words of an attribute name**, with capitals and in a row, are the settled
row. -/
theorem IsRow.flatMap_capitalize_words (h : IsRow cs) :
    (words (body cs)).flatMap capitalize = settled cs := by
  cases cs with
  | nil => rfl
  | cons c cs =>
    obtain ⟨w, ws, hwords, hjoin⟩ := exists_words_map_splitWords h.alnum
    rw [body_eq_map h.alnum, hwords, List.flatMap_cons, capitalize,
      toUpper_toLower (h.start c rfl), List.cons_append, hjoin, settled]

/-! ## Boundaries of words in a settled row -/

/-- A small letter in front stays one. -/
theorem any_isLower_lowerInside (h : cs.head?.any isLower = true) (before : Char) :
    (lowerInside before cs).head?.any isLower = true := by
  cases cs with
  | nil => exact h
  | cons c cs =>
    have hc : isLower c = true := h
    have hupper := (not_isUpper_of_isLower hc).1
    have hb : ¬ isBoundary before c cs.head? = true := by simp [isBoundary, hupper]
    rw [lowerInside, if_neg hb, toLower_eq_self hupper]
    exact h

/-- **A boundary stays one**, whether the character in front of it is lowered or not. -/
theorem isBoundary_lowerInside {before : Char} (hbefore : before = c ∨ before = c.toLower)
    (h : isBoundary c d cs.head? = true) : isBoundary before d (lowerInside d cs).head? = true := by
  simp only [isBoundary, Bool.and_eq_true, Bool.or_eq_true] at h ⊢
  obtain ⟨hd, hkind⟩ := h
  refine ⟨hd, ?_⟩
  rcases hkind with hc | ⟨hc, hafter⟩
  · have hupper : isUpper c = false :=
      hc.elim (fun hc => (not_isUpper_of_isLower hc).1) fun hc => (not_isLower_of_isDigit hc).2
    have hsame : before = c := hbefore.elim id fun h => h.trans (toLower_eq_self hupper)
    exact .inl (hsame ▸ hc)
  · -- A capital in front that was lowered makes the boundary as a small letter.
    rcases hbefore with rfl | rfl
    · exact .inr ⟨hc, any_isLower_lowerInside hafter d⟩
    · exact .inl (.inl (isLower_toLower hc).1)

/-- **The words of a settled row** are those of the row, up to capitals. -/
theorem map_splitWords_lowerInside {before : Char} (hbefore : before = c ∨ before = c.toLower) :
    (splitWords (before :: lowerInside c cs)).map Char.toLower
      = (splitWords (c :: cs)).map Char.toLower := by
  have hlower : before.toLower = c.toLower := by
    rcases hbefore with rfl | rfl
    · rfl
    · exact toLower_toLower c
  induction cs generalizing before c with
  | nil => exact congrArg (fun d => [d]) hlower
  | cons d cs ih =>
    by_cases hb : isBoundary c d cs.head? = true
    · rw [lowerInside, if_pos hb, splitWords, if_pos (isBoundary_lowerInside hbefore hb),
        splitWords, if_pos hb, List.map_cons, List.map_cons, hlower, ih (.inl rfl) rfl]
      rfl
    · have hb' : ¬ isBoundary before d.toLower (lowerInside d cs).head? = true := by
        simp [isBoundary]
      rw [lowerInside, if_neg hb, splitWords, if_neg hb', splitWords, if_neg hb, List.map_cons,
        List.map_cons, hlower, ih (.inr rfl) (toLower_toLower d)]

theorem IsRow.body_settled (h : IsRow cs) : body (settled cs) = body cs := by
  rw [body_eq_map h.alnum, body_eq_map h.isRow_settled.alnum]
  cases cs with
  | nil => rfl
  | cons c cs => exact map_splitWords_lowerInside (.inl rfl)

/-! ## There and back -/

/-- **The accessor of an attribute name** of a row is the settled row. -/
theorem camel_snake (h : IsRow cs) : camel (snake cs) = guardStart (settled cs) := by
  have hraise : raiseAfterDigits false (settled cs) = settled cs :=
    raiseAfterDigits_eq_self h.isRow_settled.raised nofun
  rw [camel_eq, row, snake_eq, words_guardReserved, words_guardStart,
    h.flatMap_capitalize_words, hraise]

/-- What goes down in a run of capitals does not come back, and its boundary stays. -/
example : camel (snake "HTMLReport2A".toList) = "HtmlReport2A".toList := by decide +kernel

/-- A guard in front makes no difference to an attribute name. -/
theorem snake_guardStart (cs : List Char) : snake (guardStart cs) = snake cs := by
  rw [snake_eq, ← List.append_nil (guardStart cs), body_guardStart_append, List.append_nil,
    snake_eq]

/-- **The attribute name of an accessor** is had again from the accessor it has
itself. -/
theorem snake_camel_snake (h : InCamelCase cs) : snake (camel (snake cs)) = snake cs := by
  obtain ⟨r, hr, rfl⟩ := h.exists_isRow
  calc snake (camel (snake (guardStart r)))
    _ = snake (guardStart (settled r)) := by rw [snake_guardStart, camel_snake hr]
    _ = snake r := by rw [snake_guardStart, snake_eq, hr.body_settled, snake_eq]
    _ = snake (guardStart r) := (snake_guardStart r).symm

/-- **Laws of names.** The accessor of a key is in camel case; the names in camel case
are those that are their own accessors, so that it is its own. An attribute name is in
snake case, whatever it is the name of; the names in snake case are those that are their
own attribute names, so that it is its own. And the attribute name of a key, which
modules and the attributes of requests are called by, is its own attribute name as a
key. -/
theorem naming_laws (key : String) :
    (InCamelCase (toCamel key).toList
      ∧ (toCamel key = key ↔ InCamelCase key.toList)
      ∧ toCamel (toCamel key) = toCamel key)
    ∧ (InSnakeCase (toSnake key).toList
      ∧ (toSnake key = key ↔ InSnakeCase key.toList)
      ∧ toSnake (toSnake key) = toSnake key)
    ∧ attributeName (attributeName key) = attributeName key := by
  have hcamel : InCamelCase (toCamel key).toList := by
    rw [toCamel, String.toList_ofList]
    exact inCamelCase_camel _
  have hsnake : InSnakeCase (toSnake key).toList := by
    rw [toSnake, String.toList_ofList]
    exact inSnakeCase_snake _
  have hname : attributeName (attributeName key) = attributeName key := by
    simp only [attributeName, toSnake, toCamel, String.toList_ofList]
    rw [snake_camel_snake (inCamelCase_camel _)]
  exact ⟨⟨hcamel, toCamel_eq_self_iff, toCamel_eq_self_iff.mpr hcamel⟩,
    ⟨hsnake, toSnake_eq_self_iff, toSnake_eq_self_iff.mpr hsnake⟩, hname⟩

end Exemplar.Naming
