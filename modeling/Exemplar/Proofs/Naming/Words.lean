import Exemplar.Proofs.Naming

/-!
# Words of a key and guards of a name

A word ends where the next character is no letter or digit. So the words of a text
are those on either side of any such character (`words_append_cons`), and the
underscores that a name is guarded with belong to none of them.
-/

namespace Exemplar.Naming

open Text (isAlnum isDigit)

variable {c d : Char} {cs ds : List Char}

/-! ## Words -/

/-- What is no letter or digit belongs to no word. -/
theorem words_cons_of_not_isAlnum (h : isAlnum c = false) (cs : List Char) :
    words (c :: cs) = words cs := by
  cases cs <;> simp [words, h]

/-- A letter or digit belongs to the word of the one behind it. -/
theorem words_cons_cons {w : List Char} {ws : List (List Char)} (hc : isAlnum c = true)
    (hd : isAlnum d = true) (h : words (d :: cs) = w :: ws) :
    words (c :: d :: cs) = (c :: w) :: ws := by
  conv_lhs => unfold words
  rw [if_pos hc, h]
  exact if_pos hd

/-- It is a word of its own where there is none. -/
theorem words_cons_of_head? (hc : isAlnum c = true) (h : ∀ d ∈ cs.head?, isAlnum d = false) :
    words (c :: cs) = [c] :: words cs := by
  cases cs with
  | nil => simp [words, hc]
  | cons d cs =>
    have hd : isAlnum d = false := h d rfl
    conv_lhs => unfold words
    rw [if_pos hc]
    cases hwords : words (d :: cs) with
    | nil => rfl
    | cons w ws => exact if_neg (by simp [hd])

/-- It starts a word anyway. -/
theorem exists_words_cons (h : isAlnum c = true) (cs : List Char) :
    ∃ w ws, words (c :: cs) = (c :: w) :: ws := by
  induction cs generalizing c with
  | nil => exact ⟨[], [], words_cons_of_head? h nofun⟩
  | cons d cs ih =>
    by_cases hd : isAlnum d = true
    · obtain ⟨w, ws, hwords⟩ := ih hd
      exact ⟨d :: w, ws, words_cons_cons h hd hwords⟩
    · exact ⟨[], words (d :: cs), words_cons_of_head? h (by simpa using hd)⟩

/-- **A text of letters and digits** is one word. -/
theorem words_eq_singleton (h : ∀ d ∈ c :: cs, isAlnum d = true) :
    words (c :: cs) = [c :: cs] := by
  induction cs generalizing c with
  | nil => exact words_cons_of_head? (h c List.mem_cons_self) nofun
  | cons d cs ih =>
    obtain ⟨hc, hrest⟩ := List.forall_mem_cons.mp h
    exact words_cons_cons hc (hrest d List.mem_cons_self) (ih hrest)

/-- **The words on either side** of a character that belongs to none. -/
theorem words_append_cons (h : isAlnum c = false) (cs ds : List Char) :
    words (cs ++ c :: ds) = words cs ++ words ds := by
  induction cs with
  | nil => exact words_cons_of_not_isAlnum h ds
  | cons b cs ih =>
    by_cases hb : isAlnum b = true
    · cases cs with
      | nil =>
        rw [List.singleton_append, words_cons_of_head? hb (by simpa using h),
          words_cons_of_not_isAlnum h, words_eq_singleton (List.forall_mem_singleton.mpr hb),
          List.singleton_append]
      | cons d cs =>
        by_cases hd : isAlnum d = true
        · obtain ⟨w, ws, hwords⟩ := exists_words_cons hd cs
          rw [hwords, List.cons_append, List.cons_append] at ih
          rw [words_cons_cons hb hd hwords, List.cons_append, List.cons_append, List.cons_append]
          exact words_cons_cons hb hd ih
        · have hhead : ∀ e ∈ (d :: (cs ++ c :: ds)).head?, isAlnum e = false := by simpa using hd
          rw [List.cons_append, List.cons_append, words_cons_of_head? hb hhead,
            words_cons_of_head? hb (by simpa using hd), ← List.cons_append, ih, List.cons_append]
    · have hb : isAlnum b = false := by simpa using hb
      rw [List.cons_append, words_cons_of_not_isAlnum hb, ih, words_cons_of_not_isAlnum hb]

/-- No word is empty. -/
theorem nil_not_mem_words (cs : List Char) : [] ∉ words cs := by
  induction cs with
  | nil => exact List.not_mem_nil
  | cons c cs ih =>
    by_cases hc : isAlnum c = true
    · cases cs with
      | nil => simp [words_eq_singleton (List.forall_mem_singleton.mpr hc)]
      | cons d cs =>
        by_cases hd : isAlnum d = true
        · obtain ⟨w, ws, hwords⟩ := exists_words_cons hd cs
          rw [words_cons_cons hc hd hwords]
          simpa [hwords] using ih
        · rw [words_cons_of_head? hc (by simpa using hd)]
          simpa using ih
    · rwa [words_cons_of_not_isAlnum (by simpa using hc)]

/-! ## Guards -/

/-- A guard belongs to no word. -/
@[simp]
theorem words_guardStart (cs : List Char) : words (guardStart cs) = words cs := by
  rcases guardStart_eq cs with h | h
  · rw [h]
  · rw [h, words_cons_of_not_isAlnum (by decide)]

@[simp]
theorem words_guardReserved (cs : List Char) : words (guardReserved cs) = words cs := by
  rcases guardReserved_eq cs with h | h
  · rw [h]
  · rw [h, words_append_cons (by decide)]
    exact List.append_nil _

/-- **Behind a guard** no name starts with a digit. -/
theorem isDigit_of_mem_head?_guardStart (h : c ∈ (guardStart cs).head?) : isDigit c = false := by
  cases cs with
  | nil =>
    obtain rfl := Option.mem_some_iff.mp h
    decide
  | cons d cs =>
    rw [guardStart] at h
    split_ifs at h with hd
    · obtain rfl := Option.mem_some_iff.mp h
      decide
    · obtain rfl := Option.mem_some_iff.mp h
      exact Bool.eq_false_iff.mpr hd

end Exemplar.Naming
