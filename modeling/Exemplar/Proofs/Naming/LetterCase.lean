import Exemplar.Proofs.Naming

/-!
# Letter case in names

A letter or digit is a small letter, a capital or a digit, and only one of them.
Raising touches small letters alone and lowering capitals alone, each undoes the
other, and digits stay what they are. What is said of letters and digits is checked
character by character; all other characters are left as they are.
-/

namespace Exemplar.Naming

open Text (isAlnum isDigit isLetter isLower isUpper)

variable {c : Char}

/-! ## Three kinds of characters -/

theorem isAlnum_of_isLower (h : isLower c = true) : isAlnum c = true := by
  simp [isAlnum, isLetter, h]

theorem isAlnum_of_isUpper (h : isUpper c = true) : isAlnum c = true := by
  simp [isAlnum, isLetter, h]

theorem isAlnum_of_isDigit (h : isDigit c = true) : isAlnum c = true := by
  simp [isAlnum, h]

/-- A small letter is neither a capital nor a digit. -/
theorem not_isUpper_of_isLower (h : isLower c = true) : isUpper c = false ∧ isDigit c = false :=
  of_isAlnum (p := fun c => isLower c = true → isUpper c = false ∧ isDigit c = false)
    (by decide +kernel) (isAlnum_of_isLower h) h

/-- A digit is no letter. -/
theorem not_isLower_of_isDigit (h : isDigit c = true) : isLower c = false ∧ isUpper c = false :=
  of_isAlnum (p := fun c => isDigit c = true → isLower c = false ∧ isUpper c = false)
    (by decide +kernel) (isAlnum_of_isDigit h) h

/-- A capital is neither a small letter nor a digit. -/
theorem not_isLower_of_isUpper (h : isUpper c = true) : isLower c = false ∧ isDigit c = false :=
  of_isAlnum (p := fun c => isUpper c = true → isLower c = false ∧ isDigit c = false)
    (by decide +kernel) (isAlnum_of_isUpper h) h

/-! ## Raising -/

/-- What is no small letter is not raised. -/
theorem toUpper_eq_self (h : isLower c = false) : c.toUpper = c := by
  refine dif_neg fun hc => ?_
  rw [isLower, Bool.and_eq_false_iff, decide_eq_false_iff_not, decide_eq_false_iff_not] at h
  exact h.elim (· hc.1) (· hc.2)

/-- A small letter becomes a capital. -/
theorem isUpper_toUpper (h : isLower c = true) : isUpper c.toUpper = true :=
  of_isAlnum (p := fun c => isLower c = true → isUpper c.toUpper = true)
    (by decide +kernel) (isAlnum_of_isLower h) h

/-- So no small letter is left. -/
@[simp]
theorem isLower_toUpper (c : Char) : isLower c.toUpper = false := by
  cases h : isLower c with
  | true => exact (not_isLower_of_isUpper (isUpper_toUpper h)).1
  | false => rw [toUpper_eq_self h, h]

@[simp]
theorem isDigit_toUpper (c : Char) : isDigit c.toUpper = isDigit c := by
  cases h : isLower c with
  | true =>
    rw [(not_isLower_of_isUpper (isUpper_toUpper h)).2, (not_isUpper_of_isLower h).2]
  | false => rw [toUpper_eq_self h]

/-! ## Lowering -/

/-- What is no capital is not lowered. -/
theorem toLower_eq_self (h : isUpper c = false) : c.toLower = c := by
  refine dif_neg fun hc => ?_
  rw [isUpper, Bool.and_eq_false_iff, decide_eq_false_iff_not, decide_eq_false_iff_not] at h
  exact h.elim (· hc.1) (· hc.2)

/-- A capital becomes a small letter, and is had back by raising it. -/
theorem isLower_toLower (h : isUpper c = true) :
    isLower c.toLower = true ∧ c.toLower.toUpper = c :=
  of_isAlnum (p := fun c => isUpper c = true → isLower c.toLower = true ∧ c.toLower.toUpper = c)
    (by decide +kernel) (isAlnum_of_isUpper h) h

/-- So no capital is left. -/
@[simp]
theorem isUpper_toLower (c : Char) : isUpper c.toLower = false := by
  cases h : isUpper c with
  | true => exact (not_isUpper_of_isLower (isLower_toLower h).1).1
  | false => rw [toLower_eq_self h, h]

@[simp]
theorem isDigit_toLower (c : Char) : isDigit c.toLower = isDigit c := by
  cases h : isUpper c with
  | true => rw [(not_isUpper_of_isLower (isLower_toLower h).1).2, (not_isLower_of_isUpper h).2]
  | false => rw [toLower_eq_self h]

@[simp]
theorem isAlnum_toLower (c : Char) : isAlnum c.toLower = isAlnum c := by
  cases h : isUpper c with
  | true => rw [isAlnum_of_isLower (isLower_toLower h).1, isAlnum_of_isUpper h]
  | false => rw [toLower_eq_self h]

@[simp]
theorem toLower_toLower (c : Char) : c.toLower.toLower = c.toLower :=
  toLower_eq_self (isUpper_toLower c)

/-- **Lowering is undone** by raising, unless there was a small letter. -/
theorem toUpper_toLower (h : isLower c = false) : c.toLower.toUpper = c := by
  cases hupper : isUpper c with
  | true => exact (isLower_toLower hupper).2
  | false => rw [toLower_eq_self hupper, toUpper_eq_self h]

end Exemplar.Naming
