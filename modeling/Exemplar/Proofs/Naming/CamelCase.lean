import Exemplar.Proofs.Naming.LetterCase
import Exemplar.Proofs.Naming.Words
import Mathlib.Data.List.Chain

/-!
# Names in camel case

An accessor is a row of letters and digits in which no small letter stands in front
or behind a digit (`IsRow`), with an underscore before it where it would start with a
digit or be empty. Names of this form are said to be in camel case (`InCamelCase`).
The accessor of a key is always one (`inCamelCase_camel`), and a text is its own
accessor exactly if it is one (`camel_eq_self_iff`): such a text is a single word, in
which nothing is left to raise.
-/

namespace Exemplar.Naming

open Text (isAlnum isDigit isLetter isLower isUpper)

variable {c d : Char} {cs : List Char}

/-! ## Rows -/

/-- **Behind a digit** stands no small letter. -/
def Raised (c d : Char) : Prop := isDigit c = true → isLower d = false

/-- **A row**: letters and digits, with no small letter in front or behind a digit. -/
structure IsRow (cs : List Char) : Prop where
  alnum : ∀ c ∈ cs, isAlnum c = true
  start : ∀ c ∈ cs.head?, isLower c = false
  raised : cs.IsChain Raised

/-- Behind a digit the first character is raised. -/
theorem isLower_of_mem_head?_raiseAfterDigits
    (h : c ∈ (raiseAfterDigits true cs).head?) : isLower c = false := by
  cases cs with
  | nil => nomatch h
  | cons d cs =>
    obtain rfl := Option.mem_some_iff.mp h
    cases hd : isLower d <;> simp [hd]

/-- And so is every other one behind a digit. -/
theorem isChain_raiseAfterDigits (afterDigit : Bool) (cs : List Char) :
    (raiseAfterDigits afterDigit cs).IsChain Raised := by
  induction cs generalizing afterDigit with
  | nil => exact .nil
  | cons c cs ih =>
    refine List.isChain_cons.mpr ⟨fun d hd hc => ?_, ih _⟩
    have hdigit : isDigit c = true := by
      split_ifs at hc
      · rwa [isDigit_toUpper] at hc
      · exact hc
    exact isLower_of_mem_head?_raiseAfterDigits (hdigit ▸ hd)

/-- **Nothing is left to raise** where no small letter stands behind a digit. -/
theorem raiseAfterDigits_eq_self (h : cs.IsChain Raised) {afterDigit : Bool}
    (hstart : afterDigit = true → ∀ c ∈ cs.head?, isLower c = false) :
    raiseAfterDigits afterDigit cs = cs := by
  induction cs generalizing afterDigit with
  | nil => rfl
  | cons c cs ih =>
    obtain ⟨hhead, hchain⟩ := List.isChain_cons.mp h
    have hc : ¬ (afterDigit && isLower c) = true := by
      intro hc
      obtain ⟨hafter, hlower⟩ := (Bool.and_eq_true _ _).mp hc
      exact Bool.false_ne_true ((hstart hafter c rfl).symm.trans hlower)
    rw [raiseAfterDigits, if_neg hc, ih hchain fun hdigit d hd => hhead d hd hdigit]

/-- A guard makes no difference to the row. -/
@[simp]
theorem row_guardStart (cs : List Char) : row (guardStart cs) = row cs := by
  rw [row, words_guardStart, row]

/-- The words of a key start with capitals. -/
theorem isLower_of_mem_head?_row (h : c ∈ (row cs).head?) : isLower c = false := by
  cases hwords : words cs with
  | nil =>
    rw [row, hwords] at h
    nomatch h
  | cons w ws =>
    cases w with
    | nil => exact absurd (hwords ▸ List.mem_cons_self) (nil_not_mem_words cs)
    | cons d w =>
      rw [row, hwords] at h
      obtain rfl := Option.mem_some_iff.mp h
      simp

theorem isRow_row (cs : List Char) : IsRow (row cs) :=
  ⟨fun _ => isAlnum_of_mem_row, fun _ => isLower_of_mem_head?_row, isChain_raiseAfterDigits _ _⟩

/-- **A row is its own row**: it is one word, which starts as it should. -/
theorem row_eq_self (h : IsRow cs) : row cs = cs := by
  cases cs with
  | nil => rfl
  | cons c cs =>
    have hwords : (words (c :: cs)).flatMap capitalize = c :: cs := by
      rw [words_eq_singleton h.alnum, List.flatMap_singleton, capitalize,
        toUpper_eq_self (h.start c rfl)]
    rw [row, hwords]
    exact raiseAfterDigits_eq_self h.raised nofun

/-! ## Camel case -/

/-- **A name in camel case**: a capital or an underscore, only letters and digits
behind it, and no small letter behind a digit. The underscore stands alone or before a
digit. -/
structure InCamelCase (cs : List Char) : Prop where
  shape : ∃ c rest, cs = c :: rest ∧ (isUpper c = true ∨ c = '_')
    ∧ ∀ d ∈ rest, isAlnum d = true
  raised : cs.IsChain Raised
  guard : ∀ c rest, cs = '_' :: c :: rest → isDigit c = true

/-- A row with a guard is in camel case. -/
theorem IsRow.inCamelCase_guardStart (h : IsRow cs) : InCamelCase (guardStart cs) := by
  cases cs with
  | nil => exact ⟨⟨'_', [], rfl, .inr rfl, nofun⟩, .singleton _, nofun⟩
  | cons c cs =>
    obtain ⟨hc, hcs⟩ := List.forall_mem_cons.mp h.alnum
    rw [guardStart]
    by_cases hdigit : isDigit c = true
    · rw [if_pos hdigit]
      refine ⟨⟨'_', c :: cs, rfl, .inr rfl, h.alnum⟩, ?_, ?_⟩
      · exact List.isChain_cons.mpr ⟨fun d _ hd => absurd hd (by decide), h.raised⟩
      · rintro d rest ⟨⟩
        exact hdigit
    · rw [if_neg hdigit]
      have hupper : isUpper c = true := by
        simpa [isAlnum, isLetter, h.start c rfl, hdigit] using hc
      refine ⟨⟨c, cs, rfl, .inl hupper, hcs⟩, h.raised, ?_⟩
      rintro d rest ⟨⟩
      exact absurd hupper (by decide)

/-- And every name in camel case is one. -/
theorem InCamelCase.exists_isRow (h : InCamelCase cs) : ∃ r, IsRow r ∧ guardStart r = cs := by
  obtain ⟨c, rest, rfl, hc | rfl, hrest⟩ := h.shape
  · have hkind := not_isLower_of_isUpper hc
    refine ⟨c :: rest, ⟨?_, by simpa using hkind.1, h.raised⟩, ?_⟩
    · exact List.forall_mem_cons.mpr ⟨isAlnum_of_isUpper hc, hrest⟩
    · simp [guardStart, hkind.2]
  · cases rest with
    | nil => exact ⟨[], ⟨by simp, by simp, .nil⟩, rfl⟩
    | cons d rest =>
      have hd : isDigit d = true := h.guard d rest rfl
      exact ⟨d :: rest, ⟨hrest, by simpa using (not_isLower_of_isDigit hd).1, h.raised.tail⟩,
        by simp [guardStart, hd]⟩

/-- **The accessor of a key** is in camel case. -/
theorem inCamelCase_camel (cs : List Char) : InCamelCase (camel cs) :=
  (isRow_row cs).inCamelCase_guardStart

/-- **The names in camel case** are the texts that are their own accessors. -/
theorem camel_eq_self_iff : camel cs = cs ↔ InCamelCase cs := by
  constructor
  · exact fun h => h ▸ inCamelCase_camel cs
  · intro h
    obtain ⟨r, hr, rfl⟩ := h.exists_isRow
    rw [camel_eq, row_guardStart, row_eq_self hr]

theorem toCamel_eq_self_iff {name : String} : toCamel name = name ↔ InCamelCase name.toList := by
  rw [← camel_eq_self_iff, ← String.toList_inj, toCamel, String.toList_ofList]

end Exemplar.Naming
