import Exemplar.Naming
import Mathlib.Data.List.Basic

/-!
# Characters of names

An accessor is made of letters, digits and underscores (`of_mem_camel`). An
attribute name is made of small letters, digits and underscores, whatever
it is the name of (`isNameChar_of_mem_snake`), and it never starts with two
underscores (`snake_ne_dunder`). A module is called like an attribute, so its
file has one name and is not one that a package has for itself.
-/

namespace Exemplar.Naming

open Text (isAlnum isDigit isLetter isLower isUpper)

variable {c : Char} {cs : List Char}

/-- **A character of an attribute name**: a small letter, a digit, or an
underscore. -/
def isNameChar (c : Char) : Bool := isLower c || isDigit c || c == '_'

/-! ## Lowering -/

/-- An ASCII letter or digit stands among the first characters. -/
theorem toNat_lt_of_isAlnum (h : isAlnum c = true) : c.toNat < 128 := by
  simp only [isAlnum, Text.isLetter, isLower, isUpper, isDigit, Bool.or_eq_true,
    Bool.and_eq_true, decide_eq_true_eq, Char.le_def, UInt32.le_iff_toNat_le] at h
  have hbound : c.val.toNat ≤ 'z'.val.toNat := by
    rcases h with (h | h) | h
    · exact h.2
    · exact Nat.le_trans h.2 (by decide)
    · exact Nat.le_trans h.2 (by decide)
  exact Nat.lt_of_le_of_lt hbound (by decide)

/-- **What holds of each** of them is seen by going through those characters. -/
theorem of_isAlnum {p : Char → Prop}
    (hall : ∀ n < 128, isAlnum (Char.ofNat n) = true → p (Char.ofNat n)) (h : isAlnum c = true) :
    p c := by
  have hc := hall c.toNat (toNat_lt_of_isAlnum h)
  rw [Char.ofNat_toNat] at hc
  exact hc h

/-- The lower case of an ASCII letter or digit is a small letter or a
digit. -/
theorem isLower_or_isDigit_toLower (h : isAlnum c = true) :
    isLower c.toLower = true ∨ isDigit c.toLower = true :=
  of_isAlnum (p := fun c => isLower c.toLower = true ∨ isDigit c.toLower = true)
    (by decide +kernel) h

/-- A small letter or a digit is no underscore. -/
theorem ne_underscore_of_isLower_or_isDigit (h : isLower c = true ∨ isDigit c = true) :
    c ≠ '_' := by
  rintro rfl
  exact absurd h (by decide)

/-! ## The parts of an attribute name -/

/-- Words are joined by underscores. -/
theorem of_mem_joinWords (h : c ∈ joinWords cs) : isAlnum c = true ∨ c = '_' := by
  induction cs with
  | nil => nomatch h
  | cons d cs ih =>
    rw [joinWords] at h
    by_cases hd : isAlnum d = true
    · rw [if_pos hd] at h
      rcases List.mem_cons.mp h with rfl | h
      · exact .inl hd
      · exact ih h
    · rw [if_neg hd] at h
      split at h
      · next ds hds =>
        exact ih (hds ▸ h)
      · rcases List.mem_cons.mp h with rfl | h
        · exact .inr rfl
        · exact ih h

/-- Trimming is a matter of both ends: what is left starts where the text
without its first underscores starts. -/
theorem trimUnderscores_isPrefix_dropWhile (cs : List Char) :
    trimUnderscores cs <+: cs.dropWhile (· == '_') := by
  have h := List.dropWhile_suffix (l := (cs.dropWhile (· == '_')).reverse) (· == '_')
  rw [← List.reverse_prefix, List.reverse_reverse] at h
  exact h

theorem mem_of_mem_trimUnderscores (h : c ∈ trimUnderscores cs) : c ∈ cs :=
  (List.dropWhile_sublist _).subset ((trimUnderscores_isPrefix_dropWhile cs).subset h)

/-- No underscore is left in front. -/
theorem trimUnderscores_ne_cons (cs ds : List Char) : trimUnderscores cs ≠ '_' :: ds := by
  intro h
  obtain ⟨rest, hrest⟩ := trimUnderscores_isPrefix_dropWhile cs
  have hhead := List.head?_dropWhile_not (· == '_') cs
  rw [← hrest, h, List.cons_append, List.head?_cons] at hhead
  simp at hhead

/-- **The letters of an attribute name**, before a guard is put at either
end. -/
def body (cs : List Char) : List Char :=
  (trimUnderscores (joinWords (splitWords (cs.dropWhile (· == '_'))))).map Char.toLower

theorem snake_eq (cs : List Char) : snake cs = guardReserved (guardStart (body cs)) := rfl

theorem isNameChar_of_mem_body (h : c ∈ body cs) : isNameChar c = true := by
  obtain ⟨d, hd, rfl⟩ := List.mem_map.mp h
  rcases of_mem_joinWords (mem_of_mem_trimUnderscores hd) with hd | rfl
  · rcases isLower_or_isDigit_toLower hd with hd | hd <;> simp [isNameChar, hd]
  · decide

/-- The letters do not start with an underscore. -/
theorem body_ne_cons (cs ds : List Char) : body cs ≠ '_' :: ds := by
  intro h
  obtain ⟨d, rest, htrim, hd, -⟩ := List.map_eq_cons_iff.mp h
  have hmem : d ∈ trimUnderscores _ := htrim ▸ List.mem_cons_self
  rcases of_mem_joinWords (mem_of_mem_trimUnderscores hmem) with hd' | rfl
  · exact ne_underscore_of_isLower_or_isDigit (isLower_or_isDigit_toLower hd') hd
  · exact trimUnderscores_ne_cons _ _ htrim

/-! ## Guards -/

/-- The guard in front is an underscore, or there is none. -/
theorem guardStart_eq (cs : List Char) : guardStart cs = cs ∨ guardStart cs = '_' :: cs := by
  cases cs with
  | nil => exact .inr rfl
  | cons c cs =>
    rw [guardStart]
    split_ifs
    · exact .inr rfl
    · exact .inl rfl

/-- So is the guard at the end. -/
theorem guardReserved_eq (cs : List Char) :
    guardReserved cs = cs ∨ guardReserved cs = cs ++ ['_'] := by
  rw [guardReserved]
  split_ifs
  · exact .inr rfl
  · exact .inl rfl

theorem of_mem_guardStart (h : c ∈ guardStart cs) : c ∈ cs ∨ c = '_' := by
  rcases guardStart_eq cs with hguard | hguard <;> rw [hguard] at h
  · exact .inl h
  · exact (List.mem_cons.mp h).symm

theorem of_mem_guardReserved (h : c ∈ guardReserved cs) : c ∈ cs ∨ c = '_' := by
  rcases guardReserved_eq cs with hguard | hguard <;> rw [hguard] at h
  · exact .inl h
  · exact (List.mem_append.mp h).imp_right List.mem_singleton.mp

/-- The guard in front stands for nothing. -/
theorem guardStart_ne_nil (cs : List Char) : guardStart cs ≠ [] := by
  cases cs with
  | nil => exact List.cons_ne_nil _ _
  | cons c cs =>
    rw [guardStart]
    split_ifs
    · exact List.cons_ne_nil _ _
    · exact List.cons_ne_nil _ _

/-! ## Accessors -/

/-- The upper case of an ASCII letter or digit is one of them. -/
theorem isAlnum_toUpper (h : isAlnum c = true) : isAlnum c.toUpper = true :=
  of_isAlnum (p := fun c => isAlnum c.toUpper = true) (by decide +kernel) h

/-- Words are made of letters and digits. -/
theorem isAlnum_of_mem_words : ∀ w ∈ words cs, ∀ c ∈ w, isAlnum c = true := by
  induction cs with
  | nil => exact fun _ h => nomatch h
  | cons c cs ih =>
    unfold words
    by_cases hc : isAlnum c = true
    · have hstart : ∀ {w : List Char}, (∀ c ∈ w, isAlnum c = true) →
          ∀ d ∈ c :: w, isAlnum d = true := fun hw => List.forall_mem_cons.mpr ⟨hc, hw⟩
      rw [if_pos hc]
      split
      · next d _ w ws hws =>
        obtain ⟨hw, hrest⟩ := List.forall_mem_cons.mp (hws ▸ ih)
        by_cases hd : isAlnum d = true
        · rw [if_pos hd]
          exact List.forall_mem_cons.mpr ⟨hstart hw, hrest⟩
        · rw [if_neg hd]
          exact List.forall_mem_cons.mpr ⟨hstart (by simp), List.forall_mem_cons.mpr ⟨hw, hrest⟩⟩
      · exact List.forall_mem_cons.mpr ⟨hstart (by simp), ih⟩
    · rw [if_neg hc]
      exact ih

theorem isAlnum_of_mem_capitalize (h : ∀ c ∈ cs, isAlnum c = true) :
    ∀ c ∈ capitalize cs, isAlnum c = true := by
  cases cs with
  | nil => exact h
  | cons c cs =>
    obtain ⟨hc, hcs⟩ := List.forall_mem_cons.mp h
    exact List.forall_mem_cons.mpr ⟨isAlnum_toUpper hc, hcs⟩

theorem isAlnum_of_mem_raiseAfterDigits (h : ∀ c ∈ cs, isAlnum c = true) (afterDigit : Bool) :
    ∀ c ∈ raiseAfterDigits afterDigit cs, isAlnum c = true := by
  induction cs generalizing afterDigit with
  | nil => exact h
  | cons c cs ih =>
    obtain ⟨hc, hcs⟩ := List.forall_mem_cons.mp h
    refine List.forall_mem_cons.mpr ⟨?_, ih hcs _⟩
    split_ifs
    · exact isAlnum_toUpper hc
    · exact hc

/-- **The row of a key**: its words with their capitals, before a guard is put in
front. -/
def row (cs : List Char) : List Char := raiseAfterDigits false ((words cs).flatMap capitalize)

theorem camel_eq (cs : List Char) : camel cs = guardStart (row cs) := rfl

/-- It is made of letters and digits, too. -/
theorem isAlnum_of_mem_row (h : c ∈ row cs) : isAlnum c = true := by
  refine isAlnum_of_mem_raiseAfterDigits (fun d hd => ?_) false c h
  obtain ⟨w, hw, hdw⟩ := List.mem_flatMap.mp hd
  exact isAlnum_of_mem_capitalize (isAlnum_of_mem_words w hw) d hdw

/-- **An accessor** is made of letters, digits and underscores. -/
theorem of_mem_camel (h : c ∈ camel cs) : isAlnum c = true ∨ c = '_' :=
  (of_mem_guardStart h).imp_left isAlnum_of_mem_row

/-- It starts with a letter or an underscore. -/
theorem exists_camel_eq (cs : List Char) :
    ∃ c rest, camel cs = c :: rest ∧ (isLetter c = true ∨ c = '_') := by
  rw [camel_eq]
  cases hrow : row cs with
  | nil => exact ⟨'_', [], rfl, .inr rfl⟩
  | cons c rest =>
    have hc : isAlnum c = true := isAlnum_of_mem_row (hrow ▸ List.mem_cons_self)
    rw [guardStart]
    by_cases hdigit : isDigit c = true
    · rw [if_pos hdigit]
      exact ⟨'_', c :: rest, rfl, .inr rfl⟩
    · rw [if_neg hdigit]
      exact ⟨c, rest, rfl, .inl ((Bool.or_eq_true _ _).mp hc |>.resolve_right hdigit)⟩

/-! ## Attribute names -/

/-- **An attribute name** is made of small letters, digits and
underscores. -/
theorem isNameChar_of_mem_snake (h : c ∈ snake cs) : isNameChar c = true := by
  rw [snake_eq] at h
  rcases of_mem_guardReserved h with h | rfl
  · rcases of_mem_guardStart h with h | rfl
    · exact isNameChar_of_mem_body h
    · decide
  · decide

/-- **No attribute name is empty**: an underscore stands for nothing. -/
theorem snake_ne_nil (cs : List Char) : snake cs ≠ [] := by
  rw [snake_eq]
  rcases guardReserved_eq (guardStart (body cs)) with h | h <;> rw [h]
  · exact guardStart_ne_nil _
  · exact List.append_ne_nil_of_right_ne_nil _ (List.cons_ne_nil _ _)

/-- **No attribute name starts with two underscores**: a guard is put in front
of a digit only, or stands alone. -/
theorem snake_ne_dunder (cs ds : List Char) : snake cs ≠ '_' :: '_' :: ds := by
  have hguard : ∀ es, guardStart (body cs) ≠ '_' :: '_' :: es := by
    intro es h
    cases hbody : body cs with
    | nil => simp [hbody, guardStart] at h
    | cons c rest =>
      rw [hbody, guardStart] at h
      by_cases hc : isDigit c = true
      · rw [if_pos hc, List.cons.injEq, List.cons.injEq] at h
        exact absurd h.2.1 (ne_underscore_of_isLower_or_isDigit (.inr hc))
      · rw [if_neg hc] at h
        exact body_ne_cons cs _ (hbody.trans h)
  intro h
  rw [snake_eq, guardReserved] at h
  split at h
  · next hreserved =>
    -- No reserved word is an underscore, or starts with two.
    cases hstart : guardStart (body cs) with
    | nil => simp [hstart] at h
    | cons c rest =>
      cases rest with
      | nil =>
        rw [hstart, List.cons_append, List.cons.injEq] at h
        rw [hstart, h.1] at hreserved
        exact absurd hreserved (by decide)
      | cons d rest =>
        rw [hstart, List.cons_append, List.cons_append, List.cons.injEq, List.cons.injEq] at h
        exact hguard rest (by rw [hstart, h.1, h.2.1])
  · exact hguard ds h

end Exemplar.Naming
