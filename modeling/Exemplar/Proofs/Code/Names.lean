import Exemplar.Code.Response
import Mathlib.Data.List.Nodup
import Mathlib.Data.List.Perm.Subperm

/-!
# Fresh names

A name that is claimed for a record has not been taken before
(`freshName_not_mem`): there are more candidates than names taken, no two
of them are one, and so one of them is free.
-/

namespace Exemplar.Code

variable {taken : List String} {name : String}

/-- Different numbers make different candidates. -/
theorem numbered_injective (name : String) : Function.Injective (numbered name) := by
  intro m n h
  have hnum : toString (m + 2) = toString (n + 2) := (String.append_right_inj _).mp h
  -- A number is read back from its digits.
  have hread := congrArg (fun digits => Nat.ofDigitChars 10 digits.toList 0) hnum
  simpa [Nat.toString_eq_ofList_toDigits, Nat.ofDigitChars_ten_toDigits] using hread

/-- **Some candidate is free.** -/
theorem exists_numbered_not_mem (taken : List String) (name : String) :
    ∃ c ∈ (List.range (taken.length + 1)).map (numbered name), c ∉ taken := by
  by_contra h
  have hsub : ((List.range (taken.length + 1)).map (numbered name)) ⊆ taken :=
    fun c hc => by_contra fun hn => h ⟨c, hc, hn⟩
  have hnodup : ((List.range (taken.length + 1)).map (numbered name)).Nodup :=
    List.Nodup.map (numbered_injective name) List.nodup_range
  have hlen := (List.Nodup.subperm hnodup hsub).length_le
  rw [List.length_map, List.length_range] at hlen
  omega

/-- **A fresh name is not taken.** -/
theorem freshName_not_mem (taken : List String) (name : String) :
    freshName taken name ∉ taken := by
  unfold freshName
  by_cases h : name ∈ taken
  · rw [if_neg (not_not_intro h)]
    cases hfind : ((List.range (taken.length + 1)).map (numbered name)).find? (· ∉ taken) with
    | some c => simpa using List.find?_some hfind
    | none =>
      obtain ⟨c, hc, hn⟩ := exists_numbered_not_mem taken name
      exact absurd (by simpa using hn) (List.find?_eq_none.mp hfind c hc)
  · rwa [if_pos h]

end Exemplar.Code
