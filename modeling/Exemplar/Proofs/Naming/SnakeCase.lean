import Exemplar.Proofs.Naming.LetterCase
import Exemplar.Proofs.Naming.Words
import Mathlib.Data.List.Chain

/-!
# Names in snake case

The letters of an attribute name are a phrase: small letters and digits, with single
underscores in between and none at either end (`IsPhrase`). An underscore goes before
a phrase that starts with a digit or is empty, and one behind a reserved word. Names
of this form are said to be in snake case (`InSnakeCase`). An attribute name is always
one, whatever it is the name of (`inSnakeCase_snake`), and a text is its own attribute
name exactly if it is one (`snake_eq_self_iff`): without capitals there is no boundary
to mark, single underscores stay single, and the guards come off and are put back.
-/

namespace Exemplar.Naming

open Text (isAlnum isDigit isLetter isLower isUpper)

variable {c d : Char} {cs ds : List Char}

/-! ## Single underscores -/

/-- **Of two neighbours** one is a letter or digit. -/
def Joined (c d : Char) : Prop := isAlnum c = true ∨ isAlnum d = true

theorem joined_toLower_iff : Joined c.toLower d.toLower ↔ Joined c d := by
  simp [Joined]

/-- Words are joined by single underscores. -/
theorem isChain_joinWords (cs : List Char) : (joinWords cs).IsChain Joined := by
  induction cs with
  | nil => exact .nil
  | cons c cs ih =>
    rw [joinWords]
    by_cases hc : isAlnum c = true
    · rw [if_pos hc]
      exact List.isChain_cons.mpr ⟨fun _ _ => .inl hc, ih⟩
    · rw [if_neg hc]
      split
      · next ds hds => exact hds ▸ ih
      · next hne =>
        refine List.isChain_cons.mpr ⟨fun d hd => .inr ?_, ih⟩
        rcases of_mem_joinWords (List.mem_of_mem_head? hd) with hd' | rfl
        · exact hd'
        · obtain ⟨rest, hrest⟩ := List.head?_eq_some_iff.mp hd
          exact absurd hrest (hne rest)

/-- **Single underscores** stay as they are. -/
theorem joinWords_eq_self (hchars : ∀ c ∈ cs, isAlnum c = true ∨ c = '_')
    (h : cs.IsChain Joined) : joinWords cs = cs := by
  induction cs with
  | nil => rfl
  | cons c cs ih =>
    obtain ⟨hc, hcs⟩ := List.forall_mem_cons.mp hchars
    obtain ⟨hhead, hchain⟩ := List.isChain_cons.mp h
    rw [joinWords, ih hcs hchain]
    rcases hc with hc | rfl
    · rw [if_pos hc]
    · rw [if_neg (by decide)]
      split
      · next ds =>
        exact absurd (hhead '_' rfl) (by unfold Joined; decide)
      · rfl

/-! ## Trimming -/

/-- No underscore is left at the end. -/
theorem trimUnderscores_ne_concat (cs ds : List Char) : trimUnderscores cs ≠ ds ++ ['_'] := by
  intro h
  have hhead := List.head?_dropWhile_not (· == '_') (cs.dropWhile (· == '_')).reverse
  rw [← List.reverse_reverse (List.dropWhile _ (List.reverse _))] at hhead
  rw [trimUnderscores] at h
  rw [h] at hhead
  simp at hhead

/-- Nothing is dropped where no underscore stands in front. -/
theorem dropWhile_underscore_eq_self (h : ∀ c ∈ cs.head?, isAlnum c = true) :
    cs.dropWhile (· == '_') = cs := by
  cases cs with
  | nil => rfl
  | cons c cs =>
    refine List.dropWhile_cons_of_neg fun hc => ?_
    rw [beq_iff_eq] at hc
    exact absurd (h c rfl) (hc ▸ by decide)

/-- **Nothing is trimmed** where no underscore stands at either end. -/
theorem trimUnderscores_eq_self (hstart : ∀ c ∈ cs.head?, isAlnum c = true)
    (hstop : ∀ c ∈ cs.getLast?, isAlnum c = true) : trimUnderscores cs = cs := by
  rw [trimUnderscores, dropWhile_underscore_eq_self hstart,
    dropWhile_underscore_eq_self fun c hc => hstop c (List.head?_reverse ▸ hc),
    List.reverse_reverse]

/-- An underscore at the end makes no difference. -/
theorem trimUnderscores_concat (cs : List Char) :
    trimUnderscores (cs ++ ['_']) = trimUnderscores cs := by
  rw [trimUnderscores, List.dropWhile_append]
  split_ifs with h
  · rw [trimUnderscores, List.isEmpty_iff.mp h]
    rfl
  · rw [List.reverse_append]
    rfl

/-! ## Phrases -/

/-- **Words with single underscores in between**, and none at either end. -/
structure IsSpaced (cs : List Char) : Prop where
  chars : ∀ c ∈ cs, isAlnum c = true ∨ c = '_'
  single : cs.IsChain Joined
  start : ∀ c ∈ cs.head?, isAlnum c = true
  stop : ∀ c ∈ cs.getLast?, isAlnum c = true

/-- **A phrase** has no capitals. -/
structure IsPhrase (cs : List Char) : Prop extends IsSpaced cs where
  small : ∀ c ∈ cs, isUpper c = false

/-- Such words are what joining and trimming leaves. -/
theorem isSpaced_trimUnderscores (cs : List Char) : IsSpaced (trimUnderscores (joinWords cs)) := by
  have hchars : ∀ c ∈ trimUnderscores (joinWords cs), isAlnum c = true ∨ c = '_' :=
    fun c hc => of_mem_joinWords (mem_of_mem_trimUnderscores hc)
  refine ⟨hchars, ?_, fun c hc => ?_, fun c hc => ?_⟩
  · obtain ⟨rest, hrest⟩ := trimUnderscores_isPrefix_dropWhile (joinWords cs)
    have hdrop := (isChain_joinWords cs).suffix (List.dropWhile_suffix (· == '_'))
    exact (hrest ▸ hdrop).left_of_append
  · refine (hchars c (List.mem_of_mem_head? hc)).resolve_right ?_
    rintro rfl
    obtain ⟨rest, hrest⟩ := List.head?_eq_some_iff.mp hc
    exact trimUnderscores_ne_cons _ _ hrest
  · refine (hchars c (List.mem_of_mem_getLast? hc)).resolve_right ?_
    rintro rfl
    obtain ⟨rest, hrest⟩ := List.getLast?_eq_some_iff.mp hc
    exact trimUnderscores_ne_concat _ _ hrest

/-- And what it leaves as it is. -/
theorem IsSpaced.trimUnderscores_eq (h : IsSpaced cs) : trimUnderscores (joinWords cs) = cs := by
  rw [joinWords_eq_self h.chars h.single, trimUnderscores_eq_self h.start h.stop]

/-- Lowering them makes a phrase. -/
theorem IsSpaced.isPhrase_map_toLower (h : IsSpaced cs) : IsPhrase (cs.map Char.toLower) where
  chars := by
    refine List.forall_mem_map.mpr fun c hc => ?_
    rcases h.chars c hc with hc | rfl
    · exact .inl (by rwa [isAlnum_toLower])
    · exact .inr rfl
  single := (List.isChain_map _).mpr (h.single.imp fun _ _ => joined_toLower_iff.mpr)
  start := by simpa using h.start
  stop := by simpa using h.stop
  small := by simp

/-- **The letters of an attribute name** are a phrase. -/
theorem isPhrase_body (cs : List Char) : IsPhrase (body cs) :=
  (isSpaced_trimUnderscores _).isPhrase_map_toLower

/-! ## Attribute names of phrases -/

/-- Without capitals there are no boundaries of words. -/
theorem splitWords_eq_self (h : ∀ c ∈ cs, isUpper c = false) : splitWords cs = cs := by
  induction cs with
  | nil => rfl
  | cons c cs ih =>
    cases cs with
    | nil => rfl
    | cons d cs =>
      obtain ⟨-, hrest⟩ := List.forall_mem_cons.mp h
      have hd : ¬ isBoundary c d cs.head? = true := by
        simp [isBoundary, hrest d List.mem_cons_self]
      rw [splitWords, if_neg hd, ih hrest]

/-- And there is nothing to lower. -/
theorem map_toLower_eq_self (h : ∀ c ∈ cs, isUpper c = false) : cs.map Char.toLower = cs :=
  (List.map_congr_left fun c hc => toLower_eq_self (h c hc)).trans (List.map_id' cs)

/-- **A phrase has its own letters**, with or without an underscore behind it. -/
theorem IsPhrase.body_append (h : IsPhrase cs) (hds : ds = [] ∨ ds = ['_']) :
    body (cs ++ ds) = cs := by
  cases cs with
  | nil => rcases hds with rfl | rfl <;> rfl
  | cons c cs =>
    have hsmall : ∀ d ∈ c :: cs ++ ds, isUpper d = false := by
      refine List.forall_mem_append.mpr ⟨h.small, ?_⟩
      rcases hds with rfl | rfl
      · exact nofun
      · exact List.forall_mem_singleton.mpr (by decide)
    have hstart : ∀ d ∈ (c :: cs ++ ds).head?, isAlnum d = true := h.start
    have htrim : trimUnderscores (joinWords (c :: cs ++ ds)) = c :: cs := by
      rcases hds with rfl | rfl
      · rw [List.append_nil, h.trimUnderscores_eq]
      · have hjoin : joinWords (c :: cs ++ ['_']) = c :: cs ++ ['_'] := by
          refine joinWords_eq_self (List.forall_mem_append.mpr ⟨h.chars, by simp⟩) ?_
          exact h.single.append (.singleton _) fun d hd _ _ => .inl (h.stop d hd)
        rw [hjoin, trimUnderscores_concat, trimUnderscores_eq_self h.start h.stop]
    rw [body, dropWhile_underscore_eq_self hstart, splitWords_eq_self hsmall, htrim,
      map_toLower_eq_self h.small]

/-- A guard in front is dropped. -/
theorem body_guardStart_append (cs ds : List Char) :
    body (guardStart cs ++ ds) = body (cs ++ ds) := by
  rcases guardStart_eq cs with h | h
  · rw [h]
  · rw [h, List.cons_append, body, List.dropWhile_cons_of_pos rfl, body]

/-- **A phrase is had back** from behind its guards. -/
theorem IsPhrase.body_eq (h : IsPhrase cs) : body (guardReserved (guardStart cs)) = cs := by
  rcases guardReserved_eq (guardStart cs) with hguard | hguard
  · rw [hguard, ← List.append_nil (guardStart cs), body_guardStart_append,
      h.body_append (.inl rfl)]
  · rw [hguard, body_guardStart_append, h.body_append (.inr rfl)]

/-! ## Snake case -/

/-- **A name in snake case**: small letters, digits and underscores, no digit in front,
no two underscores in a row, and no reserved word. An underscore in front stands alone
or before a digit, and one at the end alone or behind a reserved word. -/
structure InSnakeCase (cs : List Char) : Prop where
  ne_nil : cs ≠ []
  chars : ∀ c ∈ cs, isNameChar c = true
  start : ∀ c ∈ cs.head?, isDigit c = false
  notReserved : String.ofList cs ∉ reserved
  single : cs.IsChain Joined
  front : ∀ c rest, cs = '_' :: c :: rest → isDigit c = true
  back : ∀ rest ≠ [], cs = rest ++ ['_'] → String.ofList rest ∈ reserved

/-- A reserved word is made of letters. -/
theorem isLetter_of_mem_reserved (h : String.ofList cs ∈ reserved) :
    ∀ c ∈ cs, isLetter c = true := by
  have hall : ∀ word ∈ reserved, word.toList.all isLetter = true := by decide +kernel
  simpa using hall _ h

/-- A reserved word with an underscore behind it is none. -/
theorem concat_not_mem_reserved (cs : List Char) : String.ofList (cs ++ ['_']) ∉ reserved :=
  fun h => absurd (isLetter_of_mem_reserved h '_' (by simp)) (by decide)

/-- The characters of names are letters, digits and underscores, none of them a
capital. -/
theorem isNameChar_iff :
    isNameChar c = true ↔ (isAlnum c = true ∨ c = '_') ∧ isUpper c = false := by
  constructor
  · intro h
    simp only [isNameChar, Bool.or_eq_true, beq_iff_eq] at h
    rcases h with (h | h) | rfl
    · exact ⟨.inl (isAlnum_of_isLower h), (not_isUpper_of_isLower h).1⟩
    · exact ⟨.inl (isAlnum_of_isDigit h), (not_isLower_of_isDigit h).2⟩
    · decide
  · rintro ⟨h | rfl, hupper⟩
    · simp only [isAlnum, isLetter, hupper, Bool.or_false, Bool.or_eq_true] at h
      simp [isNameChar, h]
    · decide

namespace IsPhrase

theorem isNameChar_of_mem (h : IsPhrase cs) (hc : c ∈ cs) : isNameChar c = true :=
  isNameChar_iff.mpr ⟨h.chars c hc, h.small c hc⟩

/-- Behind its guard a phrase still has single underscores. -/
theorem isChain_guardStart (h : IsPhrase cs) : (guardStart cs).IsChain Joined := by
  rcases guardStart_eq cs with hguard | hguard
  · rw [hguard]
    exact h.single
  · rw [hguard]
    exact List.isChain_cons.mpr ⟨fun d hd => .inr (h.start d hd), h.single⟩

/-- An underscore in front stands alone or before a digit. -/
theorem isDigit_of_guardStart_eq (h : IsPhrase cs) {rest : List Char}
    (hguard : guardStart cs = '_' :: c :: rest) : isDigit c = true := by
  cases cs with
  | nil => nomatch hguard
  | cons d cs =>
    rw [guardStart] at hguard
    split_ifs at hguard with hd
    · obtain ⟨-, rfl, -⟩ := hguard
      exact hd
    · obtain ⟨rfl, -⟩ := hguard
      exact absurd (h.start '_' rfl) (by decide)

/-- And there is no other at the end. -/
theorem guardStart_ne_concat (h : IsPhrase cs) {rest : List Char} (hrest : rest ≠ []) :
    guardStart cs ≠ rest ++ ['_'] := by
  intro hguard
  have hlast : cs.getLast? = some '_' := by
    rcases guardStart_eq cs with heq | heq
    · rw [← heq, hguard, List.getLast?_concat]
    · obtain ⟨c, rest, rfl⟩ := List.exists_cons_of_ne_nil hrest
      rw [heq, List.cons_append] at hguard
      rw [(List.cons.inj hguard).2, List.getLast?_concat]
  exact absurd (h.stop '_' hlast) (by decide)

/-- **A phrase with its guards** is in snake case. -/
theorem inSnakeCase (h : IsPhrase cs) : InSnakeCase (guardReserved (guardStart cs)) := by
  have hchars : ∀ c ∈ guardStart cs, isNameChar c = true := by
    intro c hc
    rcases of_mem_guardStart hc with hc | rfl
    · exact h.isNameChar_of_mem hc
    · decide
  rw [guardReserved]
  by_cases hreserved : String.ofList (guardStart cs) ∈ reserved
  · rw [if_pos hreserved]
    have hletters := isLetter_of_mem_reserved hreserved
    refine ⟨by simp, ?_, ?_, concat_not_mem_reserved _, ?_, ?_, ?_⟩
    · exact List.forall_mem_append.mpr ⟨hchars, List.forall_mem_singleton.mpr (by decide)⟩
    · intro c hc
      rw [List.head?_append_of_ne_nil _ (guardStart_ne_nil cs)] at hc
      exact isDigit_of_mem_head?_guardStart hc
    · refine h.isChain_guardStart.append (.singleton _) fun c hc _ _ => .inl ?_
      exact (Bool.or_eq_true _ _).mpr (.inl (hletters c (List.mem_of_mem_getLast? hc)))
    · intro c rest hrest
      have hmem : '_' ∈ guardStart cs := by
        obtain ⟨d, ds, hguard⟩ := List.exists_cons_of_ne_nil (guardStart_ne_nil cs)
        rw [hguard] at hrest ⊢
        exact (List.cons.inj hrest).1 ▸ List.mem_cons_self
      exact absurd (hletters '_' hmem) (by decide)
    · exact fun rest _ hrest => List.append_inj_left' hrest rfl ▸ hreserved
  · rw [if_neg hreserved]
    exact ⟨guardStart_ne_nil cs, hchars, fun _ => isDigit_of_mem_head?_guardStart, hreserved,
      h.isChain_guardStart, fun _ _ => h.isDigit_of_guardStart_eq,
      fun rest hne hrest => absurd hrest (h.guardStart_ne_concat hne)⟩

end IsPhrase

namespace InSnakeCase

/-- A part of a name in snake case is a phrase if no underscore stands at either end of
it. -/
theorem isPhrase_of_isInfix (h : InSnakeCase cs) (hds : ds <:+: cs)
    (hstart : ∀ c ∈ ds.head?, isAlnum c = true) (hstop : ∀ c ∈ ds.getLast?, isAlnum c = true) :
    IsPhrase ds := by
  have hchars : ∀ c ∈ ds, (isAlnum c = true ∨ c = '_') ∧ isUpper c = false :=
    fun c hc => isNameChar_iff.mp (h.chars c (hds.subset hc))
  obtain ⟨before, after, rfl⟩ := hds
  exact ⟨⟨fun c hc => (hchars c hc).1, h.single.left_of_append.right_of_append, hstart, hstop⟩,
    fun c hc => (hchars c hc).2⟩

/-- The end of a name without an underscore there is one if none stands in front. -/
theorem isPhrase_of_isSuffix (h : InSnakeCase cs) (hback : ¬ ∃ rest ≠ [], cs = rest ++ ['_'])
    (hds : ds <:+ cs) (hstart : ∀ c ∈ ds.head?, isAlnum c = true) : IsPhrase ds := by
  refine h.isPhrase_of_isInfix hds.isInfix hstart fun c hc => ?_
  have hname := isNameChar_iff.mp (h.chars c (hds.subset (List.mem_of_mem_getLast? hc)))
  refine hname.1.resolve_right ?_
  rintro rfl
  obtain ⟨rest, rfl⟩ := List.getLast?_eq_some_iff.mp hc
  obtain ⟨before, rfl⟩ := hds
  refine hback ⟨before ++ rest, fun hnil => ?_, (List.append_assoc ..).symm⟩
  rw [(List.append_eq_nil_iff.mp hnil).2] at hstart
  exact absurd (hstart '_' rfl) (by decide)

/-- **Every name in snake case** is a phrase with its guards. -/
theorem exists_isPhrase (h : InSnakeCase cs) :
    ∃ p, IsPhrase p ∧ guardReserved (guardStart p) = cs := by
  by_cases hback : ∃ rest ≠ [], cs = rest ++ ['_']
  · -- What the underscore at the end guards is a reserved word, and that is a phrase.
    obtain ⟨rest, hne, rfl⟩ := hback
    have hreserved := h.back rest hne rfl
    have halnum : ∀ c ∈ rest, isAlnum c = true := fun c hc =>
      (Bool.or_eq_true _ _).mpr (.inl (isLetter_of_mem_reserved hreserved c hc))
    have hguard : guardStart rest = rest := by
      obtain ⟨c, rest, rfl⟩ := List.exists_cons_of_ne_nil hne
      rw [guardStart, if_neg (by simp [h.start c rfl])]
    refine ⟨rest, h.isPhrase_of_isInfix (List.prefix_append _ _).isInfix
      (fun c hc => halnum c (List.mem_of_mem_head? hc))
      (fun c hc => halnum c (List.mem_of_mem_getLast? hc)), ?_⟩
    rw [hguard, guardReserved, if_pos hreserved]
  · -- Otherwise there is at most the underscore in front.
    obtain ⟨c, rest, rfl⟩ := List.exists_cons_of_ne_nil h.ne_nil
    rcases (isNameChar_iff.mp (h.chars c List.mem_cons_self)).1 with hc | rfl
    · refine ⟨c :: rest, h.isPhrase_of_isSuffix hback List.suffix_rfl (by simpa using hc), ?_⟩
      rw [guardStart, if_neg (by simp [h.start c rfl]), guardReserved, if_neg h.notReserved]
    · cases rest with
      | nil =>
        exact ⟨[], h.isPhrase_of_isSuffix hback List.nil_suffix (by simp), by decide +kernel⟩
      | cons d rest =>
        have hd : isDigit d = true := h.front d rest rfl
        refine ⟨d :: rest, h.isPhrase_of_isSuffix hback (List.suffix_cons _ _) ?_, ?_⟩
        · simpa using isAlnum_of_isDigit hd
        · rw [guardStart, if_pos hd, guardReserved, if_neg h.notReserved]

end InSnakeCase

/-- **An attribute name** is in snake case. -/
theorem inSnakeCase_snake (cs : List Char) : InSnakeCase (snake cs) :=
  (isPhrase_body cs).inSnakeCase

/-- **The names in snake case** are the texts that are their own attribute names. -/
theorem snake_eq_self_iff : snake cs = cs ↔ InSnakeCase cs := by
  constructor
  · exact fun h => h ▸ inSnakeCase_snake cs
  · intro h
    obtain ⟨p, hp, rfl⟩ := h.exists_isPhrase
    rw [snake_eq, hp.body_eq]

theorem toSnake_eq_self_iff {name : String} : toSnake name = name ↔ InSnakeCase name.toList := by
  rw [← snake_eq_self_iff, ← String.toList_inj, toSnake, String.toList_ofList]

end Exemplar.Naming
