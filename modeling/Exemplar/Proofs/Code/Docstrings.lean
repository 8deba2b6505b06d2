import Exemplar.Code.Module
import Exemplar.Proofs.Code.Literals

/-!
# Documentation that says what it should

The documentation of a record and of a module comes from the server, and is
written between three quotes. Whatever a description holds, its literal ends at
the quotes that are written for its end, and it says the lines of the
description and nothing else (`literals_read_back`): a text can neither close
its literal early nor keep it open.

The escapes are put in by two substitutions, one after the other, and the lines
are cut once more behind them. Both are brought to the one walk that literals
are read back by: the substitutions are `Literal.escaped` (`escape_eq`), and
cutting gives the lines that were joined (`lines_joinLines`).
-/

namespace Exemplar

/-- **The text of some lines**, each with its break. -/
def Code.textOf (lines : List String) : List Char := lines.flatMap fun l => l.toList ++ ['\n']

namespace Description

open Code (textOf)
open Code.Literal

variable {c : Char} {cs ds l : List Char} {ls : List (List Char)} {v : Json}

/-! ## Lines -/

/-- **A line**: it is not empty, and holds no line break. -/
structure IsLine (l : List Char) : Prop where
  ne_nil : l ≠ []
  noBreak : ∀ c ∈ l, Text.isLineBreak c = false

/-- The lines of a description are lines. -/
theorem isLine_of_mem_lines (h : l ∈ lines v) : IsLine l := by
  unfold lines at h
  split at h
  · obtain ⟨hl, hblank⟩ := List.mem_filter.mp h
    obtain ⟨raw, hraw, rfl⟩ := List.mem_map.mp hl
    refine ⟨fun hnil => ?_, fun c hc => Text.isLineBreak_of_mem_lines hraw ?_⟩
    · rw [hnil] at hblank
      exact absurd hblank (by decide)
    · exact List.mem_reverse.mp ((List.dropWhile_sublist _).subset (List.mem_reverse.mp hc))
  · nomatch h

/-- A text is cut behind its first line. -/
theorem lines_append_break (h : ∀ c ∈ l, Text.isLineBreak c = false) (cs : List Char) :
    Text.lines (l ++ '\n' :: cs) = l :: Text.lines cs := by
  induction l with
  | nil => rfl
  | cons c l ih =>
    obtain ⟨hc, hl⟩ := List.forall_mem_cons.mp h
    have hr : c ≠ '\r' := by
      rintro rfl
      exact absurd hc (by decide)
    rw [List.cons_append, Text.lines, if_neg (by simp [hc]), ih hl]
    exact fun _ hcr _ => hr hcr

theorem IsLine.lines_eq (h : IsLine l) : Text.lines l = [l] := by
  obtain ⟨hne, hbreak⟩ := h
  induction l with
  | nil => exact absurd rfl hne
  | cons c l ih =>
    obtain ⟨hc, hl⟩ := List.forall_mem_cons.mp hbreak
    have hr : c ≠ '\r' := by
      rintro rfl
      exact absurd hc (by decide)
    rw [Text.lines, if_neg (by simp [hc])]
    · cases l with
      | nil => rfl
      | cons d l => rw [ih (List.cons_ne_nil d l) hl]
    · exact fun _ hcr _ => hr hcr

/-- **Joined lines are cut again** where they were joined. -/
theorem lines_joinLines (h : ∀ l ∈ ls, IsLine l) : Text.lines (joinLines ls) = ls := by
  induction ls with
  | nil => rfl
  | cons l ls ih =>
    obtain ⟨hl, hls⟩ := List.forall_mem_cons.mp h
    cases ls with
    | nil => rw [joinLines, List.intercalate_singleton, hl.lines_eq]
    | cons m ls =>
      rw [joinLines, List.intercalate_cons_cons, List.append_assoc, List.singleton_append,
        lines_append_break hl.noBreak]
      exact congrArg (l :: ·) (ih hls)

/-! ## Escaping -/

/-- A backslash is doubled where it stands. -/
theorem doubleBackslashes_cons (c : Char) (cs : List Char) :
    doubleBackslashes (c :: cs)
      = if c = '\\' then '\\' :: '\\' :: doubleBackslashes cs else c :: doubleBackslashes cs := by
  by_cases hc : c = '\\' <;>
    simp [doubleBackslashes, Text.substitute, Text.substituteFrom, Text.literalRule,
      Text.dropStart?, hc]

/-- Three quotes in a row are escaped. -/
theorem escapeTriples_quotes (cs : List Char) :
    escapeTriples ('"' :: '"' :: '"' :: cs)
      = '\\' :: '"' :: '\\' :: '"' :: '\\' :: '"' :: escapeTriples cs := by
  simp [escapeTriples, Text.substitute, Text.substituteFrom, Text.literalRule, Text.dropStart?]

/-- Anything else is left as it is. -/
theorem escapeTriples_cons (h : ∀ ds, c = '"' → cs ≠ '"' :: '"' :: ds) :
    escapeTriples (c :: cs) = c :: escapeTriples cs := by
  have hrule : Text.literalRule '"' ['"', '"'] ['\\', '"', '\\', '"', '\\', '"'] c cs = none := by
    refine if_neg fun ⟨hc, hstart⟩ => ?_
    obtain ⟨rest, hrest⟩ := Option.isSome_iff_exists.mp hstart
    exact h rest hc (Text.dropStart?_eq_some_iff.mp hrest)
  rw [escapeTriples, Text.substitute, Text.substituteFrom, hrule]
  rfl

/-- Quotes in front of doubled backslashes were there before. -/
theorem eq_of_doubleBackslashes_eq (h : doubleBackslashes cs = '"' :: ds) :
    ∃ es, cs = '"' :: es ∧ doubleBackslashes es = ds := by
  cases cs with
  | nil => nomatch h
  | cons c cs =>
    rw [doubleBackslashes_cons] at h
    split_ifs at h with hc
    · exact absurd (List.cons.inj h).1 (by decide)
    · obtain ⟨rfl, rfl⟩ := List.cons.inj h
      exact ⟨cs, rfl, rfl⟩

/-- **The two substitutions are one walk.** -/
theorem escapeTriples_doubleBackslashes (cs : List Char) :
    escapeTriples (doubleBackslashes cs) = escaped cs := by
  fun_induction escaped cs with
  | case1 cs ih =>
    simp only [doubleBackslashes_cons, if_neg (show ¬ '"' = '\\' by decide),
      escapeTriples_quotes, ih]
  | case2 cs _ ih =>
    rw [doubleBackslashes_cons, if_pos rfl, escapeTriples_cons (by simp),
      escapeTriples_cons (by simp), ih]
  | case3 c cs hne hc ih =>
    rw [doubleBackslashes_cons, if_neg hc, escapeTriples_cons, ih]
    intro ds hquote hds
    -- The first three characters are quotes before the backslashes are doubled.
    obtain ⟨es, rfl, hes⟩ := eq_of_doubleBackslashes_eq hds
    obtain ⟨fs, rfl, -⟩ := eq_of_doubleBackslashes_eq hes
    exact hne fs hquote rfl
  | case4 => rfl

/-- Behind anything but a quote, escaping starts afresh. -/
theorem escaped_append_cons (hc : c ≠ '"') (cs ds : List Char) :
    escaped (cs ++ c :: ds) = escaped cs ++ escaped (c :: ds) := by
  fun_induction escaped cs with
  | case1 cs ih => simp only [List.cons_append, escaped, ih]
  | case2 cs hne ih => simp [escaped, ih]
  | case3 d cs hne hd ih =>
    rw [List.cons_append, escaped, if_neg hd, ih, List.cons_append]
    -- Three quotes in a row would be in front of what follows.
    rintro es rfl hes
    rcases cs with _ | ⟨_, _ | ⟨_, cs⟩⟩
    · exact hc (List.cons.inj hes).1
    · exact hc (List.cons.inj (List.cons.inj hes).2).1
    · obtain ⟨rfl, htail⟩ := List.cons.inj hes
      obtain ⟨rfl, -⟩ := List.cons.inj htail
      exact hne cs rfl rfl
  | case4 => rfl

/-- Characters that need no escape stay in front of what follows. -/
theorem escaped_append_of_plain (h : ∀ c ∈ cs, c ≠ '"' ∧ c ≠ '\\') (ds : List Char) :
    escaped (cs ++ ds) = cs ++ escaped ds := by
  induction cs with
  | nil => rfl
  | cons c cs ih =>
    obtain ⟨⟨hquote, hbackslash⟩, hcs⟩ := List.forall_mem_cons.mp h
    rw [List.cons_append, escaped, if_neg hbackslash, ih hcs, List.cons_append]
    exact fun _ hc _ => hquote hc

/-- **Lines are escaped one by one**, whatever blanks they are joined with. -/
theorem escaped_intercalate {blanks : List Char} (h : ∀ c ∈ blanks, c ≠ '"' ∧ c ≠ '\\')
    (ls : List (List Char)) :
    escaped (('\n' :: blanks).intercalate ls)
      = ('\n' :: blanks).intercalate (ls.map escaped) := by
  have hplain : ∀ c ∈ '\n' :: blanks, c ≠ '"' ∧ c ≠ '\\' :=
    List.forall_mem_cons.mpr ⟨by decide, h⟩
  have hsep : ∀ ds, escaped ('\n' :: (blanks ++ ds)) = '\n' :: (blanks ++ escaped ds) :=
    escaped_append_of_plain hplain
  induction ls with
  | nil => rfl
  | cons l ls ih =>
    cases ls with
    | nil => rw [List.map_singleton, List.intercalate_singleton, List.intercalate_singleton]
    | cons m ls =>
      rw [List.map_cons, List.map_cons, List.intercalate_cons_cons, List.intercalate_cons_cons,
        List.append_assoc, List.cons_append, escaped_append_cons (by decide), hsep, ih,
        List.map_cons, List.append_assoc, List.cons_append]

/-- Escaping adds backslashes to a text, and nothing else. -/
theorem of_mem_escaped (h : c ∈ escaped cs) : c ∈ cs ∨ c = '\\' := by
  fun_induction escaped cs with
  | case1 cs ih =>
    simp only [List.mem_cons] at h ⊢
    tauto
  | case2 cs _ ih =>
    simp only [List.mem_cons] at h ⊢
    tauto
  | case3 d cs _ _ ih =>
    simp only [List.mem_cons] at h ⊢
    tauto
  | case4 => exact .inl h

/-- A text ends as it did. -/
theorem getLast?_escaped (cs : List Char) : (escaped cs).getLast? = cs.getLast? := by
  fun_induction escaped cs with
  | case1 cs ih => simp [List.getLast?_cons, ih]
  | case2 cs _ ih => simp [List.getLast?_cons, ih]
  | case3 d cs _ _ ih => simp [List.getLast?_cons, ih]
  | case4 => rfl

/-- A line that is escaped is a line. -/
theorem IsLine.escaped (h : IsLine l) : IsLine (escaped l) := by
  refine ⟨fun hnil => h.ne_nil ?_, fun c hc => ?_⟩
  · have hlast := getLast?_escaped l
    rw [hnil] at hlast
    exact List.getLast?_eq_none_iff.mp hlast.symm
  · rcases of_mem_escaped hc with hc | rfl
    · exact h.noBreak c hc
    · decide

/-! ## The quote at the end -/

theorem getLast?_setOffQuote (cs : List Char) : (setOffQuote cs).getLast? ≠ some '"' := by
  unfold setOffQuote
  split_ifs with h
  · simp
  · exact h

theorem IsLine.setOffQuote (h : IsLine l) : IsLine (setOffQuote l) := by
  unfold Description.setOffQuote
  split_ifs
  · refine ⟨by simp, fun c hc => ?_⟩
    rcases List.mem_append.mp hc with hc | hc
    · exact h.noBreak c hc
    · rw [List.mem_singleton.mp hc]
      decide
  · exact h

/-- The space is put behind the quote before or after the text is escaped. -/
theorem setOffQuote_escaped (cs : List Char) :
    setOffQuote (escaped cs) = escaped (setOffQuote cs) := by
  unfold setOffQuote
  rw [getLast?_escaped]
  split_ifs
  · rw [escaped_append_cons (by decide)]
    rfl
  · rfl

/-- The lines, the last one set off from the quotes behind it. -/
def setOffLast : List (List Char) → List (List Char)
  | [] => []
  | [l] => [setOffQuote l]
  | l :: m :: ls => l :: setOffLast (m :: ls)

/-- **What keeps a quote at the very end apart** from the quotes behind it. -/
def padding (ls : List (List Char)) : List Char :=
  if (ls.getLast?.bind List.getLast?) = some '"' then [' '] else []

theorem setOffQuote_eq (cs : List Char) :
    setOffQuote cs = cs ++ if cs.getLast? = some '"' then [' '] else [] := by
  unfold setOffQuote
  split_ifs <;> simp

theorem setOffLast_ne_nil (h : ls ≠ []) : setOffLast ls ≠ [] := by
  fun_cases setOffLast ls with
  | case1 => exact absurd rfl h
  | case2 => exact List.cons_ne_nil _ _
  | case3 => exact List.cons_ne_nil _ _

theorem length_setOffLast (ls : List (List Char)) : (setOffLast ls).length = ls.length := by
  fun_induction setOffLast ls with
  | case1 => rfl
  | case2 => rfl
  | case3 l m ls ih => exact congrArg (· + 1) ih

/-- The last line ends the joined lines. -/
theorem getLast?_intercalate (sep : List Char) (h : ∀ l ∈ ls, l ≠ []) :
    (sep.intercalate ls).getLast? = ls.getLast?.bind List.getLast? := by
  induction ls with
  | nil => rfl
  | cons l ls ih =>
    obtain ⟨-, hls⟩ := List.forall_mem_cons.mp h
    cases ls with
    | nil => rw [List.intercalate_singleton]; rfl
    | cons m ls =>
      have hne : ((m :: ls).getLast?.bind List.getLast?) ≠ none := by
        rw [List.getLast?_eq_some_getLast (List.cons_ne_nil m ls), Option.bind_some, ne_eq,
          List.getLast?_eq_none_iff]
        exact hls _ (List.getLast_mem _)
      obtain ⟨d, hd⟩ := Option.ne_none_iff_exists'.mp hne
      rw [List.intercalate_cons_cons, List.getLast?_append, ih hls, hd, List.getLast?_cons_cons,
        hd]
      rfl

/-- Setting off the last line puts the space at the very end. -/
theorem intercalate_setOffLast (sep : List Char) (ls : List (List Char)) :
    sep.intercalate (setOffLast ls) = sep.intercalate ls ++ padding ls := by
  fun_induction setOffLast ls with
  | case1 => rfl
  | case2 l => rw [List.intercalate_singleton, List.intercalate_singleton, setOffQuote_eq]; rfl
  | case3 l m ls ih =>
    rw [List.intercalate_cons_of_ne_nil (setOffLast_ne_nil (List.cons_ne_nil m ls)), ih,
      List.intercalate_cons_cons, ← List.append_assoc]
    rfl

/-- So does setting off the joined lines. -/
theorem setOffQuote_intercalate (sep : List Char) (h : ∀ l ∈ ls, l ≠ []) :
    setOffQuote (sep.intercalate ls) = sep.intercalate ls ++ padding ls := by
  rw [setOffQuote_eq, getLast?_intercalate _ h, padding]

theorem map_escaped_setOffLast (ls : List (List Char)) :
    (setOffLast ls).map escaped = setOffLast (ls.map escaped) := by
  fun_induction setOffLast ls with
  | case1 => rfl
  | case2 l => exact congrArg ([·]) (setOffQuote_escaped l).symm
  | case3 l m ls ih => exact congrArg (escaped l :: ·) ih

theorem isLine_of_mem_setOffLast (h : ∀ l ∈ ls, IsLine l) : ∀ l ∈ setOffLast ls, IsLine l := by
  fun_induction setOffLast ls with
  | case1 => exact h
  | case2 l => exact List.forall_mem_singleton.mpr (List.forall_mem_singleton.mp h).setOffQuote
  | case3 l m ls ih =>
    obtain ⟨hl, hls⟩ := List.forall_mem_cons.mp h
    exact List.forall_mem_cons.mpr ⟨hl, ih hls⟩

/-- **What is escaped of a description**: its lines, the last one set off. -/
theorem escape_eq (v : Json) : escape v = joinLines ((setOffLast (lines v)).map escaped) := by
  have hlines : ∀ l ∈ (lines v).map escaped, l ≠ [] := by
    intro l hl
    obtain ⟨m, hm, rfl⟩ := List.mem_map.mp hl
    exact (isLine_of_mem_lines hm).escaped.ne_nil
  rw [escape, escapeTriples_doubleBackslashes, joinLines, escaped_intercalate (by simp),
    setOffQuote_intercalate _ hlines, ← intercalate_setOffLast, map_escaped_setOffLast, joinLines]

/-- It is what the set-off lines are escaped to, joined first. -/
theorem escape_eq_escaped (v : Json) :
    escape v = escaped (joinLines (lines v) ++ padding (lines v)) := by
  rw [escape_eq, joinLines, ← escaped_intercalate (by simp), intercalate_setOffLast, joinLines]

/-! ## Literals -/

/-- **What the literal of a description says**, between quotes that stand
behind so much indentation: the lines of the description, the second and all
that follow indented, and more than one with the closing quotes on a line of
their own. -/
def documented (indent : List Char) (ls : List (List Char)) : List Char :=
  ('\n' :: indent).intercalate ls ++ padding ls
    ++ if ls.length ≤ 1 then [] else '\n' :: indent

/-- A description without lines has no literal. -/
theorem literal_eq_nil (h : lines v = []) (indent : String) : literal indent v = [] := by
  have hempty : (escape v).isEmpty = true := by rw [escape_eq, h]; rfl
  rw [literal, if_pos hempty]

/-- Indented lines, and the indentation of the quotes behind them. -/
theorem intercalate_append_sep (indent l : List Char) (ls : List (List Char)) :
    ('\n' :: indent).intercalate (l :: ls) ++ '\n' :: indent
      = l ++ '\n' :: (ls.flatMap (fun m => indent ++ (m ++ ['\n'])) ++ indent) := by
  induction ls generalizing l with
  | nil => rw [List.intercalate_singleton]; rfl
  | cons m ls ih =>
    rw [List.intercalate_cons_cons, List.append_assoc, ih]
    simp

/-- The text of the lines of a literal, whose own lines are given. -/
theorem textOf_literalLines {indent : String} (h : escape v = joinLines ls) (hne : ls ≠ [])
    (hls : ∀ l ∈ ls, IsLine l) :
    textOf (literal indent v) = indent.toList ++ (Quotes.three.text
      ++ (('\n' :: indent.toList).intercalate ls
        ++ ((if ls.length ≤ 1 then [] else '\n' :: indent.toList)
          ++ (Quotes.three.text ++ ['\n', '\n'])))) := by
  have hempty : (escape v).isEmpty = false := by
    cases hescape : escape v with
    | nil =>
      have hcut := lines_joinLines hls
      rw [← h, hescape] at hcut
      exact absurd hcut.symm hne
    | cons => rfl
  rw [literal, hempty, if_neg (by decide), h, lines_joinLines hls]
  match ls with
  | [] => exact absurd rfl hne
  | [l] =>
    simp [textOf, Quotes.text, List.intercalate_singleton, ToString.toString]
  | l :: m :: ls =>
    have hnonempty : ∀ k ∈ m :: ls, String.ofList k ≠ "" := by
      intro k hk hk'
      exact (hls k (List.mem_cons_of_mem l hk)).ne_nil (by simpa using congrArg String.toList hk')
    have hindented : textOf (((m :: ls).map String.ofList).map
        fun l => if l = "" then "" else indent ++ l)
          = (m :: ls).flatMap fun k => indent.toList ++ (k ++ ['\n']) := by
      rw [textOf, List.map_map, List.flatMap_map]
      refine List.flatMap_congr fun k hk => ?_
      rw [Function.comp_apply, if_neg (hnonempty k hk)]
      simp
    rw [if_neg (by simp), ← List.append_assoc (List.intercalate _ _), intercalate_append_sep,
      ← hindented]
    simp [textOf, Quotes.text, ToString.toString]

/-- **The literal of a description** with lines. -/
theorem textOf_literal (h : lines v ≠ []) {indent : String}
    (hindent : ∀ c ∈ indent.toList, c ≠ '"' ∧ c ≠ '\\') :
    textOf (literal indent v) = indent.toList ++ (Quotes.three.text
      ++ (escaped (documented indent.toList (lines v))
        ++ (Quotes.three.text ++ ['\n', '\n']))) := by
  have hms : ∀ m ∈ (setOffLast (lines v)).map escaped, IsLine m := by
    intro m hm
    obtain ⟨k, hk, rfl⟩ := List.mem_map.mp hm
    exact (isLine_of_mem_setOffLast (fun l hl => isLine_of_mem_lines hl) k hk).escaped
  have hlength : ((setOffLast (lines v)).map escaped).length = (lines v).length := by
    rw [List.length_map, length_setOffLast]
  have hne : (setOffLast (lines v)).map escaped ≠ [] := by
    simpa using setOffLast_ne_nil h
  -- Behind the last line the quotes follow at once, or on a line of their own.
  have hvalue : escaped (documented indent.toList (lines v))
      = ('\n' :: indent.toList).intercalate ((setOffLast (lines v)).map escaped)
        ++ if (lines v).length ≤ 1 then [] else '\n' :: indent.toList := by
    rw [documented, ← intercalate_setOffLast, ← escaped_intercalate hindent]
    split_ifs
    · rw [List.append_nil, List.append_nil]
    · have hplain := escaped_append_of_plain hindent []
      rw [List.append_nil] at hplain
      rw [escaped_append_cons (by decide), escaped, if_neg (by decide), hplain]
      · simp [escaped]
      · simp
  rw [hvalue, textOf_literalLines (escape_eq v) hne hms, hlength]
  simp only [List.append_assoc]

/-- A carriage return is no part of lines that are joined with blanks. -/
theorem return_not_mem_intercalate {blanks : List Char} (hblanks : '\r' ∉ blanks)
    (h : ∀ l ∈ ls, IsLine l) : '\r' ∉ ('\n' :: blanks).intercalate ls := by
  induction ls with
  | nil => exact List.not_mem_nil
  | cons l ls ih =>
    obtain ⟨hl, hls⟩ := List.forall_mem_cons.mp h
    have hr : '\r' ∉ l := fun hr => absurd (hl.noBreak _ hr) (by decide)
    cases ls with
    | nil => rwa [List.intercalate_singleton]
    | cons m ls =>
      rw [List.intercalate_cons_cons]
      simp [hr, hblanks, ih hls]

theorem return_not_mem_padding (ls : List (List Char)) : '\r' ∉ padding ls := by
  unfold padding
  split_ifs <;> simp

/-- **Set-off lines are read back** from between quotes, however they are
indented. -/
theorem read_shown {blanks : List Char} (hblanks : '\r' ∉ blanks) (v : Json)
    (rest : List Char) :
    read .three (escaped (('\n' :: blanks).intercalate (lines v) ++ padding (lines v))
        ++ (Quotes.three.text ++ rest))
      = some (codes (('\n' :: blanks).intercalate (lines v) ++ padding (lines v)), rest) := by
  refine read_escaped ?_ ?_ rest
  · have hlines := return_not_mem_intercalate hblanks fun l hl => isLine_of_mem_lines (v := v) hl
    simp [hlines, return_not_mem_padding]
  · rw [← setOffQuote_intercalate _ fun l hl => (isLine_of_mem_lines hl).ne_nil]
    exact getLast?_setOffQuote _

/-- **What is read between the quotes of a literal.** -/
theorem read_documented {blanks : List Char} (hblanks : '\r' ∉ blanks)
    (hlast : blanks.getLast? ≠ some '"') (v : Json) (rest : List Char) :
    read .three (escaped (documented blanks (lines v)) ++ (Quotes.three.text ++ rest))
      = some (codes (documented blanks (lines v)), rest) := by
  unfold documented
  split_ifs
  · rw [List.append_nil]
    exact read_shown hblanks v rest
  · have hlines := return_not_mem_intercalate hblanks fun l hl => isLine_of_mem_lines (v := v) hl
    refine read_escaped ?_ ?_ rest
    · simp [hlines, return_not_mem_padding, hblanks]
    · rw [List.getLast?_append, List.getLast?_cons, Option.some_or]
      cases hblank : blanks.getLast? with
      | none => simp
      | some c => simpa [hblank] using hlast

end Description

namespace Code

open Description Literal

/-- Indentation needs no escape. -/
theorem plain_of_mem_indent : ∀ c ∈ indent.toList, c ≠ '"' ∧ c ≠ '\\' := by
  simp [indent]

/-- **The header of a module.** -/
theorem toList_header (v : Json) (imports : List String) :
    (header v imports).toList = warning.toList ++ '\n' :: (Quotes.three.text ++ (escape v
      ++ (Quotes.three.text
        ++ '\n' :: '\n' :: (("\n".intercalate imports).toList ++ ['\n'])))) := by
  have hpieces : Template.pieces headerTemplate = [.variable_ "warning", .plain '\n', .plain '"',
      .plain '"', .plain '"', .variable_ "docstring", .plain '"', .plain '"', .plain '"',
      .plain '\n', .plain '\n', .variable_ "imports", .plain '\n'] := rfl
  rw [header, Template.text, String.toList_join, hpieces]
  simp [Template.pieceText, Template.valueOf, Json.find?, Json.display, Quotes.text]

/-- **A literal says what it should**, in a record and at the start of a module:
it ends at the quotes that are written for its end, whatever comes behind them,
and what is read of it are the lines of the description. A description without
lines has no literal in a record. -/
theorem literals_read_back (v : Json) (imports : List String) :
    (lines v = [] ∧ literal indent v = [] ∨ lines v ≠ [] ∧ ∃ inside,
      textOf (literal indent v) = indent.toList ++ (Quotes.three.text
        ++ (inside ++ (Quotes.three.text ++ ['\n', '\n'])))
      ∧ ∀ rest, read .three (inside ++ (Quotes.three.text ++ rest))
        = some (codes (documented indent.toList (lines v)), rest))
    ∧ ∃ inside, (header v imports).toList = warning.toList ++ '\n' :: (Quotes.three.text
        ++ (inside ++ (Quotes.three.text
          ++ '\n' :: '\n' :: (("\n".intercalate imports).toList ++ ['\n']))))
      ∧ ∀ rest, read .three (inside ++ (Quotes.three.text ++ rest))
        = some (codes (joinLines (lines v) ++ padding (lines v)), rest) := by
  constructor
  · by_cases h : lines v = []
    · exact .inl ⟨h, literal_eq_nil h indent⟩
    · exact .inr ⟨h, _, textOf_literal h plain_of_mem_indent,
        read_documented (by decide) (by decide) v⟩
  · exact ⟨_, toList_header v imports,
      fun rest => escape_eq_escaped v ▸ read_shown (by simp) v rest⟩

end Code

end Exemplar
