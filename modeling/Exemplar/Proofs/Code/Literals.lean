import Exemplar.Description
import Exemplar.Json.Reader
import Exemplar.Json.Writer
import Mathlib.Data.List.Basic
import Mathlib.Data.Nat.Digits.Defs

/-!
# Reading literals back

How the text literals of a generated module are read (`Literal.read`), and
what is read of the two sorts of literal that are written: documentation,
between three quotes, and keys, between one.

Between three quotes a text is escaped by `Literal.escaped`, in one walk over
it, and is read back as it was, up to the first three quotes behind it
(`Literal.read_escaped`). Between one quote a text is written the way
documents write their strings, which is the language of documents and not the
one it is read in: a character beyond the basic plane is written as two codes,
and it is these two that are read (`Literal.read_written`).
-/

namespace Exemplar.Code.Literal

open Text (dropStart?)

/-- **The codes of a text.** What a literal stands for is told in codes, since
half a surrogate pair is a code that is no character. -/
def codes (cs : List Char) : List Nat := cs.map Char.toNat

/-- **The quotes around a literal**, at either end. -/
inductive Quotes where
  | one
  | three
  deriving DecidableEq, Repr

/-- The text of the quotes. -/
def Quotes.text : Quotes → List Char
  | one => ['"']
  | three => ['"', '"', '"']

/-! ## Escapes -/

/-- The number that digits in base sixteen go on with, the digits before them
read already. -/
def hexFrom? (n : Nat) : List Char → Option Nat
  | [] => some n
  | c :: cs => (Json.hexValue? c).bind fun d => hexFrom? (n * 16 + d) cs

/-- A code in exactly so many digits, and how many characters are read with
the letter in front of them. -/
def codeEscape? (width : Nat) (cs : List Char) : Option (List Nat × Nat) :=
  if cs.length < width then none
  else (hexFrom? 0 (cs.take width)).bind fun n =>
    if n ≤ 0x10ffff then some ([n], width + 1) else none

/-- The code that a letter stands for behind a backslash. -/
def letterEscape? : Char → Option Nat
  | '\\' => some 0x5c
  | '\'' => some 0x27
  | '"' => some 0x22
  | 'a' => some 0x07
  | 'b' => some 0x08
  | 'f' => some 0x0c
  | 'n' => some 0x0a
  | 'r' => some 0x0d
  | 't' => some 0x09
  | 'v' => some 0x0b
  | _ => none

/-- A digit in base eight. -/
def isOctal (c : Char) : Bool := '0' ≤ c && c ≤ '7'

/-- **What a backslash stands for** with the characters behind it, and how many
of these it takes. A line break behind it is left out. A backslash that
escapes nothing stands for itself. Characters by their names are not read. -/
def escape? : List Char → Option (List Nat × Nat)
  | [] => none
  | '\n' :: _ => some ([], 1)
  | 'x' :: cs => codeEscape? 2 cs
  | 'u' :: cs => codeEscape? 4 cs
  | 'U' :: cs => codeEscape? 8 cs
  | 'N' :: _ => none
  | '\r' :: _ => none
  | c :: cs =>
    match letterEscape? c with
    | some n => some ([n], 1)
    | none =>
      let digits := ((c :: cs).takeWhile isOctal).take 3
      if digits.isEmpty then some ([0x5c, c.toNat], 1)
      else some ([digits.foldl (fun n d => n * 8 + (d.toNat - 48)) 0], digits.length)

/-! ## Reading -/

/-- What is read of a literal, with some codes in front of it. -/
def prepend (value : List Nat) (read : List Nat × List Char) : List Nat × List Char :=
  (value ++ read.1, read.2)

/-- Reads a literal of which the first `skip` characters are already read. -/
def readFrom (quotes : Quotes) : Nat → List Char → Option (List Nat × List Char)
  | _, [] => none
  | skip + 1, _ :: cs => readFrom quotes skip cs
  | 0, c :: cs =>
    match dropStart? quotes.text (c :: cs) with
    | some rest => some ([], rest)
    | none =>
      if c = '\\' then
        (escape? cs).bind fun (value, n) => (readFrom quotes n cs).map (prepend value)
      else if c = '\r' ∨ c = '\n' ∧ quotes = .one then none
      else (readFrom quotes 0 cs).map (prepend [c.toNat])

/-- **Reads a literal** from behind its opening quotes: the codes that it stands
for, and the text behind its closing quotes. These are the first that are not
escaped. A literal between single quotes ends on its line, and no literal
holds a carriage return. -/
def read (quotes : Quotes) (cs : List Char) : Option (List Nat × List Char) :=
  readFrom quotes 0 cs

variable {c : Char} {cs rest : List Char} {quotes : Quotes} {value : List Nat} {n : Nat}

/-- The closing quotes end a literal. -/
theorem read_quotes (quotes : Quotes) (rest : List Char) :
    read quotes (quotes.text ++ rest) = some ([], rest) := by
  have hends : ∀ c cs, dropStart? quotes.text (c :: cs) = some rest →
      read quotes (c :: cs) = some ([], rest) := by
    intro c cs h
    rw [read, readFrom, h]
  have h : dropStart? quotes.text (quotes.text ++ rest) = some rest :=
    Text.dropStart?_eq_some_iff.mpr rfl
  cases quotes with
  | one => exact hends _ _ h
  | three => exact hends _ _ h

/-- Quotes start with a quote. -/
theorem dropStart?_quotes_of_ne (hc : c ≠ '"') (cs : List Char) :
    dropStart? quotes.text (c :: cs) = none := by
  cases quotes <;> simp [Quotes.text, dropStart?, hc.symm]

/-- **An escape** is read as what it stands for. -/
theorem read_escape (quotes : Quotes) (h : escape? (cs ++ rest) = some (value, cs.length)) :
    read quotes ('\\' :: (cs ++ rest)) = (read quotes rest).map (prepend value) := by
  have hskip : ∀ ds, readFrom quotes ds.length (ds ++ rest) = readFrom quotes 0 rest := by
    intro ds
    induction ds with
    | nil => rfl
    | cons d ds ih => exact ih
  rw [read, readFrom, dropStart?_quotes_of_ne (by decide)]
  simp only [if_true, h, Option.bind_some, hskip, read]

/-- **Any other character** is read as itself. -/
theorem read_plain (hquotes : dropStart? quotes.text (c :: cs) = none) (hc : c ≠ '\\')
    (hr : c ≠ '\r') (hn : c ≠ '\n' ∨ quotes = .three) :
    read quotes (c :: cs) = (read quotes cs).map (prepend [c.toNat]) := by
  have hbreak : ¬ (c = '\r' ∨ c = '\n' ∧ quotes = .one) := by
    rintro (h | ⟨h, h'⟩)
    · exact hr h
    · rcases hn with hn | hn
      · exact hn h
      · exact absurd (h'.symm.trans hn) (by decide)
  rw [read, readFrom, hquotes]
  simp only [if_neg hc, if_neg hbreak, read]

/-! ## Between three quotes -/

/-- **A text inside a literal between three quotes**: a backslash in front of
every backslash, and of each quote of three in a row. -/
def escaped : List Char → List Char
  | '"' :: '"' :: '"' :: cs => '\\' :: '"' :: '\\' :: '"' :: '\\' :: '"' :: escaped cs
  | c :: cs => if c = '\\' then '\\' :: '\\' :: escaped cs else c :: escaped cs
  | [] => []

/-- A quote in front of an escaped text is one in front of the text. -/
theorem eq_cons_of_escaped_append {tail : List Char} (hcs : cs ≠ [])
    (h : escaped cs ++ tail = '"' :: rest) : ∃ ds, cs = '"' :: ds ∧ escaped ds ++ tail = rest := by
  fun_cases escaped cs with
  | case1 ds =>
    rw [escaped, List.cons_append, List.cons.injEq] at h
    exact absurd h.1 (by decide)
  | case2 ds hne =>
    rw [escaped, if_pos rfl, List.cons_append, List.cons.injEq] at h
    · exact absurd h.1 (by decide)
    · exact hne
  | case3 c ds hne hc =>
    rw [escaped, if_neg hc, List.cons_append, List.cons.injEq] at h
    · exact ⟨ds, by rw [h.1], h.2⟩
    · exact hne
  | case4 => exact absurd rfl hcs

/-- **What is escaped is read back**, up to the three quotes behind it, unless
it ends in a quote. -/
theorem read_escaped (hr : '\r' ∉ cs) (hlast : cs.getLast? ≠ some '"') (rest : List Char) :
    read .three (escaped cs ++ (Quotes.three.text ++ rest)) = some (codes cs, rest) := by
  have hquote : ∀ ds, read .three ('\\' :: (['"'] ++ ds)) = (read .three ds).map (prepend [0x22]) :=
    fun ds => read_escape .three rfl
  have hbackslash : ∀ ds,
      read .three ('\\' :: (['\\'] ++ ds)) = (read .three ds).map (prepend [0x5c]) :=
    fun ds => read_escape .three rfl
  -- A text without its first characters still does not end in a quote.
  have hsuffix : ∀ {ds es : List Char}, ds <:+ es → es.getLast? ≠ some '"' →
      ds.getLast? ≠ some '"' := by
    rintro ds _ ⟨es, rfl⟩ h h'
    exact h (by simp [List.getLast?_append, h'])
  fun_induction escaped cs with
  | case1 cs ih =>
    have hcs : cs <:+ '"' :: '"' :: '"' :: cs := ⟨['"', '"', '"'], rfl⟩
    have h := ih (fun h => hr (hcs.subset h)) (hsuffix hcs hlast)
    simp only [List.cons_append, List.nil_append] at hquote ⊢
    simp only [hquote, h, Option.map_some, prepend]
    rfl
  | case2 cs hne ih =>
    have hcs : cs <:+ '\\' :: cs := List.suffix_cons _ _
    have h := ih (fun h => hr (hcs.subset h)) (hsuffix hcs hlast)
    simp only [List.cons_append, List.nil_append] at hbackslash ⊢
    simp only [hbackslash, h, Option.map_some, prepend]
    rfl
  | case3 c cs hne hc ih =>
    have hcs : cs <:+ c :: cs := List.suffix_cons _ _
    have h := ih (fun h => hr (hcs.subset h)) (hsuffix hcs hlast)
    have hplain : dropStart? Quotes.three.text
        (c :: (escaped cs ++ (Quotes.three.text ++ rest))) = none := by
      refine Option.eq_none_iff_forall_ne_some.mpr fun r hstart => ?_
      obtain ⟨rfl, hds⟩ := List.cons.inj (Text.dropStart?_eq_some_iff.mp hstart)
      -- Two more quotes would be quotes of the text, which does not end in one.
      obtain ⟨ds, rfl, hes⟩ := eq_cons_of_escaped_append (fun h => hlast (by simp [h])) hds
      obtain ⟨es, rfl, -⟩ := eq_cons_of_escaped_append (fun h => hlast (by simp [h])) hes
      exact hne es rfl rfl
    rw [List.cons_append, read_plain hplain hc (fun h => hr (h ▸ List.mem_cons_self)) (.inr rfl),
      h]
    rfl
  | case4 => exact read_quotes .three rest

/-! ## Between single quotes -/

theorem hexFrom?_append (n : Nat) (cs ds : List Char) :
    hexFrom? n (cs ++ ds) = (hexFrom? n cs).bind fun m => hexFrom? m ds := by
  induction cs generalizing n with
  | nil => rfl
  | cons c cs ih =>
    simp only [List.cons_append, hexFrom?]
    cases Json.hexValue? c with
    | none => rfl
    | some d => exact ih _

/-- Zeros in front change nothing. -/
theorem hexFrom?_zeros (k : Nat) (cs : List Char) :
    hexFrom? 0 (List.replicate k '0' ++ cs) = hexFrom? 0 cs := by
  induction k with
  | zero => rfl
  | succ k ih => exact ih

/-- **A number is read back** from its digits. -/
theorem hexFrom?_toDigits (n : Nat) : hexFrom? 0 (Nat.toDigits 16 n) = some n := by
  have hdigit : ∀ d < 16, Json.hexValue? d.digitChar = some d := by decide
  induction n using Nat.strong_induction_on with
  | _ n ih =>
    rw [Nat.toDigits_eq_if (by decide)]
    by_cases hn : n < 16
    · rw [if_pos hn, hexFrom?, hdigit n hn]
      simp [hexFrom?]
    · rw [if_neg hn, hexFrom?_append, ih (n / 16) (by omega), Option.bind_some, hexFrom?,
        hdigit _ (Nat.mod_lt n (by decide)), Option.bind_some, hexFrom?]
      exact congrArg some (Nat.div_add_mod' n 16)

theorem length_hex {width : Nat} (hw : 0 < width) (hn : n < 16 ^ width) :
    (Text.hex width n).length = width := by
  have hlen := (Nat.length_toDigits_le_iff (by decide) hw).mpr hn
  simp only [Text.hex, List.length_append, List.length_replicate]
  omega

/-- **A code of sixteen bits** is read from its escape. -/
theorem read_unitEscape (quotes : Quotes) (hn : n < 0x10000) (rest : List Char) :
    read quotes (Json.unitEscape n ++ rest) = (read quotes rest).map (prepend [n]) := by
  have hlen : (Text.hex 4 n).length = 4 := length_hex (by decide) hn
  have hvalue : hexFrom? 0 (Text.hex 4 n) = some n := by
    rw [Text.hex, hexFrom?_zeros, hexFrom?_toDigits]
  have hcode : escape? ('u' :: Text.hex 4 n ++ rest)
      = some ([n], ('u' :: Text.hex 4 n).length) := by
    rw [List.cons_append, escape?, codeEscape?, if_neg (by simp [hlen]), List.take_left' hlen,
      hvalue, Option.bind_some, if_pos (by omega), List.length_cons, hlen]
  exact read_escape quotes hcode

/-- **What is read of a character** that is written the way documents write it:
its code, or the two codes of a surrogate pair. -/
def units (c : Char) : List Nat :=
  if c.toNat < 0x10000 then [c.toNat]
  else [0xd800 + (c.toNat - 0x10000) / 0x400, 0xdc00 + c.toNat % 0x400]

/-- A character inside a string is read as its codes. -/
theorem read_writeChar (c : Char) (rest : List Char) :
    read .one (Json.writeChar c ++ rest) = (read .one rest).map (prepend (units c)) := by
  have hletter : ∀ (d e : Char), escape? (e :: rest) = some ([d.toNat], 1) → d.toNat < 0x10000 →
      read .one (['\\', e] ++ rest) = (read .one rest).map (prepend (units d)) := by
    intro d e h hd
    have h : escape? ([e] ++ rest) = some ([d.toNat], [e].length) := h
    rw [units, if_pos hd]
    exact read_escape .one h
  have hmax : c.toNat < 0x110000 := by
    have := c.valid
    simp only [UInt32.isValidChar, Nat.isValidChar] at this
    simp only [Char.toNat]
    omega
  unfold Json.writeChar
  split_ifs with h1 h2 h3 h4 h5 h6 h7
  · exact h1 ▸ hletter '"' '"' rfl (by decide)
  · exact h2 ▸ hletter '\\' '\\' rfl (by decide)
  · exact h3 ▸ hletter '\n' 'n' rfl (by decide)
  · exact h4 ▸ hletter '\r' 'r' rfl (by decide)
  · exact h5 ▸ hletter '\t' 't' rfl (by decide)
  · exact h6 ▸ hletter '\x08' 'b' rfl (by decide)
  · exact h7 ▸ hletter '\x0c' 'f' rfl (by decide)
  · dsimp only
    split_ifs with hplain hunit
    · rw [units, if_pos (by omega)]
      exact read_plain (dropStart?_quotes_of_ne h1 _) h2 h4 (.inl h3)
    · rw [units, if_pos hunit, read_unitEscape .one hunit]
    · rw [units, if_neg hunit, List.append_assoc, read_unitEscape .one (by omega),
        read_unitEscape .one (by omega), Option.map_map]
      rfl

/-- **A string is read back** as the codes that it is written with, up to its
closing quote. -/
theorem read_written (cs rest : List Char) :
    read .one (cs.flatMap Json.writeChar ++ (Quotes.one.text ++ rest))
      = some (cs.flatMap units, rest) := by
  induction cs with
  | nil => exact read_quotes .one rest
  | cons c cs ih =>
    rw [List.flatMap_cons, List.append_assoc, read_writeChar, ih]
    rfl

example : read .one ("\\u00e4\\ud83d\\ude00\"\x7d)".toList)
    = some ([0xe4, 0xd83d, 0xde00], ['\x7d', ')']) := by decide +kernel

/-- **The codes read are those of the text** exactly if no character of it lies
beyond the basic plane. -/
theorem flatMap_units_eq_codes_iff :
    cs.flatMap units = codes cs ↔ ∀ c ∈ cs, c.toNat < 0x10000 := by
  induction cs with
  | nil => simp [codes]
  | cons c cs ih =>
    rw [List.flatMap_cons, List.forall_mem_cons, ← ih]
    by_cases hc : c.toNat < 0x10000
    · simp [units, hc, codes]
    · -- Half of a surrogate pair has a code in the basic plane.
      have hmax : (c.toNat - 0x10000) / 0x400 < 0x400 := by
        have := c.valid
        simp only [UInt32.isValidChar, Nat.isValidChar] at this
        simp only [Char.toNat]
        omega
      have hne : 0xd800 + (c.toNat - 0x10000) / 0x400 ≠ c.toNat := by omega
      simp [units, hc, codes, hne]

end Exemplar.Code.Literal
