/-!
# Characters and lines

Which characters are letters and digits, which separate words, and which
end lines. Words of the configuration and of override rules are compared
without regard to case. They are all ASCII, so the lower case that
matters is the one that decides equality with an ASCII word: that of the
ASCII letters, and that of the Kelvin sign, the only other character
whose lower case is an ASCII letter by itself. Blanks and line breaks
are those of the Unicode standard rather than of ASCII: a description may
hold a no-break space or a line separator, and the descriptions of a
server are cleaned line by line. Texts are lists of characters there, so
that every statement about them is an induction.

A text splits into `lines` at every break, a carriage return followed
by a line feed being one break, and a break at the very end opens no
further line. What the lines lose is the breaks and nothing else
(`isLineBreak_of_mem_lines`).
-/

namespace Exemplar.Text

/-! ## Letters and digits -/

/-- **The lower case of a character**, as far as an ASCII word can tell. -/
def lowerChar (c : Char) : Char :=
  if c.toNat = 0x212a then 'k' else c.toLower

/-- The lower case of a text, as far as an ASCII word can tell. -/
def lower (s : String) : String := String.ofList (s.toList.map lowerChar)

/-- An ASCII digit. -/
def isDigit (c : Char) : Bool := '0' ≤ c && c ≤ '9'

/-- A lower-case ASCII letter. -/
def isLower (c : Char) : Bool := 'a' ≤ c && c ≤ 'z'

/-- An upper-case ASCII letter. -/
def isUpper (c : Char) : Bool := 'A' ≤ c && c ≤ 'Z'

/-- An ASCII letter. -/
def isLetter (c : Char) : Bool := isLower c || isUpper c

/-- An ASCII letter or digit. -/
def isAlnum (c : Char) : Bool := isLetter c || isDigit c

/-- **The letter `i` under case folding**: the two ASCII letters, the
dotted capital and the dotless small letter. -/
def isLetterI (c : Char) : Bool :=
  c == 'i' || c == 'I' || c.toNat == 0x130 || c.toNat == 0x131

/-! ## Blanks and line breaks -/

/-- **Blanks**: the characters of Unicode that separate words, the four
information separators included. -/
def isBlank (c : Char) : Bool :=
  let n := c.toNat
  (0x09 ≤ n && n ≤ 0x0d) || (0x1c ≤ n && n ≤ 0x20) || n == 0x85 || n == 0xa0
    || n == 0x1680 || (0x2000 ≤ n && n ≤ 0x200a) || n == 0x2028 || n == 0x2029
    || n == 0x202f || n == 0x205f || n == 0x3000

/-- **Line breaks**: the blanks that end a line. -/
def isLineBreak (c : Char) : Bool :=
  let n := c.toNat
  (0x0a ≤ n && n ≤ 0x0d) || (0x1c ≤ n && n ≤ 0x1e) || n == 0x85
    || n == 0x2028 || n == 0x2029

/-- The text without the characters of `p` at its end. -/
def dropEndWhile (p : Char → Bool) (cs : List Char) : List Char :=
  (cs.reverse.dropWhile p).reverse

/-- The text without the blanks at its end. -/
def stripEnd (cs : List Char) : List Char := dropEndWhile isBlank cs

/-- The text without the blanks at either end. -/
def strip (cs : List Char) : List Char := stripEnd (cs.dropWhile isBlank)

/-- The lines of a text, without their breaks. -/
def lines : List Char → List (List Char)
  | [] => []
  | '\r' :: '\n' :: cs => [] :: lines cs
  | c :: cs =>
    if isLineBreak c then [] :: lines cs
    else match lines cs with
      | [] => [[c]]
      | l :: ls => (c :: l) :: ls

/-- No line holds a line break. -/
theorem isLineBreak_of_mem_lines {cs l : List Char} {c : Char}
    (hl : l ∈ lines cs) (hc : c ∈ l) : isLineBreak c = false := by
  fun_induction lines cs generalizing l with
  | case1 => simp at hl
  | case2 cs ih =>
    rcases List.mem_cons.1 hl with rfl | hl
    · simp at hc
    · exact ih hl hc
  | case3 d cs _ hd ih =>
    rcases List.mem_cons.1 hl with rfl | hl
    · simp at hc
    · exact ih hl hc
  | case4 d cs _ hd hnil ih =>
    obtain rfl := List.mem_singleton.1 hl
    obtain rfl := List.mem_singleton.1 hc
    simpa using hd
  | case5 d cs _ hd l' ls heq ih =>
    rcases List.mem_cons.1 hl with rfl | hl
    · rcases List.mem_cons.1 hc with rfl | hc
      · simpa using hd
      · exact ih (heq ▸ List.mem_cons_self) hc
    · exact ih (heq ▸ List.mem_cons_of_mem _ hl) hc

/-- A text as a file gives it back: each carriage return, with the line
feed after it if there is one, reads as one line feed. -/
def normalizeBreaks : List Char → List Char
  | [] => []
  | '\r' :: '\n' :: cs => '\n' :: normalizeBreaks cs
  | c :: cs => (if c = '\r' then '\n' else c) :: normalizeBreaks cs

end Exemplar.Text
