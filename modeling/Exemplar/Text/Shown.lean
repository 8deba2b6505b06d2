import Exemplar.Text.Characters
import Exemplar.Text.Printable
import Exemplar.Text.Substitute

/-!
# Texts that are shown

What is done to a text before it is shown. Inside a message it is written
between quotes (`quoted`): single ones, or double ones when it holds a
single quote and no double one. The backslash, the quote in use and every
character without a printed form are escaped, so a quoted text is always
one line. In lists that read as columns a text is padded with spaces to a
width; what is wider than its column is not cut.

A terminal takes an escape character with an opening bracket behind it
for the start of a control sequence: numbers, with semicolons and
question marks among them, up to the letter that says what to do. Such
sequences colour a text and are no part of it, so they are left out of
what is printed, wherever they come from (`withoutControls`).
-/

namespace Exemplar.Text

/-! ## Quotes -/

/-- The digits of a number in base sixteen, padded with zeros. -/
def hex (width n : Nat) : List Char :=
  let ds := Nat.toDigits 16 n
  List.replicate (width - ds.length) '0' ++ ds

/-- **A character inside quotes** of the given kind. -/
def quoteChar (q c : Char) : List Char :=
  if c = q || c = '\\' then ['\\', c]
  else if c = '\n' then ['\\', 'n']
  else if c = '\r' then ['\\', 'r']
  else if c = '\t' then ['\\', 't']
  else if isPrintable c then [c]
  else if c.toNat ≤ 0xff then '\\' :: 'x' :: hex 2 c.toNat
  else if c.toNat ≤ 0xffff then '\\' :: 'u' :: hex 4 c.toNat
  else '\\' :: 'U' :: hex 8 c.toNat

/-- The quote that a text is written between. -/
def quoteMark (cs : List Char) : Char :=
  if '\'' ∈ cs ∧ '"' ∉ cs then '"' else '\''

/-- **A text between quotes.** -/
def quoted (s : String) : String :=
  let q := quoteMark s.toList
  String.ofList (q :: s.toList.flatMap (quoteChar q) ++ [q])

/-! ## Columns -/

/-- A text with spaces behind it, up to a width. -/
def padRight (width : Nat) (s : String) : String := s.pushn ' ' (width - s.length)

/-- A number with spaces in front of it, up to a width. -/
def padLeft (width n : Nat) : String :=
  let digits := toString n
  "".pushn ' ' (width - digits.length) ++ digits

/-! ## Control sequences -/

/-- The escape character. -/
def escapeChar : Char := Char.ofNat 0x1b

/-- A character that may stand between the start of a control sequence
and its letter. -/
def isParameter (c : Char) : Bool := isDigit c || c == ';' || c == '?'

/-- **A control sequence** is replaced by nothing. -/
def controlRule : Rule := fun c cs =>
  match cs with
  | '[' :: rest =>
    let parameters := rest.takeWhile isParameter
    if c = escapeChar && (rest[parameters.length]?.any isLetter)
      then some ([], parameters.length + 2) else none
  | _ => none

/-- **The text without its control sequences.** -/
def withoutControls (s : String) : String := String.ofList (substitute controlRule s.toList)

end Exemplar.Text
