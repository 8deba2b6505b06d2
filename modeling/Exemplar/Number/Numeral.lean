import Exemplar.Text.Characters
import Exemplar.Text.Shown

/-!
# Whole numbers in configuration text

A whole number may be surrounded by blanks, carry a sign, use the
decimal digits of any script, and separate its digits by single
underscores. Numbers of more than `digitLimit` digits are refused, here
as in JSON documents, since reading them takes quadratic time.
-/

namespace Exemplar.Number

/-- The most digits that a whole number may have. -/
def digitLimit : Nat := 4300

/-- What is wrong with a text that should be a whole number. -/
inductive NumeralError where
  /-- It is not written as a whole number. -/
  | malformed (text : String)
  /-- It has more digits than `digitLimit`. -/
  | tooLong (digits : Nat)
  deriving DecidableEq, Repr

/-- How much of a malformed text is told, quotes included. -/
def shownLength : Nat := 200

/-- The wording of the error. -/
def NumeralError.message : NumeralError → String
  | .malformed text =>
    "invalid literal for int() with base 10: "
      ++ String.ofList ((Text.quoted text).toList.take shownLength)
  | .tooLong digits =>
    s!"Exceeds the limit ({digitLimit} digits) for integer string conversion: "
      ++ s!"value has {digits} digits; use sys.set_int_max_str_digits() to increase the limit"

/-- **The zeros of all decimal digit systems** of Unicode 14; each is
followed by its nine other digits. -/
def zeros : List Nat := [
  0x30, 0x660, 0x6f0, 0x7c0, 0x966, 0x9e6, 0xa66, 0xae6, 0xb66, 0xbe6, 0xc66, 0xce6, 0xd66,
  0xde6, 0xe50, 0xed0, 0xf20, 0x1040, 0x1090, 0x17e0, 0x1810, 0x1946, 0x19d0, 0x1a80, 0x1a90,
  0x1b50, 0x1bb0, 0x1c40, 0x1c50, 0xa620, 0xa8d0, 0xa900, 0xa9d0, 0xa9f0, 0xaa50, 0xabf0,
  0xff10, 0x104a0, 0x10d30, 0x11066, 0x110f0, 0x11136, 0x111d0, 0x112f0, 0x11450, 0x114d0,
  0x11650, 0x116c0, 0x11730, 0x118e0, 0x11950, 0x11c50, 0x11d50, 0x11da0, 0x16a60, 0x16ac0,
  0x16b50, 0x1d7ce, 0x1d7d8, 0x1d7e2, 0x1d7ec, 0x1d7f6, 0x1e140, 0x1e2f0, 0x1e950, 0x1fbf0]

/-- The value of a decimal digit. -/
def digitValue? (c : Char) : Option Nat :=
  (zeros.find? fun z => z ≤ c.toNat ∧ c.toNat < z + 10).map (c.toNat - ·)

/-- The value of a run of digits, the most significant first. -/
def ofDigits (ds : List Nat) : Nat := ds.foldl (fun n d => 10 * n + d) 0

/-- The digits at the front of a text, single underscores between them
passed over, and the rest of the text. An underscore that no digit
follows is left in the rest. -/
def takeDigits : List Char → List Nat × List Char
  | [] => ([], [])
  | '_' :: c :: cs =>
    match digitValue? c with
    | some d => let (ds, rest) := takeDigits cs; (d :: ds, rest)
    | none => ([], '_' :: c :: cs)
  | c :: cs =>
    match digitValue? c with
    | some d => let (ds, rest) := takeDigits cs; (d :: ds, rest)
    | none => ([], c :: cs)

/-- A blank that may surround a whole number: of the ASCII characters,
only those that also end or indent a line. -/
def isPadding (c : Char) : Bool :=
  Text.isBlank c && !(0x1c ≤ c.toNat && c.toNat ≤ 0x1f)

/-- **Reads a whole number.** -/
def parseInt (s : String) : Except NumeralError Int :=
  let cs := s.toList.dropWhile isPadding
  let (negative, cs) := match cs with
    | '-' :: r => (true, r)
    | '+' :: r => (false, r)
    | r => (false, r)
  if cs.head? = some '_' then .error (.malformed s)
  else
    let (ds, rest) := takeDigits cs
    if ds.isEmpty then .error (.malformed s)
    else if digitLimit < ds.length ∧ rest.head? ≠ some '_' then .error (.tooLong ds.length)
    else if rest.all isPadding then
      .ok (if negative then -(ofDigits ds : Int) else ofDigits ds)
    else .error (.malformed s)

end Exemplar.Number
