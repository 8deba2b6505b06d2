/-!
# UTF-8

Bytes as text. A sequence that is no character ends the reading with an
error which names the bytes that cannot be read: the first byte, and
those after it that would still have fitted. The ranges of the second
byte keep out overlong forms, surrogates and codes beyond the last
plane.
-/

namespace Exemplar.Text

/-- What is wrong with a byte sequence. -/
inductive Utf8Error.Reason where
  | start
  | continuation
  | ended
  deriving DecidableEq, Repr

/-- The wording of a reason. -/
def Utf8Error.Reason.word : Utf8Error.Reason → String
  | .start => "invalid start byte"
  | .continuation => "invalid continuation byte"
  | .ended => "unexpected end of data"

/-- **Bytes that are no text**: the first of them, its position, and how
many cannot be read. -/
structure Utf8Error where
  byte : Nat
  position : Nat
  count : Nat
  reason : Utf8Error.Reason
  deriving DecidableEq, Repr

/-- The digits of a byte in base sixteen. -/
def byteHex (n : Nat) : String :=
  String.ofList [Nat.digitChar (n / 16), Nat.digitChar (n % 16)]

/-- The wording of the error. -/
def Utf8Error.message (e : Utf8Error) : String :=
  let bytes := if e.count = 1 then s!"byte 0x{byteHex e.byte} in position {e.position}"
    else s!"bytes in position {e.position}-{e.position + e.count - 1}"
  s!"'utf-8' codec can't decode {bytes}: {e.reason.word}"

/-- A byte that continues a character. -/
def isTail (b : Nat) : Bool := 0x80 ≤ b && b < 0xc0

/-- A second byte that may follow a first one. -/
def isSecond (first b : Nat) : Bool :=
  isTail b &&
    if first = 0xe0 then 0xa0 ≤ b
    else if first = 0xed then b < 0xa0
    else if first = 0xf0 then 0x90 ≤ b
    else if first = 0xf4 then b < 0x90
    else true

/-- The length of the character that a byte starts, if it starts one. -/
def sequenceLength? (b : Nat) : Option Nat :=
  if b < 0x80 then some 1
  else if 0xc2 ≤ b ∧ b < 0xe0 then some 2
  else if 0xe0 ≤ b ∧ b < 0xf0 then some 3
  else if 0xf0 ≤ b ∧ b < 0xf5 then some 4
  else none

/-- How many bytes after the first one fit, up to a number of them. -/
def fitting (first : Nat) : Nat → List Nat → Nat
  | 0, _ => 0
  | _, [] => 0
  | n + 1, b :: bs => if isSecond first b then 1 + fitting 0 n bs else 0

/-- The code of a character from its bytes: the low bits of the first
one, and six of each other. -/
def codeOf (length first : Nat) (tails : List Nat) : Nat :=
  let low := if length = 1 then first else first % Nat.pow 2 (7 - length)
  tails.foldl (fun n b => n * 64 + b % 64) low

/-- Reads the bytes from a position on, after `skip` bytes that belong to
the character before. -/
def decodeFrom (position : Nat) : Nat → List Nat → Except Utf8Error (List Char)
  | _, [] => .ok []
  | skip + 1, _ :: bs => decodeFrom (position + 1) skip bs
  | 0, b :: bs =>
    match sequenceLength? b with
    | none => .error ⟨b, position, 1, .start⟩
    | some length =>
      let fit := fitting b (length - 1) bs
      if fit = length - 1 then do
        let rest ← decodeFrom (position + 1) (length - 1) bs
        .ok (Char.ofNat (codeOf length b (bs.take fit)) :: rest)
      else
        .error ⟨b, position, 1 + fit, if bs.length = fit then .ended else .continuation⟩

/-- **Reads bytes as text.** -/
def decodeUtf8 (bytes : List Nat) : Except Utf8Error (List Char) := decodeFrom 0 0 bytes

end Exemplar.Text
