import Exemplar.Json

/-!
# Writing JSON documents

Two layouts: on one line, and indented with the keys of every object in
ascending order, which is the layout of the files that are compared from
one run to the next. Both write ASCII only: what is not ASCII is escaped,
a character beyond the basic plane as a pair of surrogates.
-/

namespace Exemplar.Json

/-- **How documents write their doubles**: positionally from `10^-4` to
below `10^16`. -/
def doubleStyle : Binary64.Style := ⟨-4, 16, "NaN", "Infinity"⟩

/-- One code of sixteen bits, escaped. -/
def unitEscape (n : Nat) : List Char := '\\' :: 'u' :: Text.hex 4 n

/-- **A character inside a string.** -/
def writeChar (c : Char) : List Char :=
  if c = '"' then ['\\', '"']
  else if c = '\\' then ['\\', '\\']
  else if c = '\n' then ['\\', 'n']
  else if c = '\r' then ['\\', 'r']
  else if c = '\t' then ['\\', 't']
  else if c = '\x08' then ['\\', 'b']
  else if c = '\x0c' then ['\\', 'f']
  else
    let n := c.toNat
    if 0x20 ≤ n ∧ n < 0x7f then [c]
    else if n < 0x10000 then unitEscape n
    else unitEscape (0xd800 + (n - 0x10000) / 0x400) ++ unitEscape (0xdc00 + n % 0x400)

/-- **A string between its quotes.** -/
def writeString (s : String) : String :=
  String.ofList ('"' :: s.toList.flatMap writeChar ++ ['"'])

/-- A value that is no container. -/
def writePlain : Json → String
  | null => "null"
  | bool b => if b then "true" else "false"
  | int n => toString n
  | float x => x.write doubleStyle
  | str s => writeString s
  | arr _ | obj _ => ""


mutual

/-- **A document on one line.** -/
def write : Json → String
  | arr items => "[" ++ ", ".intercalate (writeItems items) ++ "]"
  | obj members => "\x7b" ++ ", ".intercalate (writeMembers members) ++ "\x7d"
  | v => writePlain v

/-- Each item on one line. -/
def writeItems : List Json → List String
  | [] => []
  | x :: xs => write x :: writeItems xs

/-- Each member on one line. -/
def writeMembers : List (String × Json) → List String
  | [] => []
  | (k, v) :: ms => (writeString k ++ ": " ++ write v) :: writeMembers ms

end

/-- A line break and the indentation of a level. -/
def newline (level : Nat) : String := "\n" ++ "".pushn ' ' (2 * level)

/-- The parts of a container, each on a line of its own. -/
def layOut (opening closing : String) (level : Nat) (parts : List String) : String :=
  if parts.isEmpty then opening ++ closing
  else opening ++ newline (level + 1) ++ ("," ++ newline (level + 1)).intercalate parts
    ++ newline level ++ closing

mutual

/-- **An indented document**, at a level of indentation. The members are
written first and then put in the order of their keys. -/
def writeIndentedAt (level : Nat) : Json → String
  | arr items => layOut "[" "]" level (writeIndentedItems (level + 1) items)
  | obj members =>
    let written := writeIndentedMembers (level + 1) members
    layOut "\x7b" "\x7d" level
      ((written.mergeSort fun a b => decide (a.1 ≤ b.1)).map Prod.snd)
  | v => writePlain v

/-- Each item, indented. -/
def writeIndentedItems (level : Nat) : List Json → List String
  | [] => []
  | x :: xs => writeIndentedAt level x :: writeIndentedItems level xs

/-- Each member, indented, with its key. -/
def writeIndentedMembers (level : Nat) : List (String × Json) → List (String × String)
  | [] => []
  | (k, v) :: ms =>
    (k, writeString k ++ ": " ++ writeIndentedAt level v) :: writeIndentedMembers level ms

end

/-- **A document on many lines**, the keys of every object in ascending
order. -/
def writeIndented (v : Json) : String := writeIndentedAt 0 v

end Exemplar.Json
