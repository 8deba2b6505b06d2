import Exemplar.Json

/-!
# Values in messages

A message may hold any value of a document. A text stands there as it
is, every other value in the notation of the messages: `None`, `True`
and `False` for the words, texts inside containers between quotes, and
the members of an object in the order of the document.
-/

namespace Exemplar.Json

/-- **How messages write doubles**: positionally from `10^-4` to below
`10^16`. -/
def messageStyle : Binary64.Style := ⟨-4, 16, "nan", "inf"⟩

mutual

/-- **A value as part of a notation**, texts between quotes. -/
def quoted : Json → String
  | null => "None"
  | bool b => if b then "True" else "False"
  | int n => toString n
  | float x => x.write messageStyle
  | str s => Text.quoted s
  | arr items => "[" ++ ", ".intercalate (quotedItems items) ++ "]"
  | obj members => "\x7b" ++ ", ".intercalate (quotedMembers members) ++ "\x7d"

/-- Each item as part of a notation. -/
def quotedItems : List Json → List String
  | [] => []
  | x :: xs => quoted x :: quotedItems xs

/-- Each member as part of a notation. -/
def quotedMembers : List (String × Json) → List String
  | [] => []
  | (k, v) :: ms => (Text.quoted k ++ ": " ++ quoted v) :: quotedMembers ms

end

/-- **A value as part of a sentence**: a text as it is. -/
def display : Json → String
  | str s => s
  | v => quoted v

/-- A text is displayed as it is. -/
@[simp]
theorem display_str (s : String) : (Json.str s).display = s := rfl

end Exemplar.Json
