import Exemplar.Fault
import Exemplar.Text.Characters
import Exemplar.Text.Substitute

/-!
# Names from keys

A key of a document becomes a name in two styles. The **accessor** of a
key is in camel case: the runs of ASCII letters and digits of the key are
its words, each word starts with a capital, and so does a letter after a
digit; an underscore goes in front of a leading digit and stands alone
for a key without words. The **attribute name** of an accessor is in
snake case: an underscore goes in at every boundary of words – before a
capital after a small letter or digit, and before the last capital of a
run that a small letter follows – everything is lowered, and reserved
words get an underscore at the end.
-/

namespace Exemplar.Naming

open Text (isAlnum isDigit isLower isUpper)

/-! ## Camel case -/

/-- The words of a key: its runs of ASCII letters and digits. -/
def words : List Char → List (List Char)
  | [] => []
  | c :: cs =>
    if isAlnum c then
      match cs, words cs with
      | d :: _, w :: ws => if isAlnum d then (c :: w) :: ws else [c] :: w :: ws
      | _, ws => [c] :: ws
    else words cs

/-- A word with a capital first letter. -/
def capitalize : List Char → List Char
  | [] => []
  | c :: cs => c.toUpper :: cs

/-- Capitals for the small letters that follow a digit; the flag says
whether a digit stands in front of the text. -/
def raiseAfterDigits (afterDigit : Bool) : List Char → List Char
  | [] => []
  | c :: cs =>
    (if afterDigit && isLower c then c.toUpper else c) :: raiseAfterDigits (isDigit c) cs

/-- An underscore in front of a name that would start with a digit or be
empty. -/
def guardStart : List Char → List Char
  | [] => ['_']
  | c :: cs => if isDigit c then '_' :: c :: cs else c :: cs

/-- **The accessor of a key**, in camel case. -/
def camel (cs : List Char) : List Char :=
  guardStart (raiseAfterDigits false ((words cs).flatMap capitalize))

/-- The accessor of a key. -/
def toCamel (key : String) : String := String.ofList (camel key.toList)

/-! ## Snake case -/

/-- A boundary of words lies between the first two of three characters:
a small letter or digit before a capital, or a capital before a capital
that starts a word. -/
def isBoundary (before here : Char) (after : Option Char) : Bool :=
  isUpper here && ((isLower before || isDigit before)
    || (isUpper before && after.any isLower))

/-- Underscores at the boundaries of words. -/
def splitWords : List Char → List Char
  | [] => []
  | [c] => [c]
  | c :: d :: cs =>
    if isBoundary c d cs.head? then c :: '_' :: splitWords (d :: cs)
    else c :: splitWords (d :: cs)

/-- Each run of characters that are no ASCII letters or digits becomes
one underscore. -/
def joinWords : List Char → List Char
  | [] => []
  | c :: cs =>
    if isAlnum c then c :: joinWords cs
    else match joinWords cs with
      | '_' :: ds => '_' :: ds
      | ds => '_' :: ds

/-- The characters without underscores at either end. -/
def trimUnderscores (cs : List Char) : List Char :=
  (((cs.dropWhile (· == '_')).reverse).dropWhile (· == '_')).reverse

/-- **The reserved words** of the generated language. -/
def reserved : List String := [
  "False", "None", "True", "and", "as", "assert", "async", "await", "break", "class",
  "continue", "def", "del", "elif", "else", "except", "finally", "for", "from", "global",
  "if", "import", "in", "is", "lambda", "nonlocal", "not", "or", "pass", "raise", "return",
  "try", "while", "with", "yield"]

/-- An underscore at the end of a reserved word. -/
def guardReserved (cs : List Char) : List Char :=
  if String.ofList cs ∈ reserved then cs ++ ['_'] else cs

/-- **The attribute name of an accessor**, in snake case. -/
def snake (cs : List Char) : List Char :=
  let split := splitWords (cs.dropWhile (· == '_'))
  let lowered := (trimUnderscores (joinWords split)).map Char.toLower
  guardReserved (guardStart lowered)

/-- The attribute name of an accessor. -/
def toSnake (accessor : String) : String := String.ofList (snake accessor.toList)

/-- The attribute name of an accessor that may be no text, and then has
none. -/
def snakeOf : Json → Except Fault String
  | .str accessor => .ok (toSnake accessor)
  | v => .error (.breach (.noAttribute v "lstrip"))

/-- **The attribute name of a key** and the module name of an endpoint. -/
def attributeName (key : String) : String := toSnake (toCamel key)

end Exemplar.Naming
