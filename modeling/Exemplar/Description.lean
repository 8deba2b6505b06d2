import Exemplar.Json.Display
import Exemplar.Text.Characters
import Exemplar.Text.Substitute

/-!
# Descriptions

The descriptions of a server are half HTML. Cleaned, a description is a
list of lines: line breaks and the ends of list items break lines, list
items get a bullet, other tags are dropped, and lines of blanks alone
vanish. What is left goes into the generated code as a documentation
literal or as a comment.

Inside a literal between triple quotes, `escape` doubles every backslash
and puts one in front of each quote of a triple; a quote at the very end
is set off by a space, so that it cannot close the literal early.
-/

namespace Exemplar.Description

open Text (isBlank isLetter isLetterI)

/-! ## Cleaning -/

/-- The length of a text up to a closing angle bracket, that one
included, if it comes after nothing but blanks and perhaps a slash. -/
def breakEnd? (cs : List Char) : Option Nat :=
  let blanks := (cs.takeWhile isBlank).length
  match cs.drop blanks with
  | '>' :: _ => some (blanks + 1)
  | '/' :: '>' :: _ => some (blanks + 2)
  | _ => none

/-- The tags that break lines: a break, the end of a list item, the start
of a list. -/
def lineBreakRule : Text.Rule := fun c cs =>
  if c ≠ '<' then none
  else match cs with
    | '/' :: l :: i :: '>' :: _ =>
      if (l = 'l' ∨ l = 'L') ∧ isLetterI i then some (['\n'], 4) else none
    | b :: r :: rest =>
      if (b = 'b' ∨ b = 'B') ∧ (r = 'r' ∨ r = 'R') then
        (breakEnd? rest).map fun n => (['\n'], n + 2)
      else if (b = 'u' ∨ b = 'U') ∧ (r = 'l' ∨ r = 'L') ∧ rest.head? = some '>' then
        some (['\n'], 3)
      else none
    | _ => none

/-- The start of a list item becomes a bullet. -/
def listItemRule : Text.Rule := fun c cs =>
  match c, cs with
  | '<', l :: i :: '>' :: _ =>
    if (l = 'l' ∨ l = 'L') ∧ isLetterI i then some ([' ', '*', ' '], 3) else none
  | _, _ => none

/-- The length of a tag after its opening bracket, if a letter is next
and a closing bracket comes. -/
def tagEnd? (cs : List Char) : Option Nat :=
  match cs with
  | c :: _ =>
    let inside := (cs.takeWhile (· != '>')).length
    if isLetter c && inside < cs.length then some (inside + 1) else none
  | [] => none

/-- Any other tag is dropped. -/
def tagRule : Text.Rule := fun c cs =>
  match c, cs with
  | '<', '/' :: rest => (tagEnd? rest).map fun n => ([], n + 1)
  | '<', rest => (tagEnd? rest).map fun n => ([], n)
  | _, _ => none

/-- The text without its tags. -/
def withoutTags (cs : List Char) : List Char :=
  Text.substitute tagRule (Text.substitute listItemRule (Text.substitute lineBreakRule cs))

/-- **The lines of a description**, none for one that counts as false. -/
def lines (v : Json) : List (List Char) :=
  if v.truthy then
    ((Text.lines (withoutTags v.display.toList)).map Text.stripEnd).filter
      fun l => !(Text.strip l).isEmpty
  else []

/-! ## In generated code -/

/-- Lines one below the other. -/
def joinLines (ls : List (List Char)) : List Char := ['\n'].intercalate ls

/-- A backslash in front of every backslash. -/
def doubleBackslashes (cs : List Char) : List Char :=
  Text.substitute (Text.literalRule '\\' [] ['\\', '\\']) cs

/-- A backslash in front of each quote of a triple. -/
def escapeTriples (cs : List Char) : List Char :=
  Text.substitute (Text.literalRule '"' ['"', '"'] ['\\', '"', '\\', '"', '\\', '"']) cs

/-- A space after a quote at the end. -/
def setOffQuote (cs : List Char) : List Char :=
  if cs.getLast? = some '"' then cs ++ [' '] else cs

/-- **A description inside a literal** between triple quotes. -/
def escape (v : Json) : List Char :=
  setOffQuote (escapeTriples (doubleBackslashes (joinLines (lines v))))

/-- **A description as comment lines.** -/
def comment (v : Json) (indent : String) : List String :=
  (lines v).map fun l => s!"{indent}# {String.ofList (Text.strip l)}"

/-- **The lines of a documentation literal**, quotes and indentation
included, and an empty line after it; none for an empty description. -/
def literal (indent : String) (v : Json) : List String :=
  let body := escape v
  if body.isEmpty then []
  else match (Text.lines body).map String.ofList with
    | [] => []
    | [line] => [s!"{indent}\"\"\"{line}\"\"\"", ""]
    | line :: others =>
      s!"{indent}\"\"\"{line}" :: others.map (fun l => if l = "" then "" else indent ++ l)
        ++ [s!"{indent}\"\"\"", ""]

end Exemplar.Description
