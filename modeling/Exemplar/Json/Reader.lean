import Exemplar.Json
import Exemplar.Number.Numeral

/-!
# Reading JSON documents

`Json.decode` reads one document, by recursive descent on the characters
that are left. An error names what was expected and where, counted in
characters: where the reader stood is the length of the text less what
was left of it, so the descent carries no position and its errors carry
the text that was left.

The reader is the usual lenient one: blanks are the four of the format,
`NaN`, `Infinity` and `-Infinity` are numbers, a key that occurs again
in an object replaces the value and keeps the position, and a surrogate
pair of escapes is one character. A whole number of more than
`Number.digitLimit` digits is an error of its own, and so are containers
nested deeper than `nestingLimit`.

Each container spends one unit of `room`, which is the nesting still
allowed, and each step of the descent one unit of `fuel`. The fuel is
twice the length of the text and two more; the descent spends at most two
units for a character it takes, so it is never what stops the reader.
-/

namespace Exemplar.Json

/-- **The deepest nesting** of containers that is read. -/
def nestingLimit : Nat := 970

/-- The two sorts of container, as a message calls them. -/
inductive Container where
  | array
  | object
  deriving DecidableEq, Repr

/-- The word for a container. -/
def Container.word : Container → String
  | .array => "array"
  | .object => "object"

/-- **Why a text is no document.** -/
inductive DecodeError where
  /-- The text breaks the grammar at a position: line, column and offset
  of a character. -/
  | malformed (what : String) (line column offset : Nat)
  /-- A whole number has too many digits. -/
  | tooLong (digits : Nat)
  /-- Containers are nested too deep, at one of the given sort. -/
  | tooDeep (container : Container)
  deriving DecidableEq, Repr

/-- The wording of the error. -/
def DecodeError.message : DecodeError → String
  | .malformed what line column offset =>
    s!"{what}: line {line} column {column} (char {offset})"
  | .tooLong digits => (Number.NumeralError.tooLong digits).message
  | .tooDeep container =>
    s!"maximum recursion depth exceeded while decoding a JSON {container.word} "
      ++ "from a unicode string"

/-! ## Errors while reading -/

/-- An error during the descent: a broken grammar is told with the text
that was left where it broke. -/
inductive Stop where
  | malformed (what : String) (left : List Char)
  | tooLong (digits : Nat)
  | tooDeep (container : Container)

/-- The reader stopped where `left` was left. A reader that goes on
gives the part it has read and the text after it. -/
def stop {α : Type} (what : String) (left : List Char) : Except Stop α :=
  .error (.malformed what left)

/-- Line and column, from one, of the position after the given text. -/
def lineColumn (before : List Char) : Nat × Nat :=
  (before.count '\n' + 1, (before.reverse.takeWhile (· != '\n')).length + 1)

/-- The error as it is told of the whole text. -/
def Stop.locate (whole : List Char) : Stop → DecodeError
  | .malformed what left =>
    let offset := whole.length - left.length
    let (line, column) := lineColumn (whole.take offset)
    .malformed what line column offset
  | .tooLong digits => .tooLong digits
  | .tooDeep container => .tooDeep container

/-! ## Blanks, strings and numbers -/

/-- A blank of the format. -/
def isSpace (c : Char) : Bool := c == ' ' || c == '\t' || c == '\n' || c == '\r'

/-- The text after the blanks at its front. -/
def skipSpace (cs : List Char) : List Char := cs.dropWhile isSpace

/-- The value of a digit in base sixteen. -/
def hexValue? (c : Char) : Option Nat :=
  if '0' ≤ c ∧ c ≤ '9' then some (c.toNat - 48)
  else if 'a' ≤ c ∧ c ≤ 'f' then some (c.toNat - 87)
  else if 'A' ≤ c ∧ c ≤ 'F' then some (c.toNat - 55)
  else none

/-- The code written by four digits in base sixteen, which must not be
the last characters of the text: the closing quote is still to come. -/
def codeUnit? : List Char → Option (Nat × List Char)
  | a :: b :: c :: d :: e :: rest =>
    match hexValue? a, hexValue? b, hexValue? c, hexValue? d with
    | some a, some b, some c, some d => some (((a * 16 + b) * 16 + c) * 16 + d, e :: rest)
    | _, _, _, _ => none
  | _ => none

/-- The first of a surrogate pair. -/
def isHighSurrogate (n : Nat) : Bool := 0xd800 ≤ n && n ≤ 0xdbff

/-- The second of a surrogate pair. -/
def isLowSurrogate (n : Nat) : Bool := 0xdc00 ≤ n && n ≤ 0xdfff

/-- The character of a code, the replacement character for a surrogate
that stands alone. -/
def charOfCode (n : Nat) : Char :=
  if isHighSurrogate n || isLowSurrogate n then Char.ofNat 0xfffd else Char.ofNat n

/-- The character that a one-letter escape stands for. -/
def escaped? : Char → Option Char
  | '"' => some '"'
  | '\\' => some '\\'
  | '/' => some '/'
  | 'b' => some '\x08'
  | 'f' => some '\x0c'
  | 'n' => some '\n'
  | 'r' => some '\r'
  | 't' => some '\t'
  | _ => none

/-- **A string**, from after its opening quote; `start` is the text from
that quote on, where a string that is never closed is reported. -/
def readString (start : List Char) : Nat → List Char → Except Stop (List Char × List Char)
  | 0, _ => stop "Unterminated string starting at" start
  | _, [] => stop "Unterminated string starting at" start
  | _, '"' :: rest => .ok ([], rest)
  | _, ['\\'] => stop "Unterminated string starting at" start
  | fuel + 1, '\\' :: 'u' :: rest =>
    match codeUnit? rest with
    | none => stop "Invalid \\uXXXX escape" ('u' :: rest)
    | some (high, after) => do
      match isHighSurrogate high, after with
      | true, '\\' :: 'u' :: c :: d :: e :: f :: g :: more =>
        match codeUnit? (c :: d :: e :: f :: g :: more) with
        | none => stop "Invalid \\uXXXX escape" ('u' :: c :: d :: e :: f :: g :: more)
        | some (low, afterPair) =>
          if isLowSurrogate low then
            let (cs, end_) ← readString start fuel afterPair
            .ok (Char.ofNat (0x10000 + (high - 0xd800) * 0x400 + (low - 0xdc00)) :: cs, end_)
          else
            let (cs, end_) ← readString start fuel after
            .ok (charOfCode high :: cs, end_)
      | _, _ =>
        let (cs, end_) ← readString start fuel after
        .ok (charOfCode high :: cs, end_)
  | fuel + 1, '\\' :: c :: rest =>
    match escaped? c with
    | none => stop "Invalid \\escape" ('\\' :: c :: rest)
    | some d => do
      let (cs, end_) ← readString start fuel rest
      .ok (d :: cs, end_)
  | fuel + 1, c :: rest =>
    if c.toNat < 0x20 then stop "Invalid control character at" (c :: rest)
    else do
      let (cs, end_) ← readString start fuel rest
      .ok (c :: cs, end_)

/-- An ASCII digit. -/
def isDigit (c : Char) : Bool := '0' ≤ c && c ≤ '9'

/-- The digits at the front of a text, and the rest. -/
def spanDigits (cs : List Char) : List Char × List Char :=
  (cs.takeWhile isDigit, cs.dropWhile isDigit)

/-- The number that decimal digits write. -/
def ofDigits (cs : List Char) : Nat := cs.foldl (fun n c => 10 * n + (c.toNat - 48)) 0

/-- The digits of a fraction, if a point and a digit are next. -/
def readFraction : List Char → List Char × List Char
  | '.' :: cs =>
    let (ds, rest) := spanDigits cs
    if ds.isEmpty then ([], '.' :: cs) else (ds, rest)
  | cs => ([], cs)

/-- The power of ten, if the letter for it, perhaps a sign and a digit
are next. -/
def readExponent (cs : List Char) : Option Int × List Char :=
  match cs with
  | c :: after =>
    if c = 'e' ∨ c = 'E' then
      let (negative, after) := match after with
        | '-' :: r => (true, r)
        | '+' :: r => (false, r)
        | r => (false, r)
      let (ds, rest) := spanDigits after
      if ds.isEmpty then (none, cs)
      else (some (if negative then -(ofDigits ds : Int) else ofDigits ds), rest)
    else (none, cs)
  | [] => (none, cs)

/-- **A number**: whole, unless a fraction or a power of ten is written.
What is no number at all is no value. -/
def readNumber (start : List Char) : Except Stop (Json × List Char) :=
  let (negative, cs) := match start with
    | '-' :: cs => (true, cs)
    | cs => (false, cs)
  let (whole, rest) := match cs with
    | '0' :: rest => (['0'], rest)
    | cs => spanDigits cs
  if whole.isEmpty then stop "Expecting value" start
  else
    let (fraction, rest) := readFraction rest
    let (power, rest) := readExponent rest
    if fraction.isEmpty ∧ power = none then
      if Number.digitLimit < whole.length then .error (.tooLong whole.length)
      else .ok (.int (if negative then -(ofDigits whole : Int) else ofDigits whole), rest)
    else
      .ok (.float (.ofDecimal negative (ofDigits (whole ++ fraction))
        (power.getD 0 - fraction.length)), rest)

/-- The words that are values, each with its value. -/
def words : List (String × Json) := [
  ("null", .null), ("true", .bool true), ("false", .bool false),
  ("NaN", .float .undefined), ("Infinity", .float (.infinity false)),
  ("-Infinity", .float (.infinity true))]

/-- The text after a word, if it begins with the word. -/
def afterWord? : List Char → List Char → Option (List Char)
  | [], cs => some cs
  | _, [] => none
  | w :: ws, c :: cs => if w = c then afterWord? ws cs else none

/-- A value that is one word, or else a number. -/
def readPlain (cs : List Char) : Except Stop (Json × List Char) :=
  match words.findSome? fun (w, v) => (afterWord? w.toList cs).map (v, ·) with
  | some r => .ok r
  | none => readNumber cs

/-! ## Values -/

mutual

/-- **A value**, at the front of the text. -/
def readValue (fuel room : Nat) (cs : List Char) : Except Stop (Json × List Char) :=
  match fuel, cs with
  | _, [] => stop "Expecting value" []
  | 0, cs => stop "Expecting value" cs
  | fuel + 1, '"' :: rest => do
    let (s, after) ← readString ('"' :: rest) (fuel + 1) rest
    .ok (.str (String.ofList s), after)
  | fuel + 1, '[' :: rest =>
    match room with
    | 0 => .error (.tooDeep .array)
    | room + 1 =>
      match skipSpace rest with
      | ']' :: after => .ok (.arr [], after)
      | items => do
        let (xs, after) ← readItems fuel room items
        .ok (.arr xs, after)
  | fuel + 1, '{' :: rest =>
    match room with
    | 0 => .error (.tooDeep .object)
    | room + 1 =>
      match skipSpace rest with
      | '}' :: after => .ok (.obj [], after)
      | members => do
        let (ms, after) ← readMembers fuel room [] members
        .ok (.obj ms, after)
  | _, cs => readPlain cs

/-- The items of an array, from the first one on. -/
def readItems (fuel room : Nat) (cs : List Char) : Except Stop (List Json × List Char) :=
  match fuel with
  | 0 => stop "Expecting value" cs
  | fuel + 1 => do
    let (x, rest) ← readValue fuel room cs
    match skipSpace rest with
    | ']' :: after => .ok ([x], after)
    | ',' :: more => do
      let (xs, after) ← readItems fuel room (skipSpace more)
      .ok (x :: xs, after)
    | other => stop "Expecting ',' delimiter" other

/-- The members of an object, from the first key on, set one after the
other into those already read. -/
def readMembers (fuel room : Nat) (seen : List (String × Json)) (cs : List Char) :
    Except Stop (List (String × Json) × List Char) :=
  match fuel with
  | 0 => stop "Expecting value" cs
  | fuel + 1 =>
    match cs with
    | '"' :: rest => do
      let (key, rest) ← readString ('"' :: rest) fuel.succ rest
      match skipSpace rest with
      | ':' :: rest => do
        let (value, rest) ← readValue fuel room (skipSpace rest)
        let seen := insert (String.ofList key) value seen
        match skipSpace rest with
        | '}' :: after => .ok (seen, after)
        | ',' :: more => readMembers fuel room seen (skipSpace more)
        | other => stop "Expecting ',' delimiter" other
      | other => stop "Expecting ':' delimiter" other
    | other => stop "Expecting property name enclosed in double quotes" other

end

/-- A whole text as one value, blanks around it. -/
def readDocument (cs : List Char) : Except Stop Json := do
  if cs.head? = some (Char.ofNat 0xfeff) then
    stop "Unexpected UTF-8 BOM (decode using utf-8-sig)" cs
  let (value, rest) ← readValue (2 * cs.length + 2) nestingLimit (skipSpace cs)
  match skipSpace rest with
  | [] => .ok value
  | left => stop "Extra data" left

/-- **Reads a document.** -/
def decode (s : String) : Except DecodeError Json :=
  (readDocument s.toList).mapError (Stop.locate s.toList)

end Exemplar.Json
