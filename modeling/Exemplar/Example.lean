import Exemplar.Fault
import Exemplar.Json.Reader
import Exemplar.Text.Characters

/-!
# Example documents

A server wraps the example of an action into a document that names its
format. A JSON example is the text of a document of its own and is
decoded; an example in one of the other known formats stays a text, in an
object of its own that names the format.
-/

namespace Exemplar.Example

/-- The formats whose examples stay texts. -/
def plainFormats : List String := ["txt", "xml", "svg", "log", "proto"]

/-- **Decodes the text of a JSON example.** A text of blanks alone, or a
value that counts as false, is no example. -/
def decodeText (v : Json) : Except Fault Json :=
  if !v.truthy || (Text.strip v.display.toList).isEmpty then
    .error (.ofCause (.fetch .exampleBlank))
  else match v with
    | .str s =>
      match Json.decode s with
      | .ok decoded => .ok decoded
      | .error e =>
        match e with
        | .malformed _ _ _ _ => .error (.ofCause (.fetch (.exampleMalformed e.message)))
        | .tooLong _ => .error (.breach ⟨.badValue, e.message⟩)
        | .tooDeep _ => .error (.breach ⟨.tooDeep, e.message⟩)
    | other => .error (.breach (.wrongType
        s!"the JSON object must be str, bytes or bytearray, not {other.typeWord}"))

/-- **Decodes the document of an example**: the value of a JSON example,
or the text of another one beside its format. -/
def decode : Json → Except Fault Json
  | .obj ms =>
    let format := (Json.find? "format" ms).getD (.str "")
    let content := (Json.find? "example" ms).getD (.str "")
    match format with
    | .str "json" => decodeText content
    | .str tag =>
      if tag ∈ plainFormats then .ok (.obj [("format", .str tag), ("example", content)])
      else .error (.ofCause (.unsupportedFormat format))
    | _ => .error (.ofCause (.unsupportedFormat format))
  | v => .error (.breach (.noAttribute v "get"))

end Exemplar.Example
