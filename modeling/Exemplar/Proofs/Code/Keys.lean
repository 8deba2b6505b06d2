import Exemplar.Code.Response
import Exemplar.Inference
import Exemplar.Proofs.Code.Literals

/-!
# Keys that an attribute tells

An attribute that is not called like its key tells the key in its metadata, as
a literal between single quotes. The literal is written the way documents write
their strings, and is read as the text of a program (`Literal.read`). The two
agree on every escape, on quotes, backslashes and control characters, but not
on what a surrogate pair is: documents take it for one character, programs for
two codes. So the key that is told is the key of the documents exactly if the
name is the key, or no character of the key lies beyond the basic plane
(`toldKey?_iff`).
-/

namespace Exemplar.Code

open Literal

variable {a : Attribute} {k m : String}

/-- What stands in front of the key in the metadata of an attribute. -/
def keyMark : String := "metadata=\x7b\"json\": "

/-- **The key that metadata tells**, in codes: what is read of the literal
behind the mark, if the metadata ends behind it. -/
def readKey? (metadata : List Char) : Option (List Nat) :=
  match Text.dropStart? keyMark.toList metadata with
  | some ('"' :: inside) =>
    match read .one inside with
    | some (value, ['\x7d']) => some value
    | _ => none
  | _ => none

/-- **The key that an attribute tells**, in codes: its name, unless it has
metadata. -/
def Attribute.toldKey? (a : Attribute) : Option (List Nat) :=
  match a.metadata with
  | none => some (codes a.name.toList)
  | some m => readKey? m.toList

theorem Attribute.metadata_eq (h : a.key = .str k) :
    a.metadata = if a.name = k then none else some (keyMark ++ Json.writeString k ++ "\x7d") := by
  rw [Attribute.metadata, h]
  by_cases hname : a.name = k
  · rw [if_pos hname, if_pos (congrArg Json.str hname.symm)]
  · rw [if_neg hname, if_neg fun hkey => hname (Json.str.inj hkey).symm]
    rfl

/-- **The key in written metadata** is read as the codes it is written with. -/
theorem readKey?_written (k : String) :
    readKey? (keyMark ++ Json.writeString k ++ "\x7d").toList
      = some (k.toList.flatMap units) := by
  have htext : (keyMark ++ Json.writeString k ++ "\x7d").toList = keyMark.toList
      ++ '"' :: (k.toList.flatMap Json.writeChar ++ (Quotes.one.text ++ ['\x7d'])) := by
    simp [Json.writeString, Quotes.text]
  have hstart := Text.dropStart?_eq_some_iff.mpr htext
  simp only [readKey?, hstart, read_written]

/-- Metadata is the last part of a field specification. -/
theorem Attribute.value?_of_metadata (h : a.metadata = some m) :
    ∃ first : Option String, a.value? = some (specification (first.toList ++ [m])) := by
  rw [Attribute.value?, h]
  cases a.initial with
  | none => exact ⟨none, rfl⟩
  | some i =>
    cases hf : i.factory? with
    | some f => exact ⟨some ("default_factory=" ++ f), by simp [hf]⟩
    | none => exact ⟨some ("default=" ++ i.constant), by simp [hf]⟩

/-- **The metadata stands at the end of the line** of an attribute. -/
theorem Attribute.line_of_metadata (h : a.metadata = some m) :
    ∃ before, a.line = indent ++ a.name ++ ": " ++ a.type.render ++ " = dataclasses.field("
      ++ before ++ m ++ ")" := by
  obtain ⟨first, hvalue⟩ := Attribute.value?_of_metadata h
  have hbefore : ∃ before, specification (first.toList ++ [m])
      = "dataclasses.field(" ++ (before ++ m) ++ ")" := by
    cases first with
    | none => exact ⟨"", by rw [String.empty_append]; rfl⟩
    | some p => exact ⟨p ++ ", ", rfl⟩
  obtain ⟨before, hbefore⟩ := hbefore
  refine ⟨before, ?_⟩
  rw [Attribute.line, hvalue]
  have hmark : " = dataclasses.field(" = " = " ++ "dataclasses.field(" := rfl
  simp only [hbefore, hmark, String.append_assoc]

/-- **The key that an attribute tells.** An attribute has no metadata exactly if
it is called like its key, and metadata stands at the end of its line. What it
tells are the codes that the key is written with, which are those of the key
exactly if the name is the key or no character of it lies beyond the basic
plane. -/
theorem toldKey?_iff (a : Attribute) (k : String) (h : a.key = .str k) :
    (a.metadata = none ↔ a.name = k)
    ∧ (∀ m, a.metadata = some m → ∃ before, a.line = indent ++ a.name ++ ": " ++ a.type.render
      ++ " = dataclasses.field(" ++ before ++ m ++ ")")
    ∧ a.toldKey? = some (if a.name = k then codes k.toList else k.toList.flatMap units)
    ∧ (a.toldKey? = some (codes k.toList)
      ↔ a.name = k ∨ ∀ c ∈ k.toList, c.toNat < 0x10000) := by
  have htold : a.toldKey?
      = some (if a.name = k then codes k.toList else k.toList.flatMap units) := by
    rw [Attribute.toldKey?, Attribute.metadata_eq h]
    split_ifs with hname
    · rw [hname]
    · exact readKey?_written k
  refine ⟨?_, fun _ => Attribute.line_of_metadata, htold, ?_⟩
  · rw [Attribute.metadata_eq h]
    split_ifs with hname <;> simp [hname]
  · rw [htold, Option.some.injEq]
    split_ifs with hname
    · simp [hname]
    · simp only [hname, false_or, flatMap_units_eq_codes_iff]

/-- A key with a quote, a backslash and an umlaut is told as it is. -/
theorem toldKey?_iff_umlaut :
    let a : Attribute := ⟨"abc", .text, some .emptyText, .str "a\"b\\cä", []⟩
    a.key = .str "a\"b\\cä"
    ∧ (a.metadata = none ↔ a.name = "a\"b\\cä")
    ∧ (∀ m, a.metadata = some m → ∃ before, a.line = indent ++ a.name ++ ": " ++ a.type.render
      ++ " = dataclasses.field(" ++ before ++ m ++ ")")
    ∧ a.toldKey? = some (if a.name = "a\"b\\cä" then codes "a\"b\\cä".toList
      else "a\"b\\cä".toList.flatMap units)
    ∧ (a.toldKey? = some (codes "a\"b\\cä".toList)
      ↔ a.name = "a\"b\\cä" ∨ ∀ c ∈ "a\"b\\cä".toList, c.toNat < 0x10000) := by
  intro a
  exact ⟨rfl, toldKey?_iff a _ rfl⟩

/-- **A key that is told as another one**: of a character beyond the basic plane
the two halves of a surrogate pair are told. -/
theorem toldKey?_emoji :
    let response : Json := .obj [("😀", .str "a")]
    let tree : Field := .map (.str "ShowResponse") [
      ⟨"😀", .str "_", .scalar (.str "_") .string, true⟩]
    (infer .empty (.str "ShowResponse") response).outcome = .ok tree
    ∧ ∃ r after a, (rootOf "ShowResponse" "" none tree).perform {} = (.ok [.record r], after)
      ∧ r.attributes = [a] ∧ a.key = .str "😀" ∧ a.name ≠ "😀"
      ∧ a.line = "    _: str = dataclasses.field(default=\"\", "
        ++ "metadata=\x7b\"json\": \"\\ud83d\\ude00\"\x7d)"
      ∧ a.toldKey? = some [0xd83d, 0xde00] ∧ codes "😀".toList = [0x1f600] := by
  refine ⟨?_, _, _, _, rfl, rfl, rfl, ?_, ?_, ?_, ?_⟩
  · decide +kernel
  · decide +kernel
  · decide +kernel
  · decide +kernel
  · decide +kernel

end Exemplar.Code
