import Exemplar.Proofs.Code.Keys
import Exemplar.Proofs.Code.Nested
import Exemplar.Proofs.Naming

/-!
# The lines of a request

What a server says of an action and its parameters goes into the record of its
requests: into documentation, into comments, and into keys. A program is read
line by line, so a text in a comment must not hold a line break, or the rest of
it is read as a line of the program.

Documentation is cut out of the text of a record first (`outside?`). Every
line of what is left is one that the record is meant to have (`RequestLine`),
but for one source: the versions of a parameter are put into its comment as
they are, and whatever stands behind a line break in them is a line of the
program (`request_lines`).
-/

namespace Exemplar

namespace Code

open Description (IsLine)
open Literal

variable {c : Char} {cs ds l : List Char} {s : String} {ls : List String} {k : String}

/-! ## Lines that a program is read by -/

/-- **The lines that the text of a program is read by**, what is behind the last
break included. A carriage return, a line feed, or both together break a
line; the other breaks of descriptions do not. -/
def sourceLines : List Char → List (List Char)
  | [] => [[]]
  | '\r' :: '\n' :: cs => [] :: sourceLines cs
  | c :: cs =>
    if c = '\n' ∨ c = '\r' then [] :: sourceLines cs
    else match sourceLines cs with
      | [] => [[c]]
      | l :: ls => (c :: l) :: ls

/-- **A text on one line.** -/
structure OneLine (cs : List Char) : Prop where
  no_feed : '\n' ∉ cs
  no_return : '\r' ∉ cs

theorem OneLine.append (hcs : OneLine cs) (hds : OneLine ds) : OneLine (cs ++ ds) :=
  ⟨by simp [hcs.no_feed, hds.no_feed], by simp [hcs.no_return, hds.no_return]⟩

theorem OneLine.of_forall (h : ∀ c ∈ cs, c ≠ '\n' ∧ c ≠ '\r') : OneLine cs :=
  ⟨fun hc => (h _ hc).1 rfl, fun hc => (h _ hc).2 rfl⟩

/-- A line of a description is on one line. -/
theorem OneLine.of_isLine (h : IsLine l) : OneLine l :=
  ⟨fun hc => absurd (h.noBreak _ hc) (by decide), fun hc => absurd (h.noBreak _ hc) (by decide)⟩

/-- There is a first line, and what stands in front of the text stands in front
of it. -/
theorem sourceLines_append (h : OneLine cs) (ds : List Char) :
    ∃ l ls, sourceLines ds = l :: ls ∧ sourceLines (cs ++ ds) = (cs ++ l) :: ls := by
  induction cs with
  | nil =>
    suffices hne : sourceLines ds ≠ [] by
      obtain ⟨l, ls, hls⟩ := List.exists_cons_of_ne_nil hne
      exact ⟨l, ls, hls, hls⟩
    fun_cases sourceLines ds <;> simp_all
  | cons c cs ih =>
    obtain ⟨hfeed, hreturn⟩ := h
    obtain ⟨l, ls, hds, hls⟩ := ih ⟨fun hc => hfeed (List.mem_cons_of_mem c hc),
      fun hc => hreturn (List.mem_cons_of_mem c hc)⟩
    have hc : c ≠ '\r' := fun hc => hreturn (hc ▸ List.mem_cons_self)
    have hbreak : ¬ (c = '\n' ∨ c = '\r') := by
      rintro (rfl | rfl)
      · exact hfeed List.mem_cons_self
      · exact hc rfl
    refine ⟨l, ls, hds, ?_⟩
    rw [List.cons_append, sourceLines, if_neg hbreak, hls]
    · rfl
    · exact fun _ hcr _ => hc hcr

/-- A text on one line is the only line of it. -/
theorem OneLine.sourceLines_eq (h : OneLine cs) : sourceLines cs = [cs] := by
  obtain ⟨l, ls, hnil, hls⟩ := sourceLines_append h []
  obtain ⟨rfl, rfl⟩ := List.cons.inj (show [[]] = l :: ls from hnil)
  simpa using hls

/-- **A line feed parts the lines** of what stands in front of it from those
behind it. If a carriage return is in front of it, the two break one line. -/
theorem sourceLines_append_feed (cs ds : List Char) :
    ∃ ls, (sourceLines cs = ls ∨ sourceLines cs = ls ++ [[]]) ∧ ls ≠ []
      ∧ sourceLines (cs ++ '\n' :: ds) = ls ++ sourceLines ds := by
  fun_induction sourceLines cs with
  | case1 => exact ⟨[[]], .inl rfl, by simp, rfl⟩
  | case2 cs ih =>
    obtain ⟨ls, hls, -, happend⟩ := ih
    refine ⟨[] :: ls, ?_, by simp, ?_⟩
    · exact hls.imp (congrArg ([] :: ·)) (congrArg ([] :: ·))
    · rw [List.cons_append, List.cons_append, sourceLines, happend]
      rfl
  | case3 c cs hne hc ih =>
    obtain ⟨ls, hls, -, happend⟩ := ih
    by_cases hlast : c = '\r' ∧ cs = []
    · obtain ⟨rfl, rfl⟩ := hlast
      exact ⟨[[]], .inr rfl, by simp, rfl⟩
    · refine ⟨[] :: ls, ?_, by simp, ?_⟩
      · exact hls.imp (congrArg ([] :: ·)) (congrArg ([] :: ·))
      · rw [List.cons_append, sourceLines, if_pos hc, happend]
        · rfl
        · intro tail hcr htail
          cases cs with
          | nil => exact hlast ⟨hcr, rfl⟩
          | cons d cs => exact hne cs hcr (by rw [(List.cons.inj htail).1])
  | case4 c cs hne hc hnil ih =>
    obtain ⟨ls, hls, hls', -⟩ := ih
    rcases hls with h | h
    · exact absurd (h.symm.trans hnil) hls'
    · exact absurd (h.symm.trans hnil) (by simp)
  | case5 c cs hne hc l rest hrest ih =>
    obtain ⟨ls, hls, hls', happend⟩ := ih
    obtain ⟨m, ms, rfl⟩ := List.exists_cons_of_ne_nil hls'
    have hm : l = m ∧ (rest = ms ∨ rest = ms ++ [[]]) := by
      rw [hrest] at hls
      rcases hls with h | h
      · exact ⟨(List.cons.inj h).1, .inl (List.cons.inj h).2⟩
      · exact ⟨(List.cons.inj h).1, .inr (List.cons.inj h).2⟩
    obtain ⟨rfl, hms⟩ := hm
    refine ⟨(c :: l) :: ms, ?_, by simp, ?_⟩
    · exact hms.imp (congrArg ((c :: l) :: ·)) (congrArg ((c :: l) :: ·))
    · rw [List.cons_append, sourceLines, if_neg hc, happend]
      · rfl
      · exact fun _ hcr _ => hc (.inr hcr)

/-- So in front of a text that has an empty line, no line is lost. -/
theorem mem_sourceLines_append_feed_iff (h : [] ∈ sourceLines ds) :
    l ∈ sourceLines (cs ++ '\n' :: ds) ↔ l ∈ sourceLines cs ∨ l ∈ sourceLines ds := by
  obtain ⟨ls, hls, -, happend⟩ := sourceLines_append_feed cs ds
  rw [happend, List.mem_append]
  rcases hls with hls | hls
  · rw [hls]
  · rw [hls, List.mem_append, List.mem_singleton, or_assoc]
    refine or_congr_right (or_iff_right_of_imp ?_).symm
    rintro rfl
    exact h

/-- **The lines of the text of some lines** are those of each, and the empty line
at the end. -/
theorem mem_sourceLines_textOf_iff :
    l ∈ sourceLines (textOf ls) ↔ l = [] ∨ ∃ s ∈ ls, l ∈ sourceLines s.toList := by
  induction ls generalizing l with
  | nil => simp [textOf, sourceLines]
  | cons s ls ih =>
    have hnil : [] ∈ sourceLines (textOf ls) := ih.mpr (.inl rfl)
    rw [textOf_cons, mem_sourceLines_append_feed_iff hnil, ih, List.exists_mem_cons_iff,
      or_left_comm]

/-! ## What is not documentation -/

/-- **The text of a record without its documentation**: the literal between
three quotes that comes first behind the head of the class, if one does, and
the indentation in front of it are cut out. -/
def outside? (name : String) (text : List Char) : Option (List Char) :=
  (Text.dropStart? (textOf (classHead name)) text).bind fun body =>
    match Text.dropStart? (indent.toList ++ Quotes.three.text) body with
    | none => some text
    | some inside => (read .three inside).map fun r => textOf (classHead name) ++ r.2

/-- The lines that a record without paging accessor has for its attributes. -/
def Record.bodyLines (r : Record) : List String :=
  r.attributes.flatMap Attribute.lines ++ if r.attributes.isEmpty then [indent ++ "pass"] else []

/-- The empty lines that stay when documentation is cut out. -/
def gap (v : Json) : List String := if Description.lines v = [] then [] else ["", ""]

/-- **The text of a record** without paging accessor. -/
theorem Record.toList_render {r : Record} (h : r.paging = none) :
    r.render.toList = textOf (classHead r.name)
      ++ (textOf (Description.literal indent (.str r.description)) ++ textOf r.bodyLines) := by
  have hattributes : r.attributes.flatMap Attribute.layout
      = r.attributes.flatMap Attribute.lines :=
    List.flatMap_congr fun a _ => a.lines_eq_layout.symm
  have hinside : r.inside = Description.literal indent (.str r.description) ++ r.bodyLines := by
    rw [Record.inside, h, hattributes, List.append_assoc]
    rfl
  have hrender := Definition.toList_render (.record r)
  rwa [Definition.layout, hinside, textOf_append, textOf_append] at hrender

/-- **Documentation is cut out**, and nothing else, if no line of the body starts
with a quote. -/
theorem Record.outside?_render {r : Record} (h : r.paging = none)
    (hbody : ∀ s ∈ r.bodyLines, ∃ c cs, s.toList = indent.toList ++ c :: cs ∧ c ≠ '"') :
    outside? r.name r.render.toList
      = some (textOf (classHead r.name ++ (gap (.str r.description) ++ r.bodyLines))) := by
  have hdrop : Text.dropStart? (textOf (classHead r.name)) r.render.toList = some _ :=
    Text.dropStart?_eq_some_iff.mpr (Record.toList_render h)
  rw [outside?, hdrop, Option.bind_some]
  by_cases hlines : Description.lines (.str r.description) = []
  · have hnone : Text.dropStart? (indent.toList ++ Quotes.three.text) (textOf r.bodyLines)
        = none := by
      cases hls : r.bodyLines with
      | nil => rfl
      | cons s ls =>
        obtain ⟨c, cs, hs, hc⟩ := hbody s (hls ▸ List.mem_cons_self)
        refine Option.eq_none_iff_forall_ne_some.mpr fun rest hrest => hc ?_
        rw [Text.dropStart?_eq_some_iff, textOf_cons, hs, List.append_assoc, List.append_assoc,
          List.append_cancel_left_eq] at hrest
        exact (List.cons.inj hrest).1
    rw [Description.literal_eq_nil hlines, gap, if_pos hlines]
    simp only [textOf, List.flatMap_nil, List.nil_append] at hnone ⊢
    rw [hnone, Record.toList_render h, Description.literal_eq_nil hlines]
    simp [textOf]
  · have hstart : Text.dropStart? (indent.toList ++ Quotes.three.text)
        (textOf (Description.literal indent (.str r.description)) ++ textOf r.bodyLines)
          = some (escaped (Description.documented indent.toList (Description.lines
              (.str r.description)))
            ++ (Quotes.three.text ++ '\n' :: '\n' :: textOf r.bodyLines)) := by
      rw [Text.dropStart?_eq_some_iff, Description.textOf_literal hlines plain_of_mem_indent]
      simp only [List.append_assoc, List.cons_append, List.nil_append]
    have hread := Description.read_documented (show '\r' ∉ indent.toList by decide) (by decide)
      (.str r.description) ('\n' :: '\n' :: textOf r.bodyLines)
    rw [hstart, gap, if_neg hlines]
    simp only [hread, Option.map_some, textOf_append]
    rfl

/-! ## Lines of parameters -/

/-- Names and keys are on one line, whatever they are made of. -/
theorem oneLine_toSnake (s : String) : OneLine (Naming.toSnake s).toList := by
  rw [Naming.toSnake, String.toList_ofList]
  refine .of_forall fun c hc => ?_
  have hname := Naming.isNameChar_of_mem_snake hc
  constructor <;> rintro rfl <;> exact absurd hname (by decide)

theorem oneLine_toCamel (s : String) : OneLine (Naming.toCamel s).toList := by
  rw [Naming.toCamel, String.toList_ofList]
  refine .of_forall fun c hc => ?_
  have hname := Naming.of_mem_camel hc
  constructor <;> rintro rfl <;> exact absurd hname (by decide)

theorem isHex_of_hexFrom? {n m : Nat} (h : hexFrom? n cs = some m) :
    ∀ c ∈ cs, (Json.hexValue? c).isSome = true := by
  induction cs generalizing n with
  | nil => exact fun _ hc => nomatch hc
  | cons c cs ih =>
    obtain ⟨d, hd, hrest⟩ := Option.bind_eq_some_iff.mp h
    exact List.forall_mem_cons.mpr ⟨by rw [hd]; rfl, ih hrest⟩

theorem oneLine_unitEscape (n : Nat) : OneLine (Json.unitEscape n) := by
  have hhex : OneLine (Text.hex 4 n) := by
    have hread : hexFrom? 0 (Text.hex 4 n) = some n := by
      rw [Text.hex, hexFrom?_zeros, hexFrom?_toDigits]
    refine .of_forall fun c hc => ?_
    have hdigit := isHex_of_hexFrom? hread c hc
    constructor <;> rintro rfl <;> exact absurd hdigit (by decide)
  have hmark : OneLine ['\\', 'u'] := ⟨by decide, by decide⟩
  exact hmark.append hhex

theorem oneLine_writeChar (c : Char) : OneLine (Json.writeChar c) := by
  unfold Json.writeChar
  split_ifs with h1 h2 h3 h4
  · exact ⟨by decide, by decide⟩
  · exact ⟨by decide, by decide⟩
  · exact ⟨by decide, by decide⟩
  · exact ⟨by decide, by decide⟩
  · exact ⟨by decide, by decide⟩
  · exact ⟨by decide, by decide⟩
  · exact ⟨by decide, by decide⟩
  · dsimp only
    split_ifs
    · exact ⟨by simpa using Ne.symm h3, by simpa using Ne.symm h4⟩
    · exact oneLine_unitEscape _
    · exact (oneLine_unitEscape _).append (oneLine_unitEscape _)

theorem oneLine_writeString (s : String) : OneLine (Json.writeString s).toList := by
  have hinside : OneLine (s.toList.flatMap Json.writeChar) := by
    refine .of_forall fun c hc => ?_
    obtain ⟨d, -, hd⟩ := List.mem_flatMap.mp hc
    obtain ⟨hfeed, hreturn⟩ := oneLine_writeChar d
    exact ⟨fun h => hfeed (h ▸ hd), fun h => hreturn (h ▸ hd)⟩
  have hquote : OneLine ['"'] := ⟨by decide, by decide⟩
  rw [Json.writeString, String.toList_ofList]
  exact hquote.append (hinside.append hquote)

theorem OneLine.append_text {s t : String} (hs : OneLine s.toList) (ht : OneLine t.toList) :
    OneLine (s ++ t).toList := by
  rw [String.toList_append]
  exact hs.append ht

theorem oneLine_intercalate {sep : String} (hsep : OneLine sep.toList)
    (h : ∀ s ∈ ls, OneLine s.toList) : OneLine (sep.intercalate ls).toList := by
  rw [String.toList_intercalate]
  induction ls with
  | nil => exact ⟨List.not_mem_nil, List.not_mem_nil⟩
  | cons s ls ih =>
    obtain ⟨hs, hls⟩ := List.forall_mem_cons.mp h
    cases ls with
    | nil => simpa using hs
    | cons t ls =>
      rw [List.map_cons, List.map_cons, List.intercalate_cons_cons]
      exact (hs.append hsep).append (ih hls)

theorem oneLine_specification (h : ∀ s ∈ ls, OneLine s.toList) :
    OneLine (Attribute.specification ls).toList :=
  (OneLine.append_text ⟨by decide, by decide⟩
    (oneLine_intercalate ⟨by decide, by decide⟩ h)).append_text ⟨by decide, by decide⟩

/-- What follows the type of a parameter whose key is a text. -/
theorem oneLine_value? {p : Param} (h : p.key = .str k) :
    ∀ v ∈ p.toAttribute.value?, OneLine v.toList := by
  have hmetadata : ∀ m ∈ p.toAttribute.metadata, OneLine m.toList := by
    intro m hm
    rw [Attribute.metadata_eq (k := k) h] at hm
    obtain ⟨-, hm⟩ := Option.ite_none_left_eq_some.mp hm
    obtain rfl := Option.some.inj hm
    exact (OneLine.append_text ⟨by decide, by decide⟩ (oneLine_writeString k)).append_text
      ⟨by decide, by decide⟩
  have hinitial : p.toAttribute.initial = if p.required.truthy then none else some .none := rfl
  intro v hv
  rw [Option.mem_def, Attribute.value?, hinitial] at hv
  cases hm : p.toAttribute.metadata with
  | none =>
    rw [hm] at hv
    split_ifs at hv
    · exact absurd hv (Option.some_ne_none v).symm
    · obtain rfl : "None" = v := Option.some.inj hv
      exact ⟨by decide, by decide⟩
  | some m =>
    rw [hm] at hv
    split_ifs at hv
    · obtain rfl : Attribute.specification [m] = v := Option.some.inj hv
      exact oneLine_specification (List.forall_mem_singleton.mpr (hmetadata m hm))
    · obtain rfl : Attribute.specification ["default=None", m] = v := Option.some.inj hv
      exact oneLine_specification (List.forall_mem_cons.mpr
        ⟨⟨by decide, by decide⟩, List.forall_mem_singleton.mpr (hmetadata m hm)⟩)

/-- The line of a parameter whose key is a text. -/
theorem oneLine_line {p : Param} (h : p.key = .str k) : OneLine p.toAttribute.line.toList := by
  have htype : OneLine p.toAttribute.type.render.toList := by
    cases hr : p.required.truthy <;> simp only [Param.toAttribute, hr] <;>
      exact ⟨by decide, by decide⟩
  have hdeclared : OneLine
      (indent ++ p.toAttribute.name ++ ": " ++ p.toAttribute.type.render).toList :=
    ((OneLine.append_text ⟨by decide, by decide⟩ (oneLine_toSnake _)).append_text
      ⟨by decide, by decide⟩).append_text htype
  rw [Attribute.line]
  cases hvalue : p.toAttribute.value? with
  | none => exact hdeclared
  | some v =>
    exact (hdeclared.append_text ⟨by decide, by decide⟩).append_text (oneLine_value? h v hvalue)

/-! ## Lines of requests -/

/-- A line of a description is a comment line. -/
theorem exists_of_mem_comment {v : Json} (h : s ∈ Description.comment v indent) :
    ∃ cs, OneLine cs ∧ s.toList = indent.toList ++ '#' :: cs := by
  obtain ⟨l, hl, rfl⟩ := List.mem_map.mp h
  have hline : OneLine l := .of_isLine (Description.isLine_of_mem_lines hl)
  have hsub : Text.strip l ⊆ l := fun c hc =>
    (List.dropWhile_sublist _).subset (List.mem_reverse.mp ((List.dropWhile_sublist _).subset
      (List.mem_reverse.mp hc)))
  refine ⟨' ' :: Text.strip l, ⟨?_, ?_⟩, by simp [ToString.toString]⟩
  · simpa using fun h => hline.no_feed (hsub h)
  · simpa using fun h => hline.no_return (hsub h)

end Code

/-- **What is said of the versions of a parameter**, as it stands in its
comment. -/
def Param.versionNote (p : Param) : String := "; ".intercalate p.history

namespace Code

open Literal

variable {a : Action} {p : Param} {l : List Char} {s : String} {r : Record}

/-- **A line that the record of the requests of an action is meant to have**
outside its documentation. -/
inductive RequestLine (a : Action) : List Char → Prop where
  | blank : RequestLine a []
  | decorator : RequestLine a "@dataclass".toList
  | header : RequestLine a ("class " ++ a.requestName ++ ":").toList
  | pass : RequestLine a (indent ++ "pass").toList
  | comment (cs : List Char) : RequestLine a (indent.toList ++ '#' :: cs)
  | parameter {p : Param} (h : p ∈ a.requestParams) : RequestLine a p.toAttribute.line.toList

/-- The comment on the versions of a parameter starts with its mark, and goes on
as the versions do. -/
theorem sourceLines_versionComment (p : Param) :
    ∃ l, sourceLines (indent ++ "# " ++ p.versionNote).toList
      = (indent.toList ++ '#' :: l) :: (sourceLines p.versionNote.toList).tail := by
  have hmark : OneLine (indent ++ "# ").toList := ⟨by decide, by decide⟩
  obtain ⟨l, ls, hnote, hcomment⟩ := sourceLines_append hmark p.versionNote.toList
  refine ⟨' ' :: l, ?_⟩
  rw [String.toList_append, hcomment, hnote]
  rfl

/-- The comments on a parameter: on its versions, if there are any, and on what
it is described as. -/
theorem mem_comments_iff : s ∈ p.comments
    ↔ (p.history ≠ [] ∧ s = indent ++ "# " ++ p.versionNote)
      ∨ s ∈ Description.comment p.description indent := by
  by_cases h : p.history = []
  · simp [Param.comments, h]
  · have hempty : p.history.isEmpty = false := by simpa using h
    simp [Param.comments, Param.versionNote, h, hempty]

/-- **A line of the comments on a parameter** is a comment line, or stands behind
a line break in its versions. -/
theorem of_mem_sourceLines_comment (hs : s ∈ p.comments) (hl : l ∈ sourceLines s.toList) :
    (∃ cs, l = indent.toList ++ '#' :: cs) ∨ l ∈ (sourceLines p.versionNote.toList).tail := by
  rcases mem_comments_iff.mp hs with ⟨-, rfl⟩ | hs
  · obtain ⟨first, hlines⟩ := sourceLines_versionComment p
    rw [hlines] at hl
    exact (List.mem_cons.mp hl).imp_left fun h => ⟨first, h⟩
  · obtain ⟨cs, hcs, htext⟩ := exists_of_mem_comment hs
    have hline : OneLine (indent.toList ++ '#' :: cs) := by
      have hmark : OneLine (indent.toList ++ ['#']) := ⟨by decide, by decide⟩
      simpa using hmark.append hcs
    rw [htext, hline.sourceLines_eq] at hl
    exact .inl ⟨cs, List.mem_singleton.mp hl⟩

/-- What stands behind a line break in the versions of a parameter is a line of
its comments. -/
theorem mem_sourceLines_of_mem_tail (h : l ∈ (sourceLines p.versionNote.toList).tail) :
    ∃ s ∈ p.comments, l ∈ sourceLines s.toList := by
  have hhistory : p.history ≠ [] := by
    intro hnil
    rw [Param.versionNote, hnil] at h
    nomatch h
  obtain ⟨first, hlines⟩ := sourceLines_versionComment p
  refine ⟨_, mem_comments_iff.mpr (.inl ⟨hhistory, rfl⟩), ?_⟩
  rw [hlines]
  exact List.mem_cons_of_mem _ h

/-- **The body of a record for requests**: the comments and the line of each
parameter, or a line that does nothing. -/
theorem mem_bodyLines_iff (h : r.attributes = a.requestParams.map Param.toAttribute) :
    s ∈ r.bodyLines ↔ (∃ p ∈ a.requestParams, s ∈ p.comments ∨ s = p.toAttribute.line)
      ∨ a.requestParams = [] ∧ s = indent ++ "pass" := by
  have hcomments : ∀ p : Param, p.toAttribute.comments = p.comments := fun _ => rfl
  rw [Record.bodyLines, h]
  cases hparams : a.requestParams with
  | nil => simp
  | cons p ps => simp [Attribute.lines, hcomments, or_assoc]

/-- The line of an attribute starts with its name. -/
theorem exists_line_eq (a : Attribute) :
    ∃ rest, a.line.toList = indent.toList ++ (a.name.toList ++ ':' :: rest) := by
  rw [Attribute.line]
  cases a.value? with
  | none => exact ⟨' ' :: a.type.render.toList, by simp⟩
  | some v => exact ⟨' ' :: (a.type.render.toList ++ ' ' :: '=' :: ' ' :: v.toList), by simp⟩

/-- No line of the body starts with a quote. -/
theorem exists_of_mem_bodyLines (h : r.attributes = a.requestParams.map Param.toAttribute) :
    ∀ s ∈ r.bodyLines, ∃ c cs, s.toList = indent.toList ++ c :: cs ∧ c ≠ '"' := by
  intro s hs
  rcases (mem_bodyLines_iff h).mp hs with ⟨p, -, hs | rfl⟩ | ⟨-, rfl⟩
  · rcases mem_comments_iff.mp hs with ⟨-, rfl⟩ | hs
    · exact ⟨'#', ' ' :: p.versionNote.toList, by simp, by decide⟩
    · obtain ⟨cs, -, hcs⟩ := exists_of_mem_comment hs
      exact ⟨'#', cs, hcs, by decide⟩
  · obtain ⟨rest, hline⟩ := exists_line_eq p.toAttribute
    cases hname : p.toAttribute.name.toList with
    | nil => exact ⟨':', rest, by rw [hline, hname]; rfl, by decide⟩
    | cons c cs =>
      refine ⟨c, cs ++ ':' :: rest, by rw [hline, hname]; rfl, ?_⟩
      rintro rfl
      have hmem : '"' ∈ Naming.snake (Naming.toCamel p.key.display).toList := by
        have hsnake : p.toAttribute.name.toList
            = Naming.snake (Naming.toCamel p.key.display).toList := String.toList_ofList
        rw [← hsnake, hname]
        exact List.mem_cons_self
      exact absurd (Naming.isNameChar_of_mem_snake hmem) (by decide)
  · exact ⟨'p', ['a', 's', 's'], by decide, by decide⟩

/-- Versions on one line make a note on one line. -/
theorem oneLine_versionNote (hsince : OneLine p.since.display.toList)
    (hdeprecated : OneLine p.deprecatedSince.display.toList) : OneLine p.versionNote.toList := by
  refine oneLine_intercalate ⟨by decide, by decide⟩ fun s hs => ?_
  rcases List.mem_append.mp hs with hs | hs
  · rw [List.mem_singleton.mp (List.mem_ite_nil_right.mp hs).2]
    exact OneLine.append_text ⟨by decide, by decide⟩ hsince
  · rw [List.mem_singleton.mp (List.mem_ite_nil_right.mp hs).2]
    exact OneLine.append_text ⟨by decide, by decide⟩ hdeprecated

/-- The line that names the class of a request. -/
theorem oneLine_classLine (a : Action) : OneLine (classLine a.requestName).toList :=
  (OneLine.append_text ⟨by decide, by decide⟩ ((oneLine_toCamel _).append_text
    ⟨by decide, by decide⟩)).append_text ⟨by decide, by decide⟩

/-- **The lines of what is not documentation**, each by the line of the record
that it is of. -/
theorem requestLine_of_mem (hattributes : r.attributes = a.requestParams.map Param.toAttribute)
    (hname : r.name = a.requestName) (hkeys : ∀ p ∈ a.requestParams, ∃ k, p.key = .str k)
    (hs : s ∈ classHead r.name ++ (gap (.str r.description) ++ r.bodyLines))
    (hl : l ∈ sourceLines s.toList) :
    RequestLine a l ∨ ∃ p ∈ a.requestParams, l ∈ (sourceLines p.versionNote.toList).tail := by
  -- A line on one line is the only one to be looked at.
  have hone : ∀ {t : String}, OneLine t.toList → s = t → l = t.toList := by
    rintro t ht rfl
    rw [ht.sourceLines_eq] at hl
    exact List.mem_singleton.mp hl
  rcases List.mem_append.mp hs with hs | hs
  · rw [classHead, hname, List.mem_pair] at hs
    rcases hs with hs | hs
    · rw [hone ⟨by decide, by decide⟩ hs]
      exact .inl .decorator
    · rw [hone (oneLine_classLine a) hs]
      exact .inl .header
  rcases List.mem_append.mp hs with hs | hs
  · have hempty : s = "" := by
      unfold gap at hs
      split_ifs at hs
      · simp at hs
      · simpa using hs
    rw [hone ⟨by decide, by decide⟩ hempty]
    exact .inl .blank
  rcases (mem_bodyLines_iff hattributes).mp hs with ⟨p, hp, hs | hs⟩ | ⟨-, hs⟩
  · rcases of_mem_sourceLines_comment hs hl with ⟨cs, rfl⟩ | hl
    · exact .inl (.comment cs)
    · exact .inr ⟨p, hp, hl⟩
  · obtain ⟨k, hk⟩ := hkeys p hp
    rw [hone (oneLine_line hk) hs]
    exact .inl (.parameter hp)
  · rw [hone ⟨by decide, by decide⟩ hs]
    exact .inl .pass

/-- **The lines of a request.** Documentation can be cut out of the record of the
requests of an action, and each line of what is left is one that the record is
meant to have, or stands behind a line break in the versions of a parameter.
Whatever stands there is a line of the program. So where no version holds a
line break, the record has the lines that it is meant to have. -/
theorem request_lines (a : Action) (r : Record) (h : a.request = .ok r)
    (hkeys : ∀ p ∈ a.requestParams, ∃ k, p.key = .str k) :
    ∃ code, outside? a.requestName r.render.toList = some code
      ∧ (∀ l ∈ sourceLines code, RequestLine a l
        ∨ ∃ p ∈ a.requestParams, l ∈ (sourceLines p.versionNote.toList).tail)
      ∧ (∀ p ∈ a.requestParams, ∀ l ∈ (sourceLines p.versionNote.toList).tail,
        l ∈ sourceLines code)
      ∧ ((∀ p ∈ a.requestParams, OneLine p.since.display.toList
          ∧ OneLine p.deprecatedSince.display.toList) →
        ∀ l ∈ sourceLines code, RequestLine a l) := by
  obtain ⟨hname, hattributes, hpaging⟩ : r.name = a.requestName
      ∧ r.attributes = a.requestParams.map Param.toAttribute ∧ r.paging = none := by
    obtain ⟨description, rfl⟩ := exists_request_eq h
    exact ⟨rfl, rfl, rfl⟩
  have hlines : ∀ l ∈ sourceLines (textOf (classHead r.name
      ++ (gap (.str r.description) ++ r.bodyLines))), RequestLine a l
        ∨ ∃ p ∈ a.requestParams, l ∈ (sourceLines p.versionNote.toList).tail := by
    intro l hl
    rcases mem_sourceLines_textOf_iff.mp hl with rfl | ⟨s, hs, hl⟩
    · exact .inl .blank
    · exact requestLine_of_mem hattributes hname hkeys hs hl
  refine ⟨_, hname ▸ Record.outside?_render hpaging (exists_of_mem_bodyLines hattributes), hlines,
    fun p hp l hl => ?_, fun hversions l hl => ?_⟩
  · obtain ⟨s, hs, hl⟩ := mem_sourceLines_of_mem_tail hl
    have hbody : s ∈ r.bodyLines := (mem_bodyLines_iff hattributes).mpr (.inl ⟨p, hp, .inl hs⟩)
    exact mem_sourceLines_textOf_iff.mpr (.inr ⟨s, by simp [hbody], hl⟩)
  · refine (hlines l hl).resolve_right ?_
    rintro ⟨p, hp, htail⟩
    obtain ⟨hsince, hdeprecated⟩ := hversions p hp
    rw [(oneLine_versionNote hsince hdeprecated).sourceLines_eq] at htail
    nomatch htail

/-- A request whose texts hold quotes and line breaks. -/
theorem request_lines_show :
    let a : Action := {
      key := .str "show"
      description := .str "Says \"\"\"\nimport os"
      params := [{
        key := .str "q\"x"
        description := .str "What to\rshow"
        required := .bool true
        since := .str "6.4" }] }
    ∃ r, a.request = .ok r ∧ (∀ p ∈ a.requestParams, ∃ k, p.key = .str k)
      ∧ ∃ code, outside? a.requestName r.render.toList = some code
        ∧ (∀ l ∈ sourceLines code, RequestLine a l
          ∨ ∃ p ∈ a.requestParams, l ∈ (sourceLines p.versionNote.toList).tail)
        ∧ (∀ p ∈ a.requestParams, ∀ l ∈ (sourceLines p.versionNote.toList).tail,
          l ∈ sourceLines code)
        ∧ ((∀ p ∈ a.requestParams, OneLine p.since.display.toList
            ∧ OneLine p.deprecatedSince.display.toList) →
          ∀ l ∈ sourceLines code, RequestLine a l) := by
  intro a
  have hkeys : ∀ p ∈ a.requestParams, ∃ k, p.key = .str k :=
    List.forall_mem_singleton.mpr ⟨_, rfl⟩
  exact ⟨_, rfl, hkeys, request_lines a _ rfl hkeys⟩

/-- **A version that becomes code**: what stands behind the line break in it is a
line of the program, and none that the record is meant to have. -/
theorem request_lines_import :
    let a : Action := {
      key := .str "show"
      params := [{ key := .str "id", since := .str "1\nimport os" }] }
    let code := "@dataclass\nclass ShowRequest:\n\n\n"
      ++ "    # Since 1\nimport os\n    id: Optional[str] = None\n"
    ∃ r, a.request = .ok r ∧ outside? a.requestName r.render.toList = some code.toList
      ∧ "import os".toList ∈ sourceLines code.toList ∧ ¬ RequestLine a "import os".toList := by
  intro a code
  refine ⟨_, rfl, by decide +kernel, by decide +kernel, fun h => ?_⟩
  generalize hl : "import os".toList = l at h
  cases h with
  | blank => exact absurd hl (by decide)
  | decorator => exact absurd hl (by decide)
  | header => exact absurd hl (by decide)
  | pass => exact absurd hl (by decide)
  | comment cs => exact absurd (List.cons.inj hl).1 (by decide)
  | parameter =>
    obtain ⟨rest, hline⟩ := exists_line_eq _
    exact absurd (List.cons.inj (hl.trans hline)).1 (by decide)

end Code

end Exemplar
