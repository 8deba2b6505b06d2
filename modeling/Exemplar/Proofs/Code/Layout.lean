import Exemplar.Proofs.Code.Docstrings
import Exemplar.Proofs.Code.Lines

/-!
# The lines of a module

The text of a module, line by line. It starts with its header, and behind that
come its definitions in order, each behind two empty lines: the text is that
of the lines in `moduleLayout` (`toList_moduleText`). A record has a decorator,
the line that names its class, and what stands inside the class; a synonym has
one line, behind a comment if there is something to be said of it.

What stands inside a class is indented, so a class is opened by the records of
a module and by nothing else: the lines behind the decorators are those that
name the classes of the records, one for each, in order
(`classLines_moduleLayout`). The documentation at the start of a module counts
as one line here, whatever breaks it holds.
-/

namespace Exemplar.Code

variable {a : Attribute} {r : Record} {d : Definition} {ds : List Definition} {l s : String}
  {ls ms : List String}

/-! ## The text of some lines -/

theorem textOf_cons (s : String) (ls : List String) :
    textOf (s :: ls) = s.toList ++ '\n' :: textOf ls := by
  simp [textOf]

theorem textOf_append (ls ms : List String) : textOf (ls ++ ms) = textOf ls ++ textOf ms :=
  List.flatMap_append

/-- Texts of lines are joined as the lines are. -/
theorem textOf_intercalate (sep : List String) (lss : List (List String)) :
    textOf (sep.intercalate lss) = (textOf sep).intercalate (lss.map textOf) := by
  induction lss with
  | nil => rfl
  | cons ls lss ih =>
    cases lss with
    | nil => simp
    | cons ms lss =>
      rw [List.intercalate_cons_cons, textOf_append, textOf_append, ih]
      exact List.intercalate_cons_cons.symm

theorem toList_intercalate_feed (s : String) (ls : List String) :
    ("\n".intercalate (s :: ls) ++ "\n").toList = textOf (s :: ls) := by
  induction ls generalizing s with
  | nil => simp [textOf]
  | cons t ls ih =>
    rw [textOf_cons, ← ih t]
    simp [String.toList_intercalate]

/-! ## Definitions -/

/-- The lines of an attribute: its comments, and its name with its type and its
value. -/
def Attribute.layout (a : Attribute) : List String :=
  a.comments ++ [indent ++ a.name ++ ": " ++ indexed a.type.uses
    ++ a.valueExpr?.elim "" fun v => " = " ++ v.render]

/-- The line in front of every class. -/
def decorator : String := "@dataclass"

/-- The line that opens a class. -/
def classLine (name : String) : String := "class " ++ name ++ ":"

/-- The lines in front of everything that a class holds. -/
def classHead (name : String) : List String := [decorator, classLine name]

/-- **What stands inside the class of a record**: its documentation, its
attributes, and its accessor if it has one. A class is never left empty. -/
def Record.inside (r : Record) : List String :=
  Description.literal indent (.str r.description) ++ r.attributes.flatMap Attribute.layout
    ++ match r.paging with
      | some p => "" :: p.layout r.name
      | none => if r.attributes.isEmpty then [indent ++ "pass"] else []

/-- **The lines of a definition.** -/
def Definition.layout : Definition → List String
  | .record r => classHead r.name ++ r.inside
  | .synonym name description type =>
    (if description = "" then [] else ["# " ++ description]) ++ [name ++ " = " ++ indexed type.uses]

theorem Attribute.lines_eq_layout (a : Attribute) : a.lines = a.layout := by
  rw [lines, line_eq, layout]

theorem Record.lines_eq_layout (r : Record) : r.lines = classHead r.name ++ r.inside := by
  have hattributes : r.attributes.flatMap Attribute.lines
      = r.attributes.flatMap Attribute.layout :=
    List.flatMap_congr fun a _ => a.lines_eq_layout
  rw [lines, inside, hattributes]
  cases r.paging with
  | none => simp [classHead, classLine, decorator]
  | some p => simp [classHead, classLine, decorator, p.lines_eq_layout]

/-- **The text of a definition** is that of its lines. -/
theorem Definition.toList_render (d : Definition) : d.render.toList = textOf d.layout := by
  cases d with
  | record r =>
    rw [render, Record.render, r.lines_eq_layout, classHead, List.cons_append,
      toList_intercalate_feed]
    rfl
  | synonym name description type =>
    rw [render, layout, render_eq_indexed, textOf_append]
    split_ifs with h <;> simp [textOf]

/-! ## Modules -/

/-- **The lines of a module**: its header, and its definitions, each behind two
empty lines. -/
def moduleLayout (s : Service) (definitions : List Definition) : List String :=
  [warning,
    "\"\"\"" ++ String.ofList (Description.escape (.str (moduleDescription s))) ++ "\"\"\"", ""]
    ++ imports ++ ["", ""] ++ ["", ""].intercalate (definitions.map Definition.layout)

/-- **The text of a module** is that of its lines. -/
theorem toList_moduleText (s : Service) (definitions : List Definition) :
    (moduleText s definitions).toList = textOf (moduleLayout s definitions) := by
  have hdefinitions : ("\n\n".intercalate (definitions.map Definition.render)).toList
      = textOf (["", ""].intercalate (definitions.map Definition.layout)) := by
    rw [String.toList_intercalate, textOf_intercalate, List.map_map, List.map_map]
    congr 1
    exact List.map_congr_left fun d _ => d.toList_render
  have himports : ("\n".intercalate imports).toList ++ ['\n'] = textOf imports := by
    have hfeed : ("\n".intercalate imports ++ "\n").toList = textOf imports :=
      toList_intercalate_feed _ _
    rwa [String.toList_append] at hfeed
  rw [moduleText, String.toList_append, String.toList_append, toList_header, hdefinitions,
    moduleLayout, textOf_append, textOf_append, textOf_append, himports]
  simp [textOf, Literal.Quotes.text]

/-! ## Classes -/

/-- **The lines that open a class**: each stands right behind a decorator. -/
def classLines : List String → List String
  | s :: t :: ls => if s = decorator then t :: classLines (t :: ls) else classLines (t :: ls)
  | _ => []

/-- The line that a definition opens a class by, if it is a record. -/
def Definition.classLine? : Definition → Option String
  | .record r => some (classLine r.name)
  | .synonym _ _ _ => none

/-- **The comments of an attribute are comments**, each on a line of its own. -/
def Attribute.Commented (a : Attribute) : Prop :=
  ∀ c ∈ a.comments, ∃ text, c = indent ++ "# " ++ text

/-- So are those of all attributes of a definition. -/
def Definition.Commented : Definition → Prop
  | .record r => ∀ a ∈ r.attributes, a.Commented
  | .synonym _ _ _ => True

/-- A line that may stand inside a class: it is empty or indented. -/
def IsInner (l : String) : Prop := l = "" ∨ ∃ rest, l = indent ++ rest

theorem IsInner.ne_decorator (h : IsInner l) : l ≠ decorator := by
  rintro rfl
  rcases h with h | ⟨rest, h⟩
  · exact absurd h (by decide)
  · have hlist := congrArg String.toList h
    simp [decorator, indent] at hlist

/-- Whatever comes behind an indentation. -/
theorem isInner_indent (rest : String) : IsInner (indent ++ rest) := .inr ⟨rest, rfl⟩

/-- The lines of documentation. -/
theorem isInner_of_mem_literal {v : Json} (h : l ∈ Description.literal indent v) : IsInner l := by
  unfold Description.literal at h
  dsimp only at h
  split_ifs at h
  · nomatch h
  · split at h
    · nomatch h
    · next line _ =>
      rcases List.mem_pair.mp h with rfl | rfl
      · simpa [ToString.toString, String.append_assoc]
          using isInner_indent ("\"\"\"" ++ line ++ "\"\"\"")
      · exact .inl rfl
    · next line others _ _ =>
      simp only [List.mem_append, List.mem_cons, List.mem_map, List.not_mem_nil, or_false] at h
      rcases h with (rfl | ⟨k, -, rfl⟩) | rfl | rfl
      · simpa [ToString.toString, String.append_assoc] using isInner_indent ("\"\"\"" ++ line)
      · split_ifs
        · exact .inl rfl
        · exact isInner_indent k
      · exact isInner_indent _
      · exact .inl rfl

/-- **What stands inside a class** opens no other one. -/
theorem Record.isInner_of_mem_inside (h : (Definition.record r).Commented) (hl : l ∈ r.inside) :
    IsInner l := by
  rcases List.mem_append.mp hl with hl | hl
  · rcases List.mem_append.mp hl with hl | hl
    · exact isInner_of_mem_literal hl
    · obtain ⟨a, ha, hl⟩ := List.mem_flatMap.mp hl
      rcases List.mem_append.mp hl with hl | hl
      · obtain ⟨text, rfl⟩ := h a ha l hl
        simpa [String.append_assoc] using isInner_indent ("# " ++ text)
      · rw [List.mem_singleton.mp hl]
        simpa [String.append_assoc] using isInner_indent _
  · cases hp : r.paging with
    | none =>
      rw [hp] at hl
      rw [List.mem_singleton.mp (List.mem_ite_nil_right.mp hl).2]
      exact isInner_indent _
    | some p =>
      rw [hp] at hl
      simp only [PagingAccessor.layout, List.mem_cons, List.not_mem_nil, or_false] at hl
      rcases hl with rfl | rfl | rfl | rfl
      · exact .inl rfl
      · simpa [String.append_assoc] using isInner_indent _
      · simpa [String.append_assoc] using isInner_indent _
      · simpa [String.append_assoc] using isInner_indent _

/-- Lines without a decorator open no class. -/
theorem classLines_append (h : decorator ∉ ls) (ms : List String) :
    classLines (ls ++ ms) = classLines ms := by
  induction ls with
  | nil => rfl
  | cons s ls ih =>
    have hs : s ≠ decorator := fun hs => h (hs ▸ List.mem_cons_self)
    rw [← ih fun hmem => h (List.mem_cons_of_mem s hmem), List.cons_append]
    cases ls ++ ms with
    | nil => rfl
    | cons t rest => rw [classLines, if_neg hs]

/-- **A definition opens a class** if it is a record, and no other one. -/
theorem Definition.classLines_layout_append (h : d.Commented) (ls : List String) :
    classLines (d.layout ++ ls) = d.classLine?.toList ++ classLines ls := by
  cases d with
  | record r =>
    have hinside : decorator ∉ classLine r.name :: r.inside := by
      rw [List.mem_cons, not_or]
      refine ⟨fun heq => ?_, fun hmem => (r.isInner_of_mem_inside h hmem).ne_decorator rfl⟩
      have hlist := congrArg String.toList heq
      simp [decorator, classLine] at hlist
    have hrest := classLines_append hinside ls
    rw [layout, classHead, List.append_assoc, List.cons_append, List.cons_append,
      List.nil_append, classLines, if_pos rfl, ← List.cons_append, hrest]
    rfl
  | synonym name description type =>
    have hblank : ' ' ∉ decorator.toList := by decide
    refine classLines_append (fun hmem => hblank ?_) ls
    rcases List.mem_append.mp hmem with hmem | hmem
    · rw [List.mem_singleton.mp (List.mem_ite_nil_left.mp hmem).2]
      simp
    · rw [List.mem_singleton.mp hmem]
      simp

/-- **The classes of a module** are those of its records, in order. -/
theorem classLines_moduleLayout (s : Service) (h : ∀ d ∈ ds, d.Commented) :
    classLines (moduleLayout s ds) = ds.filterMap Definition.classLine? := by
  have hdocstring (text : String) : decorator ≠ "\"\"\"" ++ text ++ "\"\"\"" := by
    intro heq
    have hlist := congrArg String.toList heq
    simp [decorator] at hlist
  have hheader (text : String) : decorator ∉
      [warning, "\"\"\"" ++ text ++ "\"\"\"", ""] ++ imports ++ ["", ""] := by
    have hothers : decorator ∉ warning :: "" :: imports ++ ["", ""] := by decide
    simp only [List.mem_append, List.mem_cons, not_or] at hothers ⊢
    tauto
  rw [moduleLayout, classLines_append (hheader _)]
  induction ds with
  | nil => rfl
  | cons d ds ih =>
    obtain ⟨hd, hds⟩ := List.forall_mem_cons.mp h
    have hcons : (d :: ds).filterMap Definition.classLine?
        = d.classLine?.toList ++ ds.filterMap Definition.classLine? := by
      cases d <;> rfl
    cases ds with
    | nil =>
      have hlast := d.classLines_layout_append hd []
      rw [List.append_nil] at hlast
      rw [hcons, List.map_singleton, List.intercalate_singleton, hlast]
      rfl
    | cons e ds =>
      rw [hcons, ← ih hds, List.map_cons, List.map_cons, List.intercalate_cons_cons,
        List.append_assoc, d.classLines_layout_append hd, classLines_append (by decide)]

end Exemplar.Code
