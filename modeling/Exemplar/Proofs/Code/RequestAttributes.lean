import Exemplar.Proofs.Code.Requests

/-!
# The attributes of a request

The record of the requests of an action has one attribute for each parameter that
has nothing to do with paging. No two of them are called alike: otherwise there is
no record, and the problem tells two parameters that are (`Action.request_outcome`).

What attributes a program declares is seen from its lines (`declared?`), and so is
which of them have a default (`hasDefault`); a class is refused if one without a
default comes behind one that has it. The lines of a record are those of the
parameters, the required ones first, and whatever line of that form stands behind a
line break in the versions of a parameter (`request_attributes`).
-/

namespace Exemplar

namespace Action

variable {a : Action} {name : String} {owners : List Json} {before rest : List (String × Json)}

/-- **The parameters that a request has attributes for**, in the order of the
catalog: all but those of paging. -/
def ownParams (a : Action) : List Param := a.params.filter fun p => !p.isPaging

/-- The required ones are put in front of the others. -/
theorem requestParams_eq (a : Action) : a.requestParams
    = a.ownParams.filter (·.required.truthy) ++ a.ownParams.filter fun p => !p.required.truthy :=
  rfl

theorem requestParams_perm (a : Action) : a.requestParams.Perm a.ownParams :=
  List.filter_append_perm _ _

/-- **The description of an action can be told**: it is a text, or nothing is said. -/
def Described (a : Action) : Prop := a.description.truthy = true → ∃ s, a.description = .str s

/-! ## Names that stand twice -/

/-- **No name is shared** where all names are distinct, those before counted too. -/
theorem sharedName?_eq_none_iff (hbefore : (before.map Prod.fst).Nodup) :
    sharedName? before rest = none ↔ ((before ++ rest).map Prod.fst).Nodup := by
  induction rest generalizing before with
  | nil => simpa [sharedName?] using hbefore
  | cons x rest ih =>
    obtain ⟨name, owner⟩ := x
    rw [sharedName?]
    cases hfound : before.lookup name with
    | some other =>
      obtain ⟨front, back, rfl, -⟩ := List.lookup_eq_some_iff.mp hfound
      refine iff_of_false nofun fun h => ?_
      rw [List.map_append, List.nodup_append] at h
      exact h.2.2 name (by simp) name (by simp) rfl
    | none =>
      have hname : name ∉ before.map Prod.fst := by
        intro h
        obtain ⟨y, hy, rfl⟩ := List.mem_map.mp h
        simpa using List.lookup_eq_none_iff.mp hfound y hy
      have hnodup : ((before ++ [(name, owner)]).map Prod.fst).Nodup := by
        simpa using (List.nodup_append_comm.mp (List.nodup_cons.mpr ⟨hname, hbefore⟩ :
          ([name] ++ before.map Prod.fst).Nodup))
      dsimp only
      rw [ih hnodup, List.append_assoc, List.singleton_append]

/-- **What is told of a shared name**: two owners of it, in their order. -/
theorem sharedName?_eq_some (h : sharedName? before rest = some (name, owners)) :
    ∃ k k', owners = [k, k'] ∧ [(name, k), (name, k')].Sublist (before ++ rest) := by
  induction rest generalizing before with
  | nil => nomatch h
  | cons x rest ih =>
    obtain ⟨other, owner⟩ := x
    rw [sharedName?] at h
    split at h
    · next k hfound =>
      obtain ⟨rfl, rfl⟩ := Prod.mk.inj (Option.some.inj h)
      obtain ⟨front, back, rfl, -⟩ := List.lookup_eq_some_iff.mp hfound
      have hfirst : [(other, k)].Sublist (front ++ (other, k) :: back) := by simp
      have hsecond : [(other, owner)].Sublist ((other, owner) :: rest) := by simp
      exact ⟨k, owner, rfl, hfirst.append hsecond⟩
    · simpa using ih h

/-! ## What becomes of a request -/

/-- A description that can be told is told. -/
theorem exists_requestDescription_iff : (∃ s, a.requestDescription = .ok s) ↔ a.Described := by
  unfold requestDescription Described
  cases htruthy : a.description.truthy with
  | false => simp
  | true =>
    cases a.description <;> simp

/-- One that cannot be told is a breach. -/
theorem exists_breach_of_requestDescription {f : Fault} (h : a.requestDescription = .error f) :
    ∃ b, f = .breach b := by
  unfold requestDescription at h
  split at h
  · nomatch h
  · exact ⟨_, (Except.error.inj h).symm⟩

/-- The names of the parameters are distinct in whatever order they are. -/
theorem sharedName?_requestParams :
    sharedName? [] (a.requestParams.map fun p => (p.attributeName, p.key)) = none
      ↔ (a.ownParams.map Param.attributeName).Nodup := by
  rw [sharedName?_eq_none_iff (by simp), List.nil_append, List.map_map]
  exact (a.requestParams_perm.map _).nodup_iff

/-- **What becomes of a request.** It is a breach if the description of the action
cannot be told, and otherwise a problem if two of its parameters are called alike:
two of them that are, are told. There is a record in all other cases. -/
theorem request_outcome (a : Action) :
    (¬ a.Described ∧ ∃ b, a.request = .error (.breach b))
    ∨ (a.Described ∧ ¬ (a.ownParams.map Param.attributeName).Nodup
      ∧ ∃ p q, [p, q].Sublist a.requestParams ∧ p.attributeName = q.attributeName
        ∧ a.request
          = .error (.ofCause (.accessorConflict (.str p.attributeName) [p.key, q.key])))
    ∨ (a.Described ∧ (a.ownParams.map Param.attributeName).Nodup ∧ ∃ r, a.request = .ok r) := by
  unfold request
  cases hdescription : a.requestDescription with
  | error f =>
    obtain ⟨b, rfl⟩ := exists_breach_of_requestDescription hdescription
    refine .inl ⟨fun h => ?_, b, rfl⟩
    obtain ⟨s, hs⟩ := exists_requestDescription_iff.mpr h
    nomatch hs.symm.trans hdescription
  | ok s =>
    have hdescribed : a.Described := exists_requestDescription_iff.mp ⟨s, hdescription⟩
    simp only [bind, Except.bind]
    cases hshared : sharedName? [] (a.requestParams.map fun p => (p.attributeName, p.key)) with
    | none => exact .inr (.inr ⟨hdescribed, sharedName?_requestParams.mp hshared, _, rfl⟩)
    | some found =>
      obtain ⟨name, owners⟩ := found
      obtain ⟨k, k', rfl, hsub⟩ := sharedName?_eq_some hshared
      refine .inr (.inl ⟨hdescribed, fun h => ?_, ?_⟩)
      · nomatch hshared.symm.trans (sharedName?_requestParams.mpr h)
      · obtain ⟨two, htwo, hmap⟩ := List.sublist_map_iff.mp hsub
        obtain ⟨p, rest, rfl, hp, hrest⟩ := List.map_eq_cons_iff.mp hmap.symm
        obtain ⟨q, last, rfl, hq, hlast⟩ := List.map_eq_cons_iff.mp hrest
        obtain rfl := List.map_eq_nil_iff.mp hlast
        obtain ⟨rfl, rfl⟩ := Prod.mk.inj hp
        obtain ⟨hname, rfl⟩ := Prod.mk.inj hq
        exact ⟨p, q, htwo, hname.symm, rfl⟩

end Action

namespace Code

open Naming (isNameChar)

variable {a : Action} {p : Param} {l cs : List Char} {s k : String} {ls : List String} {r : Record}

/-! ## Lines that declare attributes -/

/-- **The attribute that a line declares**, if it declares one: behind the
indentation there is a name, and a colon behind that. -/
def declared? (l : List Char) : Option (List Char) :=
  (Text.dropStart? indent.toList l).bind fun declaration =>
    if declaration.takeWhile isNameChar ≠ [] ∧ (declaration.dropWhile isNameChar).head? = some ':'
    then some (declaration.takeWhile isNameChar) else none

/-- The lines of a program that declare attributes. -/
def attributeLines (code : List Char) : List (List Char) :=
  (sourceLines code).filter fun l => (declared? l).isSome

/-- A value is a default unless it is a specification that starts with none. -/
def isDefault (value : List Char) : Bool :=
  match Text.dropStart? "dataclasses.field(".toList value with
  | some parts => "default".toList.isPrefixOf parts
  | none => true

/-- **An attribute has a default**: there is one behind the equals sign. -/
def hasDefault (l : List Char) : Bool :=
  (Text.dropStart? "= ".toList (l.dropWhile (· ≠ '='))).any isDefault

theorem declared?_indent (cs : List Char) : declared? (indent.toList ++ cs) =
    if cs.takeWhile isNameChar ≠ [] ∧ (cs.dropWhile isNameChar).head? = some ':'
    then some (cs.takeWhile isNameChar) else none := by
  rw [declared?, Text.dropStart?_eq_some_iff.mpr rfl, Option.bind_some]

/-- A comment declares nothing. -/
theorem declared?_comment (cs : List Char) : declared? (indent.toList ++ '#' :: cs) = none := by
  rw [declared?_indent, List.takeWhile_cons_of_neg (by decide)]
  simp

/-- The line of a parameter. -/
def lineOf (p : Param) : List Char := p.toAttribute.line.toList

/-- **The line of a parameter** declares the attribute of this name. -/
theorem declared?_line (p : Param) : declared? (lineOf p)
    = some p.attributeName.toList := by
  obtain ⟨rest, hline⟩ := exists_line_eq p.toAttribute
  have hname : p.toAttribute.name.toList = Naming.snake (Naming.toCamel p.key.display).toList :=
    String.toList_ofList
  have hchars : ∀ c ∈ p.toAttribute.name.toList, isNameChar c = true :=
    fun c hc => Naming.isNameChar_of_mem_snake (hname ▸ hc)
  rw [lineOf, hline, declared?_indent, List.takeWhile_append_of_pos hchars,
    List.dropWhile_append_of_pos hchars, List.takeWhile_cons_of_neg (by decide),
    List.dropWhile_cons_of_neg (by decide), List.append_nil,
    if_pos ⟨hname ▸ Naming.snake_ne_nil _, rfl⟩]
  rfl

/-- There is no equals sign in what a parameter is declared as. -/
theorem hasDefault_declared (p : Param) (cs : List Char) :
    hasDefault ((indent ++ p.toAttribute.name ++ ": " ++ p.toAttribute.type.render).toList ++ cs)
      = hasDefault cs := by
  have hname : p.toAttribute.name.toList = Naming.snake (Naming.toCamel p.key.display).toList :=
    String.toList_ofList
  have hequals :
      '=' ∉ (indent ++ p.toAttribute.name ++ ": " ++ p.toAttribute.type.render).toList := by
    have hname' : '=' ∉ p.toAttribute.name.toList := fun h =>
      absurd (Naming.isNameChar_of_mem_snake (hname ▸ h)) (by decide)
    have htype : '=' ∉ p.toAttribute.type.render.toList := by
      cases hr : p.required.truthy <;> simp [Param.toAttribute, hr, TypeExpr.render]
    simp only [String.toList_append, List.mem_append, not_or]
    exact ⟨⟨⟨by decide, hname'⟩, by decide⟩, htype⟩
  rw [hasDefault, List.dropWhile_append_of_pos, hasDefault]
  intro c hc
  exact decide_eq_true fun h => hequals (h ▸ hc)

theorem hasDefault_equals (value : List Char) :
    hasDefault (" = ".toList ++ value) = isDefault value := by
  simp [hasDefault, Text.dropStart?]

theorem toList_append_append (s t u : String) :
    (s ++ t ++ u).toList = s.toList ++ (t ++ u).toList := by
  rw [String.append_assoc, String.toList_append]

/-- A specification is a default if it starts with one. -/
theorem isDefault_specification (parts : List String) :
    isDefault (Attribute.specification parts).toList
      = "default".toList.isPrefixOf (", ".intercalate parts ++ ")").toList := by
  have hstart : Text.dropStart? "dataclasses.field(".toList (Attribute.specification parts).toList
      = some (", ".intercalate parts ++ ")").toList :=
    Text.dropStart?_eq_some_iff.mpr (toList_append_append _ _ _)
  rw [isDefault, hstart]

/-- **A parameter that may be left out** has a default, and no other has. -/
theorem hasDefault_line (p : Param) :
    hasDefault (lineOf p) = !p.required.truthy := by
  have hinitial : p.toAttribute.initial = if p.required.truthy then none else some .none := rfl
  have hmetadata : ∀ m, p.toAttribute.metadata = some m →
      m = "metadata=\x7b\"json\": " ++ p.toAttribute.key.write ++ "\x7d" := by
    intro m hm
    exact (Option.some.inj (Option.ite_none_left_eq_some.mp hm).2).symm
  have hvalue : ∀ v, p.toAttribute.value? = some v → isDefault v.toList = !p.required.truthy := by
    intro v hv
    rw [Attribute.value?, hinitial] at hv
    cases hr : p.required.truthy with
    | true =>
      rw [hr] at hv
      obtain ⟨m, hm, rfl⟩ := Option.map_eq_some_iff.mp hv
      rw [isDefault_specification, hmetadata m hm]
      simp [List.isPrefixOf]
    | false =>
      rw [hr] at hv
      cases hm : p.toAttribute.metadata with
      | none =>
        rw [hm] at hv
        obtain rfl : "None" = v := Option.some.inj hv
        decide
      | some m =>
        rw [hm] at hv
        obtain rfl : Attribute.specification ["default=None", m] = v := Option.some.inj hv
        rw [isDefault_specification]
        simp
  rw [lineOf, Attribute.line]
  cases hv : p.toAttribute.value? with
  | none =>
    have hrequired : p.required.truthy = true := by
      by_contra hr
      rw [Attribute.value?, hinitial, if_neg hr] at hv
      cases hm : p.toAttribute.metadata <;> simp [hm, Initial.factory?] at hv
    have hnone := hasDefault_declared p []
    rw [List.append_nil] at hnone
    rw [hrequired]
    exact hnone
  | some v =>
    dsimp only
    rw [String.append_assoc, String.toList_append, hasDefault_declared, String.toList_append,
      hasDefault_equals, hvalue v hv]

/-! ## The lines of a record -/

/-- **The attribute lines of the text of some lines** are those of each. -/
theorem attributeLines_textOf (ls : List String) :
    attributeLines (textOf ls) = ls.flatMap fun s => attributeLines s.toList := by
  have hnil : (declared? []).isSome = false := rfl
  induction ls with
  | nil => rfl
  | cons s ls ih =>
    obtain ⟨first, hfirst, -, happend⟩ := sourceLines_append_feed s.toList (textOf ls)
    have hs : attributeLines s.toList = first.filter fun l => (declared? l).isSome := by
      rcases hfirst with hfirst | hfirst
      · rw [attributeLines, hfirst]
      · rw [attributeLines, hfirst, List.filter_append, List.filter_singleton, hnil,
          Bool.cond_false, List.append_nil]
    rw [textOf_cons, List.flatMap_cons, ← ih, hs, attributeLines, happend, List.filter_append,
      attributeLines]

/-- A text on one line is an attribute line, or it has none. -/
theorem OneLine.attributeLines_eq (h : OneLine cs) :
    attributeLines cs = if (declared? cs).isSome then [cs] else [] := by
  rw [attributeLines, h.sourceLines_eq]
  cases hd : (declared? cs).isSome <;> simp [hd]

/-- **The lines that go astray**: those that stand behind a line break in the versions
of a parameter and declare an attribute. -/
def strayLines (p : Param) : List (List Char) :=
  (sourceLines p.versionNote.toList).tail.filter fun l => (declared? l).isSome

/-- Versions on one line have none. -/
theorem strayLines_eq_nil (h : OneLine p.since.display.toList
    ∧ OneLine p.deprecatedSince.display.toList) : strayLines p = [] := by
  rw [strayLines, (oneLine_versionNote h.1 h.2).sourceLines_eq, List.tail_cons, List.filter_nil]

/-- **The comments on a parameter** have no other attribute lines. -/
theorem flatMap_attributeLines_comments (p : Param) :
    (p.comments.flatMap fun s => attributeLines s.toList) = strayLines p := by
  have hdescription : ((Description.comment p.description indent).flatMap fun s =>
      attributeLines s.toList) = [] := by
    refine List.flatMap_eq_nil_iff.mpr fun s hs => ?_
    obtain ⟨cs, hcs, htext⟩ := exists_of_mem_comment hs
    have hline : OneLine (indent.toList ++ '#' :: cs) := by
      have hmark : OneLine (indent.toList ++ ['#']) := ⟨by decide, by decide⟩
      simpa using hmark.append hcs
    rw [htext, hline.attributeLines_eq, declared?_comment]
    rfl
  rw [Param.comments, List.flatMap_append, hdescription, List.append_nil]
  by_cases hhistory : p.history = []
  · rw [hhistory, strayLines, Param.versionNote, hhistory]
    rfl
  · obtain ⟨l, hlines⟩ := sourceLines_versionComment p
    have hcomment : attributeLines (indent ++ "# " ++ p.versionNote).toList = strayLines p := by
      rw [attributeLines, hlines, List.filter_cons_of_neg (by rw [declared?_comment]; decide),
        strayLines]
    rw [if_neg (by simpa using hhistory), List.flatMap_singleton]
    exact hcomment

/-- **The body of a record for requests** has the line of each parameter in its order,
and in front of it those that go astray. -/
theorem flatMap_attributeLines_bodyLines
    (h : r.attributes = a.requestParams.map Param.toAttribute)
    (hkeys : ∀ p ∈ a.requestParams, ∃ k, p.key = .str k) :
    (r.bodyLines.flatMap fun s => attributeLines s.toList)
      = a.requestParams.flatMap fun p => strayLines p ++ [lineOf p] := by
  have hpass : ((if r.attributes.isEmpty then [indent ++ "pass"] else []).flatMap fun s =>
      attributeLines s.toList) = [] := by
    split
    · decide
    · rfl
  have hline : ∀ p ∈ a.requestParams,
      attributeLines (lineOf p) = [lineOf p] := by
    intro p hp
    obtain ⟨k, hk⟩ := hkeys p hp
    rw [lineOf, (oneLine_line hk).attributeLines_eq, ← lineOf, declared?_line]
    rfl
  rw [Record.bodyLines, List.flatMap_append, hpass, List.append_nil, h, List.flatMap_map,
    List.flatMap_assoc]
  refine List.flatMap_congr fun p hp => ?_
  rw [Attribute.lines, List.flatMap_append, List.flatMap_singleton, ← lineOf, hline p hp]
  exact congrArg (· ++ [_]) (flatMap_attributeLines_comments p)

/-- **The attribute lines of a record for requests**, without its documentation. -/
theorem attributeLines_outside (hattributes : r.attributes = a.requestParams.map Param.toAttribute)
    (hkeys : ∀ p ∈ a.requestParams, ∃ k, p.key = .str k) :
    attributeLines (textOf (classHead a.requestName ++ (gap (.str r.description) ++ r.bodyLines)))
      = a.requestParams.flatMap fun p => strayLines p ++ [lineOf p] := by
  have hhead : ((classHead a.requestName).flatMap fun s => attributeLines s.toList) = [] := by
    have hclass : attributeLines (classLine a.requestName).toList = [] := by
      rw [(oneLine_classLine a).attributeLines_eq, classLine, String.append_assoc,
        String.toList_append]
      rfl
    rw [classHead, List.flatMap_cons, List.flatMap_singleton, hclass]
    decide
  have hgap : ((gap (.str r.description)).flatMap fun s => attributeLines s.toList) = [] := by
    unfold gap
    split <;> rfl
  rw [attributeLines_textOf, List.flatMap_append, List.flatMap_append, hhead, hgap,
    flatMap_attributeLines_bodyLines hattributes hkeys]
  rfl

/-! ## Requests as a whole -/

/-- **No line without a default comes behind one with a default**, as the required
parameters come first. -/
theorem pairwise_hasDefault (a : Action) :
    (a.requestParams.map lineOf).Pairwise fun l l' =>
      hasDefault l = true → hasDefault l' = true := by
  rw [List.pairwise_map, Action.requestParams_eq, List.pairwise_append]
  have hrequired : ∀ p ∈ a.ownParams.filter (·.required.truthy),
      hasDefault (lineOf p) = false := by
    intro p hp
    rw [hasDefault_line, (List.mem_filter.mp hp).2, Bool.not_true]
  have hoptional : ∀ p ∈ a.ownParams.filter fun p => !p.required.truthy,
      hasDefault (lineOf p) = true := by
    intro p hp
    rw [hasDefault_line, (List.mem_filter.mp hp).2]
  refine ⟨List.pairwise_of_forall_mem_list fun p hp _ _ h => ?_,
    List.pairwise_of_forall_mem_list fun _ _ q hq _ => hoptional q hq,
    fun _ _ q hq _ => hoptional q hq⟩
  nomatch (hrequired p hp).symm.trans h

/-- Where values are distinct, one element has each. -/
theorem filter_eq_singleton {α β : Type} [DecidableEq β] {f : α → β} {xs : List α} {x : α}
    (hnodup : (xs.map f).Nodup) (hx : x ∈ xs) : xs.filter (fun y => f y = f x) = [x] := by
  induction xs with
  | nil => nomatch hx
  | cons y ys ih =>
    obtain ⟨hy, hnodup⟩ := List.nodup_cons.mp hnodup
    rcases List.mem_cons.mp hx with rfl | hx
    · have hys : ys.filter (fun z => f z = f x) = [] := List.filter_eq_nil_iff.mpr fun z hz h =>
        hy (of_decide_eq_true h ▸ List.mem_map_of_mem hz)
      rw [List.filter_cons_of_pos (by simp), hys]
    · have hne : f y ≠ f x := fun h => hy (h ▸ List.mem_map_of_mem hx)
      rw [List.filter_cons_of_neg (by simpa using hne), ih hnodup hx]

/-- **Each parameter has one line**, where no two are called alike. -/
theorem filter_declared?_eq (hnodup : (a.ownParams.map Param.attributeName).Nodup)
    (hp : p ∈ a.ownParams) : (a.requestParams.map lineOf).filter
        (fun l => declared? l = some p.attributeName.toList) = [lineOf p] := by
  have hmem : p ∈ a.requestParams := a.requestParams_perm.mem_iff.mpr hp
  have hnodup : (a.requestParams.map Param.attributeName).Nodup :=
    (a.requestParams_perm.map _).nodup_iff.mpr hnodup
  have hnames : ∀ q ∈ a.requestParams,
      ((fun l => decide (declared? l = some p.attributeName.toList)) ∘ lineOf) q
        = decide (q.attributeName = p.attributeName) := by
    intro q _
    simp [declared?_line, String.toList_inj]
  rw [List.filter_map, List.filter_congr hnames, filter_eq_singleton hnodup hmem,
    List.map_singleton]

/-- **The attributes of a request.** Where the parameter keys are texts, there is no
record exactly if the description of the action is truthy and no text, which is a
breach, or else two parameters that have nothing to do with paging are called alike,
and two that are, are told.

Otherwise the lines that declare attributes outside the documentation are those of the
parameters, and those that go astray behind line breaks in versions. So where no
version holds a line break, they are the lines of the required parameters and then
those of the others, each group in the order of the catalog; each parameter has exactly
one line that declares its name; and no line without a default comes behind one with a
default. -/
theorem request_attributes (a : Action) (hkeys : ∀ p ∈ a.params, ∃ k, p.key = .str k) :
    ((∃ b, a.request = .error (.breach b)) ↔ ¬ a.Described)
    ∧ ((∃ p q, [p, q].Sublist a.requestParams ∧ p.attributeName = q.attributeName
        ∧ a.request = .error (.ofCause (.accessorConflict (.str p.attributeName) [p.key, q.key])))
      ↔ a.Described ∧ ¬ (a.ownParams.map Param.attributeName).Nodup)
    ∧ ((∃ r, a.request = .ok r) ↔ a.Described ∧ (a.ownParams.map Param.attributeName).Nodup)
    ∧ ∀ r, a.request = .ok r → ∃ code, outside? a.requestName r.render.toList = some code
      ∧ attributeLines code
        = a.requestParams.flatMap (fun p => strayLines p ++ [lineOf p])
      ∧ ((∀ p ∈ a.ownParams, OneLine p.since.display.toList
          ∧ OneLine p.deprecatedSince.display.toList) →
        attributeLines code
            = (a.ownParams.filter (·.required.truthy)).map lineOf
              ++ (a.ownParams.filter fun p => !p.required.truthy).map lineOf
          ∧ (∀ p ∈ a.ownParams, (attributeLines code).filter
              (fun l => declared? l = some p.attributeName.toList) = [lineOf p])
          ∧ (attributeLines code).Pairwise fun l l' =>
              hasDefault l = true → hasDefault l' = true) := by
  have hok : (∃ r, a.request = .ok r)
      ↔ a.Described ∧ (a.ownParams.map Param.attributeName).Nodup := by
    rcases Action.request_outcome a with ⟨hd, b, hb⟩ | ⟨hd, hn, p, q, -, -, hpq⟩ | ⟨hd, hn, r, hr⟩
    · exact iff_of_false (fun ⟨r, hr⟩ => nomatch hb.symm.trans hr) fun h => hd h.1
    · exact iff_of_false (fun ⟨r, hr⟩ => nomatch hpq.symm.trans hr) fun h => hn h.2
    · exact iff_of_true ⟨r, hr⟩ ⟨hd, hn⟩
  refine ⟨?_, ?_, hok, fun r hr => ?_⟩
  · rcases Action.request_outcome a with ⟨hd, b, hb⟩ | ⟨hd, -, p, q, -, -, hpq⟩ | ⟨hd, -, r, hr⟩
    · exact iff_of_true ⟨b, hb⟩ hd
    · exact iff_of_false (fun ⟨b, hb⟩ => nomatch hpq.symm.trans hb) (not_not_intro hd)
    · exact iff_of_false (fun ⟨b, hb⟩ => nomatch hr.symm.trans hb) (not_not_intro hd)
  · rcases Action.request_outcome a with ⟨hd, b, hb⟩ | ⟨hd, hn, h⟩ | ⟨hd, hn, r, hr⟩
    · exact iff_of_false (fun ⟨_, _, _, _, h⟩ => nomatch hb.symm.trans h) fun h => hd h.1
    · exact iff_of_true h ⟨hd, hn⟩
    · exact iff_of_false (fun ⟨_, _, _, _, h⟩ => nomatch hr.symm.trans h) fun h => h.2 hn
  · obtain ⟨hname, hattributes, hpaging⟩ : r.name = a.requestName
        ∧ r.attributes = a.requestParams.map Param.toAttribute ∧ r.paging = none := by
      obtain ⟨description, rfl⟩ := exists_request_eq hr
      exact ⟨rfl, rfl, rfl⟩
    have hown : ∀ p ∈ a.requestParams, p ∈ a.ownParams :=
      fun p hp => a.requestParams_perm.mem_iff.mp hp
    have hlines := attributeLines_outside hattributes fun p hp =>
      hkeys p (List.mem_filter.mp (hown p hp)).1
    have houtside := Record.outside?_render hpaging (exists_of_mem_bodyLines hattributes)
    rw [hname] at houtside
    refine ⟨_, houtside, hlines, fun hversions => ?_⟩
    have hstray : a.requestParams.flatMap (fun p => strayLines p ++ [lineOf p])
        = a.requestParams.map lineOf := by
      rw [List.map_eq_flatMap]
      refine List.flatMap_congr fun p hp => ?_
      rw [strayLines_eq_nil (hversions p (hown p hp)), List.nil_append]
    rw [hlines, hstray]
    refine ⟨?_, fun p hp => filter_declared?_eq (hok.mp ⟨r, hr⟩).2 hp, pairwise_hasDefault a⟩
    rw [Action.requestParams_eq, List.map_append]

/-- A request with a parameter of paging, one that may be left out, and one that must be
given. -/
theorem request_attributes_show :
    let a : Action := {
      key := .str "show"
      params := [{ key := .str "ps" }, { key := .str "pageSize" },
        { key := .str "q", required := .bool true, since := .str "6.4" }] }
    (∀ p ∈ a.params, ∃ k, p.key = .str k)
      ∧ ∃ r code, a.request = .ok r ∧ outside? a.requestName r.render.toList = some code
        ∧ attributeLines code = ["    q: str".toList,
          ("    page_size: Optional[str] = dataclasses.field(default=None, "
            ++ "metadata=\x7b\"json\": \"pageSize\"\x7d)").toList] := by
  intro a
  have hkeys : ∀ p ∈ a.params, ∃ k, p.key = .str k := by simp [a]
  obtain ⟨-, -, -, hlines⟩ := request_attributes a hkeys
  obtain ⟨code, hcode, -, hversions⟩ := hlines _ rfl
  have hone : ∀ p ∈ a.ownParams, OneLine p.since.display.toList
      ∧ OneLine p.deprecatedSince.display.toList := by
    have hown : a.ownParams = a.params.tail := by decide
    rw [hown]
    refine List.forall_mem_cons.mpr ⟨⟨⟨by decide, by decide⟩, ⟨by decide, by decide⟩⟩,
      List.forall_mem_singleton.mpr ⟨⟨by decide, by decide⟩, ⟨by decide, by decide⟩⟩⟩
  refine ⟨hkeys, _, code, rfl, hcode, (hversions hone).1.trans ?_⟩
  decide +kernel

/-- **A version that becomes an attribute**: the line behind the break in it declares
an attribute without a default behind one that has a default, and there are three
attributes for two parameters. And where the description is a number, two parameters
that are called alike are not told. -/
theorem request_attributes_version :
    let a : Action := {
      key := .str "show"
      params := [{ key := .str "a" }, { key := .str "id", since := .str "1\n    q: str" }] }
    let code := "@dataclass\nclass ShowRequest:\n\n\n" ++ "    a: Optional[str] = None\n"
      ++ "    # Since 1\n    q: str\n    id: Optional[str] = None\n"
    let lines := ["    a: Optional[str] = None".toList, "    q: str".toList,
      "    id: Optional[str] = None".toList]
    let b : Action := {
      key := .str "show"
      description := .int 5
      params := [{ key := .str "id" }, { key := .str "id" }] }
    (∃ r, a.request = .ok r ∧ outside? a.requestName r.render.toList = some code.toList)
      ∧ attributeLines code.toList = lines
      ∧ (¬ lines.Pairwise fun l l' => hasDefault l = true → hasDefault l' = true)
      ∧ lines.length ≠ a.ownParams.length
      ∧ ¬ (b.ownParams.map Param.attributeName).Nodup
      ∧ b.request = .error (.breach
        (.wrongType "sequence item 0: expected str instance, int found")) := by
  intro a code lines b
  exact ⟨⟨_, rfl, by decide +kernel⟩, by decide +kernel, by decide +kernel, by decide,
    by decide +kernel, by decide +kernel⟩

end Code

end Exemplar
