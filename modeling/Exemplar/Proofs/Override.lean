import Exemplar.Override.Registry
import Exemplar.Proofs.Run

/-!
# Files of override rules

A file of rules may be bad in ways that are foreseen – it is not there, its text
breaks the grammar of documents, the document is no list, a rule says too little
or asks for what there is not – and these are told as a flaw of the rules. Other
contents are not foreseen (`Unforeseen`), and with them loading the rules ends in
a breach: bytes that are no text, a number with too many digits, nesting that is
too deep, an item that is no object, an address that holds an array or an object,
or addresses that do not compare.

What an item comes to does not depend on the items around it
(`readRule_eq_ok_iff`, `readRule_eq_error`), the first item that is no rule decides
what a list comes to (`ofJsons_eq_error_iff`), and rules that were listed are
accepted again (`outcome_load_of_holds`). So the three ways in which loading ends
are told apart by the content alone (`load_outcome`).
-/

namespace Exemplar

/-! ## Rules -/

/-- No kind is meant by an empty text. -/
theorem Kind.ofToken?_empty : Kind.ofToken? (.str "") = none := by decide

/-- **A rule that forces a kind names one**, if nothing is wrong with it. -/
theorem OverrideRule.exists_forcedKind {r : OverrideRule} (h : r.flaw? = none)
    (hkind : r.kind = .forceType) : ∃ kind, Kind.ofToken? r.value = some kind := by
  unfold flaw? at h
  split at h
  · nomatch h
  split at h
  · nomatch h
  next hforced =>
    have htoken : (Kind.ofToken? r.token).isSome = true := by
      simpa [hkind, Option.isSome_iff_ne_none] using hforced
    unfold token at htoken
    split at htoken
    · exact Option.isSome_iff_exists.mp htoken
    · simp [Kind.ofToken?_empty] at htoken

end Exemplar

namespace Exemplar.OverrideRegistry

/-! ## Items -/

/-- The rule of an item, if it can be indexed. -/
def readRule (item : Json) : Except Fault OverrideRule := do
  checkAddress (← OverrideRule.ofJson item)

/-- **An item that is a rule**: a good one, no part of whose address is an array
or an object. -/
structure Usable (item : Json) (r : OverrideRule) : Prop where
  made : OverrideRule.ofJson item = .ok r
  flat : ∀ part ∈ [r.endpoint, r.action, r.path], part.isContainer = false

/-- **An item that breaks off reading**: no object, or a good rule whose address
holds an array or an object. -/
inductive Unusable : Json → Prop
  | shapeless {item : Json} : (∀ members, item ≠ .obj members) → Unusable item
  | nested {item part : Json} {r : OverrideRule} : OverrideRule.ofJson item = .ok r →
      part ∈ [r.endpoint, r.action, r.path] → part.isContainer = true → Unusable item

/-- A rule is made as it is, or its flaw is told. -/
theorem make_eq (r : OverrideRule) :
    OverrideRule.make r = .ok r
      ∨ ∃ flaw, OverrideRule.make r = .error (.ofCause (.override flaw)) := by
  unfold OverrideRule.make
  cases r.flaw? with
  | none => exact .inl rfl
  | some flaw => exact .inr ⟨flaw, rfl⟩

/-- **An item gives a rule**, has a flaw, or is no object. -/
theorem ofJson_cases (item : Json) :
    (∃ r, OverrideRule.ofJson item = .ok r)
      ∨ (∃ flaw, OverrideRule.ofJson item = .error (.ofCause (.override flaw)))
      ∨ (∀ members, item ≠ .obj members) ∧ ∃ b, OverrideRule.ofJson item = .error (.breach b) := by
  cases item with
  | obj members =>
    show (∃ r, OverrideRule.ofJson (.obj members) = .ok r) ∨ _
    unfold OverrideRule.ofJson
    dsimp only
    cases Json.find? "kind" members with
    | none => exact .inr (.inl ⟨_, rfl⟩)
    | some v =>
      dsimp only
      cases OverrideKind.ofJson? v with
      | none => exact .inr (.inl ⟨_, rfl⟩)
      | some kind =>
        rcases make_eq _ with h | ⟨flaw, h⟩
        · exact .inl ⟨_, h⟩
        · exact .inr (.inl ⟨flaw, h⟩)
  | _ => exact .inr (.inr ⟨fun members => nofun, _, rfl⟩)

/-- The address of a rule can be indexed if no part of it is an array or an
object. -/
theorem unusable?_eq_none_iff {r : OverrideRule} :
    unusable? r = none ↔ ∀ part ∈ [r.endpoint, r.action, r.path], part.isContainer = false := by
  simp only [unusable?, List.find?_eq_none, Bool.not_eq_true]

/-- A rule is indexed as it is. -/
theorem checkAddress_eq_ok_iff {r r' : OverrideRule} :
    checkAddress r = .ok r' ↔
      r = r' ∧ ∀ part ∈ [r.endpoint, r.action, r.path], part.isContainer = false := by
  rw [← unusable?_eq_none_iff, checkAddress]
  cases unusable? r <;> simp

/-- An address that is refused is refused with a breach. -/
theorem checkAddress_eq_error {r : OverrideRule} {f : Fault} (h : checkAddress r = .error f) :
    ∃ part ∈ [r.endpoint, r.action, r.path], part.isContainer = true
      ∧ f = .breach (.unhashable part) := by
  unfold checkAddress at h
  cases hpart : unusable? r with
  | none =>
    rw [hpart] at h
    nomatch h
  | some part =>
    rw [hpart] at h
    exact ⟨part, List.mem_of_find?_eq_some hpart, List.find?_some hpart,
      (Except.error.inj h).symm⟩

/-- **An item gives a rule** exactly when it is usable. -/
theorem readRule_eq_ok_iff {item : Json} {r : OverrideRule} :
    readRule item = .ok r ↔ Usable item r := by
  unfold readRule
  cases hmade : OverrideRule.ofJson item with
  | error f =>
    constructor
    · intro h
      nomatch h
    · intro h
      nomatch hmade.symm.trans h.made
  | ok r' =>
    show checkAddress r' = .ok r ↔ Usable item r
    rw [checkAddress_eq_ok_iff]
    constructor
    · rintro ⟨rfl, hflat⟩
      exact ⟨hmade, hflat⟩
    · intro h
      obtain rfl : r' = r := Except.ok.inj (hmade.symm.trans h.made)
      exact ⟨rfl, h.flat⟩

/-- **An item that gives no rule** has a flaw, unless it breaks off reading. -/
theorem readRule_eq_error {item : Json} {f : Fault} (h : readRule item = .error f) :
    (∃ b, f = .breach b) ∧ Unusable item
      ∨ (∃ flaw, f = .ofCause (.override flaw)) ∧ ¬ Unusable item := by
  unfold readRule at h
  rcases ofJson_cases item with ⟨r, hr⟩ | ⟨flaw, hflaw⟩ | ⟨hno, b, hb⟩
  · rw [hr] at h
    obtain ⟨part, hmem, hcontainer, hf⟩ := checkAddress_eq_error h
    exact .inl ⟨⟨_, hf⟩, .nested hr hmem hcontainer⟩
  · rw [hflaw] at h
    refine .inr ⟨⟨flaw, (Except.error.inj h).symm⟩, fun hun => ?_⟩
    cases hun with
    | shapeless hno =>
      cases item with
      | obj members => exact hno members rfl
      | _ => nomatch Except.error.inj hflaw
    | nested hmade _ _ => nomatch hflaw.symm.trans hmade
  · rw [hb] at h
    exact .inl ⟨⟨b, (Except.error.inj h).symm⟩, .shapeless hno⟩

/-- What breaks off reading is no rule. -/
theorem Unusable.exists_error {item : Json} (h : Unusable item) :
    ∃ f, readRule item = .error f := by
  cases hr : readRule item with
  | error f => exact ⟨f, rfl⟩
  | ok r =>
    have hu := readRule_eq_ok_iff.mp hr
    cases h with
    | shapeless hno =>
      cases item with
      | obj members => exact absurd rfl (hno members)
      | _ => nomatch hu.made
    | nested hmade hmem hcontainer =>
      obtain rfl := Except.ok.inj (hmade.symm.trans hu.made)
      rw [hu.flat _ hmem] at hcontainer
      nomatch hcontainer

/-! ## Lists of items -/

/-- **A list of rules**: each item is one. -/
theorem ofJsons_eq_ok_iff {items : List Json} {g : OverrideRegistry} :
    ofJsons items = .ok g ↔ List.Forall₂ Usable items g.given := by
  have hitems : items.mapM readRule = .ok g.given ↔ List.Forall₂ Usable items g.given := by
    simp only [mapM_eq_ok_iff, readRule_eq_ok_iff]
  rw [← hitems]
  constructor
  · intro h
    obtain ⟨given, hgiven, hg⟩ := result_bind_eq_ok_iff.mp h
    obtain rfl := Except.ok.inj hg
    exact hgiven
  · intro h
    exact result_bind_eq_ok_iff.mpr ⟨g.given, h, rfl⟩

/-- A list that is no list of rules is none by its first item that is no rule. -/
theorem ofJsons_eq_error_iff {items : List Json} {f : Fault} :
    ofJsons items = .error f ↔ ∃ before item behind, items = before ++ item :: behind
      ∧ (∀ x ∈ before, ∃ r, Usable x r) ∧ readRule item = .error f := by
  simp only [← readRule_eq_ok_iff]
  rw [← mapM_eq_error_iff]
  constructor
  · intro h
    rcases result_bind_eq_error_iff.mp h with h | ⟨_, _, h⟩
    · exact h
    · nomatch h
  · intro h
    exact result_bind_eq_error_iff.mpr (.inl h)

/-- Rules whose addresses can be indexed are a registry. -/
theorem ofRules_eq_ok {rules : List OverrideRule}
    (h : ∀ r ∈ rules, ∀ part ∈ [r.endpoint, r.action, r.path], part.isContainer = false) :
    ofRules rules = .ok ⟨rules⟩ := by
  refine result_bind_eq_ok_iff.mpr ⟨rules, mapM_eq_ok_iff.mpr ?_, rfl⟩
  exact List.forall₂_same.mpr fun r hr => checkAddress_eq_ok_iff.mpr ⟨rfl, h r hr⟩

/-! ## Listing -/

/-- Sorting that fails does so with a breach. -/
theorem exists_breach_of_mapError {α : Type} {x : Except Breach α} {f : Fault}
    (h : x.mapError Fault.breach = .error f) : ∃ b, f = .breach b := by
  cases x with
  | error b => exact ⟨b, (Except.error.inj h).symm⟩
  | ok a => nomatch h

/-- **Listing fails with a breach only**, and never if all addresses compare. -/
theorem rules_eq_error {g : OverrideRegistry} {f : Fault} (h : g.rules = .error f) :
    isOrdered g.given = false ∧ ∃ b, f = .breach b := by
  unfold rules at h
  cases hordered : isOrdered g.given with
  | true =>
    rw [hordered] at h
    nomatch h
  | false =>
    rw [hordered, if_neg Bool.false_ne_true] at h
    refine ⟨rfl, ?_⟩
    rcases result_bind_eq_error_iff.mp h with h | ⟨scopes, -, h⟩
    · exact exists_breach_of_mapError h
    rcases result_bind_eq_error_iff.mp h with h | ⟨_, _, h⟩
    · obtain ⟨_, _, _, _, _, h⟩ := mapM_eq_error_iff.mp h
      rcases result_bind_eq_error_iff.mp h with h | ⟨_, _, h⟩
      · exact exists_breach_of_mapError h
      · nomatch h
    · nomatch h

/-- **What is listed was given.** -/
theorem mem_given_of_mem_rules {g : OverrideRegistry} {rules : List OverrideRule}
    (h : g.rules = .ok rules) {r : OverrideRule} (hr : r ∈ rules) : r ∈ g.given := by
  unfold OverrideRegistry.rules at h
  split at h
  · obtain rfl := Except.ok.inj h
    exact List.mem_mergeSort.mp hr
  · obtain ⟨scopes, -, h⟩ := result_bind_eq_ok_iff.mp h
    obtain ⟨groups, hgroups, h⟩ := result_bind_eq_ok_iff.mp h
    obtain rfl := Except.ok.inj h
    obtain ⟨group, hgroup, hr⟩ := List.mem_flatten.mp hr
    obtain ⟨⟨endpoint, action⟩, -, hscope⟩ := exists_mem_of_mapM hgroups hgroup
    obtain ⟨paths, -, h⟩ := result_bind_eq_ok_iff.mp hscope
    obtain rfl := Except.ok.inj h
    -- a path's rules are rules of a view, and a view's rules were given
    obtain ⟨path, -, hr⟩ := List.mem_flatMap.mp hr
    exact (List.mem_filter.mp (List.mem_filter.mp hr).1).1

/-! ## Files -/

/-- **The bytes of a document**: text that is read as a value. -/
def Holds (bytes : List Nat) (v : Json) : Prop :=
  ∃ cs, Text.decodeUtf8 bytes = .ok cs
    ∧ Json.decode (String.ofList (Text.normalizeBreaks cs)) = .ok v

/-- **A content of a file of rules that nobody foresees.** -/
inductive Unforeseen : Except FileTrouble (List Nat) → Prop
  /-- The path itself cannot be asked for. -/
  | nul : Unforeseen (.error .nul)
  | notText {bytes : List Nat} {e : Text.Utf8Error} : Text.decodeUtf8 bytes = .error e →
      Unforeseen (.ok bytes)
  | tooLong {bytes : List Nat} {cs : List Char} {digits : Nat} : Text.decodeUtf8 bytes = .ok cs →
      Json.decode (String.ofList (Text.normalizeBreaks cs)) = .error (.tooLong digits) →
      Unforeseen (.ok bytes)
  | tooDeep {bytes : List Nat} {cs : List Char} {c : Json.Container} :
      Text.decodeUtf8 bytes = .ok cs →
      Json.decode (String.ofList (Text.normalizeBreaks cs)) = .error (.tooDeep c) →
      Unforeseen (.ok bytes)
  /-- An item breaks off reading, and those ahead of it are rules. -/
  | item {bytes : List Nat} {before behind : List Json} {item : Json} :
      Holds bytes (.arr (before ++ item :: behind)) → (∀ x ∈ before, ∃ r, Usable x r) →
      Unusable item → Unforeseen (.ok bytes)
  /-- All items are rules, but their addresses cannot be put in order. -/
  | unlisted {bytes : List Nat} {items : List Json} {given : List OverrideRule} {f : Fault} :
      Holds bytes (.arr items) → List.Forall₂ Usable items given →
      (OverrideRegistry.mk given).rules = .error f → Unforeseen (.ok bytes)

/-- The rules that a run has before it looks at a file. -/
def standing (withBuiltIn : Bool) : List OverrideRule :=
  if withBuiltIn then OverrideRule.builtIn else []

/-- The built-in rules are addressed by texts. -/
theorem flat_of_mem_standing {withBuiltIn : Bool} {r : OverrideRule}
    (hr : r ∈ standing withBuiltIn) :
    ∀ part ∈ [r.endpoint, r.action, r.path], part.isContainer = false := by
  revert r
  cases withBuiltIn <;> decide

/-- **A list of items** is read, listed, and put behind the built-in rules. What was
read and listed once is accepted again. -/
theorem outcome_load_of_holds {bytes : List Nat} {items : List Json}
    (h : Holds bytes (.arr items)) (path : Path) (withBuiltIn : Bool) :
    (load (some (ofFile path (.ok bytes))) withBuiltIn).outcome =
      (ofJsons items).bind fun g => g.rules.bind fun rules =>
        .ok ⟨standing withBuiltIn ++ rules⟩ := by
  obtain ⟨cs, hcs, hitems⟩ := h
  unfold load ofFile
  simp only [Run.outcome_bind, hcs, ofText, hitems, Run.outcome_ofExcept]
  cases hg : ofJsons items with
  | error f => rfl
  | ok g =>
    show ((g.rules.bind _).bind _) = g.rules.bind _
    cases hrules : g.rules with
    | error f => rfl
    | ok rules =>
      show g.rules.bind _ = _
      rw [hrules]
      refine ofRules_eq_ok fun r hr => ?_
      rcases List.mem_append.mp hr with hr | hr
      · exact flat_of_mem_standing hr
      · obtain ⟨item, -, hitem⟩ :=
          exists_of_mem_right (ofJsons_eq_ok_iff.mp hg) (mem_given_of_mem_rules hrules hr)
        exact hitem.flat

/-- Items that are all rules are listed. -/
theorem outcome_load_of_usable {bytes : List Nat} {items : List Json} {given : List OverrideRule}
    (h : Holds bytes (.arr items)) (hgiven : List.Forall₂ Usable items given) (path : Path)
    (withBuiltIn : Bool) : (load (some (ofFile path (.ok bytes))) withBuiltIn).outcome =
      (OverrideRegistry.mk given).rules.bind fun rules => .ok ⟨standing withBuiltIn ++ rules⟩ := by
  have hread : ofJsons items = .ok ⟨given⟩ := ofJsons_eq_ok_iff.mpr hgiven
  rw [outcome_load_of_holds h, hread]
  rfl

/-- **An item addressed by texts**: an object whose endpoint, action and path are
texts so far as they are there. -/
def IsPlain (item : Json) : Prop :=
  ∃ members, item = .obj members ∧ ∀ key ∈ ["endpoint", "action", "path"],
    ∀ v, Json.find? key members = some v → ∃ s, v = .str s

/-- The address of a rule from such an item consists of texts. -/
theorem IsPlain.texts {item : Json} {r : OverrideRule} (hplain : IsPlain item)
    (hmade : OverrideRule.ofJson item = .ok r) :
    ∀ part ∈ [r.endpoint, r.action, r.path], ∃ s, part = .str s := by
  obtain ⟨members, rfl, htexts⟩ := hplain
  have hmember (key : String) (hkey : key ∈ ["endpoint", "action", "path"]) :
      ∃ s, (Json.find? key members).getD (.str "") = .str s := by
    cases hfind : Json.find? key members with
    | none => exact ⟨"", rfl⟩
    | some v => exact htexts key hkey v hfind
  unfold OverrideRule.ofJson at hmade
  dsimp only at hmade
  split at hmade
  · nomatch hmade
  · split at hmade
    · nomatch hmade
    · rcases make_eq _ with hr | ⟨flaw, hr⟩
      · obtain rfl := Except.ok.inj (hr.symm.trans hmade)
        simpa using ⟨hmember "endpoint" (by simp), hmember "action" (by simp),
          hmember "path" (by simp)⟩
      · nomatch hr.symm.trans hmade

/-- **A rule addressed by texts.** -/
def Textual (r : OverrideRule) : Prop :=
  ∃ e a p, r.endpoint = .str e ∧ r.action = .str a ∧ r.path = .str p

theorem textual_iff {r : OverrideRule} :
    Textual r ↔ ∀ part ∈ [r.endpoint, r.action, r.path], ∃ s, part = .str s := by
  simp [Textual]

/-- Addresses of texts all compare. -/
theorem isOrdered_of_texts {rules : List OverrideRule}
    (h : ∀ r ∈ rules, ∀ part ∈ [r.endpoint, r.action, r.path], ∃ s, part = .str s) :
    isOrdered rules = true := by
  have htexts : ∀ r ∈ rules, Textual r := fun r hr => textual_iff.mpr (h r hr)
  unfold isOrdered
  rw [Bool.and_eq_true, List.all_eq_true, List.all_eq_true]
  constructor
  · intro r hr
    obtain ⟨e, a, p, he, ha, hp⟩ := htexts r hr
    simp [hasUndefined, he, ha, hp, Json.isUndefined]
  · intro r hr
    rw [List.all_eq_true]
    intro r' hr'
    obtain ⟨e, a, p, he, ha, hp⟩ := htexts r hr
    obtain ⟨e', a', p', he', ha', hp'⟩ := htexts r' hr'
    unfold addressBefore?
    rw [he, ha, hp, he', ha', hp']
    split
    · rfl
    · split <;> rfl

/-! ## How loading ends -/

/-- **The rules that a file gives**, in order of their addresses. -/
def Gives (content : Except FileTrouble (List Nat)) (rules : List OverrideRule) : Prop :=
  ∃ bytes items given, content = .ok bytes ∧ Holds bytes (.arr items)
    ∧ List.Forall₂ Usable items given ∧ (OverrideRegistry.mk given).rules = .ok rules

/-- **A file that gives rules** loads them. -/
theorem Gives.outcome_load {content : Except FileTrouble (List Nat)} {rules : List OverrideRule}
    (h : Gives content rules) (path : Path) (withBuiltIn : Bool) :
    (load (some (ofFile path content)) withBuiltIn).outcome
      = .ok ⟨standing withBuiltIn ++ rules⟩ := by
  obtain ⟨bytes, items, given, rfl, hholds, hgiven, hrules⟩ := h
  rw [outcome_load_of_usable hholds hgiven, hrules]
  rfl

/-- Loading fails as reading the file does. -/
theorem outcome_load_of_error {read : Run OverrideRegistry} {f : Fault}
    (h : read.outcome = .error f) (withBuiltIn : Bool) :
    (load (some read) withBuiltIn).outcome = .error f := by
  unfold load
  rw [Run.outcome_bind, h]
  rfl

/-- The outcome of reading a text that is no document. -/
theorem outcome_ofFile_of_error {bytes : List Nat} {cs : List Char} {e : Json.DecodeError}
    (hcs : Text.decodeUtf8 bytes = .ok cs)
    (h : Json.decode (String.ofList (Text.normalizeBreaks cs)) = .error e) (path : Path) :
    (ofFile path (.ok bytes)).outcome = .error (match e with
      | .malformed .. => .ofCause (.override (.unreadable path.text e.message))
      | .tooLong _ => .breach ⟨.badValue, e.message⟩
      | .tooDeep _ => .breach ⟨.tooDeep, e.message⟩) := by
  simp only [ofFile, hcs, ofText, h]
  cases e <;> rfl

/-- **An unforeseen content** ends loading in a breach. -/
theorem Unforeseen.exists_breach {content : Except FileTrouble (List Nat)}
    (h : Unforeseen content) (path : Path) (withBuiltIn : Bool) :
    ∃ b, (load (some (ofFile path content)) withBuiltIn).outcome = .error (.breach b) := by
  cases h with
  | nul => exact ⟨_, rfl⟩
  | @notText _ e hbytes =>
    refine ⟨⟨.badEncoding, e.message⟩, outcome_load_of_error ?_ withBuiltIn⟩
    simp only [ofFile, hbytes]
    rfl
  | tooLong hcs htext =>
    exact ⟨_, outcome_load_of_error (outcome_ofFile_of_error hcs htext path) withBuiltIn⟩
  | tooDeep hcs htext =>
    exact ⟨_, outcome_load_of_error (outcome_ofFile_of_error hcs htext path) withBuiltIn⟩
  | item hholds hbefore hun =>
    obtain ⟨f, hf⟩ := hun.exists_error
    rw [outcome_load_of_holds hholds, ofJsons_eq_error_iff.mpr ⟨_, _, _, rfl, hbefore, hf⟩]
    rcases readRule_eq_error hf with ⟨⟨b, rfl⟩, -⟩ | ⟨-, hnot⟩
    · exact ⟨b, rfl⟩
    · exact absurd hun hnot
  | unlisted hholds hgiven hrules =>
    obtain ⟨-, b, rfl⟩ := rules_eq_error hrules
    refine ⟨b, ?_⟩
    rw [outcome_load_of_usable hholds hgiven, hrules]
    rfl

/-- A list of items loads, has a flaw, or is unforeseen. -/
theorem load_cases_of_holds {bytes : List Nat} {items : List Json}
    (h : Holds bytes (.arr items)) (path : Path) (withBuiltIn : Bool) :
    let outcome := (load (some (ofFile path (.ok bytes))) withBuiltIn).outcome
    Unforeseen (.ok bytes)
      ∨ (∃ flaw, outcome = .error (.ofCause (.override flaw)))
      ∨ ∃ rules, Gives (.ok bytes) rules ∧ outcome = .ok ⟨standing withBuiltIn ++ rules⟩ := by
  intro outcome
  cases hitems : ofJsons items with
  | error f =>
    obtain ⟨before, item, behind, rfl, hbefore, hitem⟩ := ofJsons_eq_error_iff.mp hitems
    rcases readRule_eq_error hitem with ⟨-, hun⟩ | ⟨⟨flaw, rfl⟩, -⟩
    · exact .inl (.item h hbefore hun)
    · have houtcome : outcome = _ := outcome_load_of_holds h path withBuiltIn
      rw [hitems] at houtcome
      exact .inr (.inl ⟨flaw, houtcome⟩)
  | ok g =>
    have hgiven := ofJsons_eq_ok_iff.mp hitems
    cases hrules : g.rules with
    | error f => exact .inl (.unlisted h hgiven hrules)
    | ok rules =>
      have hgives : Gives (.ok bytes) rules := ⟨bytes, items, g.given, rfl, h, hgiven, hrules⟩
      exact .inr (.inr ⟨rules, hgives, hgives.outcome_load path withBuiltIn⟩)

/-- **Loading gives** the rules of the file behind the built-in ones, ends with a
flaw of the rules, or the content is unforeseen. -/
theorem load_cases (path : Path) (content : Except FileTrouble (List Nat)) (withBuiltIn : Bool) :
    let outcome := (load (some (ofFile path content)) withBuiltIn).outcome
    Unforeseen content
      ∨ (∃ flaw, outcome = .error (.ofCause (.override flaw)))
      ∨ ∃ rules, Gives content rules ∧ outcome = .ok ⟨standing withBuiltIn ++ rules⟩ := by
  intro outcome
  cases content with
  | error t =>
    cases t with
    | nul => exact .inl .nul
    | _ => exact .inr (.inl ⟨_, rfl⟩)
  | ok bytes =>
    cases hcs : Text.decodeUtf8 bytes with
    | error e => exact .inl (.notText hcs)
    | ok cs =>
      cases htext : Json.decode (String.ofList (Text.normalizeBreaks cs)) with
      | error e =>
        cases e with
        | malformed what line column offset =>
          exact .inr (.inl ⟨_, outcome_load_of_error
            (outcome_ofFile_of_error hcs htext path) withBuiltIn⟩)
        | tooLong digits => exact .inl (.tooLong hcs htext)
        | tooDeep c => exact .inl (.tooDeep hcs htext)
      | ok v =>
        cases v with
        | arr items => exact load_cases_of_holds ⟨cs, hcs, htext⟩ path withBuiltIn
        | _ =>
          refine .inr (.inl ⟨.notList path.text, outcome_load_of_error ?_ withBuiltIn⟩)
          simp only [ofFile, hcs, ofText, htext]
          rfl

/-- The bytes of a document are one text, and that is read as the document. -/
theorem Holds.decode_eq {bytes : List Nat} {cs : List Char} {v : Json} (h : Holds bytes v)
    (hcs : Text.decodeUtf8 bytes = .ok cs) :
    Json.decode (String.ofList (Text.normalizeBreaks cs)) = .ok v := by
  obtain ⟨cs', hcs', hv⟩ := h
  obtain rfl := Except.ok.inj (hcs.symm.trans hcs')
  exact hv

/-- So they are those of one document. -/
theorem Holds.eq {bytes : List Nat} {v w : Json} (hv : Holds bytes v) (hw : Holds bytes w) :
    v = w := by
  obtain ⟨cs, hcs, hv⟩ := hv
  exact Except.ok.inj (hv.symm.trans (hw.decode_eq hcs))

/-- Items addressed by texts are foreseen, whatever else they hold. -/
theorem not_unforeseen_of_plain {bytes : List Nat} {items : List Json}
    (h : Holds bytes (.arr items)) (hplain : ∀ item ∈ items, IsPlain item) :
    ¬ Unforeseen (.ok bytes) := by
  intro hun
  cases hun with
  | notText hbytes =>
    obtain ⟨cs, hcs, -⟩ := h
    nomatch hcs.symm.trans hbytes
  | tooLong hcs htext => nomatch (h.decode_eq hcs).symm.trans htext
  | tooDeep hcs htext => nomatch (h.decode_eq hcs).symm.trans htext
  | item hholds _ hunusable =>
    obtain rfl := Json.arr.inj (h.eq hholds)
    have hitem := hplain _ (List.mem_append_right _ List.mem_cons_self)
    cases hunusable with
    | shapeless hno =>
      obtain ⟨members, rfl, -⟩ := hitem
      exact hno members rfl
    | nested hmade hmem hcontainer =>
      obtain ⟨s, rfl⟩ := hitem.texts hmade _ hmem
      nomatch hcontainer
  | unlisted hholds hgiven hrules =>
    obtain rfl := Json.arr.inj (h.eq hholds)
    obtain ⟨hordered, -⟩ := rules_eq_error hrules
    rw [isOrdered_of_texts fun r hr => ?_] at hordered
    · nomatch hordered
    · obtain ⟨item, hitem, husable⟩ := exists_of_mem_right hgiven hr
      exact (hplain item hitem).texts husable.made

/-- **How loading a file of rules ends** is settled by its content. It ends in a
breach exactly with the unforeseen ones; it gives the rules of the file, in order
of their addresses and behind the built-in ones, exactly if the file holds a list
of rules that can be listed; and otherwise it tells a flaw of the rules. Objects
whose endpoint, action and path are texts, so far as they are there, are always
foreseen. -/
theorem load_outcome (path : Path) (content : Except FileTrouble (List Nat))
    (withBuiltIn : Bool) :
    let outcome := (load (some (ofFile path content)) withBuiltIn).outcome
    ((∃ b, outcome = .error (.breach b)) ↔ Unforeseen content)
    ∧ (∀ g, outcome = .ok g ↔ ∃ rules, Gives content rules ∧ g = ⟨standing withBuiltIn ++ rules⟩)
    ∧ ((∃ flaw, outcome = .error (.ofCause (.override flaw))) ↔
        ¬ Unforeseen content ∧ ¬ ∃ rules, Gives content rules)
    ∧ ∀ bytes items, content = .ok bytes → Holds bytes (.arr items) →
        (∀ item ∈ items, IsPlain item) → ¬ Unforeseen content := by
  intro outcome
  have hbreach (hun : Unforeseen content) : ∃ b, outcome = .error (.breach b) :=
    hun.exists_breach path withBuiltIn
  have hgives (rules : List OverrideRule) (h : Gives content rules) :
      outcome = .ok ⟨standing withBuiltIn ++ rules⟩ := h.outcome_load path withBuiltIn
  have hcases := load_cases path content withBuiltIn
  refine ⟨⟨fun ⟨b, hb⟩ => ?_, hbreach⟩, fun g => ⟨fun hg => ?_, ?_⟩, ⟨?_, ?_⟩, ?_⟩
  · rcases hcases with hun | ⟨flaw, hflaw⟩ | ⟨rules, -, hok⟩
    · exact hun
    · nomatch Except.error.inj (hb.symm.trans hflaw)
    · nomatch hb.symm.trans hok
  · rcases hcases with hun | ⟨flaw, hflaw⟩ | ⟨rules, hrules, hok⟩
    · obtain ⟨b, hb⟩ := hbreach hun
      nomatch hg.symm.trans hb
    · nomatch hg.symm.trans hflaw
    · exact ⟨rules, hrules, Except.ok.inj (hg.symm.trans hok)⟩
  · rintro ⟨rules, hrules, rfl⟩
    exact hgives rules hrules
  · rintro ⟨flaw, hflaw⟩
    constructor
    · intro hun
      obtain ⟨b, hb⟩ := hbreach hun
      nomatch Except.error.inj (hb.symm.trans hflaw)
    · rintro ⟨rules, hrules⟩
      nomatch (hgives rules hrules).symm.trans hflaw
  · rintro ⟨hnot, hno⟩
    rcases hcases with hun | hflaw | ⟨rules, hrules, -⟩
    · exact absurd hun hnot
    · exact hflaw
    · exact absurd ⟨rules, hrules⟩ hno
  · rintro bytes items rfl hholds hplain
    exact not_unforeseen_of_plain hholds hplain

/-- **A file of rules need not be text**, and a list in it need not hold objects: both
end loading in a breach, and no flaw of the rules is told. -/
theorem load_breach_bytes :
    let outcome (bytes : List Nat) :=
      (load (some (ofFile (.ofText "overrides.json") (.ok bytes))) true).outcome.map (·.given)
    outcome [0xff] = .error (.breach
        ⟨.badEncoding, "'utf-8' codec can't decode byte 0xff in position 0: invalid start byte"⟩)
      ∧ ∃ text, outcome ("[1]".toList.map Char.toNat) = .error (.breach (.wrongType text)) :=
  ⟨rfl, _, rfl⟩

end Exemplar.OverrideRegistry
