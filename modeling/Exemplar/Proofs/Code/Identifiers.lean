import Exemplar.Proofs.Code.Titles
import Exemplar.Proofs.Learner
import Exemplar.Proofs.Naming
import Exemplar.Proofs.Paging

/-!
# Which names are identifiers

An identifier starts with a letter or an underscore, goes on with letters, digits
and underscores, and is no reserved word. Which letters beyond the ASCII ones there
are is left open (`Letters`): what is said here holds for any choice of them.

The name of a root is an identifier, whatever the key of its action: it starts with
an accessor in camel case, and its suffix has a letter in it that no reserved word
has. Behind that stand the accessors on the way to a record, as they are. So the
name of a record is an identifier exactly if every character of these accessors may
stand in one (`actionDefinitions_identifiers`). An accessor in camel case always
does; one that a rule sets is any text that is not empty.
-/

namespace Exemplar.Code

open Exemplar.Field Exemplar.Inference
open Text (isAlnum isDigit isLetter)

/-! ## Identifiers -/

/-- **The letters beyond the ASCII ones**: those that may start an identifier, and
those that may stand in one. -/
structure Letters where
  starts : Char → Bool
  continues : Char → Bool

namespace Letters

variable (u : Letters)

/-- A character that may start an identifier. -/
def mayStart (c : Char) : Bool :=
  if c.toNat < 128 then isLetter c || c == '_' else u.starts c

/-- A character that may stand in an identifier. -/
def mayContinue (c : Char) : Bool :=
  if c.toNat < 128 then isAlnum c || c == '_' else u.continues c

/-- **An identifier.** -/
structure IsIdentifier (name : String) : Prop where
  start : ∃ c ∈ name.toList.head?, u.mayStart c = true
  rest : ∀ c ∈ name.toList.tail, u.mayContinue c = true
  notReserved : name ∉ Naming.reserved

/-- **A text that may stand in an identifier.** -/
def Fits (text : String) : Prop := ∀ c ∈ text.toList, u.mayContinue c = true

variable {u} {text other name base : String} {accessors : List Json} {c : Char}

theorem mayContinue_of_isAlnum (h : isAlnum c = true) : u.mayContinue c = true := by
  simp [mayContinue, Naming.toNat_lt_of_isAlnum h, h]

theorem fits_of_all_isAlnum (h : text.toList.all isAlnum = true) : u.Fits text :=
  fun c hc => mayContinue_of_isAlnum (List.all_eq_true.mp h c hc)

theorem fits_append : u.Fits (text ++ other) ↔ u.Fits text ∧ u.Fits other := by
  simp only [Fits, String.toList_append, List.forall_mem_append]

/-- A number may stand in an identifier. -/
theorem fits_toString (n : Nat) : u.Fits (toString n) := by
  intro c hc
  have hc : c ∈ Nat.toDigits 10 n := by simpa [toString, Nat.repr] using hc
  have hdigit : c.isDigit = true := Nat.isDigit_of_mem_toDigits (by decide) (by decide) hc
  exact mayContinue_of_isAlnum (Bool.or_eq_true _ _ |>.mpr (.inr hdigit))

/-- So may an accessor in camel case. -/
theorem fits_toCamel (key : String) : u.Fits (Naming.toCamel key) := by
  intro c hc
  rw [Naming.toCamel, String.toList_ofList] at hc
  rcases Naming.of_mem_camel hc with h | rfl
  · exact mayContinue_of_isAlnum h
  · rfl

/-- **A name that spells accessors** may stand in an identifier, behind its base,
exactly if the accessors may. -/
theorem exists_fits_iff (h : Spells base accessors name) : ∃ rest, name = base ++ rest
    ∧ (u.Fits rest ↔ ∀ accessor ∈ accessors, u.Fits accessor.display) := by
  induction h with
  | base => exact ⟨"", by simp, by simp [Fits]⟩
  | @number _ _ k _ ih =>
    obtain ⟨rest, rfl, hrest⟩ := ih
    refine ⟨rest ++ toString (k + 2), String.append_assoc .., ?_⟩
    rw [fits_append, and_iff_left (fits_toString _), hrest]
  | accessor accessor _ ih =>
    obtain ⟨rest, rfl, hrest⟩ := ih
    refine ⟨rest ++ accessor.display, String.append_assoc .., ?_⟩
    rw [fits_append, hrest, List.forall_mem_append, List.forall_mem_singleton]

/-! ## Names of roots -/

/-- A letter may start an identifier, and so may an underscore. -/
theorem mayStart_of_isLetter (h : isLetter c = true ∨ c = '_') : u.mayStart c = true := by
  rcases h with h | rfl
  · have hc : isAlnum c = true := (Bool.or_eq_true _ _).mpr (.inl h)
    simp [mayStart, Naming.toNat_lt_of_isAlnum hc, h]
  · rfl

/-- No reserved word has the letter that the suffixes have. -/
theorem not_mem_reserved (h : 'R' ∈ name.toList) : name ∉ Naming.reserved := by
  have hall : Naming.reserved.all (fun word => !word.toList.contains 'R') = true := by
    decide +kernel
  intro hname
  have hR := List.all_eq_true.mp hall name hname
  simp [h] at hR

/-- **What starts with the name of a root** is an identifier exactly if what is
behind it may stand in one. -/
theorem isIdentifier_append_iff (x : Action) {suffix : String} (hs : suffix ∈ suffixes)
    (rest : String) : u.IsIdentifier (x.id ++ suffix ++ rest) ↔ u.Fits rest := by
  have hsuffix : u.Fits suffix := by
    have hall : suffixes.all (·.toList.all isAlnum) = true := by decide +kernel
    exact fits_of_all_isAlnum (List.all_eq_true.mp hall suffix hs)
  obtain ⟨c, cs, hid, hc⟩ := Naming.exists_camel_eq x.key.display.toList
  have hfits : u.Fits x.id := fits_toCamel _
  have hid : x.id.toList = c :: cs := by
    rw [Action.id, Naming.toCamel, String.toList_ofList, hid]
  have hlist : (x.id ++ suffix ++ rest).toList
      = c :: (cs ++ suffix.toList ++ rest.toList) := by
    simp [String.toList_append, hid]
  constructor
  · intro h d hd
    refine h.rest d ?_
    rw [hlist, List.tail_cons]
    exact List.mem_append_right _ hd
  · intro h
    refine ⟨⟨c, by rw [hlist]; rfl, mayStart_of_isLetter hc⟩, ?_, not_mem_reserved ?_⟩
    · rw [hlist, List.tail_cons, List.append_assoc, List.forall_mem_append,
        List.forall_mem_append]
      exact ⟨fun d hd => hfits d (hid ▸ List.mem_cons_of_mem c hd), hsuffix, h⟩
    · rw [String.toList_append, String.toList_append]
      exact List.mem_append_left _ (List.mem_append_right _ (mem_toList_of_mem_suffixes hs))

end Letters

/-! ## Names of definitions -/

variable {u : Letters} {a : ActionSchema} {f g : Field} {es : List (Entry Field)} {way : List Nat}
  {view : OverrideView} {name : Json} {path : String}

/-- **The accessors on the way to a node** of an action. -/
def wayAccessors (a : ActionSchema) (n : Node) : List Json :=
  (tree? a n.root.tree).elim [] fun f => accessorsTo f n.way

/-- **The name of a definition** is an identifier, if the definition is for a root, and
otherwise exactly if the accessors on the way to it may stand in one. -/
theorem TitledIn.isIdentifier_iff {origin : Origin} {d : Definition} (h : TitledIn a origin d) :
    u.IsIdentifier d.name ↔ ∀ n, origin = .node n → ∀ accessor ∈ wayAccessors a n,
      u.Fits accessor.display := by
  have hroot : ∀ suffix ∈ suffixes, u.IsIdentifier (a.action.id ++ suffix) := by
    intro suffix hs
    have hiff := u.isIdentifier_append_iff a.action hs ""
    rw [String.append_empty] at hiff
    exact hiff.mpr fun c hc => absurd hc (by simp)
  cases origin with
  | paging => exact h.elim
  | request name =>
    obtain ⟨rfl, hname⟩ := h
    rw [hname]
    exact iff_of_true (hroot "Request" (by simp [suffixes])) (fun n hn => nomatch hn)
  | node n =>
    obtain ⟨f, htree, htitled⟩ := h
    obtain ⟨suffix, hs, hname⟩ := exists_suffix_nameOf a.action n.root.tree
    have hway : wayAccessors a n = accessorsTo f n.way := by rw [wayAccessors, htree]; rfl
    simp only [Origin.node.injEq, forall_eq', hway]
    rw [hname] at htitled
    generalize d.name = title at htitled ⊢
    cases htitled with
    | root hnil =>
      rw [hnil, accessorsTo_nil]
      exact iff_of_true (hroot suffix hs) (fun accessor h => absurd h List.not_mem_nil)
    | record _ hspells =>
      obtain ⟨rest, rfl, hrest⟩ := Letters.exists_fits_iff (u := u) hspells
      rw [← hrest]
      cases f with
      | collection own e =>
        have hitem : u.Fits "Item" := Letters.fits_of_all_isAlnum (by decide +kernel)
        rw [recordBase, String.append_assoc, u.isIdentifier_append_iff a.action hs,
          Letters.fits_append, and_iff_right hitem]
      | _ => exact u.isIdentifier_append_iff a.action hs rest

/-! ## Where accessors come from -/

/-- **An accessor that a view gives**: a key in camel case, or the new name that a rule
sets. -/
inductive GivenBy (view : OverrideView) : Json → Prop
  | camel (key : String) : GivenBy view (.str (Naming.toCamel key))
  | rule {r : OverrideRule} : r ∈ view.rules → r.kind = .rename → GivenBy view r.value

/-- All accessors on the ways in a field are given by a view. -/
def AllGiven (view : OverrideView) (f : Field) : Prop :=
  ∀ way, ∀ accessor ∈ accessorsTo f way, GivenBy view accessor

/-- The accessor of a key is given. -/
theorem givenBy_accessor (view : OverrideView) (key path : String) :
    GivenBy view (accessor view key path) := by
  unfold accessor OverrideView.renamed?
  cases hfirst : view.first? (.str path) .rename with
  | none => exact .camel key
  | some r =>
    have hmem : r ∈ view.lookup (.str path) := List.mem_of_find?_eq_some hfirst
    exact .rule (List.mem_filter.mp hmem).1 (by simpa using List.find?_some hfirst)

theorem allGiven_empty : AllGiven view (.empty name) := by
  intro way accessor h
  cases way <;> nomatch h

theorem allGiven_map (h : ∀ e ∈ es, GivenBy view e.accessor ∧ AllGiven view e.field) :
    AllGiven view (.map name es) := by
  intro way accessor ha
  cases way with
  | nil => simp at ha
  | cons i way =>
    rw [accessorsTo] at ha
    cases he : es[i]? with
    | none => simp [he] at ha
    | some e =>
      obtain ⟨hgiven, hfield⟩ := h e (List.mem_of_getElem? he)
      rw [he] at ha
      rcases List.mem_cons.mp ha with rfl | ha
      · exact hgiven
      · exact hfield way accessor ha

/-- **A field that obeys a view** has accessors that the view gives. -/
theorem allGiven_of_obeys (h : Obeys view name path f) : AllGiven view f := by
  induction h with
  | scalar =>
    intro way accessor ha
    cases way <;> nomatch ha
  | collection _ ih =>
    intro way accessor ha
    cases way with
    | nil => simp at ha
    | cons i way => exact ih way accessor ha
  | map _ _ hentries _ ih =>
    refine allGiven_map fun e he => ⟨?_, ih e he⟩
    rw [(hentries e he).accessor_eq]
    exact givenBy_accessor ..

/-- A payload has entries of the response. -/
theorem allGiven_of_projection {newName : Option Json} {p : Projection} {paged : Bool}
    (hobeys : Obeys view name path f) (h : (Projection.of f newName paged).outcome = .ok p) :
    AllGiven view (p.payload.getD .absent) := by
  cases paged with
  | false =>
    obtain rfl := Except.ok.inj h
    exact allGiven_empty
  | true =>
    obtain ⟨-, hpayload⟩ := Projection.of_eq_ok_iff.mp h
    cases hobeys with
    | @map _ _ es ho hu hentries hfields =>
      rw [Paging.outcome_payload?_map ho hu, Except.ok.injEq] at hpayload
      rw [← hpayload, Option.getD_some]
      refine allGiven_map fun e he => ?_
      have he := (List.mem_filter.mp he).1
      refine ⟨?_, allGiven_of_obeys (hfields e he)⟩
      rw [(hentries e he).accessor_eq]
      exact givenBy_accessor ..
    | _ =>
      have hnone : p.payload = none := (Except.ok.inj hpayload).symm
      rw [hnone]
      exact allGiven_empty

/-- What a filter gives is the view of the endpoint and the action. -/
theorem eq_view_of_filter {g : OverrideRegistry} {endpoint action : Json}
    (h : g.filter endpoint action = .ok view) : view = g.view endpoint action := by
  obtain ⟨_, -, h⟩ := result_bind_eq_ok_iff.mp h
  obtain ⟨_, -, h⟩ := result_bind_eq_ok_iff.mp h
  exact (Except.ok.inj h).symm

/-- **What is known of an action** has accessors that its view gives. -/
theorem allGiven_of_learned {g : OverrideRegistry} {endpoint x : Json} {action : Action}
    {learned : ActionSchema} {r : Except Fault Unit}
    (h : ActionSchema.Learned g endpoint x { action } r learned) :
    AllGiven (g.view endpoint action.key) learned.response
      ∧ AllGiven (g.view endpoint action.key) (learned.projection.payload.getD .absent) := by
  cases h with
  | unaddressed _ => exact ⟨allGiven_empty, allGiven_empty⟩
  | uninferred _ _ => exact ⟨allGiven_empty, allGiven_empty⟩
  | unasked hview hinfer _ =>
    obtain rfl := eq_view_of_filter hview
    exact ⟨allGiven_of_obeys (infer_obeys hinfer), allGiven_empty⟩
  | unprojected hview hinfer _ _ =>
    obtain rfl := eq_view_of_filter hview
    exact ⟨allGiven_of_obeys (infer_obeys hinfer), allGiven_empty⟩
  | learned hview hinfer _ hproject =>
    obtain rfl := eq_view_of_filter hview
    exact ⟨allGiven_of_obeys (infer_obeys hinfer),
      allGiven_of_projection (infer_obeys hinfer) hproject⟩

/-- So have the trees that definitions are drafted for. -/
theorem givenBy_of_mem_wayAccessors {v : Learner} {e : String} {x : Action}
    {st st' : Session.State} {schema : ActionSchema}
    (h : (v.action e x).perform st = (.ok schema, st')) {n : Node} {accessor : Json}
    (ha : accessor ∈ wayAccessors schema n) :
    GivenBy (v.registry.view (.str e) x.key) accessor := by
  have htrees : AllGiven (v.registry.view (.str e) x.key) schema.response
      ∧ AllGiven (v.registry.view (.str e) x.key) (schema.projection.payload.getD .absent) := by
    rcases Learner.of_perform_action h with ⟨hresponse, hprojection⟩
      | ⟨_, _, learned, hlearned, hresponse, hprojection, -⟩
    · rw [hresponse, hprojection]
      exact ⟨allGiven_empty, allGiven_empty⟩
    · rw [hresponse, hprojection]
      exact allGiven_of_learned hlearned
  unfold wayAccessors at ha
  cases htree : n.root.tree with
  | response =>
    rw [htree] at ha
    exact htrees.1 n.way accessor ha
  | payload =>
    rw [htree, tree?] at ha
    split at ha
    · exact htrees.2 n.way accessor ha
    · exact absurd ha List.not_mem_nil

/-- **Names of the definitions of an action.** For whatever key, example and rules an
action is learned, and whatever names are taken: the definitions for its requests and
its roots have identifiers for names, and a record below a root has one exactly if the
accessors on the way to it may stand in one. These are keys in camel case, which always
may, and the new names that rules set. So all names are identifiers if the new names may
stand in one. -/
theorem actionDefinitions_identifiers (u : Letters) (v : Learner) (e : String) (x : Action)
    (st st' : Session.State) (schema : ActionSchema)
    (hlearn : (v.action e x).perform st = (.ok schema, st')) (draft after : Draft.State)
    (definitions : List Definition)
    (h : (actionDefinitions schema).perform draft = (.ok definitions, after)) :
    List.Forall₂ (fun origin d => u.IsIdentifier d.name ↔ ∀ n, origin = .node n →
        ∀ accessor ∈ wayAccessors schema n, u.Fits accessor.display)
      (actionContents 0 schema) definitions
    ∧ (∀ n, ∀ accessor ∈ wayAccessors schema n, GivenBy (v.registry.view (.str e) x.key) accessor)
    ∧ ((∀ r ∈ v.registry.given, r.kind = .rename → u.Fits r.value.display) →
        ∀ d ∈ definitions, u.IsIdentifier d.name) := by
  have hnames := (actionDefinitions_titled 0 h).imp fun _ _ htitled =>
    htitled.isIdentifier_iff (u := u)
  refine ⟨hnames, fun n accessor ha => givenBy_of_mem_wayAccessors hlearn ha, ?_⟩
  intro hrules d hd
  obtain ⟨origin, -, hiff⟩ := exists_of_mem_right hnames hd
  refine hiff.mpr fun n _ accessor ha => ?_
  cases givenBy_of_mem_wayAccessors hlearn ha with
  | camel key => exact Letters.fits_toCamel key
  | rule hr hkind => exact hrules _ (List.mem_filter.mp hr).1 hkind

/-- A rule that gives an object a new name in camel case. -/
theorem actionDefinitions_identifiers_lines :
    let u : Letters := ⟨fun _ => false, fun _ => false⟩
    let page : Json := .obj [("lines", .obj [("a", .int 1)])]
    let registry : OverrideRegistry :=
      ⟨[.of "e" "search" "lines" .rename (.str "LineItems")]⟩
    let v : Learner := ⟨fun _ _ => pure page, registry, {}⟩
    let x : Action := { key := .str "search", hasExample := .bool true }
    let number : Entry Field := ⟨"a", .str "A", .scalar (.str "A") .number, true⟩
    let lines : Entry Field :=
      ⟨"lines", .str "LineItems", .map (.str "LineItems") [number], true⟩
    let schema : ActionSchema := { action := x, response := .map (.str "SearchResponse") [lines] }
    let ended := ((v.action "e" x).perform {}).2
    ∃ definitions after, (v.action "e" x).perform {} = (.ok schema, ended)
      ∧ (actionDefinitions schema).perform {} = (.ok definitions, after)
      ∧ definitions.map Definition.name
        = ["SearchRequest", "SearchResponseLineItems", "SearchResponse"]
      ∧ List.Forall₂ (fun origin d => u.IsIdentifier d.name ↔ ∀ n, origin = .node n →
          ∀ accessor ∈ wayAccessors schema n, u.Fits accessor.display)
        (actionContents 0 schema) definitions
      ∧ (∀ n, ∀ accessor ∈ wayAccessors schema n,
          GivenBy (v.registry.view (.str "e") x.key) accessor)
      ∧ ((∀ r ∈ v.registry.given, r.kind = .rename → u.Fits r.value.display) →
          ∀ d ∈ definitions, u.IsIdentifier d.name) := by
  intro u page registry v x number lines schema ended
  have hlearn : (v.action "e" x).perform {} = (.ok schema, ended) :=
    Prod.ext (by decide +kernel) rfl
  refine ⟨_, _, hlearn, rfl, ?_, actionDefinitions_identifiers u v "e" x {} ended schema hlearn {}
    _ _ rfl⟩
  decide +kernel

/-- **A name that is no identifier**: a rule gives an object a new name of two words, and
the record for it is called so. The attribute for it is not. -/
theorem actionDefinitions_line_items :
    let rule : Json := .obj [("endpoint", .str "e"), ("action", .str "search"),
      ("path", .str "lines"), ("kind", .str "rename"), ("value", .str "line items")]
    let registry : OverrideRegistry :=
      ⟨[.of "e" "search" "lines" .rename (.str "line items")]⟩
    let page : Json := .obj [("lines", .obj [("a", .int 1)])]
    let x : Action := { key := .str "search", hasExample := .bool true }
    let number : Entry Field := ⟨"a", .str "A", .scalar (.str "A") .number, true⟩
    let lines : Entry Field :=
      ⟨"lines", .str "line items", .map (.str "line items") [number], true⟩
    let schema : ActionSchema := { action := x, response := .map (.str "SearchResponse") [lines] }
    OverrideRegistry.ofJsons [rule] = .ok registry
      ∧ (((Learner.mk (fun _ _ => pure page) registry {}).action "e" x).perform {}).1 = .ok schema
      ∧ ((actionDefinitions schema).perform {}).1.map (·.map Definition.name)
        = .ok ["SearchRequest", "SearchResponseline items", "SearchResponse"]
      ∧ ∀ u : Letters, ¬ u.IsIdentifier "SearchResponseline items" := by
  intro rule registry page x number lines schema
  refine ⟨rfl, by decide +kernel, by decide +kernel, fun u h => ?_⟩
  have hspace := h.rest ' ' (by decide +kernel)
  nomatch hspace

end Exemplar.Code
