import Exemplar.Proofs.Code.Roots

/-!
# Names along a way

A root is called after its action. A record below it is called after the record
it is in, with the accessor of its entry behind, and a number wherever the name
was taken. So the name of a record is the name of its root, followed by the
accessors on the way to it, with numbers in between (`Spells`): which accessors
these are is known from the schema (`accessorsTo`), and which numbers, is not.
-/

namespace Exemplar.Code

open Exemplar.Field

variable {f : Field} {es : List (Entry Field)} {root : Root} {way : List Nat} {i : Nat}
  {base name : String} {accessors : List Json} {st st' : Draft.State} {n : Node}
  {a : ActionSchema}

/-! ## Accessors on a way -/

/-- **The accessors on a way** down from a field. -/
def accessorsTo : Field → List Nat → List Json
  | .collection _ e, _ :: way => accessorsTo e way
  | .map _ es, i :: way =>
    match es[i]? with
    | some e => e.accessor :: accessorsTo e.field way
    | none => []
  | _, _ => []

/-- There is none on the way that leads nowhere. -/
@[simp]
theorem accessorsTo_nil (f : Field) : accessorsTo f [] = [] := by
  cases f <;> rfl

/-- **A name that spells accessors** behind a base: each of them in order, with a
number wherever the name up to there was taken. -/
inductive Spells (base : String) : List Json → String → Prop where
  | base : Spells base [] base
  | number {accessors : List Json} {name : String} (k : Nat) : Spells base accessors name →
      Spells base accessors (numbered name k)
  | accessor {accessors : List Json} {name : String} (accessor : Json) :
      Spells base accessors name →
      Spells base (accessors ++ [accessor]) (name ++ accessor.display)

/-- A fresh name is the name itself or a number behind it. -/
theorem freshName_eq (taken : List String) (name : String) :
    freshName taken name = name ∨ ∃ k, freshName taken name = numbered name k := by
  unfold freshName
  split
  · exact .inl rfl
  · cases hfind : ((List.range (taken.length + 1)).map (numbered name)).find? (· ∉ taken) with
    | none => exact .inl rfl
    | some c =>
      obtain ⟨k, -, hk⟩ := List.mem_map.mp (List.mem_of_find?_eq_some hfind)
      exact .inr ⟨k, hk.symm⟩

/-- A name stays one that spells the same when it is claimed. -/
theorem Spells.freshName (h : Spells base accessors name) (taken : List String) :
    Spells base accessors (freshName taken name) := by
  rcases freshName_eq taken name with hname | ⟨k, hname⟩
  · exact hname.symm ▸ h
  · exact hname.symm ▸ h.number k

/-! ## Names of nested records -/

/-- **A record's name spells its way**: the base, what was spelt before, and the
accessors on the way from a field to the node of the record. -/
def SpeltBelow (base : String) (before : List Json) (f : Field) (way : List Nat) (n : Node)
    (r : Record) : Prop :=
  ∃ w, n.way = way ++ w ∧ Spells base (before ++ accessorsTo f w) r.name

/-- **What the draft of a field calls the records** of the maps in it. -/
def SpeltIn (f : Field) : Prop :=
  ∀ (base name : String) (before : List Json) (root : Root) (way : List Nat)
    (st st' : Draft.State) (t : TypeExpr) (records : List Record), Spells base before name →
    (typeOf name f).perform st = (.ok (t, records), st') →
    List.Forall₂ (SpeltBelow base before f way) (mapsFrom root way f) records

/-- **What the draft of members calls the records** of the maps in their entries. -/
theorem speltIn_entries (hes : ∀ e ∈ es, SpeltIn e.field) {owner : String} {before : List Json}
    (howner : Spells base before owner) {seen : List (String × Json)} {members : List Member}
    {records : List Record} (root : Root) (way : List Nat)
    (h : (membersOf owner seen es).perform st = (.ok (members, records), st')) :
    List.Forall₂ (fun n r => ∃ j e w, es[j]? = some e ∧ n.way = way ++ (i + j) :: w
        ∧ Spells base (before ++ e.accessor :: accessorsTo e.field w) r.name)
      (mapsInEntries root way i es) records := by
  induction es generalizing i seen members records st with
  | nil =>
    obtain ⟨-, rfl, -⟩ := membersOf_nil_eq_ok h
    exact .nil
  | cons e es ih =>
    obtain ⟨hfirst, hrest⟩ := List.forall_mem_cons.mp hes
    -- What is found among the entries behind stands one place farther on.
    have hshift : ∀ {n : Node} {r : Record},
        (∃ j e w, es[j]? = some e ∧ n.way = way ++ (i + 1 + j) :: w
          ∧ Spells base (before ++ e.accessor :: accessorsTo e.field w) r.name) →
        ∃ j d w, (e :: es)[j]? = some d ∧ n.way = way ++ (i + j) :: w
          ∧ Spells base (before ++ d.accessor :: accessorsTo d.field w) r.name := by
      rintro n r ⟨j, d, w, hd, hw, hspells⟩
      exact ⟨j + 1, d, w, hd, by rw [hw, Nat.add_right_comm, Nat.add_assoc], hspells⟩
    rw [mapsInEntries_cons]
    by_cases hempty : e.field.shape = .empty
    · rw [membersOf_cons_of_empty hempty] at h
      rw [mapsFrom_of_empty hempty, List.nil_append]
      exact (ih hrest h).imp fun _ _ => hshift
    · obtain ⟨name, t, first, u, more, later, -, -, hdraft, hmore, -, rfl⟩ :=
        membersOf_cons_eq_ok hempty h
      have hspelt := hfirst base _ _ root (way ++ [i]) _ _ _ _ (howner.accessor e.accessor) hdraft
      refine List.rel_append (hspelt.imp ?_) ((ih hrest hmore).imp fun _ _ => hshift)
      rintro n r ⟨w, hw, hspells⟩
      exact ⟨0, e, w, rfl, by simpa using hw, by simpa using hspells⟩

/-- **What the draft of a field calls its records** spells their ways. -/
theorem speltIn (f : Field) : SpeltIn f := by
  induction f with
  | empty own =>
    intro base name before root way st st' t records _ h
    rw [typeOf, Effect.perform_pure_eq_ok_iff, Prod.mk.injEq] at h
    obtain ⟨⟨rfl, rfl⟩, rfl⟩ := h
    exact .nil
  | scalar own kind =>
    intro base name before root way st st' t records _ h
    rw [typeOf, Effect.perform_pure_eq_ok_iff, Prod.mk.injEq] at h
    obtain ⟨⟨rfl, rfl⟩, rfl⟩ := h
    exact .nil
  | collection own e ih =>
    intro base name before root way st st' t records hname h
    obtain ⟨item, hinner, -⟩ := typeOf_collection_eq_ok h
    refine (ih base name before root (way ++ [0]) _ _ _ _ hname hinner).imp ?_
    rintro n r ⟨w, hw, hspells⟩
    exact ⟨0 :: w, by simpa using hw, hspells⟩
  | map own es ih =>
    intro base name before root way st st' t records hname h
    obtain ⟨u, members, inner, -, hmembers, -, rfl⟩ := typeOf_map_eq_ok h
    have hspells : Spells base before (freshName st.taken name) := hname.freshName st.taken
    have hinner := speltIn_entries (i := 0) ih hspells root way hmembers
    refine List.rel_append (hinner.imp ?_) (.cons ⟨[], by simp, ?_⟩ .nil)
    · rintro n r ⟨j, e, w, he, hw, hr⟩
      refine ⟨j :: w, by simpa using hw, ?_⟩
      rwa [accessorsTo, he]
    · simpa [accessorsTo, nestedRecord] using hspells

/-! ## Names of definitions -/

/-- What the names of the records below a root start with. -/
def recordBase (name : String) : Field → String
  | .collection _ _ => name ++ "Item"
  | _ => name

/-- **The name of a definition** for a node of a tree, given the name of the
root. -/
inductive Titled (name : String) (f : Field) (n : Node) : String → Prop where
  | root : n.way = [] → Titled name f n name
  | record {title : String} : n.way ≠ [] →
      Spells (recordBase name f) (accessorsTo f n.way) title → Titled name f n title

/-- **Drafting a root** names a definition for each node of its tree. -/
theorem rootOf_titled {description : String} {source : Option PagingSource}
    {definitions : List Definition} (root : Root)
    (h : (rootOf name description source f).perform st = (.ok definitions, st')) :
    List.Forall₂ (fun n d => Titled name f n d.name) (nodesOf root f) definitions := by
  cases f with
  | empty own =>
    rw [rootOf, Effect.perform_pure_eq_ok_iff] at h
    obtain ⟨rfl, rfl⟩ := h
    exact .nil
  | scalar own kind =>
    obtain ⟨-, rfl⟩ := rootOf_scalar_eq_ok h
    exact .cons (.root rfl) .nil
  | collection own e =>
    obtain ⟨u, t, records, -, htype, rfl⟩ := rootOf_collection_eq_ok h
    have hrecords := speltIn e _ _ [] root [0] _ _ _ _ .base htype
    refine List.rel_append ?_ (.cons (.root rfl) .nil)
    rw [List.forall₂_map_right_iff]
    refine hrecords.imp ?_
    rintro n r ⟨w, hw, hspells⟩
    exact .record (by simp [hw]) (by rw [hw]; exact hspells)
  | map own es =>
    obtain ⟨u, members, records, paging, -, hmembers, -, rfl⟩ := rootOf_map_eq_ok h
    have hrecords := speltIn_entries (i := 0) (fun e _ => speltIn e.field)
      (.base : Spells name [] name) root [] hmembers
    have hnodes : nodesOf root (.map own es)
        = mapsInEntries root [] 0 es ++ [⟨root, [], .map own es⟩] := by
      simp [nodesOf, mapsFrom, synonymNode]
    rw [hnodes]
    refine List.rel_append ?_ (.cons (.root rfl) .nil)
    rw [List.forall₂_map_right_iff]
    refine hrecords.imp ?_
    rintro n r ⟨j, e, w, he, hw, hspells⟩
    have hway : n.way = j :: w := by simpa using hw
    refine .record (by simp [hway]) ?_
    rw [hway, accessorsTo, he]
    exact hspells

/-- **The name of a definition of an action**, given what it is for. -/
def TitledIn (a : ActionSchema) : Origin → Definition → Prop
  | .paging, _ => False
  | .request name, d => name = a.action.requestName ∧ d.name = name
  | .node n, d => ∃ f, tree? a n.root.tree = some f
      ∧ Titled (nameOf a.action n.root.tree) f n d.name

/-- The definitions for a tree of an action are named so. -/
theorem forall₂_titledIn {t : Tree} (ht : tree? a t = some f) {definitions : List Definition}
    (h : List.Forall₂ (fun n d => Titled (nameOf a.action t) f n d.name) (nodesOf ⟨i, t⟩ f)
      definitions) :
    List.Forall₂ (TitledIn a) ((nodesOf ⟨i, t⟩ f).map .node) definitions := by
  rw [List.forall₂_map_left_iff]
  have hroot : ∀ n ∈ nodesOf ⟨i, t⟩ f, n.root.tree = t := by
    intro n hn
    rw [(mem_nodesOf_iff.mp hn).1]
  refine (List.forall₂_and_left _ _).mpr ⟨hroot, h⟩ |>.imp ?_
  rintro n d ⟨htree, htitled⟩
  exact ⟨f, by rw [htree, ht], by rw [htree]; exact htitled⟩

/-- **Drafting an action** names a definition for each of its contents. -/
theorem actionDefinitions_titled {definitions : List Definition} (i : Nat)
    (h : (actionDefinitions a).perform st = (.ok definitions, st')) :
    List.Forall₂ (TitledIn a) (actionContents i a) definitions := by
  obtain ⟨u, v, request, response, payload, -, hrequest, hresponse, hpayload, rfl⟩ :=
    actionDefinitions_eq_ok h
  have hname : request.name = a.action.requestName := (request_eq_ok hrequest).1
  have hresponses := forall₂_titledIn (i := i) (a := a) (t := .response) rfl
    (rootOf_titled ⟨i, .response⟩ hresponse)
  have hpayloads : List.Forall₂ (TitledIn a)
      (((tree? a .payload).elim [] (nodesOf ⟨i, .payload⟩)).map .node) payload := by
    rw [payloadDefinitions] at hpayload
    cases hs : a.projection.isSupported with
    | false =>
      rw [hs, if_neg Bool.false_ne_true, Effect.perform_pure_eq_ok_iff] at hpayload
      obtain ⟨rfl, rfl⟩ := hpayload
      simp [tree?, hs]
    | true =>
      rw [hs, if_pos rfl] at hpayload
      have htree : tree? a .payload = some (a.projection.payload.getD .absent) := by
        simp [tree?, hs]
      rw [htree]
      exact forall₂_titledIn htree (rootOf_titled ⟨i, .payload⟩ hpayload)
  have hcontents : actionContents i a = .request a.action.requestName
      :: (((nodesOf ⟨i, .response⟩ a.response).map .node)
        ++ (((tree? a .payload).elim [] (nodesOf ⟨i, .payload⟩)).map .node)) := by
    simp [actionContents, actionNodes, tree?]
  rw [hcontents]
  exact .cons ⟨rfl, hname⟩ (List.rel_append hresponses hpayloads)

/-- The suffixes have a capital letter in common. -/
theorem mem_toList_of_mem_suffixes {suffix : String} (h : suffix ∈ suffixes) :
    'R' ∈ suffix.toList := by
  have hall : suffixes.all (·.toList.contains 'R') = true := by decide +kernel
  exact List.contains_iff_mem.mp (List.all_eq_true.mp hall suffix h)

/-- The name of a root is that of its action with a suffix. -/
theorem exists_suffix_nameOf (x : Action) (t : Tree) :
    ∃ suffix ∈ suffixes, nameOf x t = x.id ++ suffix := by
  cases t with
  | response => exact ⟨"Response", by simp [suffixes], rfl⟩
  | payload => exact ⟨"ResponseAll", by simp [suffixes], rfl⟩

end Exemplar.Code
