import Exemplar.Proofs.Code.Roots
import Exemplar.Proofs.Code.Scope

/-!
# Records mirror their maps

A record has one attribute for each entry of its map, in the order of the keys,
and what the attribute is like is decided by the entry: its name, its annotation
and what it starts as (`Record.Mirrors`). Drafting the records of a response
fails for one reason alone, which can be read off the schema: two entries of one
map, at whatever depth, name one attribute (`Clashes`). That is so in every state
in which a draft may begin, since whatever name is taken for a record, another
one can be had (`rootOf_mirrors`).
-/

namespace Exemplar.Code

open Exemplar.Field

variable {before blocks : List Block} {n : Node} {t : TypeExpr} {p : Entry Field × Nat}
  {es : List (Entry Field)} {f g : Field} {m : Member} {own : Json}
  {α β : Type} {P Q : Prop}

/-! ## Drafts that fail for one reason -/

/-- **A draft that conflicts exactly if** something is the case: then it fails
with an accessor conflict, and otherwise it has a result, in whatever state it
begins. -/
def ConflictsIff (P : Prop) (d : Draft α) : Prop := ∀ s,
  (P → ∃ shared owners s', d.perform s
    = (.error (.ofCause (.accessorConflict shared owners)), s'))
  ∧ (¬ P → ∃ a s', d.perform s = (.ok a, s'))

namespace ConflictsIff

variable {d : Draft α} {next : α → Draft β}

protected theorem congr (h : ConflictsIff P d) (hpq : P ↔ Q) : ConflictsIff Q d :=
  propext hpq ▸ h

/-- A draft that always has a result. -/
theorem of_perform (h : ∀ s, ∃ a s', d.perform s = (.ok a, s')) : ConflictsIff False d :=
  fun s => ⟨False.elim, fun _ => h s⟩

protected theorem pure (a : α) : ConflictsIff False (pure a : Draft α) :=
  of_perform fun s => ⟨a, s, rfl⟩

theorem throw (shared : Json) (owners : List Json) :
    ConflictsIff True (throw (.ofCause (.accessorConflict shared owners)) : Draft α) :=
  fun s => ⟨fun _ => ⟨shared, owners, s, rfl⟩, fun h => absurd trivial h⟩

/-- **One draft after another** conflicts if one of them does. -/
protected theorem bind (hd : ConflictsIff P d) (hnext : ∀ a, ConflictsIff Q (next a)) :
    ConflictsIff (P ∨ Q) (d >>= next) := by
  intro s
  obtain ⟨hfail, hok⟩ := hd s
  simp only [Effect.perform_bind]
  by_cases hP : P
  · obtain ⟨shared, owners, s', h⟩ := hfail hP
    rw [h]
    exact ⟨fun _ => ⟨shared, owners, s', rfl⟩, fun hPQ => absurd (.inl hP) hPQ⟩
  · obtain ⟨a, s', h⟩ := hok hP
    rw [h]
    obtain ⟨hfail', hok'⟩ := hnext a s'
    exact ⟨fun hPQ => hfail' (hPQ.resolve_left hP), fun hPQ => hok' fun hQ => hPQ (.inr hQ)⟩

/-- A draft that goes on with a known result. -/
theorem ofExcept_bind {r : Except Fault α} {a : α} (hr : r = .ok a)
    (hnext : ConflictsIff P (next a)) : ConflictsIff P (Effect.ofExcept r >>= next) := by
  intro s
  simpa only [Effect.perform_bind, Effect.perform_ofExcept, hr] using hnext s

end ConflictsIff

/-! ## Clashes of attributes -/

/-- **A schema that can be drafted**: no field in it is empty, the entries of its
maps are in strictly ascending order of their keys, and their accessors are
texts. -/
inductive Draftable : Field → Prop where
  | scalar {n : Json} {kind : Kind} : Draftable (.scalar n kind)
  | collection {n : Json} {e : Field} : Draftable e → Draftable (.collection n e)
  | map {n : Json} {es : List (Entry Field)} : Ordered es →
      (∀ e ∈ es, ∃ accessor, e.accessor = .str accessor) → (∀ e ∈ es, Draftable e.field) →
      Draftable (.map n es)

/-- The names of the attributes for some entries. -/
def attributeNames (es : List (Entry Field)) : List (Except Fault String) :=
  es.map fun e => Naming.snakeOf e.accessor

/-- The names of the attributes that come before. -/
def seenNames (seen : List (String × Json)) : List (Except Fault String) :=
  seen.map fun b => .ok b.1

/-- **Attributes clash** in a field: two entries of one map in it have accessors
that name one attribute. -/
inductive Clashes : Field → Prop where
  | here {n : Json} {es : List (Entry Field)} : ¬ (attributeNames es).Nodup →
      Clashes (.map n es)
  | element {n : Json} {e : Field} : Clashes e → Clashes (.collection n e)
  | entry {n : Json} {es : List (Entry Field)} {e : Entry Field} : e ∈ es →
      Clashes e.field → Clashes (.map n es)

theorem Draftable.shape_ne_empty (h : Draftable f) : f.shape ≠ .empty := by
  cases h <;> simp [shape]

@[simp]
theorem draftable_collection_iff {e : Field} : Draftable (.collection own e) ↔ Draftable e :=
  ⟨fun h => by cases h; assumption, .collection⟩

@[simp]
theorem draftable_map_iff : Draftable (.map own es) ↔ Ordered es
    ∧ (∀ e ∈ es, ∃ accessor, e.accessor = .str accessor) ∧ ∀ e ∈ es, Draftable e.field :=
  ⟨fun h => by cases h with | map ho ht hf => exact ⟨ho, ht, hf⟩, fun ⟨ho, ht, hf⟩ => .map ho ht hf⟩

@[simp]
theorem not_clashes_scalar {kind : Kind} : ¬ Clashes (.scalar own kind) := nofun

@[simp]
theorem clashes_collection_iff {e : Field} : Clashes (.collection own e) ↔ Clashes e :=
  ⟨fun h => by cases h; assumption, .element⟩

@[simp]
theorem clashes_map_iff :
    Clashes (.map own es) ↔ ¬ (attributeNames es).Nodup ∨ ∃ e ∈ es, Clashes e.field := by
  constructor
  · intro h
    cases h with
    | here h => exact .inl h
    | entry he h => exact .inr ⟨_, he, h⟩
  · rintro (h | ⟨e, he, h⟩)
    · exact .here h
    · exact .entry he h

/-- What a way leads to can be drafted with the whole. -/
theorem Draftable.at? {way : List Nat} (h : Draftable f) (hg : f.at? way = some g) :
    Draftable g := by
  refine at?_induction (fun hc h => ?_) hg h
  obtain ⟨_, rfl⟩ | ⟨_, _, rfl, e, he, rfl⟩ := child?_eq_some hc
  · exact draftable_collection_iff.mp h
  · exact (draftable_map_iff.mp h).2.2 e he

/-- Where nothing clashes, nothing does at the end of a way. -/
theorem not_clashes_at? {way : List Nat} (h : ¬ Clashes f) (hg : f.at? way = some g) :
    ¬ Clashes g := by
  refine at?_induction (P := fun f => ¬ Clashes f) (fun hc h hclash => h ?_) hg h
  obtain ⟨_, rfl⟩ | ⟨_, _, rfl, e, he, rfl⟩ := child?_eq_some hc
  · exact .element hclash
  · exact .entry he hclash

/-! ## Where drafts fail -/

theorem lookup_eq_none_iff_seenNames {seen : List (String × Json)} {name : String} :
    seen.lookup name = none ↔ .ok name ∉ seenNames seen := by
  rw [List.lookup_eq_none_iff, seenNames]
  simp only [bne_iff_ne, ne_eq, List.mem_map, Except.ok.injEq, not_exists, not_and]
  exact forall₂_congr fun b _ => not_congr eq_comm

/-- **Drafting members** conflicts if a name comes twice among those given before
and those of the entries, or if drafting the field of an entry does. -/
theorem conflictsIff_membersOf (owner : String) (seen : List (String × Json))
    (htext : ∀ e ∈ es, ∃ accessor, e.accessor = .str accessor)
    (hfull : ∀ e ∈ es, e.field.shape ≠ .empty)
    (hes : ∀ e ∈ es, ∀ name, ConflictsIff (Clashes e.field) (typeOf name e.field))
    (hseen : (seenNames seen).Nodup) :
    ConflictsIff (¬ (seenNames seen ++ attributeNames es).Nodup ∨ ∃ e ∈ es, Clashes e.field)
      (membersOf owner seen es) := by
  induction es generalizing seen with
  | nil =>
    rw [membersOf]
    exact (ConflictsIff.pure _).congr (by simp [attributeNames, hseen])
  | cons e es ih =>
    obtain ⟨key, accessor, field, required⟩ := e
    obtain ⟨⟨text, rfl⟩, htexts⟩ := List.forall_mem_cons.mp htext
    obtain ⟨hfirst, hrest⟩ := List.forall_mem_cons.mp hfull
    obtain ⟨hfield, hfields⟩ := List.forall_mem_cons.mp hes
    have hnames : attributeNames (⟨key, .str text, field, required⟩ :: es)
        = .ok (Naming.toSnake text) :: attributeNames es := rfl
    rw [membersOf, if_neg hfirst]
    refine .ofExcept_bind rfl ?_
    cases hlookup : seen.lookup (Naming.toSnake text) with
    | some other =>
      have hmem : .ok (Naming.toSnake text) ∈ seenNames seen := by
        by_contra hnot
        simp [lookup_eq_none_iff_seenNames.mpr hnot] at hlookup
      refine (ConflictsIff.throw _ _).congr ⟨fun _ => .inl fun hnodup => ?_, fun _ => trivial⟩
      rw [hnames] at hnodup
      exact (List.nodup_append.mp hnodup).2.2 _ hmem _ List.mem_cons_self rfl
    | none =>
      have hmore : seenNames (seen ++ [(Naming.toSnake text, .str text)])
          = seenNames seen ++ [.ok (Naming.toSnake text)] := by simp [seenNames]
      have hseen' : (seenNames (seen ++ [(Naming.toSnake text, .str text)])).Nodup := by
        rw [hmore, ← List.concat_eq_append]
        exact hseen.concat (lookup_eq_none_iff_seenNames.mp hlookup)
      refine ((hfield _).bind fun first =>
        (ih _ htexts hrest hfields hseen').bind fun others => .pure _).congr ?_
      -- The name goes from the entries to those before, so the row of names is the same.
      rw [hmore, hnames, List.append_assoc, List.singleton_append, or_false,
        List.exists_mem_cons_iff, or_left_comm]

/-- **Drafting a field** conflicts if attributes clash in it. -/
theorem conflictsIff_typeOf (h : Draftable f) (name : String) :
    ConflictsIff (Clashes f) (typeOf name f) := by
  induction h generalizing name with
  | scalar =>
    rw [typeOf]
    exact (ConflictsIff.pure _).congr (by simp)
  | collection _ ih =>
    rw [typeOf]
    refine ((ih name).bind fun _ => .pure _).congr ?_
    rw [or_false, clashes_collection_iff]
  | map _ htext hfields ih =>
    rw [typeOf]
    have hmembers := fun owner => conflictsIff_membersOf owner [] htext
      (fun e he => (hfields e he).shape_ne_empty) ih List.nodup_nil
    refine ((ConflictsIff.of_perform fun s => ⟨_, _, Draft.perform_claim name s⟩).bind fun owner =>
      (hmembers owner).bind fun _ => .pure _).congr ?_
    rw [or_false, false_or, clashes_map_iff]
    rfl

/-- A paging accessor is made for whatever source has texts for accessors. -/
theorem exists_mapM_pagingAccessor (members : List Member) {source : Option PagingSource}
    (h : ∀ p ∈ source, ∀ a ∈ p.accessors, ∃ accessor, a = .str accessor) :
    ∃ paging, source.mapM (pagingAccessor members) = .ok paging := by
  cases source with
  | none => exact ⟨none, rfl⟩
  | some p =>
    have htext := h p rfl
    cases p with
    | nested accessor field =>
      obtain ⟨_, rfl⟩ := htext accessor (by simp [PagingSource.accessors])
      exact ⟨_, rfl⟩
    | flattened index size total =>
      obtain ⟨_, rfl⟩ := htext index (by simp [PagingSource.accessors])
      obtain ⟨_, rfl⟩ := htext size (by simp [PagingSource.accessors])
      obtain ⟨_, rfl⟩ := htext total (by simp [PagingSource.accessors])
      exact ⟨_, rfl⟩

/-- **Drafting a root** that is a map conflicts if attributes clash in it. -/
theorem conflictsIff_rootOf (name description : String) {source : Option PagingSource}
    (h : Draftable (.map own es))
    (hsource : ∀ p ∈ source, ∀ a ∈ p.accessors, ∃ accessor, a = .str accessor) :
    ConflictsIff (Clashes (.map own es)) (rootOf name description source (.map own es)) := by
  obtain ⟨-, htext, hfields⟩ := draftable_map_iff.mp h
  have hmembers := conflictsIff_membersOf name [] htext
    (fun e he => (hfields e he).shape_ne_empty) (fun e he => conflictsIff_typeOf (hfields e he))
    List.nodup_nil
  have hpaging : ∀ members (next : Option PagingAccessor → Draft (List Definition)),
      (∀ paging, ConflictsIff False (next paging)) →
      ConflictsIff False (Effect.ofExcept (source.mapM (pagingAccessor members)) >>= next) := by
    intro members next hnext
    obtain ⟨paging, hpaging⟩ := exists_mapM_pagingAccessor members hsource
    exact .ofExcept_bind hpaging (hnext paging)
  rw [rootOf]
  refine ((ConflictsIff.of_perform fun s => ⟨_, _, Draft.perform_take [name] s⟩).bind fun _ =>
    hmembers.bind fun _ => hpaging _ _ fun _ => .pure _).congr ?_
  rw [or_false, false_or, clashes_map_iff]
  rfl

/-! ## What an entry becomes -/

/-- **The annotation for an entry**, given the type that stands for its field:
that type, wrapped where the entry may be absent, unless any value will do. -/
def annotationFor (e : Entry Field) (t : TypeExpr) : TypeExpr :=
  if e.required || e.field.isNull then t else .optional t

/-- What an attribute starts as that always has a value: the zero of its kind, a
new list, or a new record for its map. -/
def startOf (t : TypeExpr) : Field → Initial
  | .scalar _ .string | .scalar _ .opaque_ => .emptyText
  | .scalar _ .number => .zero
  | .scalar _ .boolean => .false_
  | .scalar _ .unknown | .empty _ => .none
  | .collection _ _ => .newList
  | .map _ _ => .newRecord t.render

/-- **What the attribute for an entry starts as.** -/
def initialFor (e : Entry Field) (t : TypeExpr) : Initial :=
  if e.required then startOf t e.field else .none

/-- **The attribute for an entry**, given the type that stands for its field and
the name of the attribute. -/
def attributeFor (e : Entry Field) (t : TypeExpr) (name : String) : Attribute :=
  ⟨name, annotationFor e t, some (initialFor e t), .str e.key, []⟩

theorem StandsFor.initial_eq (h : StandsFor before n t) : t.initial = startOf t n.field := by
  cases h with
  | empty => rfl
  | @scalar _ _ _ kind => cases kind <;> rfl
  | collection _ => rfl
  | map _ _ => rfl

/-- Any value will do only for what has no schema, and for nulls. -/
theorem StandsFor.eq_any_iff (h : StandsFor before n t) (hfull : n.field.shape ≠ .empty) :
    t = .any ↔ n.field.isNull = true := by
  cases h with
  | empty => exact absurd rfl hfull
  | @scalar _ _ _ kind => cases kind <;> simp [TypeExpr.ofKind, isNull]
  | collection _ => simp [isNull]
  | map _ _ => simp [isNull]

/-- **An attribute mirrors an entry** of the map at a node: it is the attribute
for the entry, with the type that stands for the field of the very entry. -/
def Attribute.Mirrors (blocks : List Block) (n : Node) (p : Entry Field × Nat) (a : Attribute) :
    Prop :=
  ∃ t name, StandsFor blocks (n.below p.2 p.1.field) t
    ∧ Naming.snakeOf p.1.accessor = .ok name ∧ a = attributeFor p.1 t name

/-- The attribute of a member is the one for the entry that the member is made for, with
the type of the member. -/
theorem MemberFor.toAttribute_eq (h : MemberFor before n p m) (hfull : p.1.field.shape ≠ .empty) :
    ∃ name, Naming.snakeOf p.1.accessor = .ok name
      ∧ m.toAttribute = attributeFor p.1 m.type name := by
  obtain ⟨⟨name, hname, hm⟩, ht⟩ := h
  have hany : m.type = .any ↔ p.1.field.isNull = true := ht.eq_any_iff hfull
  have hstart : m.type.initial = startOf m.type p.1.field := ht.initial_eq
  refine ⟨name, hname, ?_⟩
  rw [hm]
  unfold Member.ofEntry attributeFor annotationFor initialFor
  cases hrequired : p.1.required with
  | true => simp [hstart]
  | false =>
    cases hnull : p.1.field.isNull with
    | true => simp [hany.mpr hnull, TypeExpr.initial]
    | false =>
      have hneither : m.type ≠ .any := fun h => Bool.false_ne_true (hnull ▸ hany.mp h)
      simp [hneither]

/-- **The attribute of a member** mirrors the entry that the member is made
for. -/
theorem MemberFor.mirrors (h : MemberFor before n p m) (hfull : p.1.field.shape ≠ .empty) :
    Attribute.Mirrors before n p m.toAttribute := by
  obtain ⟨name, hname, heq⟩ := h.toAttribute_eq hfull
  exact ⟨m.type, name, h.type, hname, heq⟩

/-- The line of the attribute for an entry always has a value. -/
theorem exists_line_attributeFor (e : Entry Field) (t : TypeExpr) (name : String) :
    ∃ v, (attributeFor e t name).valueExpr? = some v ∧ (attributeFor e t name).line
      = indent ++ name ++ ": " ++ (annotationFor e t).render ++ " = " ++ v.render := by
  have hvalue : ∃ v, (attributeFor e t name).valueExpr? = some v := by
    rw [Attribute.valueExpr?]
    split
    · exact ⟨_, rfl⟩
    · exact ⟨_, rfl⟩
  obtain ⟨v, hv⟩ := hvalue
  refine ⟨v, hv, ?_⟩
  rw [Attribute.line_eq, hv, ← render_eq_indexed, Option.elim_some, ← String.append_assoc]
  rfl

/-! ## Records and their maps -/

/-- The lines of a record behind those of its attributes. -/
def Record.closing (r : Record) : List String :=
  match r.paging with
  | none => if r.attributes.isEmpty then [indent ++ "pass"] else []
  | some p => "" :: p.lines r.name

/-- **A record mirrors a map** at a node, given the blocks of its module. -/
structure Record.Mirrors (blocks : List Block) (n : Node) (es : List (Entry Field))
    (r : Record) : Prop where
  /-- There is one attribute for each entry, in the order of the entries. -/
  attributes : List.Forall₂ (Attribute.Mirrors blocks n) es.zipIdx r.attributes
  /-- No two attributes share a name. -/
  names : (r.attributes.map Attribute.name).Nodup
  /-- The text has one line for each attribute and no other in between. -/
  lines : r.lines = ["@dataclass", "class " ++ r.name ++ ":"]
    ++ Description.literal indent (.str r.description) ++ r.attributes.map Attribute.line
    ++ r.closing
  /-- The line of an attribute is its name with its type and its value. -/
  line : ∀ a ∈ r.attributes, ∃ v, a.valueExpr? = some v
    ∧ a.line = indent ++ a.name ++ ": " ++ a.type.render ++ " = " ++ v.render

/-- Attributes without comments have one line each. -/
theorem Record.lines_eq {r : Record} (h : ∀ a ∈ r.attributes, a.comments = []) :
    r.lines = ["@dataclass", "class " ++ r.name ++ ":"]
      ++ Description.literal indent (.str r.description) ++ r.attributes.map Attribute.line
      ++ r.closing := by
  have hbody : r.attributes.flatMap Attribute.lines = r.attributes.map Attribute.line := by
    rw [← List.flatMap_singleton' (r.attributes.map Attribute.line), List.flatMap_map]
    exact List.flatMap_congr fun a ha => by rw [Attribute.lines, h a ha, List.nil_append]
  unfold Record.lines Record.closing
  rw [hbody]
  cases r.paging <;> simp

/-- **A record whose members are those of a map** mirrors the map, if no
attributes of it clash. -/
theorem Record.mirrors_of_members {r : Record} {members : List Member}
    (hfull : ∀ e ∈ es, e.field.shape ≠ .empty)
    (hm : List.Forall₂ (MemberFor blocks n) (listed 0 es) members)
    (hr : r.attributes = members.map Member.toAttribute) (hnames : (attributeNames es).Nodup) :
    r.Mirrors blocks n es := by
  rw [listed_eq_zipIdx hfull] at hm
  have hattributes : List.Forall₂ (Attribute.Mirrors blocks n) es.zipIdx r.attributes := by
    rw [hr, List.forall₂_map_right_iff, List.forall₂_iff_zip]
    obtain ⟨hlength, hzip⟩ := List.forall₂_iff_zip.mp hm
    refine ⟨hlength, fun {p m} hpm => (hzip hpm).mirrors (hfull p.1 ?_)⟩
    exact List.mem_of_getElem? (List.mk_mem_zipIdx_iff_getElem?.mp (List.of_mem_zip hpm).1)
  have hentry : ∀ a ∈ r.attributes, ∃ e t name, a = attributeFor e t name := by
    intro a ha
    obtain ⟨p, -, t, name, -, -, ha⟩ := exists_of_mem_right hattributes ha
    exact ⟨p.1, t, name, ha⟩
  refine ⟨hattributes, ?_, Record.lines_eq fun a ha => ?_, fun a ha => ?_⟩
  · have heq : attributeNames es = (r.attributes.map Attribute.name).map Except.ok := by
      rw [attributeNames, ← List.zipIdx_map_fst 0 es, List.map_map, List.map_map,
        ← List.forall₂_eq_eq_eq, List.forall₂_map_left_iff, List.forall₂_map_right_iff]
      refine hattributes.imp ?_
      rintro p a ⟨t, name, -, hname, rfl⟩
      exact hname
    exact List.Nodup.of_map _ (heq ▸ hnames)
  · obtain ⟨e, t, name, rfl⟩ := hentry a ha
    rfl
  · obtain ⟨e, t, name, rfl⟩ := hentry a ha
    exact exists_line_attributeFor e t name

/-- **The names of the definitions for a map** are pairwise different. -/
theorem nodup_names_rootOf {st st' : Draft.State} {name description : String}
    {source : Option PagingSource} {definitions : List Definition}
    (h : (rootOf name description source (.map own es)).perform st = (.ok definitions, st')) :
    (definitions.map Definition.name).Nodup := by
  obtain ⟨u, members, records, paging, htaken, hmembers, -, rfl⟩ := rootOf_map_eq_ok h
  obtain ⟨blocks, hd, ho, hadds, -⟩ := membersOf_adds (i := 0)
    (o := ⟨fun _ => name, fun _ => source⟩) (fun e _ => addsMaps e.field)
    ⟨⟨0, .response⟩, [], .map own es⟩ hmembers
  have hnested : ∀ b ∈ blocks, b.isNested = true := by
    intro b hb
    obtain ⟨k, hk, horigin⟩ := List.mem_map.mp (ho ▸ List.mem_map_of_mem hb)
    simp [Block.isNested, ← horigin, way_ne_of_mem_mapsInEntries hk]
  have hnames : nestedNames blocks = (records.map Definition.record).map Definition.name := by
    rw [nestedNames, List.filter_eq_self.mpr hnested, ← hd, List.map_map]
    rfl
  have hroot : name ∉ (records.map Definition.record).map Definition.name := by
    rw [← hnames]
    exact fun hmem => hadds.new name hmem (htaken ▸ List.mem_cons_self)
  rw [List.map_append]
  exact (hnames ▸ hadds.nodup).append (List.nodup_singleton _)
    (List.disjoint_singleton.mpr hroot)

/-- **Records mirror their maps.** Drafting a map that can be drafted fails with
an accessor conflict exactly if attributes clash in it. Otherwise it gives
definitions with different names, which are one record for each map in it, and
every record mirrors its map. -/
theorem rootOf_mirrors (name description : String) (source : Option PagingSource) (own : Json)
    (es : List (Entry Field)) (draft : Draft.State) (htree : Draftable (.map own es))
    (hsource : ∀ p ∈ source, ∀ a ∈ p.accessors, ∃ accessor, a = .str accessor) :
    ((∃ shared owners after, (rootOf name description source (.map own es)).perform draft
        = (.error (.ofCause (.accessorConflict shared owners)), after)) ↔ Clashes (.map own es))
    ∧ (¬ Clashes (.map own es) → ∃ definitions after,
      (rootOf name description source (.map own es)).perform draft = (.ok definitions, after)
      ∧ (definitions.map Definition.name).Nodup
      ∧ ∃ blocks : List Block, blocks.map Block.definition = definitions
        ∧ blocks.map Block.origin = (nodesOf ⟨0, .response⟩ (.map own es)).map .node
        ∧ ∀ b ∈ blocks, ∃ n r label entries, b = ⟨.node n, .record r⟩
          ∧ n.field = .map label entries ∧ Ordered entries ∧ r.Mirrors blocks n entries) := by
  obtain ⟨hfail, hok⟩ := conflictsIff_rootOf name description htree hsource draft
  refine ⟨⟨?_, hfail⟩, fun hnone => ?_⟩
  · rintro ⟨shared, owners, after, herror⟩
    by_contra hnone
    obtain ⟨definitions, after', hdefinitions⟩ := hok hnone
    exact nomatch herror.symm.trans hdefinitions
  obtain ⟨definitions, after, h⟩ := hok hnone
  obtain ⟨blocks, hd, ho, hadds⟩ := rootOf_adds (o := ⟨fun _ => name, fun _ => source⟩)
    [pagingBlock] ⟨0, .response⟩ h rfl rfl (by simp)
  refine ⟨definitions, after, h, nodup_names_rootOf h, blocks, hd, ho, ?_⟩
  rintro ⟨origin, definition⟩ hb
  obtain ⟨n, hn, rfl⟩ : ∃ n ∈ nodesOf ⟨0, .response⟩ (.map own es), Origin.node n = origin :=
    List.mem_map.mp (ho ▸ List.mem_map_of_mem hb)
  obtain ⟨-, hat, hshape⟩ := mem_nodesOf_iff.mp hn
  -- The root is a map, so no node of its tree is a synonym.
  have hmap : n.field.shape = .map := by
    rcases hshape with hmap | ⟨hway, -⟩
    · exact hmap
    · rw [hway] at hat
      rw [← Option.some.inj hat]
      rfl
  obtain ⟨before, hsub, hmade⟩ := hadds.built.made_of_mem hb
  obtain ⟨r, rfl⟩ := hmade.drawn.isRecord_iff.mpr hmap
  obtain ⟨label, entries, members, hfield, hm, hr, -⟩ := hmade.exists_members
  obtain ⟨hordered, -, hfields⟩ := draftable_map_iff.mp (hfield ▸ htree.at? hat)
  have hnames : (attributeNames entries).Nodup :=
    not_not.mp fun hclash => not_clashes_at? hnone hat (hfield ▸ .here hclash)
  have hm : List.Forall₂ (MemberFor blocks n) (listed 0 entries) members := by
    refine hm.imp fun _ _ h => ⟨h.made, h.type.of_records fun k q hq => ?_⟩
    exact (List.mem_append.mp (hsub hq)).resolve_left (by simp [pagingBlock])
  exact ⟨n, r, label, entries, rfl, hfield, hordered,
    Record.mirrors_of_members (fun e he => (hfields e he).shape_ne_empty) hm hr hnames⟩

/-- A response with a list of maps, a map, a null and a number that may be
absent. -/
theorem rootOf_mirrors_issues :
    let issue : Field :=
      .map (.str "Issues") [⟨"key", .str "Key", .scalar (.str "Key") .string, true⟩]
    let position : Field :=
      .map (.str "Paging") [⟨"total", .str "Total", .scalar (.str "Total") .number, true⟩]
    let es : List (Entry Field) := [
      ⟨"effortTotal", .str "EffortTotal", .scalar (.str "EffortTotal") .number, false⟩,
      ⟨"issues", .str "Issues", .collection (.str "Issues") issue, true⟩,
      ⟨"next", .str "Next", .scalar (.str "Next") .unknown, false⟩,
      ⟨"paging", .str "Paging", position, true⟩]
    let tree : Field := .map (.str "SearchResponse") es
    let source : Option PagingSource := some (.nested (.str "Paging") position)
    Draftable tree ∧ (∀ p ∈ source, ∀ a ∈ p.accessors, ∃ accessor, a = .str accessor)
    ∧ ¬ Clashes tree
    ∧ (∃ (records : List Record) (after : Draft.State),
      (rootOf "SearchResponse" "" source tree).perform {} = (.ok (records.map .record), after)
      ∧ (records.map fun r => (r.name, r.attributes.map Attribute.line)) = [
        ("SearchResponseIssues", ["    key: str = \"\""]),
        ("SearchResponsePaging", ["    total: float = 0"]),
        ("SearchResponse", [
          "    effort_total: Optional[float] = dataclasses.field(default=None, "
            ++ "metadata=\x7b\"json\": \"effortTotal\"\x7d)",
          "    issues: List[SearchResponseIssues] = dataclasses.field(default_factory=list)",
          "    next: Any = None",
          "    paging: SearchResponsePaging = "
            ++ "dataclasses.field(default_factory=SearchResponsePaging)"])])
    ∧ ((∃ shared owners after, (rootOf "SearchResponse" "" source tree).perform {}
        = (.error (.ofCause (.accessorConflict shared owners)), after)) ↔ Clashes tree)
    ∧ (¬ Clashes tree → ∃ definitions after,
      (rootOf "SearchResponse" "" source tree).perform {} = (.ok definitions, after)
      ∧ (definitions.map Definition.name).Nodup
      ∧ ∃ blocks : List Block, blocks.map Block.definition = definitions
        ∧ blocks.map Block.origin = (nodesOf ⟨0, .response⟩ tree).map .node
        ∧ ∀ b ∈ blocks, ∃ n r label entries, b = ⟨.node n, .record r⟩
          ∧ n.field = .map label entries ∧ Ordered entries ∧ r.Mirrors blocks n entries) := by
  intro issue position es tree source
  have hordered : Ordered es := by
    unfold Ordered
    decide +kernel
  have htree : Draftable tree := .map hordered (by simp [es])
    (by simp [es, issue, position, Draftable.scalar, Ordered])
  have hsource : ∀ p ∈ source, ∀ a ∈ p.accessors, ∃ accessor, a = .str accessor := by
    simp [source, PagingSource.accessors]
  have hnames : (attributeNames es).Nodup := by
    unfold attributeNames
    decide +kernel
  have hnone : ¬ Clashes tree := by
    simpa [tree, es, issue, position, attributeNames, and_assoc] using hnames
  refine ⟨htree, hsource, hnone, ⟨_, _, rfl, ?_⟩,
    rootOf_mirrors "SearchResponse" "" source _ es {} htree hsource⟩
  decide +kernel

/-- Two keys that only differ in case name one attribute. -/
example : Clashes (.map (.str "ShowResponse") [
    ⟨"URL", .str "URL", .scalar (.str "URL") .string, true⟩,
    ⟨"url", .str "Url", .scalar (.str "Url") .string, true⟩]) :=
  .here (by decide +kernel)

end Exemplar.Code
