import Exemplar.Proofs.Code.Lines
import Exemplar.Proofs.Code.Nested
import Exemplar.Proofs.Inference.Steps

/-!
# Names in the scope of a record

The lines of a record are read in a scope of their own, one after the other.
What a line uses by a bare name is looked up there first, and an attribute
of an earlier line may be called so: it **captures** the name
(`Record.Captures`). The names that an attribute uses are read off the
expressions that its line is the text of (`Attribute.line_eq`).

Whether a record for a map captures a name is a matter of two entries: the
attribute of one is called so, and the other one stands behind it and uses
the name (`rootOf_captures_iff`). Nothing in the names of attributes guards
against it, as it is done for reserved words. An attribute that is called
like the paging accessor of its record is lost in the same way.
-/

namespace Exemplar.Code

open Exemplar.Field
open Exemplar.Inference (Obeys)

variable {before blocks : List Block} {n : Node} {t u : TypeExpr} {p : Entry Field × Nat}
  {es : List (Entry Field)} {x : String} {m : Member}

/-! ## Capture -/

/-- The names that no definition of a module is meant to change: those of
the types of leaves, of what makes a list, and of the module of field
specifications. -/
def fixedNames : List String := [specificationModule, "list", "str", "float", "bool"]

/-- **A record captures a name**: an attribute uses it, and stands behind
one with a value that is called so. -/
def Record.Captures (r : Record) (x : String) : Prop :=
  ∃ (i j : Nat) (b a : Attribute), i < j ∧ r.attributes[i]? = some b ∧ r.attributes[j]? = some a
    ∧ b.name = x ∧ b.valueExpr?.isSome = true ∧ x ∈ a.uses

/-- **A record hides an attribute** behind its paging accessor. -/
def Record.HidesAttribute (r : Record) : Prop :=
  r.paging.isSome = true ∧ ∃ a ∈ r.attributes, a.name = accessorName

/-! ## What an entry uses -/

/-- The names that the leaf in a field is of a type by. -/
def leafUses : Field → List String
  | .empty _ => TypeExpr.any.uses
  | .scalar _ kind => (TypeExpr.ofKind kind).uses
  | .collection _ e => leafUses e
  | .map _ _ => []

/-- An entry has its value made: it is always there, and no leaf. -/
def isMade (e : Entry Field) : Bool :=
  e.required && (e.field.shape = .collection || e.field.shape = .map)

/-- **The fixed names that an entry uses** in the record for its map. -/
def entryUses (e : Entry Field) : List String :=
  leafUses e.field
    ++ (if e.required && e.field.shape = .collection then ["list"] else [])
    ++ (if isMade e || Naming.snakeOf e.accessor ≠ .ok e.key then [specificationModule] else [])

theorem StandsFor.mem_uses_iff (h : StandsFor before n t) (hx : x ≠ "List") :
    x ∈ t.uses ↔ x ∈ leafUses n.field ∨ x ∈ t.names := by
  induction h with
  | empty => simp [TypeExpr.uses, leafUses, TypeExpr.names]
  | @scalar _ _ _ kind =>
    cases kind <;> simp [TypeExpr.uses, leafUses, TypeExpr.names, TypeExpr.ofKind]
  | collection _ ih => simp [TypeExpr.uses, leafUses, TypeExpr.names, hx, ih]
  | map _ _ => simp [TypeExpr.uses, leafUses, TypeExpr.names]

/-- What makes the initial value of a type: the empty list, or a record. -/
theorem StandsFor.factory?_eq_some_iff (h : StandsFor before n t) :
    t.initial.factory? = some x ↔ n.field.shape = .collection ∧ x = "list"
      ∨ n.field.shape = .map ∧ x ∈ t.names := by
  cases h with
  | empty => simp [TypeExpr.initial, Initial.factory?, shape]
  | @scalar _ _ _ kind =>
    cases kind <;> simp [TypeExpr.initial, Initial.factory?, TypeExpr.ofKind, shape]
  | collection _ => simp [TypeExpr.initial, Initial.factory?, shape, eq_comm]
  | map _ _ => simp [TypeExpr.initial, Initial.factory?, TypeExpr.names, shape, eq_comm]

theorem StandsFor.isSome_factory? (h : StandsFor before n t) :
    t.initial.factory?.isSome = (n.field.shape = .collection || n.field.shape = .map) := by
  cases h with
  | empty => rfl
  | @scalar _ _ _ kind => cases kind <;> rfl
  | collection _ => rfl
  | map _ _ => rfl

/-- The type of an attribute for an entry is that of the member, or it is
optional. -/
theorem MemberFor.mem_uses_type (h : MemberFor before n p m) (hx : x ≠ "Optional") :
    x ∈ m.toAttribute.type.uses ↔ x ∈ m.type.uses := by
  obtain ⟨name, -, hm⟩ := h.made
  rw [hm]
  unfold Member.ofEntry
  by_cases hp : (p.1.required || decide (m.type = .any)) = true
  · simp only [if_pos hp]
  · simp only [if_neg hp, TypeExpr.uses, List.mem_cons, hx, false_or]

/-- **The attribute for an entry** has an initial value, which is made
exactly if the entry is always there and no leaf. -/
theorem MemberFor.initial_eq (h : MemberFor before n p m) :
    ∃ i, m.toAttribute.initial = some i
      ∧ i.factory? = if isMade p.1 then m.type.initial.factory? else none := by
  obtain ⟨⟨name, -, hm⟩, ht⟩ := h
  have hsome : m.type.initial.factory?.isSome
      = (p.1.field.shape = .collection || p.1.field.shape = .map) := ht.isSome_factory?
  rw [hm]
  unfold Member.ofEntry
  by_cases hp : (p.1.required || decide (m.type = .any)) = true
  · refine ⟨m.type.initial, by simp only [if_pos hp], ?_⟩
    cases hmade : isMade p.1 with
    | true => rfl
    | false =>
      rw [if_neg Bool.false_ne_true, ← Option.not_isSome_iff_eq_none, hsome]
      rcases Bool.or_eq_true_iff.mp hp with hrequired | hany
      · simpa [isMade, hrequired] using hmade
      · rw [← hsome, of_decide_eq_true hany]
        exact Bool.false_ne_true
  · refine ⟨.none, by simp only [if_neg hp], ?_⟩
    have hrequired : p.1.required = false :=
      Bool.eq_false_iff.mpr fun h => hp (Bool.or_eq_true_iff.mpr (.inl h))
    rw [isMade, hrequired, Bool.false_and, if_neg Bool.false_ne_true]
    rfl

theorem MemberFor.isSome_factory?_eq (h : MemberFor before n p m) {i : Initial}
    (hi : i.factory? = if isMade p.1 then m.type.initial.factory? else none) :
    i.factory?.isSome = isMade p.1 := by
  rw [hi]
  cases hmade : isMade p.1 with
  | false => rfl
  | true => exact h.type.isSome_factory?.trans (Bool.and_eq_true_iff.mp hmade).2

/-- The value of the attribute for an entry is a field specification if it is
made, or if the key has to be told. -/
theorem MemberFor.isSpecified_iff (h : MemberFor before n p m) :
    m.toAttribute.isSpecified = true ↔
      isMade p.1 = true ∨ Naming.snakeOf p.1.accessor ≠ .ok p.1.key := by
  obtain ⟨i, hinitial, hi⟩ := h.initial_eq
  rw [Attribute.isSpecified, h.represents.key_eq, h.represents.name_eq, hinitial]
  simp only [Option.any_some, h.isSome_factory?_eq hi, ne_eq, Json.str.injEq, Except.ok.injEq,
    Bool.or_eq_true, decide_eq_true_eq]
  rw [or_comm, eq_comm (a := p.1.key)]

/-- What makes the initial value of the attribute for an entry. -/
theorem MemberFor.exists_factory?_iff (h : MemberFor before n p m) :
    (∃ i ∈ m.toAttribute.initial, i.factory? = some x) ↔ isMade p.1 = true
      ∧ (p.1.field.shape = .collection ∧ x = "list"
        ∨ p.1.field.shape = .map ∧ x ∈ m.type.names) := by
  obtain ⟨i, hinitial, hi⟩ := h.initial_eq
  have hfactory : m.type.initial.factory? = some x ↔ p.1.field.shape = .collection ∧ x = "list"
      ∨ p.1.field.shape = .map ∧ x ∈ m.type.names := h.type.factory?_eq_some_iff
  rw [hinitial, ← hfactory]
  cases hmade : isMade p.1 <;> simp [hi, hmade]

/-- **The names that the attribute for an entry uses** are those that the
entry uses, and that of the record for it. -/
theorem MemberFor.mem_uses_iff (h : MemberFor before n p m) (hx : x ∈ fixedNames) :
    x ∈ m.toAttribute.uses ↔ x ∈ entryUses p.1 ∨ x ∈ m.type.names := by
  have htype : x ∈ m.toAttribute.type.uses ↔ x ∈ leafUses p.1.field ∨ x ∈ m.type.names := by
    rw [h.mem_uses_type (by rintro rfl; exact absurd hx (by decide))]
    exact h.type.mem_uses_iff (by rintro rfl; exact absurd hx (by decide))
  have hcollection : p.1.required = true ∧ p.1.field.shape = .collection ↔
      isMade p.1 = true ∧ p.1.field.shape = .collection := by
    refine and_congr_left fun hc => ?_
    simp [isMade, hc]
  rw [Attribute.mem_uses_iff, htype, h.isSpecified_iff, h.exists_factory?_iff]
  simp only [entryUses, List.mem_append, List.mem_ite_nil_right, List.mem_singleton,
    Bool.and_eq_true, Bool.or_eq_true, decide_eq_true_eq, hcollection]
  constructor
  · rintro ((hleaf | hname) | ⟨rfl, hspec⟩ | ⟨hm, ⟨hc, rfl⟩ | ⟨-, hname⟩⟩)
    · exact .inl (.inl (.inl hleaf))
    · exact .inr hname
    · exact .inl (.inr ⟨hspec, rfl⟩)
    · exact .inl (.inl (.inr ⟨⟨hm, hc⟩, rfl⟩))
    · exact .inr hname
  · rintro (((hleaf | ⟨⟨hm, hc⟩, rfl⟩) | ⟨hspec, rfl⟩) | hname)
    · exact .inl (.inl hleaf)
    · exact .inr (.inr ⟨hm, .inl ⟨hc, rfl⟩⟩)
    · exact .inr (.inl ⟨rfl, hspec⟩)
    · exact .inl (.inr hname)

/-- An attribute for an entry has a value. -/
theorem MemberFor.isSome_valueExpr? (h : MemberFor before n p m) :
    m.toAttribute.valueExpr?.isSome = true := by
  obtain ⟨i, hinitial, -⟩ := h.initial_eq
  unfold Attribute.valueExpr?
  split
  · rfl
  · rw [hinitial]
    rfl

/-! ## What a record captures -/

/-- Where there is one block for each node, **one type stands for a
node**. -/
theorem StandsFor.unique (hone : ∀ b ∈ before, ∀ c ∈ before, b.origin = c.origin → b = c)
    (ht : StandsFor before n t) (hu : StandsFor before n u) : t = u := by
  induction ht generalizing u with
  | empty => cases hu; rfl
  | scalar => cases hu; rfl
  | collection _ ih =>
    cases hu with
    | collection hu => rw [ih hu]
  | map _ hr =>
    cases hu with
    | map _ hr' =>
      obtain ⟨⟩ := hone _ hr _ hr' rfl
      rfl

/-- Only the records for maps are of account for what stands for a node. -/
theorem StandsFor.of_records (h : StandsFor before n t)
    (hsub : ∀ n r, ⟨.node n, .record r⟩ ∈ before → ⟨.node n, .record r⟩ ∈ blocks) :
    StandsFor blocks n t := by
  induction h with
  | empty => exact .empty
  | scalar => exact .scalar
  | collection _ ih => exact .collection ih
  | map hw hr => exact .map hw (hsub _ _ hr)

/-- **An entry uses a name** in the record for a node: it does itself, or
the record for it is called so. -/
def Uses (blocks : List Block) (n : Node) (p : Entry Field × Nat) (x : String) : Prop :=
  x ∈ entryUses p.1 ∨ ∃ t, StandsFor blocks (n.below p.2 p.1.field) t ∧ x ∈ t.names

/-- **The record for a map** has an attribute for each entry that is not
empty, and a paging accessor if it is a root that one is set out for. -/
theorem Made.exists_members {o : Outline} {r : Record} (h : Made o before ⟨.node n, .record r⟩) :
    ∃ own es members, n.field = .map own es
      ∧ List.Forall₂ (MemberFor before n) (listed 0 es) members
      ∧ r.attributes = members.map Member.toAttribute
      ∧ (r.paging.isSome = true ↔ n.way = [] ∧ (o.source n.root).isSome = true) := by
  cases h with
  | nested hf hw hm ha _ hp => exact ⟨_, _, _, hf, hm, ha, by simp [hp, hw]⟩
  | root hf hw hm ha _ _ hs _ =>
    exact ⟨_, _, _, hf, hm, ha, by simp [(mapM_pagingAccessor_eq_ok hs).1, hw]⟩

/-- Lists that match do so at each place. -/
theorem exists_of_getElem?_right {α β : Type} {R : α → β → Prop} {xs : List α} {ys : List β}
    {i : Nat} {y : β} (h : List.Forall₂ R xs ys) (hi : ys[i]? = some y) :
    ∃ x, xs[i]? = some x ∧ R x y := by
  induction h generalizing i with
  | nil => nomatch hi
  | @cons x _ _ _ hxy _ ih =>
    cases i with
    | zero =>
      obtain rfl := Option.some.inj hi
      exact ⟨x, rfl, hxy⟩
    | succ i => exact ih hi

/-- **What a record for a map captures**, by its members. -/
theorem captures_iff_listed {r : Record} {members : List Member} (hx : x ∈ fixedNames)
    (hone : ∀ b ∈ before, ∀ c ∈ before, b.origin = c.origin → b = c)
    (hm : List.Forall₂ (MemberFor before n) (listed 0 es) members)
    (hr : r.attributes = members.map Member.toAttribute) :
    r.Captures x ↔ ∃ (i j : Nat) (p q : Entry Field × Nat), i < j ∧ (listed 0 es)[i]? = some p
      ∧ (listed 0 es)[j]? = some q ∧ Naming.snakeOf p.1.accessor = .ok x
      ∧ Uses before n q x := by
  have hget : ∀ {i : Nat} {a : Attribute}, r.attributes[i]? = some a ↔
      ∃ m, members[i]? = some m ∧ m.toAttribute = a := by
    intro i a
    rw [hr, List.getElem?_map, Option.map_eq_some_iff]
  constructor
  · rintro ⟨i, j, b, a, hij, hb, ha, hname, -, huse⟩
    obtain ⟨m, hmi, rfl⟩ := hget.mp hb
    obtain ⟨l, hlj, rfl⟩ := hget.mp ha
    obtain ⟨p, hp, hpm⟩ := exists_of_getElem?_right hm hmi
    obtain ⟨q, hq, hql⟩ := exists_of_getElem?_right hm hlj
    refine ⟨i, j, p, q, hij, hp, hq, hname ▸ hpm.represents.name_eq, ?_⟩
    exact ((hql.mem_uses_iff hx).mp huse).imp_right fun h => ⟨_, hql.type, h⟩
  · rintro ⟨i, j, p, q, hij, hp, hq, hname, huse⟩
    obtain ⟨m, hmi, hpm⟩ := exists_of_getElem?_right hm.flip hp
    obtain ⟨l, hlj, hql⟩ := exists_of_getElem?_right hm.flip hq
    have hpm : MemberFor before n p m := hpm
    have hql : MemberFor before n q l := hql
    refine ⟨i, j, _, _, hij, hget.mpr ⟨m, hmi, rfl⟩, hget.mpr ⟨l, hlj, rfl⟩, ?_,
      hpm.isSome_valueExpr?, (hql.mem_uses_iff hx).mpr ?_⟩
    · exact Except.ok.inj (hpm.represents.name_eq.symm.trans hname)
    · refine huse.imp_right ?_
      rintro ⟨t, ht, hmem⟩
      rwa [hql.type.unique hone ht]

/-! ## Records of inferred schemas -/

/-- What a way leads to in a field that obeys a view obeys the view. -/
theorem obeys_at? {view : OverrideView} {name : Json} {path : String} {f g : Field}
    {way : List Nat} (h : Obeys view name path f) (hg : f.at? way = some g) :
    ∃ name' path', Obeys view name' path' g := by
  refine at?_induction (P := fun f => ∃ name path, Obeys view name path f) ?_ hg ⟨name, path, h⟩
  rintro f c i hc ⟨name, path, h⟩
  obtain ⟨_, rfl⟩ | ⟨_, _, rfl, e, he, rfl⟩ := child?_eq_some hc
  · cases h with
    | collection he => exact ⟨_, _, he⟩
  · cases h with
    | map _ _ _ hfields => exact ⟨_, _, hfields e he⟩

theorem shape_ne_empty_of_obeys {view : OverrideView} {name : Json} {path : String} {f : Field}
    (h : Obeys view name path f) : f.shape ≠ .empty := by
  cases h <;> simp [shape]

/-- All entries become attributes where none is empty. -/
theorem listed_eq_zipIdx (h : ∀ e ∈ es, e.field.shape ≠ .empty) : listed 0 es = es.zipIdx := by
  refine List.filter_eq_self.mpr fun p hp => ?_
  simpa using h p.1 (List.mem_of_getElem? (List.mk_mem_zipIdx_iff_getElem?.mp hp))

/-- In ordered entries the keys ascend with the places. -/
theorem lt_of_key_lt (ho : Ordered es) {d e : Entry Field} {i j : Nat} (hi : es[i]? = some d)
    (hj : es[j]? = some e) : d.key < e.key ↔ i < j := by
  obtain ⟨hi', rfl⟩ := List.getElem?_eq_some_iff.mp hi
  obtain ⟨hj', rfl⟩ := List.getElem?_eq_some_iff.mp hj
  have hpairs := List.pairwise_iff_getElem.mp ho
  refine ⟨fun hlt => ?_, hpairs i j hi' hj'⟩
  rcases Nat.lt_trichotomy i j with hij | rfl | hji
  · exact hij
  · exact absurd hlt (String.lt_irrefl _)
  · exact absurd (String.lt_trans hlt (hpairs j i hj' hi' hji)) (String.lt_irrefl _)

/-- **What a record captures** where the entries of its map are ordered: a
name that the attribute of one entry has, and another entry with a greater
key uses. -/
theorem captures_iff_ordered {r : Record} {members : List Member} (hx : x ∈ fixedNames)
    (hone : ∀ b ∈ before, ∀ c ∈ before, b.origin = c.origin → b = c) (ho : Ordered es)
    (hfull : ∀ e ∈ es, e.field.shape ≠ .empty)
    (hm : List.Forall₂ (MemberFor before n) (listed 0 es) members)
    (hr : r.attributes = members.map Member.toAttribute) :
    r.Captures x ↔ ∃ d ∈ es, ∃ q ∈ es.zipIdx, d.key < q.1.key
      ∧ Naming.snakeOf d.accessor = .ok x ∧ Uses before n q x := by
  have hplace : ∀ {i : Nat} {p : Entry Field × Nat},
      es.zipIdx[i]? = some p ↔ es[i]? = some p.1 ∧ p.2 = i := by
    rintro i ⟨e, j⟩
    rw [List.getElem?_zipIdx, Option.map_eq_some_iff]
    simp [eq_comm]
  rw [captures_iff_listed hx hone hm hr, listed_eq_zipIdx hfull]
  constructor
  · rintro ⟨i, j, p, q, hij, hp, hq, hname, huse⟩
    refine ⟨p.1, List.mem_of_getElem? (hplace.mp hp).1, q, List.mem_of_getElem? hq, ?_, hname,
      huse⟩
    exact (lt_of_key_lt ho (hplace.mp hp).1 (hplace.mp hq).1).mpr hij
  · rintro ⟨d, hd, ⟨e, j⟩, hq, hlt, hname, huse⟩
    obtain ⟨i, hi⟩ := List.getElem?_of_mem hd
    have hj : es[j]? = some e := List.mk_mem_zipIdx_iff_getElem?.mp hq
    exact ⟨i, j, (d, i), (e, j), (lt_of_key_lt ho hi hj).mp hlt, hplace.mpr ⟨hi, rfl⟩,
      hplace.mpr ⟨hj, rfl⟩, hname, huse⟩

/-- **What a record hides**: it has a paging accessor, and the attribute of
an entry is called like that. -/
theorem hidesAttribute_iff {r : Record} {members : List Member}
    (hfull : ∀ e ∈ es, e.field.shape ≠ .empty)
    (hm : List.Forall₂ (MemberFor before n) (listed 0 es) members)
    (hr : r.attributes = members.map Member.toAttribute) :
    r.HidesAttribute ↔ r.paging.isSome = true
      ∧ ∃ e ∈ es, Naming.snakeOf e.accessor = .ok accessorName := by
  refine and_congr_right fun _ => ?_
  rw [listed_eq_zipIdx hfull] at hm
  constructor
  · rintro ⟨a, ha, hname⟩
    rw [hr, List.mem_map] at ha
    obtain ⟨m, hmem, rfl⟩ := ha
    obtain ⟨⟨e, i⟩, hp, hpm⟩ := exists_of_mem_right hm hmem
    exact ⟨e, List.mem_of_getElem? (List.mk_mem_zipIdx_iff_getElem?.mp hp),
      hname ▸ hpm.represents.name_eq⟩
  · rintro ⟨e, he, hname⟩
    obtain ⟨i, hi⟩ := List.getElem?_of_mem he
    obtain ⟨m, hmem, hpm⟩ :=
      exists_of_mem_right hm.flip (List.mk_mem_zipIdx_iff_getElem?.mpr hi)
    have hpm : MemberFor before n (e, i) m := hpm
    refine ⟨m.toAttribute, hr ▸ List.mem_map_of_mem hmem, ?_⟩
    exact Except.ok.inj (hpm.represents.name_eq.symm.trans hname)

/-- **Names in the scope of a record.** Of an inferred schema, the record for
a map captures a fixed name exactly if the attribute of an entry is called so
and an entry with a greater key uses the name. It hides an attribute behind
its paging accessor exactly if it is the record for the root, has such an
accessor, and an entry is called like it. -/
theorem rootOf_captures_iff (view : OverrideView) (own example_ : Json) (tree : Field)
    (hinfer : (infer view own example_).outcome = .ok tree) (name description : String)
    (source : Option PagingSource) (draft after : Draft.State) (definitions : List Definition)
    (h : (rootOf name description source tree).perform draft = (.ok definitions, after)) :
    ∃ blocks : List Block, blocks.map Block.definition = definitions
      ∧ blocks.map Block.origin = (nodesOf ⟨0, .response⟩ tree).map .node
      ∧ ∀ n r, ⟨.node n, .record r⟩ ∈ blocks → ∃ label es, n.field = .map label es
        ∧ (∀ x ∈ fixedNames, r.Captures x ↔ ∃ d ∈ es, ∃ q ∈ es.zipIdx, d.key < q.1.key
          ∧ Naming.snakeOf d.accessor = .ok x ∧ Uses blocks n q x)
        ∧ (r.HidesAttribute ↔ n.way = [] ∧ source.isSome = true
          ∧ ∃ e ∈ es, Naming.snakeOf e.accessor = .ok accessorName) := by
  obtain ⟨blocks, hd, ho, hadds⟩ := rootOf_adds (o := ⟨fun _ => name, fun _ => source⟩)
    [pagingBlock] ⟨0, .response⟩ h rfl rfl (by simp)
  have hone : ∀ b ∈ blocks, ∀ c ∈ blocks, b.origin = c.origin → b = c := by
    have hnodup : (blocks.map Block.origin).Nodup :=
      ho ▸ nodup_nodesOf.map fun _ _ h => Origin.node.inj h
    exact fun b hb c hc heq => List.inj_on_of_nodup_map hnodup hb hc heq
  refine ⟨blocks, hd, ho, fun n r hr => ?_⟩
  have hn : n ∈ nodesOf ⟨0, .response⟩ tree := by
    have hmem : Origin.node n ∈ (nodesOf ⟨0, .response⟩ tree).map .node :=
      ho ▸ List.mem_map_of_mem hr
    obtain ⟨m, hm, heq⟩ := List.mem_map.mp hmem
    exact Origin.node.inj heq ▸ hm
  obtain ⟨_, _, hobeys⟩ := obeys_at? (infer_obeys hinfer) (mem_nodesOf_iff.mp hn).2.1
  obtain ⟨before, hsub, hmade⟩ := hadds.built.made_of_mem hr
  obtain ⟨label, es, members, hfield, hm, hattributes, hpaging⟩ := hmade.exists_members
  have hm : List.Forall₂ (MemberFor blocks n) (listed 0 es) members := by
    refine hm.imp fun _ _ h => ⟨h.made, h.type.of_records fun k q hq => ?_⟩
    exact (List.mem_append.mp (hsub hq)).resolve_left (by simp [pagingBlock])
  rw [hfield] at hobeys
  cases hobeys with
  | map hordered _ _ hfields =>
    have hfull : ∀ e ∈ es, e.field.shape ≠ .empty :=
      fun e he => shape_ne_empty_of_obeys (hfields e he)
    refine ⟨_, es, hfield, ?_, ?_⟩
    · exact fun x hx => captures_iff_ordered hx hone hordered hfull hm hattributes
    · rw [hidesAttribute_iff hfull hm hattributes, hpaging, and_assoc]

open Inference in
/-- **An attribute that is lost**: a key that names the attribute like the
paging accessor, in a response whose position is found. -/
theorem rootOf_captures_iff_get_paging :
    let page : Json := .obj [("get_paging", .int 1), ("paging", .obj [("total", .int 3)])]
    let position : Field :=
      .map (.str "Paging") [⟨"total", .str "Total", .scalar (.str "Total") .number, true⟩]
    let es : List (Entry Field) := [
      ⟨"get_paging", .str "GetPaging", .scalar (.str "GetPaging") .number, true⟩,
      ⟨"paging", .str "Paging", position, true⟩]
    let tree : Field := .map (.str "SearchResponse") es
    let source : PagingSource := .nested (.str "Paging") position
    (infer .empty (.str "SearchResponse") page).outcome = .ok tree
    ∧ (Paging.source? tree).outcome = .ok (some source)
    ∧ ∃ definitions after, (rootOf "SearchResponse" "" (some source) tree).perform {}
        = (.ok definitions, after)
      ∧ (∃ e ∈ es, Naming.snakeOf e.accessor = .ok accessorName)
      ∧ ∃ blocks : List Block, blocks.map Block.definition = definitions
        ∧ blocks.map Block.origin = (nodesOf ⟨0, .response⟩ tree).map .node
        ∧ ∀ n r, ⟨.node n, .record r⟩ ∈ blocks → ∃ label es, n.field = .map label es
          ∧ (∀ x ∈ fixedNames, r.Captures x ↔ ∃ d ∈ es, ∃ q ∈ es.zipIdx, d.key < q.1.key
            ∧ Naming.snakeOf d.accessor = .ok x ∧ Uses blocks n q x)
          ∧ (r.HidesAttribute ↔ n.way = [] ∧ (some source).isSome = true
            ∧ ∃ e ∈ es, Naming.snakeOf e.accessor = .ok accessorName) := by
  intro page position es tree source
  have hget : Naming.toCamel "get_paging" = "GetPaging" := rfl
  have hpaging : Naming.toCamel "paging" = "Paging" := rfl
  have htotal : Naming.toCamel "total" = "Total" := rfl
  have hinfer : (infer .empty (.str "SearchResponse") page).outcome = .ok tree := by
    rw [OverrideView.empty, outcome_infer rfl (paths_nil ..)]
    simp +decide [page, position, es, tree, nestingRoom, inferValue, inferMembers, inKeyOrder,
      List.mergeSort, Run.sequence, ofEntries_of_ordered, Except.bind, Except.mapError, hget,
      hpaging, htotal]
  refine ⟨hinfer, rfl, _, _, rfl, ⟨_, List.mem_cons_self, by decide +kernel⟩, ?_⟩
  exact rootOf_captures_iff .empty _ page tree hinfer _ _ (some source) {} _ _ rfl

open Inference in
/-- **A key that changes what its neighbours mean**: the annotation of the
second attribute is the text that the first one is. -/
theorem rootOf_captures_str :
    let response : Json := .obj [("str", .str "a"), ("title", .str "b")]
    let tree : Field := .map (.str "ShowResponse") [
      ⟨"str", .str "Str", .scalar (.str "Str") .string, true⟩,
      ⟨"title", .str "Title", .scalar (.str "Title") .string, true⟩]
    (infer .empty (.str "ShowResponse") response).outcome = .ok tree
    ∧ ∃ r after, (rootOf "ShowResponse" "" none tree).perform {} = (.ok [.record r], after)
      ∧ r.attributes.map Attribute.line = ["    str: str = \"\"", "    title: str = \"\""]
      ∧ r.Captures "str" := by
  intro response tree
  have hstr : Naming.toCamel "str" = "Str" := rfl
  have htitle : Naming.toCamel "title" = "Title" := rfl
  have hinfer : (infer .empty (.str "ShowResponse") response).outcome = .ok tree := by
    rw [OverrideView.empty, outcome_infer rfl (paths_nil ..)]
    simp +decide [response, tree, nestingRoom, inferValue, inferMembers, inKeyOrder, List.mergeSort,
      Run.sequence, ofEntries_of_ordered, Except.bind, Except.mapError, hstr, htitle]
  refine ⟨hinfer, _, _, rfl, ?_, 0, 1, _, _, Nat.zero_lt_one, rfl, rfl, ?_⟩
  · decide +kernel
  · decide +kernel

end Exemplar.Code
