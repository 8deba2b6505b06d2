import Exemplar.Proofs.Code.Attributes
import Exemplar.Proofs.Code.Titles
import Exemplar.Proofs.Learner
import Exemplar.Proofs.Paging

/-!
# Accessors of positions

The record for a paged response has an accessor that gives the position in the
pages. What the accessor reads is worked out in three places: its source is found
in the schema, by accessor or by key; the attributes that it reads are called after
the accessors of the source; and its type is that of a member of the record. They
agree (`Gives`), since in a schema that was learned an accessor belongs to one
entry, and every entry has an attribute.

Whether a module needs the record for flattened positions is decided before
anything is drafted, and over all actions, those that failed included. A failed one
does not count, as its position was never found. So the record is there exactly if
an accessor makes one (`serviceModule_paging`).
-/

namespace Exemplar.Code

open Exemplar.Field Exemplar.Inference

variable {s : ServiceSchema} {a : ActionSchema} {own : Json} {es : List (Entry Field)}
  {e : Entry Field} {source : PagingSource} {accessor : PagingAccessor} {blocks before : List Block}
  {b : Block} {n : Node} {r : Record} {members : List Member} {m : Member} {i : Nat}
  {name : String} {st st' : Draft.State}

/-! ## Actions that are paged -/

/-- **An action with a position in its pages**: nothing went wrong with it, its
response is a map as the inference builds them, and the position was found there. -/
structure Paged (a : ActionSchema) (own : Json) (es : List (Entry Field))
    (source : PagingSource) : Prop where
  problem_eq : a.problem = none
  response_eq : a.response = .map own es
  ordered : Ordered es
  unambiguous : Unambiguous es
  full : ∀ e ∈ es, e.field.shape ≠ .empty
  isSupported : a.projection.isSupported = true
  source_eq : a.projection.source = some source
  found : (Paging.source? (.map own es)).outcome = .ok (some source)

/-- **An entry is read** by the name of an attribute: it is the only one with its
accessor, and the attribute of that name is the one for it, with a type that stands
for its field. -/
structure Reads (blocks : List Block) (n : Node) (es : List (Entry Field))
    (attributes : List Attribute) (e : Entry Field) (t : TypeExpr) (name : String) : Prop where
  name_eq : Naming.snakeOf e.accessor = .ok name
  mem : attributeFor e t name ∈ attributes
  type : ∃ i, (e, i) ∈ listed 0 es ∧ StandsFor blocks (n.below i e.field) t
  only : ∀ d ∈ es, d.accessor.key = e.accessor.key → d = e

/-- **What a paging accessor gives** of the map at a node, and for which source: the
entry that a nested source refers to, with the type of its attribute, or what is put
together from the three entries that a flattened source refers to. -/
inductive Gives (blocks : List Block) (n : Node) (es : List (Entry Field))
    (attributes : List Attribute) : PagingSource → PagingAccessor → Prop where
  | nested {e : Entry Field} {t : TypeExpr} {name : String} :
      e.accessor = .str Paging.nestedAccessor → Reads blocks n es attributes e t name →
      Gives blocks n es attributes (.nested e.accessor e.field) (.nested t name)
  | flattened {p ps total : Entry Field} {t t' t'' : TypeExpr} {index size sum : String} :
      p.key = Paging.indexKey → ps.key = Paging.sizeKey → total.key = Paging.totalKey →
      Reads blocks n es attributes p t index → Reads blocks n es attributes ps t' size →
      Reads blocks n es attributes total t'' sum →
      Gives blocks n es attributes (.flattened p.accessor ps.accessor total.accessor)
        (.flattened index size sum)

/-- An entry of a map without empty fields has a member. -/
theorem exists_member (hfull : ∀ e ∈ es, e.field.shape ≠ .empty)
    (hm : List.Forall₂ (MemberFor blocks n) (listed 0 es) members) (he : e ∈ es) :
    ∃ m ∈ members, m.accessor = e.accessor := by
  obtain ⟨i, hi⟩ := List.getElem?_of_mem he
  have hlisted : (e, i) ∈ listed 0 es :=
    List.mem_filter.mpr ⟨List.mk_mem_zipIdx_iff_getElem?.mpr hi, by simpa using hfull e he⟩
  obtain ⟨m, hmem, hmade⟩ := exists_of_mem_right hm.flip hlisted
  exact ⟨m, hmem, hmade.accessor_eq⟩

/-- **A member with the accessor of an entry** has the attribute that the entry is
read by. -/
theorem Paged.reads (h : Paged a own es source)
    (hm : List.Forall₂ (MemberFor blocks n) (listed 0 es) members) (he : e ∈ es)
    (hmem : m ∈ members) (haccessor : m.accessor = e.accessor)
    (hname : Naming.snakeOf e.accessor = .ok name) :
    Reads blocks n es (members.map Member.toAttribute) e m.type name := by
  have honly : ∀ d ∈ es, d.accessor.key = e.accessor.key → d = e :=
    fun d hd hkey => eq_of_accessor_key_eq h.ordered h.unambiguous hd he hkey
  obtain ⟨⟨d, i⟩, hlisted, hmade⟩ := exists_of_mem_right hm hmem
  have hd : d ∈ es :=
    List.mem_of_getElem? (List.mk_mem_zipIdx_iff_getElem?.mp (List.mem_of_mem_filter hlisted))
  obtain rfl : d = e := honly d hd (by rw [← haccessor, hmade.accessor_eq])
  obtain ⟨name', hname', hattribute⟩ := hmade.toAttribute_eq (h.full d hd)
  obtain rfl : name' = name := Except.ok.inj (hname'.symm.trans hname)
  exact ⟨hname, hattribute ▸ List.mem_map_of_mem hmem, ⟨i, hlisted, hmade.type⟩, honly⟩

/-- **The accessor made for a source** gives what the source refers to. -/
theorem Paged.gives (h : Paged a own es source)
    (hm : List.Forall₂ (MemberFor blocks n) (listed 0 es) members)
    (haccessor : pagingAccessor members source = .ok accessor) :
    Gives blocks n es (members.map Member.toAttribute) source accessor := by
  have hread : ∀ e ∈ es, ∀ name, Naming.snakeOf e.accessor = .ok name →
      ∃ t, Reads blocks n es (members.map Member.toAttribute) e t name := by
    intro e he name hname
    obtain ⟨m, hmem, hacc⟩ := exists_member h.full hm he
    exact ⟨m.type, h.reads hm he hmem hacc hname⟩
  rcases Paging.source?_map_eq_some h.found with ⟨e, he, hacc, rfl⟩
    | ⟨-, p, hp, ps, hps, total, htotal, hpk, hpsk, htk, rfl⟩
  · obtain ⟨name, hname, rfl⟩ := pagingAccessor_nested_eq_ok haccessor
    -- The member that is looked up is there, so the type is that of an attribute.
    obtain ⟨m, hmem, hmacc⟩ := exists_member h.full hm he
    have hsome : (members.find? (·.accessor = e.accessor)).isSome = true :=
      List.find?_isSome.mpr ⟨m, hmem, by simpa using hmacc⟩
    obtain ⟨found, hfound⟩ := Option.isSome_iff_exists.mp hsome
    rw [hfound]
    exact .nested hacc (h.reads hm he (List.mem_of_find?_eq_some hfound)
      (by simpa using List.find?_some hfound) hname)
  · obtain ⟨index, size, sum, hindex, hsize, hsum, rfl⟩ := pagingAccessor_flattened_eq_ok haccessor
    obtain ⟨_, hindex⟩ := hread p hp index hindex
    obtain ⟨_, hsize⟩ := hread ps hps size hsize
    obtain ⟨_, hsum⟩ := hread total htotal sum hsum
    exact .flattened hpk hpsk htk hindex hsize hsum

/-- The accessor of a root gives what its source refers to. -/
theorem Made.gives (hmade : Made (outline s) before ⟨.node n, .record r⟩) (hsub : before ⊆ blocks)
    (hpaged : Paged a own es source) (hfield : n.field = .map own es)
    (hsource : (outline s).source n.root = some source) (haccessor : r.paging = some accessor) :
    (r.attributes.map Attribute.name).Nodup ∧ Gives blocks n es r.attributes source accessor := by
  cases hmade with
  | nested _ _ _ _ _ hp => nomatch hp.symm.trans haccessor
  | root hf _ hm ha hd _ hs _ =>
    obtain ⟨rfl, rfl⟩ := Field.map.inj (hf.symm.trans hfield)
    obtain ⟨-, hgiven⟩ := mapM_pagingAccessor_eq_ok hs
    obtain ⟨p, hp, hmake⟩ := hgiven accessor haccessor
    obtain rfl : p = source := Option.some.inj (hp.symm.trans hsource)
    exact ⟨hd, ha ▸ hpaged.gives (hm.imp fun _ _ h => h.mono hsub) hmake⟩

/-! ## Accessors of a module -/

end Exemplar.Code
