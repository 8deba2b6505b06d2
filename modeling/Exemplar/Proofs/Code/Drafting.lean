import Exemplar.Code.Module
import Exemplar.Proofs.Effect

/-!
# What a draft has done

A draft that has a result got it step by step, and each step left the names that are
taken in a state of its own. What these steps were is said here once for every kind of
draft, so that no proof about the records of a response opens the drafts again. Where
a draft has to claim a name, the name and the state behind it are told, since all
later names depend on them.
-/

namespace Exemplar.Code

open Exemplar.Field

variable {es : List (Entry Field)} {e : Entry Field} {f : Field} {st st' : Draft.State}
  {name : String} {t : TypeExpr} {records : List Record} {members : List Member}
  {owner : String} {seen : List (String × Json)} {definitions : List Definition}

/-! ## Fields -/

/-- **An entry without a schema** is left out of a draft of members. -/
theorem membersOf_cons_of_empty (h : e.field.shape = .empty) :
    membersOf owner seen (e :: es) = membersOf owner seen es := by
  obtain ⟨_, _, _, _⟩ := e
  rw [membersOf, if_pos h]

/-- **Any other entry** gets a name that no attribute before it has, then its type and the
records for its field, and a member with both; the other entries follow. -/
theorem membersOf_cons_eq_ok (hfull : e.field.shape ≠ .empty)
    (h : (membersOf owner seen (e :: es)).perform st = (.ok (members, records), st')) :
    ∃ name t first u more later, Naming.snakeOf e.accessor = .ok name ∧ seen.lookup name = none
      ∧ (typeOf (owner ++ e.accessor.display) e.field).perform st = (.ok (t, first), u)
      ∧ (membersOf owner (seen ++ [(name, e.accessor)]) es).perform u = (.ok (more, later), st')
      ∧ members = Member.ofEntry e t name :: more ∧ records = first ++ later := by
  obtain ⟨key, accessor, field, required⟩ := e
  rw [membersOf, if_neg hfull] at h
  simp only [Effect.perform_bind_eq_ok_iff, Effect.perform_ofExcept_eq_ok_iff] at h
  obtain ⟨name, _, ⟨hname, rfl⟩, h⟩ := h
  cases hseen : seen.lookup name with
  | some other =>
    rw [hseen] at h
    simp at h
  | none =>
    rw [hseen] at h
    simp only [Effect.perform_bind_eq_ok_iff, Effect.perform_pure_eq_ok_iff] at h
    obtain ⟨⟨t, first⟩, u, hfirst, ⟨more, later⟩, _, hmore, heq, rfl⟩ := h
    obtain ⟨rfl, rfl⟩ := Prod.mk.inj heq
    exact ⟨name, t, first, u, more, later, hname, hseen, hfirst, hmore, rfl, rfl⟩

/-- Where there are no entries, there are no members. -/
theorem membersOf_nil_eq_ok
    (h : (membersOf owner seen []).perform st = (.ok (members, records), st')) :
    members = [] ∧ records = [] ∧ st = st' := by
  rw [membersOf, Effect.perform_pure_eq_ok_iff, Prod.mk.injEq] at h
  obtain ⟨⟨rfl, rfl⟩, rfl⟩ := h
  exact ⟨rfl, rfl, rfl⟩

/-- **A collection** is a list of what its element is. -/
theorem typeOf_collection_eq_ok {own : Json}
    (h : (typeOf name (.collection own f)).perform st = (.ok (t, records), st')) :
    ∃ item, (typeOf name f).perform st = (.ok (item, records), st') ∧ t = .list item := by
  rw [typeOf] at h
  simp only [Effect.perform_bind_eq_ok_iff, Effect.perform_pure_eq_ok_iff] at h
  obtain ⟨⟨item, inner⟩, _, hinner, heq, rfl⟩ := h
  obtain ⟨rfl, rfl⟩ := Prod.mk.inj heq
  exact ⟨item, hinner, rfl⟩

/-- The record for a map that is no root, given its name and its members. -/
def nestedRecord (unique : String) (own : Json) (members : List Member) : Record :=
  Record.mk unique s!"{unique} is part of {own.display}" (members.map Member.toAttribute) none

/-- **A map** claims a name for its record, and its members are drafted with that name
taken. -/
theorem typeOf_map_eq_ok {own : Json}
    (h : (typeOf name (.map own es)).perform st = (.ok (t, records), st')) :
    ∃ u members inner, u.taken = freshName st.taken name :: st.taken
      ∧ (membersOf (freshName st.taken name) [] es).perform u = (.ok (members, inner), st')
      ∧ t = .named (freshName st.taken name)
      ∧ records = inner ++ [nestedRecord (freshName st.taken name) own members] := by
  rw [typeOf] at h
  simp only [Effect.perform_bind_eq_ok_iff, Effect.perform_pure_eq_ok_iff,
    Draft.perform_claim, Prod.mk.injEq, Except.ok.injEq] at h
  obtain ⟨_, u, ⟨rfl, rfl⟩, ⟨members, inner⟩, _, hmembers, ⟨rfl, rfl⟩, rfl⟩ := h
  exact ⟨_, members, inner, rfl, hmembers, rfl, rfl⟩

/-! ## Roots -/

variable {description : String} {source : Option PagingSource}

/-- **A root that is a collection** takes its name, and is a synonym for a list. -/
theorem rootOf_collection_eq_ok {own : Json}
    (h : (rootOf name description source (.collection own f)).perform st
      = (.ok definitions, st')) :
    ∃ u item records, u.taken = name :: st.taken
      ∧ (typeOf (name ++ "Item") f).perform u = (.ok (item, records), st')
      ∧ definitions = records.map .record ++ [.synonym name description (.list item)] := by
  rw [rootOf] at h
  simp only [Effect.perform_bind_eq_ok_iff, Effect.perform_pure_eq_ok_iff,
    Draft.perform_take, Prod.mk.injEq] at h
  obtain ⟨_, u, ⟨-, rfl⟩, ⟨item, records⟩, _, htype, rfl, rfl⟩ := h
  exact ⟨_, item, records, rfl, htype, rfl⟩

/-- **A root that is a map** takes its name, and is a record, with a paging accessor if
there is a source for one. -/
theorem rootOf_map_eq_ok {own : Json}
    (h : (rootOf name description source (.map own es)).perform st = (.ok definitions, st')) :
    ∃ u members records paging, u.taken = name :: st.taken
      ∧ (membersOf name [] es).perform u = (.ok (members, records), st')
      ∧ source.mapM (pagingAccessor members) = .ok paging
      ∧ definitions = records.map .record ++ [.record (Record.mk name description
        (members.map Member.toAttribute) paging)] := by
  rw [rootOf] at h
  simp only [Effect.perform_bind_eq_ok_iff, Effect.perform_pure_eq_ok_iff,
    Effect.perform_ofExcept_eq_ok_iff, Draft.perform_take, Prod.mk.injEq] at h
  obtain ⟨_, u, ⟨-, rfl⟩, ⟨members, records⟩, _, hmembers, paging, _, ⟨hp, rfl⟩, rfl, rfl⟩ := h
  exact ⟨_, members, records, paging, rfl, hmembers, hp, by simp⟩

/-- **A root that is a scalar** takes its name, and is a synonym. -/
theorem rootOf_scalar_eq_ok {own : Json} {kind : Kind}
    (h : (rootOf name description source (.scalar own kind)).perform st = (.ok definitions, st')) :
    st'.taken = name :: st.taken
      ∧ definitions = [.synonym name description (.ofKind kind)] := by
  rw [rootOf] at h
  simp only [Effect.perform_bind_eq_ok_iff, Effect.perform_pure_eq_ok_iff,
    Draft.perform_take, Prod.mk.injEq] at h
  obtain ⟨_, u, ⟨-, rfl⟩, rfl, rfl⟩ := h
  exact ⟨rfl, rfl⟩

/-! ## Actions -/

variable {a : ActionSchema}

/-- The definitions for the payload of an action, if there is to be one. -/
def payloadDefinitions (a : ActionSchema) : Draft (List Definition) :=
  if a.projection.isSupported then
    rootOf a.action.payloadName
      s!"{a.action.payloadName} is the collection for {a.action.requestName}" none
      (a.projection.payload.getD .absent)
  else pure []

/-- The definitions of an action, one part after the other. -/
theorem actionDefinitions_eq (a : ActionSchema) : actionDefinitions a = (do
    Draft.take (rootNames a.action)
    let request ← Effect.ofExcept a.action.request
    let response ← rootOf a.action.responseName
      s!"{a.action.responseName} is the response for {a.action.requestName}"
      (if a.projection.isSupported then a.projection.source else none) a.response
    let payload ← payloadDefinitions a
    pure (.record request :: response ++ payload)) := by
  unfold actionDefinitions payloadDefinitions
  cases a.projection.isSupported <;> rfl

/-- **An action** takes the names of its roots, and its request, its response and its payload
are drafted in this order. -/
theorem actionDefinitions_eq_ok
    (h : (actionDefinitions a).perform st = (.ok definitions, st')) :
    ∃ u v request response payload, u.taken = rootNames a.action ++ st.taken
      ∧ a.action.request = .ok request
      ∧ (rootOf a.action.responseName
        s!"{a.action.responseName} is the response for {a.action.requestName}"
        (if a.projection.isSupported then a.projection.source else none) a.response).perform u
          = (.ok response, v)
      ∧ (payloadDefinitions a).perform v = (.ok payload, st')
      ∧ definitions = .record request :: response ++ payload := by
  rw [actionDefinitions_eq] at h
  simp only [Effect.perform_bind_eq_ok_iff, Effect.perform_pure_eq_ok_iff,
    Effect.perform_ofExcept_eq_ok_iff, Draft.perform_take, Prod.mk.injEq] at h
  obtain ⟨_, u, ⟨-, rfl⟩, request, _, ⟨hrequest, rfl⟩, response, v, hresponse, payload, _,
    hpayload, rfl, rfl⟩ := h
  exact ⟨_, v, request, response, payload, rfl, hrequest, hresponse, hpayload, rfl⟩

/-- **Several actions** are drafted one after the other. -/
theorem allDefinitions_cons_eq_ok {actions : List ActionSchema}
    (h : (allDefinitions (a :: actions)).perform st = (.ok definitions, st')) :
    ∃ first u rest, (actionDefinitions a).perform st = (.ok first, u)
      ∧ (allDefinitions actions).perform u = (.ok rest, st') ∧ definitions = first ++ rest := by
  rw [allDefinitions] at h
  simp only [Effect.perform_bind_eq_ok_iff, Effect.perform_pure_eq_ok_iff] at h
  obtain ⟨first, u, hfirst, rest, _, hrest, rfl, rfl⟩ := h
  exact ⟨first, u, rest, hfirst, hrest, rfl⟩

/-! ## Services -/

variable {s : ServiceSchema}

/-- **A service** takes the name of the record for flattened positions, if that is needed, and
the names of the roots; the actions that did not fail are drafted behind that record. -/
theorem serviceDefinitions_eq_ok
    (h : (serviceDefinitions s).perform st = (.ok definitions, st')) :
    ∃ u v drafted rest,
      u.taken = (if needsPagingRecord s then [pagingRecordName] else []) ++ st.taken
      ∧ (takeRoots s s.actions).perform u = (.ok drafted, v)
      ∧ (allDefinitions drafted).perform v = (.ok rest, st')
      ∧ definitions = (if needsPagingRecord s then [.record pagingRecord] else []) ++ rest := by
  unfold serviceDefinitions at h
  simp only [Effect.perform_bind_eq_ok_iff, Effect.perform_pure_eq_ok_iff, Draft.perform_take,
    Prod.mk.injEq] at h
  obtain ⟨_, _, ⟨-, rfl⟩, drafted, v, hdrafted, rest, _, hrest, rfl, rfl⟩ := h
  refine ⟨_, v, drafted, rest, ?_, hdrafted, hrest, ?_⟩
  · cases needsPagingRecord s <;> rfl
  · cases needsPagingRecord s <;> rfl

/-- **A module** is the text of the definitions of its service. -/
theorem serviceModule_eq_ok {text : String}
    (h : (serviceModule s).perform st = (.ok text, st')) :
    ∃ definitions u, (serviceDefinitions s).perform u = (.ok definitions, st')
      ∧ text = moduleText s.service definitions := by
  unfold serviceModule at h
  simp only [Effect.perform_bind_eq_ok_iff, Effect.perform_pure_eq_ok_iff,
    Draft.perform_release, Prod.mk.injEq] at h
  obtain ⟨_, u, ⟨-, -⟩, definitions, _, hdefinitions, rfl, rfl⟩ := h
  exact ⟨definitions, u, hdefinitions, rfl⟩

end Exemplar.Code
