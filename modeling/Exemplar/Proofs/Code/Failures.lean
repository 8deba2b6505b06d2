import Exemplar.Proofs.Code.Nested

/-!
# How modules fail

Drafting an action fails or not, and how it fails, whatever names are taken when
it begins: the names decide what records are called, and nothing else. So every
action has a failure of its own, or none (`actionFault?`), and the actions drafted
before it cannot change that. A module holds the definitions of all actions that
did not fail before, or is not drafted at all: it fails as the first of its
actions that fails on its own (`endsIn_serviceModule`).
-/

namespace Exemplar.Code

open Exemplar.Field

variable {α β : Type} {r r' : Option Fault} {s : ServiceSchema} {a : ActionSchema}

/-! ## Drafts that end in one way -/

/-- The failure of a result, if it is one. -/
def fault? : Except Fault α → Option Fault
  | .ok _ => none
  | .error f => some f

/-- **A draft that ends in one way**: in whatever state it begins, it fails with
the given failure, or, if there is none, has a result. -/
def EndsIn (r : Option Fault) (d : Draft α) : Prop := ∀ st, fault? (d.perform st).1 = r

namespace EndsIn

protected theorem pure (a : α) : EndsIn none (pure a : Draft α) := fun _ => rfl

protected theorem throw (f : Fault) : EndsIn (some f) (throw f : Draft α) := fun _ => rfl

protected theorem take (names : List String) : EndsIn none (Draft.take names) := fun _ => rfl

protected theorem say (level : Notice.Level) (text : String) :
    EndsIn none (Draft.say level text) := fun _ => rfl

protected theorem release : EndsIn none Draft.release := fun _ => rfl

protected theorem claim (name : String) : EndsIn none (Draft.claim name) := fun _ => rfl

protected theorem ofExcept (x : Except Fault α) :
    EndsIn (fault? x) (Effect.ofExcept x : Draft α) := by
  intro st
  rw [Effect.perform_ofExcept]

/-- **One draft after another** ends as the first one does, if that fails, and
otherwise as the second one, given a result of the first. -/
theorem bind_of_ok {d : Draft α} {next : α → Draft β} (hd : EndsIn r d)
    (hnext : ∀ st a st', d.perform st = (.ok a, st') → EndsIn r' (next a)) :
    EndsIn (r.or r') (d >>= next) := by
  intro st
  have hr := hd st
  rw [Effect.perform_bind]
  rcases hperform : d.perform st with ⟨x, st'⟩
  rw [hperform] at hr
  subst hr
  cases x with
  | error f => rfl
  | ok a => exact hnext st a st' hperform st'

protected theorem bind {d : Draft α} {next : α → Draft β} (hd : EndsIn r d)
    (hnext : ∀ a, EndsIn r' (next a)) : EndsIn (r.or r') (d >>= next) :=
  hd.bind_of_ok fun _ a _ _ => hnext a

/-- A draft behind a known result. -/
theorem ofExcept_bind {x : Except Fault α} {a : α} {next : α → Draft β} (hx : x = .ok a)
    (hnext : EndsIn r (next a)) : EndsIn r (Effect.ofExcept x >>= next) := by
  intro st
  rw [Effect.perform_bind, Effect.perform_ofExcept, hx]
  exact hnext st

/-- A draft behind a known failure. -/
theorem ofExcept_bind_error {x : Except Fault α} {f : Fault} {next : α → Draft β}
    (hx : x = .error f) : EndsIn (some f) (Effect.ofExcept x >>= next) := by
  intro st
  rw [Effect.perform_bind, Effect.perform_ofExcept, hx]
  rfl

/-- A draft that fails with nothing has a result. -/
theorem exists_perform {d : Draft α} (hd : EndsIn none d) (st : Draft.State) :
    ∃ a st', d.perform st = (.ok a, st') := by
  have hr := hd st
  rcases hperform : d.perform st with ⟨x, st'⟩
  rw [hperform] at hr
  cases x with
  | error f => nomatch hr
  | ok a => exact ⟨a, st', rfl⟩

end EndsIn

/-- **A draft ends in one way** whatever name it is given. -/
def EndsAlike {ι : Type} (d : ι → Draft α) : Prop := ∃ r, ∀ i, EndsIn r (d i)

/-! ## Drafts of responses -/

/-- **Drafting members** ends in one way if drafting the fields of the entries
does. -/
theorem endsAlike_membersOf {es : List (Entry Field)}
    (hes : ∀ e ∈ es, EndsAlike fun name => typeOf name e.field) (seen : List (String × Json)) :
    EndsAlike fun owner => membersOf owner seen es := by
  induction es generalizing seen with
  | nil =>
    refine ⟨none, fun owner => ?_⟩
    show EndsIn none (membersOf owner seen [])
    rw [membersOf]
    exact .pure _
  | cons e es ih =>
    obtain ⟨key, accessor, field, required⟩ := e
    obtain ⟨⟨r, hfirst⟩, hrest⟩ := List.forall_mem_cons.mp hes
    by_cases hempty : field.shape = .empty
    · obtain ⟨r', hmore⟩ := ih hrest seen
      refine ⟨r', fun owner => ?_⟩
      show EndsIn r' (membersOf owner seen (⟨key, accessor, field, required⟩ :: es))
      rw [membersOf, if_pos hempty]
      exact hmore owner
    · cases hname : Naming.snakeOf accessor with
      | error f =>
        refine ⟨some f, fun owner => ?_⟩
        show EndsIn (some f) (membersOf owner seen (⟨key, accessor, field, required⟩ :: es))
        rw [membersOf, if_neg hempty]
        exact .ofExcept_bind_error hname
      | ok name =>
        obtain ⟨r', hmore⟩ := ih hrest (seen ++ [(name, accessor)])
        cases hseen : seen.lookup name with
        | some other =>
          refine ⟨some (.ofCause (.accessorConflict (.str name) [other, accessor])),
            fun owner => ?_⟩
          show EndsIn _ (membersOf owner seen (⟨key, accessor, field, required⟩ :: es))
          rw [membersOf, if_neg hempty]
          refine .ofExcept_bind hname ?_
          rw [hseen]
          exact .throw _
        | none =>
          refine ⟨r.or (r'.or none), fun owner => ?_⟩
          show EndsIn _ (membersOf owner seen (⟨key, accessor, field, required⟩ :: es))
          rw [membersOf, if_neg hempty]
          refine .ofExcept_bind hname ?_
          rw [hseen]
          exact (hfirst _).bind fun _ => (hmore owner).bind fun _ => .pure _

/-- **Drafting a field** ends in one way, whatever a record for it would be
called. -/
theorem endsAlike_typeOf (f : Field) : EndsAlike fun name => typeOf name f := by
  induction f with
  | empty own =>
    refine ⟨none, fun name => ?_⟩
    show EndsIn none (typeOf name (.empty own))
    rw [typeOf]
    exact .pure _
  | scalar own kind =>
    refine ⟨none, fun name => ?_⟩
    show EndsIn none (typeOf name (.scalar own kind))
    rw [typeOf]
    exact .pure _
  | collection own e ih =>
    obtain ⟨r, hr⟩ := ih
    refine ⟨r.or none, fun name => ?_⟩
    show EndsIn _ (typeOf name (.collection own e))
    rw [typeOf]
    exact (hr name).bind fun _ => .pure _
  | map own es ih =>
    obtain ⟨r, hr⟩ := endsAlike_membersOf ih []
    refine ⟨Option.or none (r.or none), fun name => ?_⟩
    show EndsIn _ (typeOf name (.map own es))
    rw [typeOf]
    exact (EndsIn.claim name).bind fun owner => (hr owner).bind fun _ => .pure _

/-- How a paging accessor fails does not depend on the members it is looked for
among. -/
theorem fault?_pagingAccessor (source : Option PagingSource) (members members' : List Member) :
    fault? (source.mapM (pagingAccessor members)) = fault? (source.mapM (pagingAccessor members'))
    := by
  cases source with
  | none => rfl
  | some p =>
    cases p with
    | nested accessor field =>
      cases hname : Naming.snakeOf accessor <;>
        simp [Option.mapM_some, pagingAccessor, hname, bind, Except.bind, Functor.map, Except.map,
          pure, Except.pure, fault?]
    | flattened index size total => rfl

/-- **Drafting a root** ends in one way. -/
theorem exists_endsIn_rootOf (name description : String) (source : Option PagingSource)
    (f : Field) : ∃ r, EndsIn r (rootOf name description source f) := by
  cases f with
  | empty own => exact ⟨none, .pure _⟩
  | scalar own kind => exact ⟨_, (EndsIn.take [name]).bind fun _ => .pure _⟩
  | collection own e =>
    obtain ⟨r, hr⟩ := endsAlike_typeOf e
    exact ⟨_, (EndsIn.take [name]).bind fun _ => (hr _).bind fun _ => .pure _⟩
  | map own es =>
    obtain ⟨r, hr⟩ := endsAlike_membersOf (fun e _ => endsAlike_typeOf e.field) []
    refine ⟨_, (EndsIn.take [name]).bind fun _ => (hr name).bind fun drafted =>
      EndsIn.bind (r := fault? (source.mapM (pagingAccessor []))) ?_ fun _ => .pure _⟩
    rw [fault?_pagingAccessor source [] drafted.1]
    exact .ofExcept _

/-! ## Drafts of actions -/

/-- **The failure of an action's own**: that of drafting it with no name taken. -/
def actionFault? (a : ActionSchema) : Option Fault := fault? ((actionDefinitions a).perform {}).1

/-- **Drafting an action** ends as it does on its own. -/
theorem endsIn_actionDefinitions (a : ActionSchema) :
    EndsIn (actionFault? a) (actionDefinitions a) := by
  have hpayload : ∃ r, EndsIn r (payloadDefinitions a) := by
    unfold payloadDefinitions
    split
    · exact exists_endsIn_rootOf ..
    · exact ⟨none, .pure _⟩
  obtain ⟨r', hpayload⟩ := hpayload
  obtain ⟨r, hresponse⟩ := exists_endsIn_rootOf a.action.responseName
    s!"{a.action.responseName} is the response for {a.action.requestName}"
    (if a.projection.isSupported then a.projection.source else none) a.response
  have hends : ∃ r, EndsIn r (actionDefinitions a) := by
    rw [actionDefinitions_eq]
    exact ⟨_, (EndsIn.take _).bind fun _ => (EndsIn.ofExcept _).bind fun _ =>
      hresponse.bind fun _ => hpayload.bind fun _ => .pure _⟩
  obtain ⟨r, hr⟩ := hends
  rwa [← hr {}] at hr

/-- **Drafting several actions** ends as the first of them that fails on its own. -/
theorem endsIn_allDefinitions (actions : List ActionSchema) :
    EndsIn (actions.findSome? actionFault?) (allDefinitions actions) := by
  induction actions with
  | nil => exact .pure _
  | cons a actions ih =>
    have hcons : (a :: actions).findSome? actionFault?
        = (actionFault? a).or ((actions.findSome? actionFault?).or none) := by
      rw [List.findSome?_cons, Option.or_none]
      cases actionFault? a <;> rfl
    rw [hcons, allDefinitions]
    exact (endsIn_actionDefinitions a).bind fun _ => ih.bind fun _ => .pure _

/-! ## Drafts of modules -/

/-- Taking the names of the roots does not fail, if the endpoint of the service is
known. -/
theorem endsIn_takeRoots {e : String} (he : s.endpoint = .ok e) (actions : List ActionSchema) :
    EndsIn none (takeRoots s actions) := by
  induction actions with
  | nil =>
    rw [takeRoots]
    exact .pure _
  | cons a actions ih =>
    rw [takeRoots]
    split
    · exact .ofExcept_bind he ((EndsIn.say _ _).bind fun _ => ih)
    · exact (EndsIn.take _).bind fun _ => ih.bind fun _ => .pure _

/-- **Drafting a module** ends as the first of its actions that fails on its
own. -/
theorem endsIn_serviceModule {e : String} (he : s.endpoint = .ok e) :
    EndsIn ((rendered s).findSome? actionFault?) (serviceModule s) := by
  have hactions : ∀ st drafted st', (takeRoots s s.actions).perform st = (.ok drafted, st') →
      EndsIn (((rendered s).findSome? actionFault?).or none)
        (allDefinitions drafted >>= fun definitions => pure
          ((if needsPagingRecord s then [pagingRecord] else []).map .record ++ definitions)) := by
    intro st drafted st' h
    obtain rfl : drafted = rendered s := (takeRoots_eq_ok h).1
    exact (endsIn_allDefinitions _).bind fun _ => .pure _
  have hdefinitions : EndsIn (((rendered s).findSome? actionFault?).or none)
      (serviceDefinitions s) :=
    (EndsIn.take _).bind fun _ => (endsIn_takeRoots he s.actions).bind_of_ok hactions
  have hmodule : EndsIn ((((rendered s).findSome? actionFault?).or none).or none)
      (serviceModule s) :=
    EndsIn.release.bind fun _ => hdefinitions.bind fun _ => .pure _
  simpa only [Option.or_none] using hmodule

end Exemplar.Code
