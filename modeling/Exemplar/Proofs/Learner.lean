import Exemplar.Learner
import Exemplar.Proofs.Effect
import Exemplar.Proofs.Run
import Exemplar.Proofs.Session

/-!
# Learners that come to an end

What goes wrong with an action is caught where the action is learned, so
learning actions never fails, whatever the examples are
(`exists_perform_actions`), and neither does learning a service that has an
endpoint and its actions (`exists_perform_service`).

What a learner comes to is up to the answers of its source of examples, so a
source whose answers are settled makes a learner whose outcome is settled
(`settles_action`, `settles_service`), and what that is can be read off the answers
(`settles_service_of_answers`).
-/

namespace Exemplar

variable {v : Learner} {e : String} {a : Action} {s : Service} {st st' : Session.State}

/-- **A service has an endpoint** exactly if its path is a text. -/
theorem Service.exists_endpoint_iff :
    (∃ e, s.endpoint = .ok e) ↔ ∃ path, s.path = .str path := by
  unfold Service.endpoint
  cases s.path <;> simp

/-- Several services have their endpoints if each one has. -/
theorem Service.exists_mapM_endpoint_iff {services : List Service} :
    (∃ es, services.mapM Service.endpoint = .ok es) ↔ ∀ s ∈ services, ∃ e, s.endpoint = .ok e := by
  induction services with
  | nil => exact ⟨fun _ s hs => absurd hs List.not_mem_nil, fun _ => ⟨[], rfl⟩⟩
  | cons s services ih =>
    rw [List.forall_mem_cons, ← ih, List.mapM_cons]
    cases s.endpoint <;> cases services.mapM Service.endpoint <;>
      simp [bind, Except.bind, pure, Except.pure]

/-! ## Learning from an example -/

namespace ActionSchema

/-- **How learning from an example ends**, and what is known of the action
then: one constructor for each place at which it can end. -/
inductive Learned (registry : OverrideRegistry) (endpoint x : Json) (schema : ActionSchema) :
    Except Fault Unit → ActionSchema → Prop
  | unaddressed {f : Fault} (hview : registry.filter endpoint schema.action.key = .error f) :
    Learned registry endpoint x schema (.error f) schema
  | uninferred {view : OverrideView} {f : Fault}
    (hview : registry.filter endpoint schema.action.key = .ok view)
    (hinfer : (infer view (.str schema.action.responseName) x).outcome = .error f) :
    Learned registry endpoint x schema (.error f) schema
  | unasked {view : OverrideView} {response : Field} {f : Fault}
    (hview : registry.filter endpoint schema.action.key = .ok view)
    (hinfer : (infer view (.str schema.action.responseName) x).outcome = .ok response)
    (hpaged : schema.action.isPaged = .error f) :
    Learned registry endpoint x schema (.error f) { schema with response }
  | unprojected {view : OverrideView} {response : Field} {paged : Bool} {f : Fault}
    (hview : registry.filter endpoint schema.action.key = .ok view)
    (hinfer : (infer view (.str schema.action.responseName) x).outcome = .ok response)
    (hpaged : schema.action.isPaged = .ok paged)
    (hproject : (Projection.of response (some (.str schema.action.payloadName)) paged).outcome
      = .error f) :
    Learned registry endpoint x schema (.error f) { schema with response }
  | learned {view : OverrideView} {response : Field} {paged : Bool} {projection : Projection}
    (hview : registry.filter endpoint schema.action.key = .ok view)
    (hinfer : (infer view (.str schema.action.responseName) x).outcome = .ok response)
    (hpaged : schema.action.isPaged = .ok paged)
    (hproject : (Projection.of response (some (.str schema.action.payloadName)) paged).outcome
      = .ok projection) :
    Learned registry endpoint x schema (.ok ()) { schema with response, projection }

/-- **Learning ends in one of these ways.** -/
theorem learned_of_perform (registry : OverrideRegistry) (endpoint x : Json) (l : Learning) :
    Learned registry endpoint x l.schema ((learn registry endpoint x).perform l).1
      ((learn registry endpoint x).perform l).2.schema := by
  simp only [learn, Effect.perform_bind, Effect.perform_get, Effect.perform_ofExcept,
    Learning.perform_ofRun, Learning.perform_keep]
  cases hview : registry.filter endpoint l.schema.action.key with
  | error f => exact .unaddressed hview
  | ok view =>
    dsimp only
    cases hinfer : (infer view (.str l.schema.action.responseName) x).outcome with
    | error f => exact .uninferred hview hinfer
    | ok response =>
      dsimp only
      cases hpaged : l.schema.action.isPaged with
      | error f => exact .unasked hview hinfer hpaged
      | ok paged =>
        dsimp only
        cases hproject : (Projection.of response
            (some (.str l.schema.action.payloadName)) paged).outcome with
        | error f => exact .unprojected hview hinfer hpaged hproject
        | ok projection =>
          dsimp only
          split
          · exact .learned hview hinfer hpaged hproject
          · exact .learned hview hinfer hpaged hproject

/-- What is learned is learned for the action. -/
theorem Learned.action_eq {registry : OverrideRegistry} {endpoint x : Json}
    {schema learned : ActionSchema} {r : Except Fault Unit}
    (h : Learned registry endpoint x schema r learned) : learned.action = schema.action := by
  cases h <;> rfl

end ActionSchema

namespace Learner

/-! ## Actions -/

/-- **What becomes of an action**, given what its source of examples
answers. -/
def schemaOf (registry : OverrideRegistry) (e : String) (a : Action)
    (answer : Except Fault Json) : ActionSchema :=
  if !a.hasExample.truthy then { action := a }
  else match answer with
    | .error f => { action := a, problem := some (problemOf f e a) }
    | .ok x =>
      let (outcome, learned) :=
        (ActionSchema.learn registry (.str e) x).perform { schema := { action := a } }
      match outcome with
      | .ok () => learned.schema
      | .error f => { learned.schema with problem := some (problemOf f e a) }

theorem action_schemaOf (registry : OverrideRegistry) (e : String) (a : Action)
    (answer : Except Fault Json) : (schemaOf registry e a answer).action = a := by
  unfold schemaOf
  split
  · rfl
  · cases answer with
    | error f => rfl
    | ok x =>
      have hlearned := (ActionSchema.learned_of_perform registry (.str e) x
        { schema := { action := a } }).action_eq
      dsimp only
      split
      · exact hlearned
      · exact hlearned

/-- An action without an example is learned at once. -/
theorem perform_action_of_not (h : a.hasExample.truthy = false) (v : Learner) (e : String)
    (answer : Except Fault Json) (st : Session.State) :
    (v.action e a).perform st = (.ok (schemaOf v.registry e a answer), st) := by
  simp [action, schemaOf, h]

/-- **Learning an action** asks the source once, and never fails: what it
comes to depends on the answer alone. -/
theorem perform_action (h : a.hasExample.truthy = true) (v : Learner) (e : String)
    (st : Session.State) : ∃ notices,
    (v.action e a).perform st
      = (.ok (schemaOf v.registry e a ((v.examples (.str e) a.key).perform st).1),
        { ((v.examples (.str e) a.key).perform st).2 with notices }) := by
  simp only [action, schemaOf, h, Bool.not_true, Bool.false_eq_true, if_false,
    Effect.perform_bind, Effect.perform_try_]
  rcases (v.examples (.str e) a.key).perform st with ⟨answer, u⟩
  cases answer with
  | error f => exact ⟨_, rfl⟩
  | ok x =>
    dsimp only
    have haction := (ActionSchema.learned_of_perform v.registry (.str e) x
      { schema := { action := a } }).action_eq
    rcases hlearn : (ActionSchema.learn v.registry (.str e) x).perform
      { schema := { action := a } } with ⟨outcome, learned⟩
    rw [hlearn] at haction
    simp only [Effect.perform_bind, Effect.perform_try_, Session.perform_ofRun]
    cases outcome with
    | ok _ => exact ⟨_, rfl⟩
    | error f =>
      dsimp only at haction ⊢
      rw [failed, Effect.perform_bind, Session.perform_say, haction]
      exact ⟨_, rfl⟩

/-- **Learning an action never fails.** -/
theorem exists_perform_action (v : Learner) (e : String) (a : Action) (st : Session.State) :
    ∃ schema st', (v.action e a).perform st = (.ok schema, st') ∧ schema.action = a := by
  cases hexample : a.hasExample.truthy with
  | false =>
    exact ⟨_, st, perform_action_of_not hexample v e (.ok .null) st, action_schemaOf ..⟩
  | true =>
    obtain ⟨notices, hperform⟩ := perform_action hexample v e st
    exact ⟨_, _, hperform, action_schemaOf ..⟩

theorem action_of_perform_action {schema : ActionSchema}
    (h : (v.action e a).perform st = (.ok schema, st')) : schema.action = a := by
  obtain ⟨_, _, hperform, haction⟩ := exists_perform_action v e a st
  rw [h, Prod.mk.injEq, Except.ok.injEq] at hperform
  exact hperform.1 ▸ haction

/-- **Where the schemas of an action come from**: there are none, or they are what was
learned from an example, and all that is known if learning had no problem. -/
theorem of_perform_action {schema : ActionSchema}
    (h : (v.action e a).perform st = (.ok schema, st')) :
    (schema.response = .absent ∧ schema.projection = {})
      ∨ ∃ x r learned, ActionSchema.Learned v.registry (.str e) x { action := a } r learned
        ∧ schema.response = learned.response ∧ schema.projection = learned.projection
        ∧ (r = .ok () → schema = learned) := by
  have hschema : ∃ answer, schema = schemaOf v.registry e a answer := by
    cases hexample : a.hasExample.truthy with
    | false =>
      rw [perform_action_of_not hexample v e (.ok .null), Prod.mk.injEq, Except.ok.injEq] at h
      exact ⟨_, h.1.symm⟩
    | true =>
      obtain ⟨_, hperform⟩ := perform_action hexample v e st
      rw [hperform, Prod.mk.injEq, Except.ok.injEq] at h
      exact ⟨_, h.1.symm⟩
  obtain ⟨answer, rfl⟩ := hschema
  unfold schemaOf
  split
  · exact .inl ⟨rfl, rfl⟩
  · cases answer with
    | error f => exact .inl ⟨rfl, rfl⟩
    | ok x =>
      refine .inr ⟨x, _, _, ActionSchema.learned_of_perform v.registry (.str e) x
        { schema := { action := a } }, ?_⟩
      dsimp only
      rcases (ActionSchema.learn v.registry (.str e) x).perform { schema := { action := a } }
        with ⟨outcome, learned⟩
      cases outcome with
      | ok _ => exact ⟨rfl, rfl, fun _ => rfl⟩
      | error f => exact ⟨rfl, rfl, fun hok => nomatch hok⟩

/-- **Learning actions never fails.** There is a schema for each action that
is not left out, in order, and each one is what learning that action comes to,
from wherever the learner has got to by then. -/
theorem exists_perform_actions (v : Learner) (e : String) (as : List Action)
    (st : Session.State) : ∃ schemas st', (v.actions e as).perform st = (.ok schemas, st')
      ∧ List.Forall₂ (fun a schema => ∃ u u', (v.action e a).perform u = (.ok schema, u'))
        (as.filter fun a => !v.config.skipsAction e a.key) schemas := by
  induction as generalizing st with
  | nil => exact ⟨[], st, rfl, .nil⟩
  | cons a as ih =>
    rw [actions]
    cases hskip : v.config.skipsAction e a.key with
    | true =>
      obtain ⟨schemas, st', hrest, hall⟩ := ih _
      refine ⟨schemas, st', ?_, ?_⟩
      · simp only [if_true]
        rw [Effect.perform_bind, Session.perform_say]
        exact hrest
      · rw [List.filter_cons_of_neg (by simp [hskip])]
        exact hall
    | false =>
      obtain ⟨schema, st₁, hschema, -⟩ := exists_perform_action v e a _
      obtain ⟨schemas, st₂, hrest, hall⟩ := ih st₁
      refine ⟨schema :: schemas, st₂, ?_, ?_⟩
      · simp only [Bool.false_eq_true, if_false]
        rw [Effect.perform_bind, Session.perform_say]
        dsimp only
        rw [Effect.perform_bind, hschema]
        dsimp only
        rw [Effect.perform_bind, hrest]
        rfl
      · rw [List.filter_cons_of_pos (by simp [hskip])]
        exact .cons ⟨_, _, hschema⟩ hall

/-! ## Services -/

/-- What comes of a service is said of that service, and it is left out exactly
if its endpoint is. -/
theorem of_perform_service {schema : ServiceSchema} (he : s.endpoint = .ok e)
    (h : (v.service s).perform st = (.ok schema, st')) :
    schema.service = s ∧ schema.skipped = v.config.skipsEndpoint e := by
  simp only [service, he, Effect.perform_bind_eq_ok_iff, Effect.perform_ofExcept_eq_ok_iff,
    Except.ok.injEq] at h
  obtain ⟨_, _, ⟨rfl, rfl⟩, h⟩ := h
  cases hskip : v.config.skipsEndpoint e with
  | true =>
    simp only [hskip, if_true, Effect.perform_bind_eq_ok_iff,
      Effect.perform_pure_eq_ok_iff] at h
    obtain ⟨_, _, -, rfl, -⟩ := h
    exact ⟨rfl, rfl⟩
  | false =>
    simp only [hskip, Bool.false_eq_true, if_false] at h
    split at h
    · nomatch h
    · simp only [Effect.perform_bind_eq_ok_iff, Effect.perform_pure_eq_ok_iff] at h
      obtain ⟨_, _, -, rfl, -⟩ := h
      exact ⟨rfl, rfl⟩

/-- A service that is left out is told in any case. -/
theorem perform_service_of_skips (he : s.endpoint = .ok e)
    (hskip : v.config.skipsEndpoint e = true) (st : Session.State) :
    ∃ st', (v.service s).perform st = (.ok { service := s, skipped := true }, st') := by
  refine ⟨{ st with notices := st.notices ++ [⟨.info, s!"Skipping endpoint '{e}'"⟩] }, ?_⟩
  rw [service, he]
  show Effect.perform (if v.config.skipsEndpoint e = true then _ else _) st = _
  rw [if_pos hskip]
  rfl

/-- A service without an endpoint is not learned at all. -/
theorem perform_service_of_error {f : Fault} (h : s.endpoint = .error f) (v : Learner)
    (st : Session.State) : (v.service s).perform st = (.error f, st) := by
  rw [service, h]
  rfl

/-- **A service with an endpoint and its actions is learned** action by action,
whatever goes wrong with them. -/
theorem exists_perform_service {as : List Action} (he : s.endpoint = .ok e)
    (hactions : s.actions = some as) (hskip : v.config.skipsEndpoint e = false)
    (st : Session.State) :
    ∃ schemas st', (v.service s).perform st = (.ok { service := s, actions := schemas }, st')
      ∧ List.Forall₂ (fun a schema => ∃ u u', (v.action e a).perform u = (.ok schema, u'))
        (as.filter fun a => !v.config.skipsAction e a.key) schemas := by
  obtain ⟨schemas, st', hschemas, hall⟩ := exists_perform_actions v e as st
  refine ⟨schemas, st', ?_, hall⟩
  rw [service, he]
  show Effect.perform (if v.config.skipsEndpoint e = true then _ else _) st = _
  rw [if_neg (by simp [hskip]), hactions]
  exact Effect.perform_bind_eq_ok_iff.mpr ⟨schemas, st', hschemas, rfl⟩

/-- **Learning an action is settled** if the source answers for it. -/
theorem settles_action {r : Except Fault Json} (h : (v.examples (.str e) a.key).Settles r) :
    (v.action e a).Settles (.ok (schemaOf v.registry e a r)) := by
  intro st
  cases hexample : a.hasExample.truthy with
  | false => exact ⟨st, perform_action_of_not hexample v e r st, rfl⟩
  | true =>
    obtain ⟨notices, hperform⟩ := perform_action hexample v e st
    obtain ⟨u, hu, hfiles⟩ := h st
    rw [hu] at hperform
    exact ⟨_, hperform, hfiles⟩

/-- So is learning several actions, whatever the source answers for each of them. -/
theorem settles_actions {as : List Action} (answer : Action → Except Fault Json)
    (h : ∀ a ∈ as, (v.examples (.str e) a.key).Settles (answer a)) :
    (v.actions e as).Settles (.ok ((as.filter fun a => !v.config.skipsAction e a.key).map
      fun a => schemaOf v.registry e a (answer a))) := by
  induction as with
  | nil => exact .pure []
  | cons a as ih =>
    have hrest := ih fun x hx => h x (List.mem_cons_of_mem a hx)
    rw [actions]
    cases hskip : v.config.skipsAction e a.key with
    | true =>
      rw [List.filter_cons_of_neg (by simp [hskip])]
      simp only [if_true]
      exact (Session.Settles.say _ _).bind hrest
    | false =>
      rw [List.filter_cons_of_pos (by simp [hskip])]
      simp only [Bool.false_eq_true, if_false]
      exact (Session.Settles.say _ _).bind
        ((settles_action (h a List.mem_cons_self)).bind (hrest.bind (.pure _)))

/-- **A service that is not left out** comes to what its actions come to. -/
theorem settles_service_of_answers {as : List Action} (answer : Action → Except Fault Json)
    (he : s.endpoint = .ok e) (hactions : s.actions = some as)
    (hskip : v.config.skipsEndpoint e = false)
    (h : ∀ a ∈ as, (v.examples (.str e) a.key).Settles (answer a)) :
    (v.service s).Settles (.ok { service := s
                                 actions := (as.filter fun a => !v.config.skipsAction e a.key).map
                                   fun a => schemaOf v.registry e a (answer a) }) := by
  rw [service, he]
  refine (Session.Settles.ofExcept (.ok e)).bind ?_
  simp only [hskip, Bool.false_eq_true, if_false, hactions]
  exact (settles_actions answer h).bind (.pure _)

/-- **Learning a service is settled**, whatever it comes to. -/
theorem settles_service (h : ∀ e key, ∃ r, (v.examples (.str e) key).Settles r) (s : Service) :
    ∃ r, (v.service s).Settles r := by
  cases he : s.endpoint with
  | error f =>
    rw [service, he]
    exact ⟨_, .bind_error (.ofExcept _)⟩
  | ok e =>
    cases hskip : v.config.skipsEndpoint e with
    | true =>
      rw [service, he]
      refine ⟨.ok { service := s, skipped := true }, (Session.Settles.ofExcept (.ok e)).bind ?_⟩
      simp only [hskip, if_true]
      exact (Session.Settles.say _ _).bind (.pure _)
    | false =>
      cases hactions : s.actions with
      | none =>
        rw [service, he]
        refine ⟨.error (.breach (.notIterable .null)), (Session.Settles.ofExcept (.ok e)).bind ?_⟩
        simp only [hskip, Bool.false_eq_true, if_false, hactions]
        exact .throw _
      | some as =>
        choose answer hanswer using h e
        exact ⟨_, settles_service_of_answers (fun a => answer a.key) he hactions hskip
          fun a _ => hanswer a.key⟩

end Learner

end Exemplar
