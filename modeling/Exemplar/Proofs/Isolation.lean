import Exemplar.Proofs.Fetch.Uncached
import Exemplar.Proofs.Learner
import Exemplar.Proofs.Paging
import Exemplar.Survey

/-!
# Actions that leave each other alone

The schemas of an action are learned step by step, and a step may fail after
others have left their mark. All that can fail does so before the first mark is
left: once the response is inferred, the parameters of the action can be asked
for paging, and a well-formed response can be projected. So an action that failed
has nothing but its problem (`ActionSchema.FailsCleanly`).

What becomes of an action is up to the answer of the source of examples and to
the rules for this action (`Learner.schemaOf`). If the source answers for one
action without regard to the others, as a fetcher without a cache does, then
each action of a service is learned as if it were the only one
(`service_isolates`).
-/

namespace Exemplar

open Fault

variable {v w : Learner} {e : String} {a : Action} {s : Service} {as : List Action}

/-- **An action whose keys are texts**: its own, and those of its parameters. -/
structure Action.HasTextKeys (a : Action) : Prop where
  key : ∃ k, a.key = .str k
  params : ∀ p ∈ a.params, ∃ k, p.key = .str k

/-- Such an action can be asked whether it is paged. -/
theorem Action.HasTextKeys.exists_isPaged (h : a.HasTextKeys) : ∃ paged, a.isPaged = .ok paged := by
  have hfind : a.params.find? (·.key.isContainer) = none := by
    rw [List.find?_eq_none]
    intro p hp
    obtain ⟨k, hk⟩ := h.params p hp
    simp [hk, Json.isContainer]
  rw [isPaged, hfind]
  exact ⟨_, rfl⟩

/-! ## Failing cleanly -/

namespace ActionSchema

/-- **An action that failed has nothing but its problem**, which is attributed to
the endpoint and to the action itself. -/
def FailsCleanly (e : String) (schema : ActionSchema) : Prop :=
  ∀ p, schema.problem = some p →
    schema.response = .absent ∧ schema.projection = {}
      ∧ p.endpoint = .str e ∧ p.action = schema.action.key

/-- **Learning from an example fails before anything is learned**, and what it
fails for concerns the action. -/
theorem Learned.of_error {registry : OverrideRegistry} {x : Json} {schema learned : ActionSchema}
    {f : Fault} (h : Learned registry (.str e) x schema (.error f) learned)
    (hkeys : schema.action.HasTextKeys) :
    learned = schema ∧ f.Concerns (.str e) schema.action.key := by
  obtain ⟨k, hk⟩ := hkeys.key
  have hfilter : registry.filter (.str e) schema.action.key
      = .ok (registry.view (.str e) schema.action.key) := by
    rw [hk]
    rfl
  generalize hr : Except.error f = r at h
  cases h with
  | unaddressed hview =>
    rw [hfilter] at hview
    nomatch hview
  | uninferred hview hinfer =>
    cases hr
    rw [hfilter, Except.ok.injEq] at hview
    subst hview
    exact ⟨rfl, infer_failsAs _ _ _ _ hinfer⟩
  | unasked _ _ hpaged =>
    obtain ⟨paged, hasked⟩ := hkeys.exists_isPaged
    rw [hasked] at hpaged
    nomatch hpaged
  | @unprojected _ response paged _ _ hinfer _ hproject =>
    -- What is inferred is well formed, and such a response can be projected.
    obtain ⟨projection, hprojection⟩ :
        ∃ p, (Projection.of response (some (.str schema.action.payloadName)) paged).outcome
          = .ok p := by
      cases paged with
      | false => exact ⟨_, rfl⟩
      | true => exact Projection.exists_outcome_of (infer_obeys hinfer).wellFormed _
    rw [hprojection] at hproject
    nomatch hproject
  | learned => nomatch hr

/-- Learning from an example notes no problem. -/
theorem Learned.problem_eq {registry : OverrideRegistry} {endpoint x : Json}
    {schema learned : ActionSchema} {r : Except Fault Unit}
    (h : Learned registry endpoint x schema r learned) : learned.problem = schema.problem := by
  cases h <;> rfl

end ActionSchema

/-! ## Actions -/

namespace Learner

/-- **Whatever becomes of an action, it fails cleanly**, if all that the source
fails for concerns the action. -/
theorem failsCleanly_schemaOf (registry : OverrideRegistry) {answer : Except Fault Json}
    (hkeys : a.HasTextKeys) (hconcerns : ∀ f, answer = .error f → f.Concerns (.str e) a.key) :
    (schemaOf registry e a answer).FailsCleanly e := by
  unfold schemaOf
  split
  · exact fun p hp => nomatch hp
  · cases answer with
    | error f =>
      rintro p ⟨⟩
      exact ⟨rfl, rfl, (hconcerns f rfl).toProblem⟩
    | ok x =>
      have hlearned :=
        ActionSchema.learned_of_perform registry (.str e) x { schema := { action := a } }
      rcases hlearn : (ActionSchema.learn registry (.str e) x).perform
        { schema := { action := a } } with ⟨outcome, learned⟩
      rw [hlearn] at hlearned
      dsimp only at hlearned ⊢
      rw [hlearn]
      cases outcome with
      | error f =>
        obtain ⟨hschema, hf⟩ := hlearned.of_error hkeys
        dsimp only
        rw [hschema]
        rintro p ⟨⟩
        exact ⟨rfl, rfl, hf.toProblem⟩
      | ok _ =>
        intro p hp
        rw [hlearned.problem_eq] at hp
        nomatch hp

/-- What becomes of an action is up to the rules for this action. -/
theorem schemaOf_congr {registry registry' : OverrideRegistry}
    (h : registry.view (.str e) a.key = registry'.view (.str e) a.key)
    (answer : Except Fault Json) :
    schemaOf registry e a answer = schemaOf registry' e a answer := by
  have hfilter : registry.filter (.str e) a.key = registry'.filter (.str e) a.key := by
    rw [OverrideRegistry.filter, OverrideRegistry.filter, h]
  unfold schemaOf
  split
  · rfl
  · cases answer with
    | error f => rfl
    | ok x =>
      simp only [ActionSchema.learn, Effect.perform_bind, Effect.perform_get, hfilter]

/-- **The source answers for an action** in one way, whatever else it is asked,
and what it fails for concerns the action. -/
def Answers (v : Learner) (e : String) (key : Json) : Prop :=
  ∃ r, (v.examples (.str e) key).Settles r ∧ ∀ f, r = .error f → f.Concerns (.str e) key

/-- **A learner that differs from another** in the examples and the rules of one
action at most. -/
structure AgreesOff (key : Json) (e : String) (v w : Learner) : Prop where
  config : w.config = v.config
  examples : ∀ k, k ≠ key → ∀ r, (v.examples (.str e) k).Settles r →
    (w.examples (.str e) k).Settles r
  rules : (w.registry.given.filter fun r => r.action.key ≠ key.key)
    = v.registry.given.filter fun r => r.action.key ≠ key.key

/-- The rules for the other actions are the same. -/
theorem AgreesOff.view_eq {key k : Json} (h : AgreesOff key e v w) (hk : k.key ≠ key.key)
    (endpoint : Json) : w.registry.view endpoint k = v.registry.view endpoint k := by
  have hview : ∀ g : OverrideRegistry, g.view endpoint k
      = ⟨endpoint, k, (g.given.filter fun r => r.action.key ≠ key.key).filter fun r =>
        r.endpoint.key = endpoint.key ∧ r.action.key = k.key⟩ := by
    intro g
    rw [OverrideRegistry.view, List.filter_filter]
    congr 1
    refine List.filter_congr fun r _ => ?_
    by_cases hr : r.action.key = k.key
    · simp [hr, hk]
    · simp [hr]
  rw [hview, hview, h.rules]

/-- Schemas of the same actions agree, apart from those of one key, if they agree
action by action. -/
theorem filter_eq_of_forall₂ {R S : Action → ActionSchema → Prop} {key : Json}
    {xs ys : List ActionSchema} (hR : ∀ a x, R a x → x.action = a)
    (hS : ∀ a y, S a y → y.action = a)
    (heq : ∀ a ∈ as, a.key ≠ key → ∀ x y, R a x → S a y → x = y)
    (hx : List.Forall₂ R as xs) (hy : List.Forall₂ S as ys) :
    (ys.filter fun y => y.action.key ≠ key) = xs.filter fun x => x.action.key ≠ key := by
  induction hx generalizing ys with
  | nil =>
    cases hy
    rfl
  | @cons a x as xs hax _ ih =>
    obtain _ | @⟨_, y, _, ys, hay, hys⟩ := hy
    have hrest := ih (fun a ha => heq a (List.mem_cons_of_mem _ ha)) hys
    by_cases hkey : a.key = key
    · rw [List.filter_cons_of_neg (by simp [hS a y hay, hkey]),
        List.filter_cons_of_neg (by simp [hR a x hax, hkey]), hrest]
    · rw [List.filter_cons_of_pos (by simp [hS a y hay, hkey]),
        List.filter_cons_of_pos (by simp [hR a x hax, hkey]), hrest,
        heq a List.mem_cons_self hkey x y hax hay]

/-! ## Services -/

/-- **Schemas of actions that leave each other alone**, one for each of the
actions, in order. -/
structure Isolated (v : Learner) (e : String) (s : Service) (as : List Action)
    (schemas : List ActionSchema) : Prop where
  /-- Each schema is what learning this action alone comes to, at whatever time,
  and an action that failed has nothing but its problem. -/
  alone : List.Forall₂ (fun a schema => schema.action = a
    ∧ (∀ st, ∃ st', (v.action e a).perform st = (.ok schema, st')) ∧ schema.FailsCleanly e)
    as schemas
  /-- With another example or other rules for the actions of one key, whatever
  these are, the same is learned of all other actions. -/
  others : ∀ (w : Learner) (key : Json), AgreesOff key e v w → ∀ st, ∃ schemas' st',
    (w.service s).perform st = (.ok { service := s, actions := schemas' }, st')
      ∧ (schemas'.filter fun schema => schema.action.key ≠ key)
        = schemas.filter fun schema => schema.action.key ≠ key

/-- **Actions leave each other alone.** A service that is not left out is learned
to its end, whatever the source answers and the rules are: there is one schema for
each of its actions that are not left out, in order, and these are isolated. -/
theorem service_isolates (he : s.endpoint = .ok e) (hactions : s.actions = some as)
    (hkeys : ∀ a ∈ as, a.HasTextKeys) (hanswers : ∀ a ∈ as, v.Answers e a.key)
    (hkept : v.config.skipsEndpoint e = false) (st : Session.State) :
    ∃ schemas st', (v.service s).perform st = (.ok { service := s, actions := schemas }, st')
      ∧ v.Isolated e s (as.filter fun a => !v.config.skipsAction e a.key) schemas := by
  obtain ⟨schemas, st', hservice, hall⟩ := exists_perform_service he hactions hkept st
  refine ⟨schemas, st', hservice, ?_, ?_⟩
  · refine ((List.forall₂_and_left _ _).mpr
      ⟨fun a ha => (List.mem_filter.mp ha).1, hall⟩).imp ?_
    rintro a schema ⟨ha, u, u', hu⟩
    obtain ⟨r, hr, hconcerns⟩ := hanswers a ha
    have hsettles := settles_action hr
    obtain ⟨hschema, -⟩ := hsettles.of_perform hu
    rw [Except.ok.injEq] at hschema
    subst hschema
    exact ⟨action_schemaOf .., fun u => (hsettles u).imp fun _ h => h.1,
      failsCleanly_schemaOf v.registry (hkeys a ha) hconcerns⟩
  · intro w key hagrees u
    obtain ⟨schemas', u', hservice', hall'⟩ :=
      exists_perform_service (v := w) he hactions (by rw [hagrees.config, hkept]) u
    refine ⟨schemas', u', hservice', ?_⟩
    rw [hagrees.config] at hall'
    refine filter_eq_of_forall₂ (fun a x ⟨_, _, hx⟩ => action_of_perform_action hx)
      (fun a y ⟨_, _, hy⟩ => action_of_perform_action hy) ?_ hall hall'
    rintro a ha hkey x y ⟨_, _, hx⟩ ⟨_, _, hy⟩
    have ha : a ∈ as := (List.mem_filter.mp ha).1
    obtain ⟨r, hr, -⟩ := hanswers a ha
    obtain ⟨k, hk⟩ := (hkeys a ha).key
    have hview : w.registry.view (.str e) a.key = v.registry.view (.str e) a.key := by
      refine hagrees.view_eq (fun hsame => hkey ?_) _
      rw [hk, Json.key_str] at hsame
      rw [hk, Json.key_eq_str_iff.mp hsame.symm]
    obtain ⟨hxr, -⟩ := (settles_action hr).of_perform hx
    obtain ⟨hyr, -⟩ := (settles_action (hagrees.examples a.key hkey r hr)).of_perform hy
    rw [schemaOf_congr hview] at hyr
    exact Except.ok.inj (hxr.trans hyr.symm)

end Learner

/-- **A fetcher without a cache answers** for each action in one way. -/
theorem Survey.answers_of_uncached {v : Survey} (hcache : v.fetcher.cache = none) (e : String)
    (key : Json) : v.learner.Answers e key :=
  Fetcher.settles_fetchExample hcache v.server (.str e) key

/-- Of two actions the second one fails, since its example is not to be had. -/
theorem Learner.service_isolates_issues :
    let server : Server := fun query => match query with
      | .example_ _ (.str "search") =>
        .answered 200 "OK" "\x7b\"format\": \"txt\", \"example\": \"none\"\x7d"
      | _ => .failed "refused"
    let v : Survey := { server, fetcher := { host := "http://h" }, registry := ⟨[]⟩, config := {} }
    let search : Action := { key := .str "search", hasExample := .bool true }
    let list : Action :=
      { key := .str "list", hasExample := .bool true, params := [{ key := .str "p" }] }
    let s : Service := { path := .str "api/issues", actions := some [search, list] }
    (s.endpoint = .ok "issues" ∧ (∀ a ∈ [search, list], a.HasTextKeys)
      ∧ (∀ a ∈ [search, list], v.learner.Answers "issues" a.key)
      ∧ v.config.skipsEndpoint "issues" = false)
    ∧ ∃ schemas st', (v.learner.service s).perform {}
        = (.ok { service := s, actions := schemas }, st')
      ∧ v.learner.Isolated "issues" s
        ([search, list].filter fun a => !v.config.skipsAction "issues" a.key) schemas := by
  intro server v search list s
  have he : s.endpoint = .ok "issues" := by decide +kernel
  have hkeys : ∀ a ∈ [search, list], a.HasTextKeys := by
    simp only [List.forall_mem_cons, List.not_mem_nil, false_imp_iff, implies_true, and_true]
    exact ⟨⟨⟨_, rfl⟩, fun p hp => nomatch hp⟩, ⟨⟨_, rfl⟩, by
      rintro p hp
      obtain rfl := List.mem_singleton.mp hp
      exact ⟨_, rfl⟩⟩⟩
  have hanswers : ∀ a ∈ [search, list], v.learner.Answers "issues" a.key :=
    fun a _ => Survey.answers_of_uncached rfl "issues" a.key
  have hkept : v.learner.config.skipsEndpoint "issues" = false := by decide
  exact ⟨⟨he, hkeys, hanswers, hkept⟩, service_isolates he rfl hkeys hanswers hkept {}⟩

end Exemplar
