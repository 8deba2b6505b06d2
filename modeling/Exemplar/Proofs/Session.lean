import Exemplar.Proofs.Effect
import Exemplar.Session

/-!
# Sessions of which it is known what they do

Printing changes nothing but what is printed, and what is printed is never
taken back. A session that is put together from lines to print, loops
included, does no more than that and never fails (`Session.OnlyPrints`).

A session that looks at no file ends in the same way from every state, since
a server gives one reply to one query, and it leaves all files alone
(`Session.Settles`).
-/

namespace Exemplar.Session

variable {α β : Type}

/-- **Nothing but printing** lies between two states. -/
structure State.Prints (st st' : State) : Prop where
  files : st'.files = st.files
  requests : st'.requests = st.requests
  notices : st'.notices = st.notices
  printed : st.printed <+: st'.printed

namespace State.Prints

theorem refl (st : State) : st.Prints st := ⟨rfl, rfl, rfl, List.prefix_rfl⟩

theorem trans {s t u : State} (h : s.Prints t) (h' : t.Prints u) : s.Prints u :=
  ⟨h'.files.trans h.files, h'.requests.trans h.requests, h'.notices.trans h.notices,
    h.printed.trans h'.printed⟩

end State.Prints

/-- **A session that only prints**: it never fails. -/
def OnlyPrints (x : Session α) : Prop :=
  ∀ st, ∃ a st', x.perform st = (.ok a, st') ∧ st.Prints st'

namespace OnlyPrints

/-- However it ends. -/
theorem prints {x : Session α} {r : Except Fault α} {st st' : State} (hx : OnlyPrints x)
    (h : x.perform st = (r, st')) : st.Prints st' := by
  obtain ⟨a, u, hu, hprints⟩ := hx st
  rw [h, Prod.mk.injEq] at hu
  exact hu.2 ▸ hprints

protected theorem pure (a : α) : OnlyPrints (pure a) := fun st => ⟨a, st, rfl, .refl st⟩

protected theorem print (line : String) : OnlyPrints (print line) :=
  fun _ => ⟨(), _, rfl, rfl, rfl, rfl, List.prefix_append _ _⟩

protected theorem bind {x : Session α} {f : α → Session β} (hx : OnlyPrints x)
    (hf : ∀ a, OnlyPrints (f a)) : OnlyPrints (x >>= f) := by
  intro st
  obtain ⟨a, u, ha, hu⟩ := hx st
  obtain ⟨b, t, hb, ht⟩ := hf a u
  exact ⟨b, t, Effect.perform_bind_eq_ok_iff.mpr ⟨a, u, ha, hb⟩, hu.trans ht⟩

/-- **A loop of prints**, whether or not it is left early. -/
protected theorem forIn {as : List α} {f : α → β → Session (ForInStep β)}
    (h : ∀ a ∈ as, ∀ b, OnlyPrints (f a b)) (b : β) : OnlyPrints (forIn as b f) := by
  induction as generalizing b with
  | nil => exact .pure b
  | cons a as ih =>
    rw [List.forIn_cons]
    refine (h a List.mem_cons_self b).bind fun step => ?_
    cases step with
    | done c => exact .pure c
    | yield c => exact ih (fun x hx => h x (List.mem_cons_of_mem a hx)) c

/-- Several lines are printed one by one. -/
theorem printLines (lines : List String) : OnlyPrints (forIn lines PUnit.unit fun line _ => do
    print line
    pure (ForInStep.yield PUnit.unit)) :=
  .forIn (fun line _ _ => .bind (.print line) fun _ => .pure _) _

end OnlyPrints

/-! ## Settled outcomes -/

/-- **The outcome of a session is settled**: it ends in one way from every
state, and no file changes. -/
def Settles (x : Session α) (r : Except Fault α) : Prop :=
  ∀ st, ∃ st', x.perform st = (r, st') ∧ st'.files = st.files

namespace Settles

variable {x : Session α} {f : α → Session β} {r : Except Fault α}

/-- However it is run. -/
theorem of_perform {r' : Except Fault α} {st st' : State} (hx : Settles x r)
    (h : x.perform st = (r', st')) : r' = r ∧ st'.files = st.files := by
  obtain ⟨u, hu, hfiles⟩ := hx st
  rw [h, Prod.mk.injEq] at hu
  exact ⟨hu.1, hu.2 ▸ hfiles⟩

protected theorem pure (a : α) : Settles (pure a) (.ok a) := fun st => ⟨st, rfl, rfl⟩

protected theorem throw (e : Fault) : Settles (throw e : Session α) (.error e) :=
  fun st => ⟨st, rfl, rfl⟩

theorem ofExcept (r : Except Fault α) : Settles (Effect.ofExcept r) r :=
  fun st => ⟨st, Effect.perform_ofExcept r st, rfl⟩

theorem say (level : Notice.Level) (text : String) : Settles (say level text) (.ok ()) :=
  fun _ => ⟨_, rfl, rfl⟩

/-- One query has one reply. -/
theorem send (server : Server) (request : Request) :
    Settles (send server request) (.ok (server request.query)) := fun _ => ⟨_, rfl, rfl⟩

protected theorem bind {a : α} {r : Except Fault β} (hx : Settles x (.ok a))
    (hf : Settles (f a) r) : Settles (x >>= f) r := by
  intro st
  obtain ⟨u, hu, hfiles⟩ := hx st
  obtain ⟨t, ht, hfiles'⟩ := hf u
  refine ⟨t, ?_, hfiles'.trans hfiles⟩
  rw [Effect.perform_bind, hu]
  exact ht

/-- What follows a failure is not reached. -/
theorem bind_error {e : Fault} (hx : Settles x (.error e)) : Settles (x >>= f) (.error e) := by
  intro st
  obtain ⟨u, hu, hfiles⟩ := hx st
  refine ⟨u, ?_, hfiles⟩
  rw [Effect.perform_bind, hu]

theorem try_ (hx : Settles x r) : Settles (Effect.try_ x) (.ok r) := by
  intro st
  obtain ⟨u, hu, hfiles⟩ := hx st
  exact ⟨u, by rw [Effect.perform_try_, hu], hfiles⟩

theorem mapFault (g : Fault → Fault) (hx : Settles x r) :
    Settles (Effect.mapFault g x) (r.mapError g) := by
  intro st
  obtain ⟨u, hu, hfiles⟩ := hx st
  exact ⟨u, by rw [Effect.perform_mapFault, hu], hfiles⟩

/-- **A loop whose steps are settled** is settled itself. -/
theorem forEach {g : α → β} {as : List α} (h : ∀ a ∈ as, Settles (f a) (.ok (g a))) :
    Settles (Effect.forEach f as) (.ok (as.map g)) := by
  induction as with
  | nil => exact .pure []
  | cons a as ih =>
    exact (h a List.mem_cons_self).bind
      ((ih fun x hx => h x (List.mem_cons_of_mem a hx)).bind (.pure _))

end Settles

end Exemplar.Session
