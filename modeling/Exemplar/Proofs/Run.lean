import Exemplar.Run
import Mathlib.Data.List.Forall2

/-!
# Runs that succeed, and how runs fail

What a run gives back is settled step by step: a run of several steps
succeeds exactly when each step does, and changing how failures are told
changes no success. These equivalences take a computation apart without
unfolding what its steps say on the way.

A run fails as one of its steps does. What can be said of every failure of
a run is the predicate `Run.FailsAs`, which is closed under the ways in
which runs are put together.

The results of a list, computed one after another, are there when each one
is, and otherwise the first failure counts (`mapM_eq_error_iff`).
-/

namespace Exemplar

namespace Run

variable {α β : Type}

/-- **A step and what follows it** succeed together. -/
theorem outcome_bind_eq_ok_iff {x : Run α} {f : α → Run β} {b : β} :
    (x >>= f).outcome = .ok b ↔ ∃ a, x.outcome = .ok a ∧ (f a).outcome = .ok b := by
  rw [outcome_bind]
  cases x.outcome with
  | error e => simp [Except.bind]
  | ok a => simp [Except.bind]

/-- A step and what follows it fail as the first of them that does. -/
theorem outcome_bind_eq_error_iff {x : Run α} {f : α → Run β} {e : Fault} :
    (x >>= f).outcome = .error e ↔
      x.outcome = .error e ∨ ∃ a, x.outcome = .ok a ∧ (f a).outcome = .error e := by
  rw [outcome_bind]
  cases x.outcome with
  | error e => simp [Except.bind]
  | ok a => simp [Except.bind]

/-- Telling failures in another way changes no success. -/
theorem outcome_mapFault_eq_ok_iff {g : Fault → Fault} {x : Run α} {a : α} :
    (x.mapFault g).outcome = .ok a ↔ x.outcome = .ok a := by
  rw [outcome_mapFault]
  cases x.outcome with
  | error e =>
    show Except.error (g e) = Except.ok a ↔ Except.error e = Except.ok a
    simp only [reduceCtorEq]
  | ok b => rfl

/-- A problem is no success. -/
@[simp] theorem outcome_raise_ne_ok (cause : Cause) (a : α) :
    (raise cause : Run α).outcome ≠ .ok a := by
  simp [raise]

/-- A breach is no success. -/
@[simp] theorem outcome_breach_ne_ok (b : Breach) (a : α) :
    (breach b : Run α).outcome ≠ .ok a := by
  simp [breach]

/-- **Runs in a row** succeed exactly when each one does. -/
theorem outcome_sequence_eq_ok_iff {xs : List (Run α)} {as : List α} :
    (sequence xs).outcome = .ok as ↔ List.Forall₂ (fun x a => x.outcome = .ok a) xs as := by
  induction xs generalizing as with
  | nil =>
    rw [List.forall₂_nil_left_iff, sequence, outcome_pure, Except.ok.injEq]
    exact eq_comm
  | cons x xs ih =>
    simp only [sequence, outcome_bind_eq_ok_iff, outcome_pure, Except.ok.injEq,
      List.forall₂_cons_left_iff, ih]
    constructor
    · rintro ⟨a, ha, as', has, rfl⟩
      exact ⟨a, as', ha, has, rfl⟩
    · rintro ⟨a, as', ha, has, rfl⟩
      exact ⟨a, ha, as', has, rfl⟩

/-- Runs that succeed, succeed in a row. -/
theorem exists_outcome_sequence {xs : List (Run α)} (h : ∀ x ∈ xs, ∃ a, x.outcome = .ok a) :
    ∃ as, (sequence xs).outcome = .ok as := by
  induction xs with
  | nil => exact ⟨[], rfl⟩
  | cons x xs ih =>
    obtain ⟨a, ha⟩ := h x List.mem_cons_self
    obtain ⟨as, has⟩ := ih (fun y hy => h y (List.mem_cons_of_mem _ hy))
    exact ⟨a :: as, outcome_sequence_eq_ok_iff.mpr
      (.cons ha (outcome_sequence_eq_ok_iff.mp has))⟩

/-- Each of the runs in a row gives one of the results. -/
theorem exists_result_of_mem {xs : List (Run α)} {as : List α} {x : Run α}
    (h : (sequence xs).outcome = .ok as) (hx : x ∈ xs) : ∃ a ∈ as, x.outcome = .ok a := by
  rw [outcome_sequence_eq_ok_iff] at h
  induction h with
  | nil => exact absurd hx List.not_mem_nil
  | cons hxa _ ih =>
    rcases List.mem_cons.mp hx with rfl | hx
    · exact ⟨_, List.mem_cons_self, hxa⟩
    · obtain ⟨a, ha, hxa⟩ := ih hx
      exact ⟨a, List.mem_cons_of_mem _ ha, hxa⟩

/-- Each of the results is that of one of the runs. -/
theorem exists_run_of_mem {xs : List (Run α)} {as : List α} {a : α}
    (h : (sequence xs).outcome = .ok as) (ha : a ∈ as) : ∃ x ∈ xs, x.outcome = .ok a := by
  rw [outcome_sequence_eq_ok_iff] at h
  induction h with
  | nil => exact absurd ha List.not_mem_nil
  | cons hxa _ ih =>
    rcases List.mem_cons.mp ha with rfl | ha
    · exact ⟨_, List.mem_cons_self, hxa⟩
    · obtain ⟨x, hx, hxa⟩ := ih ha
      exact ⟨x, List.mem_cons_of_mem _ hx, hxa⟩

/-! ## How runs fail -/

/-- **Every failure of a run is of some sort.** -/
def FailsAs (P : Fault → Prop) (x : Run α) : Prop := ∀ f, x.outcome = .error f → P f

namespace FailsAs

variable {P Q : Fault → Prop}

protected theorem pure (a : α) : FailsAs P (pure a) := fun _ h => nomatch h

theorem note (level : Notice.Level) (text : String) : FailsAs P (Run.note level text) :=
  fun _ h => nomatch h

theorem notes (level : Notice.Level) (texts : List String) : FailsAs P (Run.notes level texts) :=
  fun _ h => nomatch h

theorem fail {f : Fault} (h : P f) : FailsAs P (Run.fail f : Run α) :=
  fun _ hf => Except.error.inj hf ▸ h

theorem ofExcept {r : Except Fault α} (h : ∀ f, r = .error f → P f) : FailsAs P (Run.ofExcept r) :=
  h

/-- **A step and what follows it** fail as one of both does, the result of the
step known. -/
theorem bind_of_ok {x : Run α} {g : α → Run β} (hx : FailsAs P x)
    (hg : ∀ a, x.outcome = .ok a → FailsAs P (g a)) : FailsAs P (x >>= g) := by
  intro f h
  rw [outcome_bind] at h
  cases hr : x.outcome with
  | error e =>
    rw [hr] at h
    exact Except.error.inj h ▸ hx e hr
  | ok a =>
    rw [hr] at h
    exact hg a hr f h

protected theorem bind {x : Run α} {g : α → Run β} (hx : FailsAs P x)
    (hg : ∀ a, FailsAs P (g a)) : FailsAs P (x >>= g) :=
  hx.bind_of_ok fun a _ => hg a

theorem mapFault {g : Fault → Fault} {x : Run α} (hx : FailsAs P x) (hg : ∀ f, P f → Q (g f)) :
    FailsAs Q (x.mapFault g) := by
  intro f h
  rw [outcome_mapFault] at h
  cases hr : x.outcome with
  | error e =>
    rw [hr] at h
    exact Except.error.inj h ▸ hg e (hx e hr)
  | ok a =>
    rw [hr] at h
    nomatch h

/-- **Runs in a row** fail as one of them does. -/
theorem sequence {xs : List (Run α)} (h : ∀ x ∈ xs, FailsAs P x) :
    FailsAs P (Run.sequence xs) := by
  induction xs with
  | nil => exact .pure []
  | cons x xs ih =>
    exact (h x List.mem_cons_self).bind fun a =>
      (ih fun y hy => h y (List.mem_cons_of_mem x hy)).bind fun as => .pure (a :: as)

end FailsAs

end Run

/-! ## Results and lists of them -/

section Results

variable {α β ε : Type} {f : α → Except ε β} {as : List α} {bs : List β}

/-- A result and what is made of it are there together. -/
theorem result_bind_eq_ok_iff {x : Except ε α} {b : β} :
    x >>= f = .ok b ↔ ∃ a, x = .ok a ∧ f a = .ok b := by
  cases x <;> simp [bind, Except.bind]

/-- A result is not there, or nothing is made of it. -/
theorem result_bind_eq_error_iff {x : Except ε α} {e : ε} :
    x >>= f = .error e ↔ x = .error e ∨ ∃ a, x = .ok a ∧ f a = .error e := by
  cases x <;> simp [bind, Except.bind]

/-- Of two lists that match, an element of the second one has a partner. -/
theorem exists_of_mem_right {R : α → β → Prop} {b : β} (h : List.Forall₂ R as bs) (hb : b ∈ bs) :
    ∃ a ∈ as, R a b := by
  induction h with
  | nil => exact absurd hb List.not_mem_nil
  | @cons a _ _ _ hab _ ih =>
    rcases List.mem_cons.mp hb with rfl | hb
    · exact ⟨a, List.mem_cons_self, hab⟩
    · obtain ⟨z, hz, hzb⟩ := ih hb
      exact ⟨z, List.mem_cons_of_mem a hz, hzb⟩

/-- Results that are all there are so one by one. -/
theorem forall₂_of_mapM (h : as.mapM f = .ok bs) :
    List.Forall₂ (fun a b => f a = .ok b) as bs := by
  induction as generalizing bs with
  | nil =>
    obtain rfl : [] = bs := Except.ok.inj h
    exact .nil
  | cons a as ih =>
    rw [List.mapM_cons] at h
    cases ha : f a with
    | error e =>
      rw [ha] at h
      nomatch h
    | ok b =>
      cases hrest : as.mapM f with
      | error e =>
        rw [ha, hrest] at h
        nomatch h
      | ok rest =>
        rw [ha, hrest] at h
        obtain rfl : b :: rest = bs := Except.ok.inj h
        exact .cons ha (ih hrest)

/-- The results of a list belong to its elements one by one. -/
theorem mapM_eq_ok_iff : as.mapM f = .ok bs ↔ List.Forall₂ (fun a b => f a = .ok b) as bs := by
  refine ⟨forall₂_of_mapM, fun h => ?_⟩
  induction h with
  | nil => rfl
  | cons hab _ ih =>
    rw [List.mapM_cons, hab, ih]
    rfl

/-- **The first failure counts**: a list fails as the first of its elements
that does. -/
theorem mapM_eq_error_iff {e : ε} :
    as.mapM f = .error e ↔ ∃ before a behind, as = before ++ a :: behind
      ∧ (∀ x ∈ before, ∃ b, f x = .ok b) ∧ f a = .error e := by
  induction as with
  | nil =>
    constructor
    · intro h
      nomatch h
    · rintro ⟨before, a, behind, hnil, _⟩
      exact absurd hnil.symm (by simp)
  | cons a as ih =>
    rw [List.mapM_cons]
    constructor
    · intro h
      cases ha : f a with
      | error e' =>
        rw [ha] at h
        obtain rfl : e' = e := Except.error.inj h
        exact ⟨[], a, as, rfl, fun x hx => absurd hx List.not_mem_nil, ha⟩
      | ok b =>
        have hrest : as.mapM f = .error e := by
          cases hrest : as.mapM f <;> rw [ha, hrest] at h
          · exact h
          · nomatch h
        obtain ⟨before, x, behind, rfl, hbefore, hx⟩ := ih.mp hrest
        exact ⟨a :: before, x, behind, rfl,
          List.forall_mem_cons.mpr ⟨⟨b, ha⟩, hbefore⟩, hx⟩
    · rintro ⟨before, x, behind, heq, hbefore, hx⟩
      cases before with
      | nil =>
        obtain ⟨rfl, rfl⟩ := List.cons.inj heq
        rw [hx]
        rfl
      | cons y before =>
        obtain ⟨rfl, rfl⟩ := List.cons.inj heq
        obtain ⟨⟨b, hb⟩, hbefore⟩ := List.forall_mem_cons.mp hbefore
        rw [hb, ih.mpr ⟨before, x, behind, rfl, hbefore, hx⟩]
        rfl

theorem exists_of_mapM (h : as.mapM f = .ok bs) {a : α} (ha : a ∈ as) : ∃ b, f a = .ok b := by
  have hall := forall₂_of_mapM h
  clear h
  induction hall with
  | nil => exact absurd ha List.not_mem_nil
  | cons hab _ ih =>
    rcases List.mem_cons.mp ha with rfl | ha
    · exact ⟨_, hab⟩
    · exact ih ha

/-- Each of the results is that of an element. -/
theorem exists_mem_of_mapM (h : as.mapM f = .ok bs) {b : β} (hb : b ∈ bs) :
    ∃ a ∈ as, f a = .ok b := by
  have hall := forall₂_of_mapM h
  obtain ⟨a, ha, hab⟩ := exists_of_mem_right hall hb
  exact ⟨a, ha, hab⟩

/-- So they are the values of a function. -/
theorem eq_map_of_mapM (default : α → β) (h : as.mapM f = .ok bs) :
    bs = as.map fun a => (f a).toOption.getD (default a) := by
  have hall := forall₂_of_mapM h
  clear h
  induction hall with
  | nil => rfl
  | cons hab _ ih =>
    rw [List.map_cons, hab, ← ih]
    rfl

end Results

end Exemplar
