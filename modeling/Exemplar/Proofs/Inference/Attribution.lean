import Exemplar.Proofs.Field.Building
import Exemplar.Proofs.Inference.Steps

/-!
# Whom the problems of an inference concern

A problem is attributed to an endpoint and an action by whoever comes to know
them first, and an attribution is never taken back. So it has to be shown that
nobody says anything else before: merging and inferring attribute nothing
(`merge_failsAs`, `inferValue_failsAs`), the inference as a whole attributes its
problems to the action whose rules it follows (`infer_failsAs`), and what
concerns an action at most is attributed to exactly that action in the end
(`Concerns.toProblem`).
-/

namespace Exemplar

/-- **A failure concerns an action at most**: as far as it is a problem that is
attributed at all, it is attributed to this endpoint and this action. -/
def Fault.Concerns (endpoint action : Json) (f : Fault) : Prop :=
  ∀ p, f = .problem p →
    (p.endpoint = .null ∨ p.endpoint = endpoint) ∧ (p.action = .null ∨ p.action = action)

/-- **A failure that concerns nobody yet.** -/
abbrev Fault.Unattributed (f : Fault) : Prop := f.Concerns .null .null

namespace Fault

variable {endpoint action : Json} {f : Fault}

theorem concerns_breach (b : Breach) : (breach b).Concerns endpoint action :=
  fun _ h => nomatch h

theorem unattributed_ofCause (cause : Cause) : (ofCause cause).Unattributed := by
  rintro p ⟨⟩
  exact ⟨.inl rfl, .inl rfl⟩

/-- What concerns nobody, concerns nobody else. -/
theorem Concerns.of_unattributed (h : f.Unattributed) : f.Concerns endpoint action := by
  intro p hp
  obtain ⟨hendpoint, haction⟩ := h p hp
  exact ⟨.inl (hendpoint.elim id id), .inl (haction.elim id id)⟩

/-- **In the end it is attributed to exactly this action**, whether it was
attributed before or not, and also if it was no problem. -/
theorem Concerns.toProblem (h : f.Concerns endpoint action) :
    (f.toProblem.attributeTo endpoint action).endpoint = endpoint
      ∧ (f.toProblem.attributeTo endpoint action).action = action := by
  cases f with
  | breach b => exact ⟨rfl, rfl⟩
  | problem p =>
    obtain ⟨hendpoint, haction⟩ := h p rfl
    constructor
    · dsimp only [Fault.toProblem, Problem.attributeTo]
      split
      · rfl
      · exact hendpoint.resolve_left ‹_›
    · dsimp only [Fault.toProblem, Problem.attributeTo]
      split
      · rfl
      · exact haction.resolve_left ‹_›

/-- Attributing it to this action on the way, in full or in part, changes
nothing in that. -/
theorem Concerns.attributeTo {endpoint' action' : Json} (h : f.Concerns endpoint action)
    (hendpoint : endpoint' = .null ∨ endpoint' = endpoint)
    (haction : action' = .null ∨ action' = action) :
    (f.attributeTo endpoint' action').Concerns endpoint action := by
  cases f with
  | breach b => exact concerns_breach b
  | problem p =>
    rintro q ⟨⟩
    constructor
    · dsimp only [Problem.attributeTo]
      split
      · exact hendpoint
      · exact (h p rfl).1
    · dsimp only [Problem.attributeTo]
      split
      · exact haction
      · exact (h p rfl).2

end Fault

open Fault

/-! ## Merging -/

namespace Field

/-- A map that cannot be built tells of no action. -/
theorem unattributed_of_ofEntries {name : Json} {es : List (Entry Field)} {f : Fault}
    (h : ofEntries name es = .error f) : f.Unattributed := by
  unfold ofEntries at h
  dsimp only at h
  split at h
  · cases h
    exact concerns_breach _
  · split at h
    · cases h
      exact unattributed_ofCause _
    · nomatch h

/-- **Merging attributes nothing.** -/
theorem merge_failsAs (path : String) (first second : Field) :
    (merge path first second).FailsAs Unattributed := by
  induction first generalizing second path with
  | collection n e ih =>
    refine failsAs_merge unattributed_ofCause (fun n e n' e' he _ => ?_) nofun
    obtain ⟨-, rfl⟩ := Field.collection.inj he
    exact ih path e'
  | map n es ih =>
    refine failsAs_merge unattributed_ofCause nofun fun n es n' es' hes _ => ?_
    obtain ⟨-, rfl⟩ := Field.map.inj hes
    exact ⟨failsAs_mergeEntries fun e he e' _ => ih e he _ _,
      fun _ _ _ => unattributed_of_ofEntries⟩
  | _ => exact failsAs_merge unattributed_ofCause nofun nofun

end Field

/-! ## Inferring -/

namespace Inference

open Exemplar.Field

variable {view : OverrideView}

/-- An array whose items clash is a problem of nobody yet. -/
theorem checkItems_failsAs (path : String) (items : List Json) :
    (checkItems path items).FailsAs Unattributed := by
  unfold checkItems
  split
  · exact .fail (unattributed_ofCause _)
  · exact .pure _

/-- Telling the item that brought a problem about attributes it to nobody. -/
theorem unattributed_atItem {f : Fault} (h : f.Unattributed) (index : Nat) :
    (atItem index f).Unattributed := by
  unfold atItem
  split
  · exact unattributed_ofCause _
  · exact h

mutual

/-- **Inferring a value attributes nothing.** -/
theorem inferValue_failsAs (room : Nat) (name : Json) (path : String) : ∀ v : Json,
    (inferValue view room name path v).FailsAs Unattributed
  | .obj members => by
    cases room with
    | zero =>
      rw [inferValue]
      exact .fail (concerns_breach _)
    | succ room =>
      rw [inferValue]
      refine (Run.FailsAs.sequence fun x hx => ?_).bind fun found =>
        .ofExcept fun f => unattributed_of_ofEntries
      obtain ⟨m, hm, rfl⟩ := List.mem_map.mp hx
      exact inferMembers_failsAs room path members m (List.mem_mergeSort.mp hm)
  | .arr items => by
    cases room with
    | zero =>
      rw [inferValue]
      exact .fail (concerns_breach _)
    | succ room =>
      rw [inferValue]
      exact (checkItems_failsAs path items).bind fun _ =>
        (mergeItems_failsAs room name path 0 none items).bind fun element => .pure _
  | .null => by rw [inferValue]; exact .pure _
  | .bool _ => by rw [inferValue]; exact .pure _
  | .int _ => by rw [inferValue]; exact .pure _
  | .float _ => by rw [inferValue]; exact .pure _
  | .str _ => by rw [inferValue]; exact .pure _

/-- Nor does inferring items one after the other. -/
theorem mergeItems_failsAs (room : Nat) (name : Json) (path : String) (index : Nat)
    (element : Option Field) : ∀ items : List Json,
    (mergeItems view room name path index element items).FailsAs Unattributed
  | [] => by
    rw [mergeItems]
    exact .pure _
  | item :: items => by
    rw [mergeItems]
    have hrest := fun element => mergeItems_failsAs room name path (index + 1) (some element) items
    refine (inferValue_failsAs room name path item).bind fun field => ?_
    cases element with
    | none => exact Run.FailsAs.bind (.pure field) hrest
    | some sofar =>
      exact ((merge_failsAs path sofar field).mapFault fun f hf =>
        unattributed_atItem hf index).bind hrest

/-- Nor does inferring the value of a key. -/
theorem inferMembers_failsAs (room : Nat) (parent : String) :
    ∀ ms : List (String × Json), ∀ m ∈ inferMembers view room parent ms,
      m.2.FailsAs Unattributed
  | [] => by
    rw [inferMembers]
    exact fun m hm => absurd hm List.not_mem_nil
  | (key, value) :: ms => by
    rw [inferMembers, List.forall_mem_cons]
    refine ⟨?_, inferMembers_failsAs room parent ms⟩
    dsimp only
    split
    · exact (Run.FailsAs.note _ _).bind fun _ => .pure _
    · split
      · exact Run.FailsAs.bind (.pure _) fun field => .pure _
      · exact (inferValue_failsAs room _ _ value).bind fun field => .pure _

end

/-- What the inference makes of a failure concerns the action whose rules it
follows. -/
theorem concerns_attributeTo {f : Fault} (h : f.Unattributed) :
    (attributeTo view f).Concerns view.endpoint view.action := by
  have hendpoint :
      attributeTo.endpoint view = .null ∨ attributeTo.endpoint view = view.endpoint := by
    unfold attributeTo.endpoint
    split
    · exact .inr rfl
    · exact .inl rfl
  have haction : attributeTo.action view = .null ∨ attributeTo.action view = view.action := by
    unfold attributeTo.action
    split
    · exact .inr rfl
    · exact .inl rfl
  unfold attributeTo
  split
  · exact (Concerns.of_unattributed (unattributed_ofCause _)).attributeTo hendpoint haction
  · exact (Concerns.of_unattributed h).attributeTo hendpoint haction

/-- Rules that are met nowhere are no problem; that their paths cannot be listed
is a breach. -/
theorem noteUnused_failsAs_breach (example_ : Json) :
    (noteUnused view example_).FailsAs fun f => ∃ b, f = .breach b := by
  refine (Run.FailsAs.ofExcept fun f h => ?_).bind fun paths => .notes _ _
  rw [OverrideView.paths, Json.ascending] at h
  cases hsort : Sorting.sort Json.before (Json.distinct (view.rules.map (·.path))) with
  | ok sorted =>
    simp [hsort, Except.mapError] at h
  | error b =>
    rw [hsort] at h
    exact ⟨b, (Except.error.inj h).symm⟩

theorem noteUnused_failsAs (endpoint action example_ : Json) :
    (noteUnused view example_).FailsAs (Concerns endpoint action) := by
  intro f hf
  obtain ⟨b, rfl⟩ := noteUnused_failsAs_breach example_ f hf
  exact concerns_breach b

end Inference

open Inference in
/-- **The problems of an inference concern the action** whose rules it
follows. -/
theorem infer_failsAs (view : OverrideView) (name example_ : Json) :
    (infer view name example_).FailsAs (Concerns view.endpoint view.action) := by
  unfold infer
  split
  · exact (Run.FailsAs.note _ _).bind fun _ => .pure _
  · exact ((inferValue_failsAs nestingRoom name "" example_).mapFault fun f hf =>
      concerns_attributeTo hf).bind fun root =>
        (noteUnused_failsAs _ _ example_).bind fun _ => .pure root

end Exemplar
