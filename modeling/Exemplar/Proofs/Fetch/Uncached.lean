import Exemplar.Fetch
import Exemplar.Proofs.Inference.Attribution
import Exemplar.Proofs.Session

/-!
# Fetching without a cache

A fetcher that has no cache looks at no file, so what comes of an example is up
to the reply of the server (`settles_fetchExample`). Whatever goes wrong concerns
the action whose example it is.
-/

namespace Exemplar

open Fault

/-- An example that cannot be decoded is a problem of nobody yet. -/
theorem Example.unattributed_of_decode {d : Json} {f : Fault} (h : decode d = .error f) :
    f.Unattributed := by
  have htext : ∀ v, decodeText v = .error f → f.Unattributed := by
    intro v hv
    unfold decodeText at hv
    split at hv
    · cases hv
      exact unattributed_ofCause _
    · split at hv
      · split at hv
        · nomatch hv
        · split at hv <;> cases hv
          · exact unattributed_ofCause _
          · exact concerns_breach _
          · exact concerns_breach _
      · cases hv
        exact concerns_breach _
  unfold decode at h
  split at h
  · dsimp only at h
    split at h
    · exact htext _ h
    · split at h
      · nomatch h
      · cases h
        exact unattributed_ofCause _
    · cases h
      exact unattributed_ofCause _
  · cases h
    exact concerns_breach _

namespace Fetcher

variable {server : Server} {f : Fetcher} {endpoint action : Json}

/-- A reply without a document is a problem of nobody yet. -/
theorem unattributed_of_documentIn {url : String} {reply : Reply} {g : Fault}
    (h : documentIn url reply = .error g) : g.Unattributed := by
  unfold documentIn at h
  split at h <;> cases h
  · exact unattributed_ofCause _
  · exact unattributed_ofCause _
  · exact unattributed_ofCause _
  · exact concerns_breach _

/-- **Asking for a document** is settled by the reply. -/
theorem settles_requestDocument (server : Server) (f : Fetcher) (endpoint action : Json) :
    ∃ r, (requestDocument server f endpoint action).Settles r
      ∧ ∀ g, r = .error g → g.Unattributed :=
  ⟨_, (Session.Settles.send server _).bind (.ofExcept _), fun _ => unattributed_of_documentIn⟩

/-- **Fetching without a cache** is settled by the reply, and what goes wrong
concerns the action. -/
theorem settles_fetchExample (hcache : f.cache = none) (server : Server)
    (endpoint action : Json) :
    ∃ r, (fetchExample server f endpoint action).Settles r
      ∧ ∀ g, r = .error g → g.Concerns endpoint action := by
  obtain ⟨r, hrequest, hfails⟩ := settles_requestDocument server f endpoint action
  have hload : (loadDocument server f endpoint action).Settles r := by
    simpa only [loadDocument, cacheFile?, hcache, Option.map_none] using hrequest
  have hattributed : ∀ {r : Except Fault Json} {g : Fault}, (∀ g, r = .error g → g.Unattributed) →
      r.mapError (·.attributeTo endpoint action) = .error g → g.Concerns endpoint action := by
    intro r g hr hg
    cases r with
    | ok x => nomatch hg
    | error g' =>
      cases hg
      exact (Concerns.of_unattributed (hr g' rfl)).attributeTo (.inr rfl) (.inr rfl)
  cases r with
  | error g =>
    exact ⟨_, (hload.bind_error).mapFault _, fun _ => hattributed hfails⟩
  | ok d =>
    exact ⟨_, (hload.bind (.ofExcept (Example.decode d))).mapFault _,
      fun _ => hattributed fun _ => Example.unattributed_of_decode⟩

end Fetcher

end Exemplar
