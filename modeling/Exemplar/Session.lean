import Exemplar.Effect
import Exemplar.Files
import Exemplar.Run
import Exemplar.Server
import Exemplar.Text.Shown

/-!
# Sessions

A session works on files, asks a server, and prints. All of that is data
here: the files as they are, the requests in the order in which they were
sent, the notices, and the printed lines. A session that fails keeps what
it has done up to then.
-/

namespace Exemplar

/-- **What a session has done** and has at hand. -/
structure Session.State where
  files : Files := .none
  /-- The requests, the first one first. -/
  requests : List Request := []
  notices : List Notice := []
  /-- The printed lines, the first one first. -/
  printed : List String := []

/-- **A session** that gives a result or fails. -/
abbrev Session (α : Type) := Effect Session.State α

namespace Session

variable {α : Type}

/-- Says something. -/
def say (level : Notice.Level) (text : String) : Session Unit :=
  modify fun s => { s with notices := s.notices ++ [⟨level, text⟩] }

/-- Prints a line, without the control sequences in it. -/
def print (line : String) : Session Unit :=
  modify fun s => { s with printed := s.printed ++ [Text.withoutControls line] }

/-- A run as a session: its notices are given, and it ends as the run. -/
def ofRun (x : Run α) : Session α := do
  modify fun s => { s with notices := s.notices ++ x.notices }
  Effect.ofExcept x.outcome

/-- **Sends a query**: the request is on record, whatever the reply. -/
def send (server : Server) (request : Request) : Session Reply := do
  modify fun s => { s with requests := s.requests ++ [request] }
  pure (server request.query)

@[simp]
theorem perform_say (level : Notice.Level) (text : String) (s : State) :
    (say level text).perform s = (.ok (), { s with notices := s.notices ++ [⟨level, text⟩] }) :=
  rfl

@[simp]
theorem perform_print (line : String) (s : State) :
    (print line).perform s =
      (.ok (), { s with printed := s.printed ++ [Text.withoutControls line] }) := rfl

@[simp]
theorem perform_ofRun (x : Run α) (s : State) :
    (ofRun x).perform s = (x.outcome, { s with notices := s.notices ++ x.notices }) := by
  rcases x with ⟨n, r⟩
  cases r <;> rfl

@[simp]
theorem perform_send (server : Server) (r : Request) (s : State) :
    (send server r).perform s =
      (.ok (server r.query), { s with requests := s.requests ++ [r] }) := rfl

end Session

end Exemplar
