import BoomCore.Library.Run
import BoomCore.Model.Step
import BoomCore.Run.System

/-!
# The core among arbitrary responses

In the system of `Run.System` the instruction memory answers every request once. Here both response
streams are free: in every step the surroundings choose the response at the front of either stream,
with any address, identifier, instruction, data and exception flag, and the room that is left in the
three output streams. The core reads at most the front of a response stream in a step, so every way
of filling the streams appears among these inputs.
-/

set_option autoImplicit false
set_option relaxedAutoImplicit false

namespace BoomCore

/-- What the surroundings choose in one step. -/
structure Inputs where
  imemResp : Option ImemResponse := none
  dmemResp : Option DmemResponse := none
  imemReqRoom : ℕ := 1024
  dmemReqRoom : ℕ := 1024
  commitTraceRoom : ℕ := 1024

/-- The streams as the core finds them. -/
def Inputs.ports (u : Inputs) : PipeSignals :=
  { imemReq := { q := [], maxSize := u.imemReqRoom }
    imemResp := { q := u.imemResp.toList }
    dmemReq := { q := [], maxSize := u.dmemReqRoom }
    dmemResp := { q := u.dmemResp.toList }
    commitTrace := { q := [], maxSize := u.commitTraceRoom } }

namespace BoomCoreState

variable (s : BoomCoreState) (u : Inputs)

/-- The state after a step. -/
def next : BoomCoreState := (boomCoreStep s u.ports).1

/-- The fetch requests that a step writes. -/
def fetchRequests : List ImemRequest := (boomCoreStep s u.ports).2.imemReq.q

/-- The frontend state that meets the response of a step. -/
def awaiting : FrontendState :=
  let memory := memoryPhase s u.ports
  (((((frontendPrologue memory.1).onFlush memory.1.brupdate).dropPacket).sendRequest
    memory.2.imemReq)).1

/-- The response that the frontend accepts in a step: the one on the stream, when it carries the
identifier of the request in flight. In `ROB_EXCEPTION` the stream is left alone. -/
def acceptedResponse : Option ImemResponse :=
  if s.rob.state = .exception then none
  else u.imemResp.filter fun resp ↦
    (s.awaiting u).requestSent && resp.fetchId == (s.awaiting u).pendingFetchId

end BoomCoreState

namespace Core

variable (input : ℕ → Inputs)

/-- The core before step `n`, from reset. -/
def run : ℕ → BoomCoreState := Run.states BoomCoreState.next {} input

/-- The fetch requests of step `n`. -/
def fetchRequests (n : ℕ) : List ImemRequest := (run input n).fetchRequests (input n)

/-- The response that the frontend accepts in step `n`. -/
def accepted (n : ℕ) : Option ImemResponse := (run input n).acceptedResponse (input n)

/-- Before step `n` no response carries the identifier of a request of its own step. -/
def AnsweredLater (n : ℕ) : Prop :=
  ∀ m < n, ∀ resp ∈ (input m).imemResp, ∀ req ∈ fetchRequests input m,
    resp.fetchId ≠ req.fetchId

instance (n : ℕ) : Decidable (AnsweredLater input n) :=
  inferInstanceAs (Decidable (∀ m < n, ∀ resp ∈ (input m).imemResp, ∀ req ∈ _, _))

end Core

end BoomCore
