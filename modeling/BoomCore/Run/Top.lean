import BoomCore.Library.Run
import BoomCore.Model.Top

/-!
# The loop among arbitrary arrivals

`CORE_CYCLE` from reset. Before every iteration the surroundings put any number of responses on the
two input ports; nothing is assumed about them.
-/

set_option autoImplicit false
set_option relaxedAutoImplicit false

namespace BoomCore

/-- What arrives at the input ports before an iteration. -/
structure Arrivals where
  imemResp : List ImemResponse := []
  dmemResp : List DmemResponse := []

namespace BoomCoreTop

/-- The loop with what has arrived. -/
def arrive (top : BoomCoreTop) (a : Arrivals) : BoomCoreTop :=
  { top with
    ports := { top.ports with
      imemRespIn := { top.ports.imemRespIn with q := top.ports.imemRespIn.q ++ a.imemResp }
      dmemRespIn := { top.ports.dmemRespIn with q := top.ports.dmemRespIn.q ++ a.dmemResp } } }

variable (arrivals : ℕ → Arrivals)

/-- The loop before iteration `n`. -/
def run : ℕ → BoomCoreTop := Run.states (fun top a ↦ (top.arrive a).coreCycle) {} arrivals

/-- The loop at the start of iteration `n`, with what has arrived. -/
def started (n : ℕ) : BoomCoreTop := (run arrivals n).arrive (arrivals n)

theorem run_succ (n : ℕ) : run arrivals (n + 1) = (started arrivals n).coreCycle := by
  unfold run started
  rw [Run.states_succ]
  rfl

/-- The fetch requests that the core writes in iteration `n`. -/
def imemRequests (n : ℕ) : List ImemRequest := (started arrivals n).coreStep.2.imemReq.q

/-- The data requests that the core writes in iteration `n`. -/
def dmemRequests (n : ℕ) : List DmemRequest := (started arrivals n).coreStep.2.dmemReq.q

/-- The record of what the core retires in iteration `n`. -/
def commitRecords (n : ℕ) : List CommitEntry :=
  let rob := (run arrivals (n + 1)).state.rob
  if rob.commitValid then [rob.lastCommit] else []

end BoomCoreTop

end BoomCore
