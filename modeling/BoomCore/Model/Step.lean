import BoomCore.Model.Frontend
import BoomCore.Model.Decode
import BoomCore.Model.Issue
import BoomCore.Model.Rob

/-!
# One step of the core

`boom_core_step` of `src/boom_core_step.cpp`: the modules run one after another on a copy of the
state, each on what the ones before it left.
-/

set_option autoImplicit false
set_option relaxedAutoImplicit false

namespace BoomCore

/-- The assignments before the first module. -/
def clearStep (state : BoomCoreState) : BoomCoreState :=
  { state with
    globalFlush := false, ioSuccess := false, ioTrap := false
    brupdate := { state.brupdate with valid := false, mispredict := false } }

/-- Branch resolution and the load/store unit, which work on what earlier steps left. -/
def memoryPhase (state : BoomCoreState) (pipe : PipeSignals) : BoomCoreState × PipeSignals :=
  lsuModule (branchModule (csrModule (clearStep state))) pipe

/-- From the decoder to execution: the path of a newly fetched uop. -/
def dispatchPhase (state : BoomCoreState) : BoomCoreState :=
  executeModule (issueModule (robAllocate (renameModule (decodeModule state))))

/-- `boom_core_step`. -/
def boomCoreStep (state : BoomCoreState) (pipe : PipeSignals) : BoomCoreState × PipeSignals :=
  let memory := memoryPhase state pipe
  let fetched := frontendModule memory.1 memory.2
  robCommitModule (dispatchPhase fetched.1) fetched.2

end BoomCore
