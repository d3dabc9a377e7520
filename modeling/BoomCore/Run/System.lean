import BoomCore.Library.Run
import BoomCore.Model.Step

/-!
# The core between its memories

A cycle of the surrounding system, as the loops of the test benches and of `boom_core_top` run it:
the memories put their answers on the response streams, the core takes one step, and the
consumers empty the output streams. The instruction memory holds a program and answers each fetch
request once, with the address and the identifier of the request, at least one cycle after the
request was sent; which waiting request it answers in a cycle, if any, is the choice of the
schedule. Data responses and the room left in the output streams are arbitrary.
-/

set_option autoImplicit false
set_option relaxedAutoImplicit false

namespace BoomCore

/-- A program, as the instruction memory holds it. -/
abbrev Program : Type := BitVec 64 → BitVec 32

/-- The program with the given words from the reset vector on and the word `rest` everywhere
else. -/
def Program.ofWords (words : List (BitVec 32)) (rest : BitVec 32) : Program := fun address ↦
  words.getD ((address - resetVector) >>> 2).toNat rest

/-- `LD x1, 0(x0)`, and `ADDI x0, x0, 0` behind it. -/
def loadThenNops : Program := .ofWords [0x00003083#32] 0x00000013#32

/-- `LD x1, 0(x0)` and `JAL x0, 8`, and `ADDI x0, x0, 0` behind them. -/
def loadThenJump : Program := .ofWords [0x00003083#32, 0x0080006F#32] 0x00000013#32

/-- What the surroundings choose in one cycle: the waiting fetch request that is answered, the data
response, and how many elements the three output streams still take. -/
structure Tick where
  imemAnswer : Option ℕ := none
  dmemResp : Option DmemResponse := none
  imemReqRoom : ℕ := 1024
  dmemReqRoom : ℕ := 1024
  commitTraceRoom : ℕ := 1024

/-- A cycle in which the oldest waiting fetch request is answered. -/
def Tick.fetch : Tick := { imemAnswer := some 0 }

/-- The core and the fetch requests that wait for an answer. -/
structure System where
  core : BoomCoreState := {}
  imem : List ImemRequest := []

/-- The answer of the instruction memory to a request. -/
def Program.answer (program : Program) (req : ImemRequest) : ImemResponse :=
  { address := req.address, fetchId := req.fetchId, instruction := program req.address }

namespace System

variable (program : Program)

/-- The response that is on `imem_resp` in a cycle. -/
def response (sys : System) (t : Tick) : Option ImemResponse :=
  (t.imemAnswer.bind fun i ↦ sys.imem[i]?).map (Program.answer program)

/-- The response that the frontend takes in a cycle. In `ROB_EXCEPTION` it leaves the stream
alone. -/
def accepted (sys : System) (t : Tick) : Option ImemResponse :=
  if sys.core.rob.state = .exception then none else sys.response program t

/-- The streams as the core finds them. -/
def ports (sys : System) (t : Tick) : PipeSignals :=
  { imemReq := { q := [], maxSize := t.imemReqRoom }
    imemResp := { q := (sys.response program t).toList }
    dmemReq := { q := [], maxSize := t.dmemReqRoom }
    dmemResp := { q := t.dmemResp.toList }
    commitTrace := { q := [], maxSize := t.commitTraceRoom } }

/-- The step of the core in a cycle, with the streams as it leaves them. -/
def coreStep (sys : System) (t : Tick) : BoomCoreState × PipeSignals :=
  boomCoreStep sys.core (sys.ports program t)

/-- The state and the streams after the load/store unit. -/
def afterMemory (sys : System) (t : Tick) : BoomCoreState × PipeSignals :=
  memoryPhase sys.core (sys.ports program t)

/-- The state and the streams after the frontend. -/
def afterFetch (sys : System) (t : Tick) : BoomCoreState × PipeSignals :=
  frontendModule (sys.afterMemory program t).1 (sys.afterMemory program t).2

/-- The state that `rob_commit_module` finds. -/
def beforeCommit (sys : System) (t : Tick) : BoomCoreState :=
  dispatchPhase (sys.afterFetch program t).1

theorem coreStep_eq (sys : System) (t : Tick) :
    sys.coreStep program t =
      robCommitModule (sys.beforeCommit program t) (sys.afterFetch program t).2 := rfl

/-- The requests that wait after the cycle. A response that the core left on the stream can still
be taken later. -/
def waiting (sys : System) (t : Tick) (out : PipeSignals) : List ImemRequest :=
  (if out.imemResp.q = [] then
    match t.imemAnswer with
    | none => sys.imem
    | some i => sys.imem.eraseIdx i
  else sys.imem) ++ out.imemReq.q

def cycle (sys : System) (t : Tick) : System :=
  { core := (sys.coreStep program t).1
    imem := sys.waiting t (sys.coreStep program t).2 }

/-- The system before cycle `n` of a schedule, from reset. -/
def run (tick : ℕ → Tick) : ℕ → System := Run.states (cycle program) {} tick

end System

end BoomCore
