import BoomCore.Library.ByteMemory
import BoomCore.Run.System

/-!
# The core with a data memory

The data memory takes the requests of the core from a queue, the oldest one first. A store writes
the bytes under its mask; a load is answered with the aligned beat of eight bytes that contains its
address, as the memory is then. Answers wait until the schedule delivers them, in any order and
after any delay. `MemoryTick` says what happens around one step of the core: how many requests are
processed before it, which answer is on `dmem_resp`, and what the instruction memory and the
consumers do.
-/

set_option autoImplicit false
set_option relaxedAutoImplicit false

namespace BoomCore

/-- The surroundings of one step of the core with a data memory. The response in `tick` is not
used. -/
structure MemoryTick where
  tick : Tick := {}
  processed : ℕ := 0
  answered : Option ℕ := none

/-- The core, the memory, the requests that it has not processed and the answers that it has not
delivered. -/
structure MemorySystem where
  sys : System := {}
  memory : ByteMemory 64
  requests : List DmemRequest := []
  answers : List DmemResponse := []

/-- The aligned eight bytes around an address. -/
def beat (memory : ByteMemory 64) (address : BitVec 64) : BitVec 64 :=
  BitVec.ofNat 64 (memory.readNat (address &&& ~~~7#64) 8)

/-- The memory after a request. -/
def DmemRequest.perform (req : DmemRequest) (memory : ByteMemory 64) : ByteMemory 64 :=
  if req.isStore then memory.writeMasked req.address req.writeData req.writeMask 8 else memory

/-- The answer to a load. -/
def DmemRequest.answer (req : DmemRequest) (memory : ByteMemory 64) : DmemResponse :=
  { transactionId := req.transactionId, data := beat memory req.address
    readData := beat memory req.address }

/-- The answers that are left when the one at the given position has been delivered. -/
def undelivered (answers : List DmemResponse) : Option ℕ → List DmemResponse
  | none => answers
  | some i => answers.eraseIdx i

namespace MemorySystem

/-- The memory processes the oldest request. -/
def processOne (ms : MemorySystem) : MemorySystem :=
  match ms.requests with
  | [] => ms
  | req :: rest =>
    { ms with
      memory := req.perform ms.memory
      requests := rest
      answers := if req.isStore then ms.answers else ms.answers ++ [req.answer ms.memory] }

def process (ms : MemorySystem) : ℕ → MemorySystem
  | 0 => ms
  | k + 1 => ms.processOne.process k

/-- The surroundings of the core in a cycle, with the delivered answer on `dmem_resp`. -/
def tickOf (ms : MemorySystem) (mt : MemoryTick) : Tick :=
  { mt.tick with dmemResp := mt.answered.bind fun i ↦ (ms.process mt.processed).answers[i]? }

variable (program : Program)

def cycle (ms : MemorySystem) (mt : MemoryTick) : MemorySystem :=
  let processed := ms.process mt.processed
  { sys := ms.sys.cycle program (ms.tickOf mt)
    memory := processed.memory
    requests := processed.requests ++ (ms.sys.coreStep program (ms.tickOf mt)).2.dmemReq.q
    answers := undelivered processed.answers mt.answered }

/-- The core and the memory before cycle `n` of a schedule, from reset and a given memory. -/
def run (memory : ByteMemory 64) (mtick : ℕ → MemoryTick) : ℕ → MemorySystem :=
  Run.states (cycle program) { memory := memory } mtick

/-- What the core sees of the schedule. -/
def ticks (memory : ByteMemory 64) (mtick : ℕ → MemoryTick) (n : ℕ) : Tick :=
  (run program memory mtick n).tickOf (mtick n)

/-- The core runs as it does on its own with the same surroundings. -/
theorem run_sys (memory : ByteMemory 64) (mtick : ℕ → MemoryTick) (n : ℕ) :
    (run program memory mtick n).sys = System.run program (ticks program memory mtick) n := by
  induction n with
  | zero => rfl
  | succ n ih =>
    show (run program memory mtick n).sys.cycle program (ticks program memory mtick n) = _
    rw [ih]
    rfl

end MemorySystem

end BoomCore
