import BoomCore.Library.Run
import BoomCore.Model.Decode
import BoomCore.Model.Execute
import BoomCore.Model.Rename
import BoomCore.Run.System

/-!
# The sequential interpreter

A machine with 32 registers and a pc that takes one instruction of a program at a time. It decodes
and executes with the decoder and the execution switch of the core, on its own registers, and goes
to the redirect target of a control transfer or to the next word. An `ECALL` does nothing, and any
other exception halts it. It has no data memory: it records stores and does not execute loads.
-/

set_option autoImplicit false
set_option relaxedAutoImplicit false

namespace BoomCore

/-! ### What an instruction leaves behind -/

namespace AluResult

variable (r : AluResult)

/-- The commit record of an executed instruction. -/
def record : CommitEntry :=
  { valid := true, pc := r.uop.debugPc, inst := r.uop.inst, priv := .m
    rdValid := r.uop.writesInt
    rd := if r.uop.writesInt then r.uop.rename.ldst else 0
    rdValue := if r.uop.writesInt then r.result else 0
    memoryValid := r.isStore, isStore := r.isStore
    memoryAddress := if r.isStore then r.memoryAddress else 0
    memoryData := if r.isStore then r.storeData else 0
    memoryMask := if r.isStore then r.memoryMask else 0
    storeAddr := if r.isStore then r.memoryAddress else 0
    storeData := if r.isStore then r.storeData else 0
    storeMask := if r.isStore then r.memoryMask else 0 }

/-- The memory request of an executed store. -/
def request : DmemRequest :=
  { command := .store, isStore := true, committed := true, size := r.memorySize
    address := r.memoryAddress, data := r.storeData, writeData := r.storeData
    mask := r.memoryMask, writeMask := r.memoryMask, branchMask := r.uop.branch.brMask }

end AluResult

/-- The request without the two numbers that only the core can give it, the transaction and the cell
of the reorder buffer. -/
def DmemRequest.payload (req : DmemRequest) : DmemRequest :=
  { req with transactionId := 0, robIdx := 0 }

/-! ### The machine -/

structure ArchState where
  regs : CArray (BitVec 64) := fun _ ↦ 0
  pc : BitVec 64 := resetVector
  halted : Bool := false

namespace ArchState

variable (program : Program) (a : ArchState)

/-- The instruction at the pc, executed on the registers. Register zero reads as zero. -/
def result : AluResult :=
  let uop := decodeInst a.pc (program a.pc)
  executeUop uop (readOperand a.regs uop.rename.lrs1) (readOperand a.regs uop.rename.lrs2)

/-- The state after an instruction without exception. -/
def advance (r : AluResult) : ArchState :=
  { a with
    regs := if r.uop.writesInt then Function.update a.regs r.uop.rename.ldst r.result else a.regs
    pc := if r.mispredict then r.redirectPc &&& ~~~3#64 else a.pc + 4 }

def step : ArchState :=
  let r := a.result program
  if a.halted then a
  else if r.exception then
    if r.uop.uopc = .ecall then { a with pc := a.pc + 4 } else { a with halted := true }
  else a.advance r

/-- The instruction at the pc is executed without exception. -/
def completes : Bool := !a.halted && !(a.result program).exception

/-- The commit record that a step produces. -/
def commits : List CommitEntry :=
  if a.completes program then [(a.result program).record] else []

/-- The store request that a step produces. -/
def stores : List DmemRequest :=
  if a.completes program && (a.result program).isStore then [(a.result program).request] else []

/-- The interpreter before step `k`, from reset. -/
def run : ℕ → ArchState := Run.states (fun a (_ : Unit) ↦ a.step program) {} fun _ ↦ ()

/-- The instruction at the pc is no load, and no store of an undefined size. -/
def LoadFree : Prop :=
  a.halted = false → opcodeOf (program a.pc) ≠ 0x03 ∧
    (opcodeOf (program a.pc) = 0x23 → funct3Of (program a.pc) ≤ 3)

end ArchState

end BoomCore
