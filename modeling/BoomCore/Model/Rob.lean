import BoomCore.Model.Rename
import BoomCore.Model.Execute
import BoomCore.Model.Lsu

/-!
# The reorder buffer

`rob_allocate` and `rob_commit_module` of `src/boom_core_step.cpp`. Commit retires at most one
entry in a step. A redirect invalidates every entry, whatever its age; an exception at the head
stops the core, except that an `ECALL` raises `io_success` or `io_trap` and leaves.
-/

set_option autoImplicit false
set_option relaxedAutoImplicit false

namespace BoomCore

/-! ### Allocation -/

def RobInternalState.isFull (rob : RobInternalState) : Bool :=
  decide (rob.head = rob.tail) && rob.maybeFull

def RobInternalState.isEmpty (rob : RobInternalState) : Bool :=
  decide (rob.head = rob.tail) && !rob.maybeFull

/-- `rob.state` leaves `ROB_INIT` in the first step. -/
def RobInternalState.wake (rob : RobInternalState) : RobInternalState :=
  { rob with state := if rob.state = .init then .normal else rob.state }

/-- The uop with the index of its entry. -/
def MicroOp.atRob (uop : MicroOp) (i : Nat) : MicroOp := { uop with queue := { robIdx := i } }

/-- A fresh entry for `uop` at the tail. -/
def RobInternalState.allocate (rob : RobInternalState) (uop : MicroOp) : RobInternalState :=
  let tail := (rob.tail + 1) % robDepth
  { rob with
    entries := Function.update rob.entries rob.tail
      { valid := true, busy := true, exception := uop.exception, uop := uop.atRob rob.tail }
    tail := tail
    maybeFull := if tail = rob.head then true else rob.maybeFull }

/-- `rob_allocate`. When the buffer is full the renamed uop is invalidated. -/
def robAllocate (state : BoomCoreState) : BoomCoreState :=
  let rob := state.rob.wake
  if state.globalFlush || !state.rename.renamedValid then { state with rob := rob }
  else if rob.isFull then
    { state with rob := rob, rename := { state.rename with renamedValid := false } }
  else if state.rename.renamedUop.uopc = .nop then { state with rob := rob }
  else
    { state with
      rob := rob.allocate state.rename.renamedUop
      rename := { state.rename with
        renamedUop := state.rename.renamedUop.atRob rob.tail } }

/-! ### Commit -/

/-- The block under `brupdate.mispredict`. -/
def RobInternalState.flush (rob : RobInternalState) : RobInternalState :=
  { rob with
    entries := fun i ↦
      let entry := rob.entries i
      if i < robDepth ∧ entry.valid then { entry with valid := false, busy := false } else entry
    head := 0, tail := 0, maybeFull := false, state := .normal }

/-- The entry is marked complete here unless the load/store unit does it. -/
def AluResult.completesInRob (r : AluResult) : Bool :=
  r.valid && !(r.memoryValid || r.isLoad || r.isStore || r.uop.ctrl.isLoad || r.uop.ctrl.isSta)

/-- The completion loop, for the one lane. -/
def RobInternalState.markComplete (rob : RobInternalState) (r : AluResult) : RobInternalState :=
  let i := r.uop.queue.robIdx
  if r.completesInRob && decide (i < robDepth) && (rob.entries i).valid then
    { rob with
      entries := Function.update rob.entries i
        { rob.entries i with
          busy := false, exception := (rob.entries i).exception || r.exception } }
  else rob

/-- Invalidate the head entry and advance the head. -/
def RobInternalState.popHead (rob : RobInternalState) : RobInternalState :=
  { rob with
    entries := Function.update rob.entries rob.head { rob.entries rob.head with valid := false }
    head := (rob.head + 1) % robDepth
    maybeFull := false }

/-- The value that decides the verdict of an `ECALL`, register `a0` of the speculative map. -/
def ecallVerdict (state : BoomCoreState) : BitVec 64 :=
  readOperand state.intRf (state.rename.intMapTable.mapTable 10)

/-- An exception at the head: `ECALL` leaves, everything else stops the core. -/
def commitException (state : BoomCoreState) (he : RobEntry) : BoomCoreState :=
  if he.uop.uopc = .ecall then
    let success := decide (ecallVerdict state = 0)
    { state with
      rob := state.rob.popHead
      ioSuccess := state.ioSuccess || success
      ioTrap := state.ioTrap || !success }
  else { state with rob := { state.rob with state := .exception }, ioTrap := true }

def storeRequest (he : RobEntry) (tx : BitVec 32) : DmemRequest :=
  { transactionId := tx, robIdx := he.uop.queue.robIdx, command := .store, isStore := true
    committed := true, address := he.memoryAddress, data := he.memoryData
    writeData := he.memoryData, size := he.memorySize, mask := he.memoryMask
    writeMask := he.memoryMask, branchMask := he.uop.branch.brMask }

/-- The store at the head sends its request. -/
def sendStore (state : BoomCoreState) (pipe : PipeSignals) (he : RobEntry) :
    BoomCoreState × PipeSignals :=
  ({ state.setEntry state.rob.head { he with memoryRequestSent := true, memoryCompleted := true }
      with
      lsu := { state.lsu with nextTransactionId := state.lsu.nextTransactionId + 1 }
      tohost := he.memoryData },
    { pipe with dmemReq := pipe.dmemReq.write (storeRequest he state.lsu.nextTransactionId) })

def MicroOp.rdValid (uop : MicroOp) : Bool :=
  decide (uop.rename.dstRtype = .int) && decide (uop.rename.pdst ≠ 0)

def commitRecord (state : BoomCoreState) (he : RobEntry) : CommitEntry :=
  { valid := true, pc := he.uop.debugPc, inst := he.uop.inst
    rdValid := he.uop.rdValid, rd := he.uop.rename.ldst, priv := state.csr.priv
    exception := false, branchMispredict := false
    rdValue := if he.uop.rdValid then state.intRf he.uop.rename.pdst else 0
    memoryValid := he.memoryValid, isStore := he.isStore
    memoryAddress := he.memoryAddress, memoryData := he.memoryData, memoryMask := he.memoryMask
    storeAddr := he.memoryAddress, storeData := he.memoryData, storeMask := he.memoryMask }

/-- Install the destination of the retired uop in the committed map and release the register that
it replaces. -/
def RenameState.commitDst (ren : RenameState) (uop : MicroOp) : RenameState :=
  if uop.rename.pdst ≠ 0 then
    { ren with
      intMapTable := { ren.intMapTable with
        committedMapTable :=
          Function.update ren.intMapTable.committedMapTable uop.rename.ldst uop.rename.pdst }
      intFreeList :=
        if uop.rename.stalePdst ≠ 0 ∧ uop.rename.stalePdst < intPhysRegs ∧
            ren.intFreeList.count < intPhysRegs then
          ren.intFreeList.push uop.rename.stalePdst
        else ren.intFreeList }
  else ren

/-- From `state.csr.instret++` to the end: record the retirement of the head entry. -/
def retire (state : BoomCoreState) (pipe : PipeSignals) (he : RobEntry) :
    BoomCoreState × PipeSignals :=
  let ce := commitRecord state he
  ({ state with
      csr := { state.csr with instret := state.csr.instret + 1 }
      rename := state.rename.commitDst he.uop
      rob := { state.rob.popHead with lastCommit := ce, commitValid := true } },
    { pipe with
      commitTrace :=
        if pipe.commitTrace.full then pipe.commitTrace else pipe.commitTrace.write ce })

/-- The head entry without exception: a load waits for its response, a store for its operands and
for room in `dmem_req`. -/
def commitHead (state : BoomCoreState) (pipe : PipeSignals) (he : RobEntry) :
    BoomCoreState × PipeSignals :=
  if (he.uop.ctrl.isLoad || he.isLoad) && !he.memoryCompleted then (state, pipe)
  else if he.uop.ctrl.isSta || he.isStore then
    if !he.memoryValid then (state, pipe)
    else if !he.memoryRequestSent then
      if pipe.dmemReq.full then (state, pipe)
      else
        let sent := sendStore state pipe he
        retire sent.1 sent.2 { he with memoryRequestSent := true, memoryCompleted := true }
    else retire state pipe he
  else retire state pipe he

/-- The part of `rob_commit_module` after the completion loop. -/
def commitStage (state : BoomCoreState) (pipe : PipeSignals) : BoomCoreState × PipeSignals :=
  let he := state.rob.entries state.rob.head
  if !state.rob.isEmpty && he.valid && !he.busy then
    if he.exception then (commitException state he, pipe)
    else commitHead state pipe he
  else (state, pipe)

/-- `rob_commit_module`. -/
def robCommitModule (state : BoomCoreState) (pipe : PipeSignals) : BoomCoreState × PipeSignals :=
  let rob := { state.rob with commitValid := false }
  if state.brupdate.valid && state.brupdate.mispredict then
    ({ state with rob := rob.flush, globalFlush := true }, pipe)
  else commitStage { state with rob := rob.markComplete state.execute.aluResult } pipe

end BoomCore
