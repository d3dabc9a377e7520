import BoomCore.Library.CheckedArray
import BoomCore.Model.Step

/-!
# The core with checked array accesses

The arrays of the source have a fixed size and are accessed without a check. Here the functions of
the model that access one stand again, under their names in the source and in the order in which
the source accesses, and an access outside of its array has no result; neither has `fl.count--`
at zero or `fl.count++` at the size of the list. The loops that run an index, `issued`, `w` or `ri`
of their own are written out with it, and the `ISSUE_WIDTH` lanes of `issued_uops` with them. A loop
that runs over all of an array, from zero to its declared size, has no access outside and is the
one of the model, and so are the functions without an access, the `DISPATCH_WIDTH` lane of
the other arrays being a single value.
-/

set_option autoImplicit false
set_option relaxedAutoImplicit false

namespace BoomCore

abbrev dispatchWidth : Nat := 1
abbrev issueWidth : Nat := 3

namespace Checked

open CheckedArray

/-! ### `lsu.cpp` -/

def olderStoreFrom (entries : CArray RobEntry) (robIdx : Nat) : Nat → Nat → Option Bool
  | 0, _ => some false
  | fuel + 1, idx =>
    if idx = robIdx then some false
    else do
      let entry ← readCell robDepth entries idx
      if entry.valid && entry.uop.ctrl.isSta then some true
      else olderStoreFrom entries robIdx fuel ((idx + 1) % robDepth)

/-- Overwrite one entry of the reorder buffer. -/
def setEntry (state : BoomCoreState) (i : Nat) (entry : RobEntry) : Option BoomCoreState := do
  let entries ← writeCell robDepth state.rob.entries i entry
  some { state with rob := { state.rob with entries := entries } }

/-- `try_issue_load`. -/
def tryIssueLoad (state : BoomCoreState) (pipe : PipeSignals) (robIdx : Nat) :
    Option (BoomCoreState × PipeSignals) := do
  let entry ← readCell robDepth state.rob.entries robIdx
  if entry.valid && entry.isLoad && entry.memoryValid && !entry.memoryRequestSent &&
      !state.lsu.loadResponsePending then
    let older ← olderStoreFrom state.rob.entries robIdx robDepth state.rob.head
    if !older && !pipe.dmemReq.full then
      let tx := state.lsu.nextTransactionId
      let next ← setEntry state robIdx (entry.sent tx)
      some ({ next with
          lsu := { state.lsu with
            nextTransactionId := tx + 1, loadResponsePending := true
            pendingLoadTransactionId := tx, pendingLoadRobIdx := robIdx } },
        { pipe with dmemReq := pipe.dmemReq.write (loadRequest entry robIdx tx) })
    else some (state, pipe)
  else some (state, pipe)

def issueLoadsFrom (state : BoomCoreState) (pipe : PipeSignals) :
    Nat → Nat → Option (BoomCoreState × PipeSignals)
  | 0, _ => some (state, pipe)
  | fuel + 1, i => do
    let tried ← tryIssueLoad state pipe ((state.rob.head + i) % robDepth)
    if tried.1.lsu.loadResponsePending then some tried
    else issueLoadsFrom tried.1 tried.2 fuel (i + 1)

/-- The queue part of `enqueue_store`. -/
def pushStore (lsu : LsuState) (result : AluResult) : Option LsuState :=
  if lsu.stqCount < stqDepth then do
    let stq ← writeCell stqDepth lsu.stq lsu.stqTail
      { valid := true, addressValid := true, dataValid := true
        robIdx := result.uop.queue.robIdx, address := result.memoryAddress
        data := result.storeData, mask := result.memoryMask, size := result.memorySize
        branchMask := result.uop.branch.brMask }
    some { lsu with
      stq := stq, stqTail := (lsu.stqTail + 1) % stqDepth, stqCount := lsu.stqCount + 1 }
  else some lsu

/-- The queue part of `enqueue_load`. -/
def pushLoad (lsu : LsuState) (result : AluResult) : Option LsuState :=
  if lsu.ldqCount < ldqDepth then do
    let ldq ← writeCell ldqDepth lsu.ldq lsu.ldqTail
      { valid := true, robIdx := result.uop.queue.robIdx, address := result.memoryAddress
        size := result.memorySize, signedLoad := result.signedLoad
        branchMask := result.uop.branch.brMask }
    some { lsu with
      ldq := ldq, ldqTail := (lsu.ldqTail + 1) % ldqDepth, ldqCount := lsu.ldqCount + 1 }
  else some lsu

/-- A matching response, for the entry it was sent for. -/
def completeLoad (state : BoomCoreState) (resp : DmemResponse) : Option BoomCoreState := do
  let entry ← readCell robDepth state.rob.entries state.lsu.pendingLoadRobIdx
  if entry.awaitsResponse then
    let intRf ←
      if !resp.exception && decide (entry.uop.rename.pdst ≠ 0) then
        writeCell intPhysRegs state.intRf entry.uop.rename.pdst (entry.responseValue resp)
      else some state.intRf
    let next ← setEntry state state.lsu.pendingLoadRobIdx (entry.complete resp)
    some { next with intRf := intRf }
  else some state

def handleResponse (state : BoomCoreState) (resp : DmemResponse) : Option BoomCoreState :=
  if state.lsu.matchesPending resp then do
    let next ← completeLoad state resp
    some { next with
      lsu := { next.lsu with loadResponsePending := false, pendingLoadTransactionId := 0 } }
  else some state

def takeDmemResponse (state : BoomCoreState) (pipe : PipeSignals) :
    Option (BoomCoreState × PipeSignals) :=
  match pipe.dmemResp.read with
  | none => some (state, pipe)
  | some (resp, rest) => do
    let next ← handleResponse state resp
    some (next, { pipe with dmemResp := rest })

/-- `enqueue_store` or `enqueue_load`. The entry is read only when `rob_idx < ROB_DEPTH`. -/
def enqueueResult (state : BoomCoreState) : Option BoomCoreState :=
  let result := state.execute.aluResult
  let i := result.uop.queue.robIdx
  if result.valid && result.memoryValid && decide (i < robDepth) then do
    let entry ← readCell robDepth state.rob.entries i
    if entry.valid then
      if result.isStore then
        let next ← setEntry state i (entry.asStore result)
        let lsu ← pushStore state.lsu result
        some { next with lsu := lsu }
      else if result.isLoad then
        let next ← setEntry state i (entry.asLoad result)
        let lsu ← pushLoad state.lsu result
        some { next with lsu := lsu }
      else some state
    else some state
  else some state

def lsuModule (state : BoomCoreState) (pipe : PipeSignals) :
    Option (BoomCoreState × PipeSignals) :=
  if state.globalFlush then some ({ state with lsu := state.lsu.clearQueues }, pipe)
  else do
    let taken ← takeDmemResponse state pipe
    let next ← enqueueResult taken.1
    issueLoadsFrom next taken.2 robDepth 0

/-! ### `rename.cpp` -/

/-- Take the register at the head of the free list. -/
def pop (fl : RenameFreeListState) : Option (Nat × RenameFreeListState) := do
  let pdst ← readCell intPhysRegs fl.freeList fl.head
  let busyTable ← writeCell intPhysRegs fl.busyTable pdst true
  if 0 < fl.count then
    some (pdst, { fl with
      head := (fl.head + 1) % intPhysRegs, count := fl.count - 1, busyTable := busyTable })
  else none

def renameUop (uop : MicroOp) (mt : RenameMapTableState) (fl : RenameFreeListState) :
    Option (MicroOp × RenameMapTableState × RenameFreeListState) := do
  let prs1 ← readCell logicalRegCount mt.mapTable uop.rename.lrs1
  let prs2 ← readCell logicalRegCount mt.mapTable uop.rename.lrs2
  let stalePdst ← readCell logicalRegCount mt.mapTable uop.rename.ldst
  let uop := { uop with
    rename := { uop.rename with
      prs1 := prs1, prs2 := prs2, stalePdst := stalePdst, prs1Busy := false, prs2Busy := false } }
  if uop.writesInt then
    if 0 < fl.count then
      let popped ← pop fl
      let mapTable ← writeCell logicalRegCount mt.mapTable uop.rename.ldst popped.1
      some ({ uop with rename := { uop.rename with pdst := popped.1 } },
        { mt with mapTable := mapTable }, popped.2)
    else some (uop, mt, fl)
  else some ({ uop with rename := { uop.rename with pdst := 0, ldst := 0 } }, mt, fl)

def renameModule (state : BoomCoreState) : Option BoomCoreState :=
  let cleared := { state.rename with renamedValid := false, renamedUop := {} }
  if state.globalFlush then some { state with rename := cleared }
  else
    let mt :=
      if state.brupdate.valid && state.brupdate.mispredict then cleared.intMapTable.restore
      else cleared.intMapTable
    if state.decode.decValid then do
      let renamed ← renameUop state.decode.decUop mt cleared.intFreeList
      some { state with
        rename :=
          { renamedUop := renamed.1, renamedValid := true
            intMapTable := renamed.2.1, intFreeList := renamed.2.2 } }
    else some { state with rename := { cleared with intMapTable := mt } }

/-! ### `rob_allocate` -/

def allocate (rob : RobInternalState) (uop : MicroOp) : Option RobInternalState := do
  let tail := (rob.tail + 1) % robDepth
  let entries ← writeCell robDepth rob.entries rob.tail
    { valid := true, busy := true, exception := uop.exception, uop := uop.atRob rob.tail }
  some { rob with
    entries := entries, tail := tail
    maybeFull := if tail = rob.head then true else rob.maybeFull }

def robAllocate (state : BoomCoreState) : Option BoomCoreState :=
  let rob := state.rob.wake
  if state.globalFlush || !state.rename.renamedValid then some { state with rob := rob }
  else if rob.isFull then
    some { state with rob := rob, rename := { state.rename with renamedValid := false } }
  else if state.rename.renamedUop.uopc = .nop then some { state with rob := rob }
  else do
    let next ← allocate rob state.rename.renamedUop
    some { state with
      rob := next
      rename := { state.rename with
        renamedUop := state.rename.renamedUop.atRob rob.tail } }

/-! ### `issue.cpp` -/

/-- The `ISSUE_WIDTH` lanes of `issued_uops` and `issued_valids`. -/
structure Lanes where
  uops : CArray MicroOp := fun _ ↦ {}
  valids : CArray Bool := fun _ ↦ false

/-- The dispatch loop, for its one lane. -/
def dispatch (iq : IssueQueueState) (ren : RenameState) : Option IssueQueueState :=
  if ren.renamedValid && decide (iq.count < issueQueueAluDepth) &&
      (decide (ren.renamedUop.iqType = .alu) || decide (ren.renamedUop.iqType = .mem)) then do
    let entries ← writeCell issueQueueAluDepth iq.entries iq.tail (dispatchSlot ren.renamedUop)
    some { iq with
      entries := entries, tail := (iq.tail + 1) % issueQueueAluDepth, count := iq.count + 1 }
  else some iq

/-- The selection loop from slot `i` on, for `fuel` slots, with the counter `issued`. The second
bound of the counter is `implemented_alu_lanes`. -/
def selectFrom : Nat → Nat → Nat → CArray IssueSlotEntry → Lanes →
    Option (CArray IssueSlotEntry × Lanes)
  | 0, _, _, entries, lanes => some (entries, lanes)
  | fuel + 1, i, issued, entries, lanes =>
    if issued < issueWidth ∧ issued < dispatchWidth then do
      let s ← readCell issueQueueAluDepth entries i
      if s.ready then
        let entries ← writeCell issueQueueAluDepth entries i
          { s with granted := true, request := false }
        let uops ← writeCell issueWidth lanes.uops issued s.uop
        let valids ← writeCell issueWidth lanes.valids issued true
        selectFrom fuel (i + 1) (issued + 1) entries { uops := uops, valids := valids }
      else selectFrom fuel (i + 1) issued entries lanes
    else some (entries, lanes)

/-- The compaction loop from slot `i` on, for `fuel` slots, with the counter `w` of `temp`. -/
def compactFrom (entries : CArray IssueSlotEntry) : Nat → Nat → Nat → CArray IssueSlotEntry →
    Option (CArray IssueSlotEntry × Nat)
  | 0, _, w, temp => some (temp, w)
  | fuel + 1, i, w, temp => do
    let s ← readCell issueQueueAluDepth entries i
    if s.valid && !s.granted then
      let temp ← writeCell issueQueueAluDepth temp w s
      compactFrom entries fuel (i + 1) (w + 1) temp
    else compactFrom entries fuel (i + 1) w temp

/-- Rebuild the queue. The cells of `temp` from `w` on are those of `IssueSlotEntry()`, which is not
valid. -/
def compact (iq : IssueQueueState) : Option IssueQueueState := do
  let compacted ← compactFrom iq.entries issueQueueAluDepth 0 0 fun _ ↦ {}
  some { iq with
    entries := compacted.1, tail := compacted.2 % issueQueueAluDepth, count := compacted.2 }

/-- `issue_module`, with the lanes that it fills. The first one is that of the model. -/
def issueModule (state : BoomCoreState) : Option (BoomCoreState × Lanes) :=
  if state.globalFlush then
    some ({ state with
      issue := { aluIq := state.issue.aluIq.cleared, issuedUop := {}, issuedValid := false } }, {})
  else do
    let iq ← dispatch state.issue.aluIq state.rename
    let selected ← selectFrom issueQueueAluDepth 0 0 iq.entries {}
    let aluIq ← compact { iq with entries := selected.1 }
    some ({ state with
      issue :=
        { aluIq := aluIq, issuedUop := selected.2.uops 0, issuedValid := selected.2.valids 0 } },
      selected.2)

/-! ### `execute.cpp` -/

def readOperand (intRf : CArray (BitVec 64)) (prs : Nat) : Option (BitVec 64) :=
  if prs ≠ 0 then readCell intPhysRegs intRf prs else some 0

def writeBack (intRf : CArray (BitVec 64)) (r : AluResult) : Option (CArray (BitVec 64)) :=
  if !r.isLoad && decide (r.uop.rename.dstRtype = .int) && decide (r.uop.rename.pdst ≠ 0) then
    writeCell intPhysRegs intRf r.uop.rename.pdst r.result
  else some intRf

/-- The execution loop from lane `i` on, for `fuel` lanes, with the counter `ri` of
`alu_results`. -/
def executeFrom (lanes : Lanes) : Nat → Nat → Nat → CArray AluResult → CArray (BitVec 64) →
    Option (CArray AluResult × CArray (BitVec 64))
  | 0, _, _, results, intRf => some (results, intRf)
  | fuel + 1, i, ri, results, intRf =>
    if ri < dispatchWidth then do
      let valid ← readCell issueWidth lanes.valids i
      if valid then
        let uop ← readCell issueWidth lanes.uops i
        let rs1 ← readOperand intRf uop.rename.prs1
        let rs2 ← readOperand intRf uop.rename.prs2
        let r := executeUop uop rs1 rs2
        let results ← writeCell dispatchWidth results ri r
        let intRf ← writeBack intRf r
        executeFrom lanes fuel (i + 1) (ri + 1) results intRf
      else executeFrom lanes fuel (i + 1) ri results intRf
    else some (results, intRf)

def executeModule (state : BoomCoreState) (lanes : Lanes) : Option BoomCoreState := do
  let executed ← executeFrom lanes issueWidth 0 0 (fun _ ↦ {}) state.intRf
  some { state with execute := { aluResult := executed.1 0 }, intRf := executed.2 }

/-! ### `rob_commit_module` -/

/-- The completion loop, for the one lane. The entry is read only when `ridx < ROB_DEPTH`. -/
def markComplete (rob : RobInternalState) (r : AluResult) : Option RobInternalState :=
  let i := r.uop.queue.robIdx
  if r.completesInRob && decide (i < robDepth) then do
    let entry ← readCell robDepth rob.entries i
    if entry.valid then
      let entries ← writeCell robDepth rob.entries i
        { entry with busy := false, exception := entry.exception || r.exception }
      some { rob with entries := entries }
    else some rob
  else some rob

def popHead (rob : RobInternalState) : Option RobInternalState := do
  let entry ← readCell robDepth rob.entries rob.head
  let entries ← writeCell robDepth rob.entries rob.head { entry with valid := false }
  some { rob with entries := entries, head := (rob.head + 1) % robDepth, maybeFull := false }

def commitException (state : BoomCoreState) (he : RobEntry) : Option BoomCoreState :=
  if he.uop.uopc = .ecall then do
    let preg ← readCell logicalRegCount state.rename.intMapTable.mapTable 10
    let value ← readOperand state.intRf preg
    let rob ← popHead state.rob
    some { state with
      rob := rob
      ioSuccess := state.ioSuccess || decide (value = 0)
      ioTrap := state.ioTrap || !decide (value = 0) }
  else some { state with rob := { state.rob with state := .exception }, ioTrap := true }

def sendStore (state : BoomCoreState) (pipe : PipeSignals) (he : RobEntry) :
    Option (BoomCoreState × PipeSignals) := do
  let next ← setEntry state state.rob.head
    { he with memoryRequestSent := true, memoryCompleted := true }
  some ({ next with
      lsu := { state.lsu with nextTransactionId := state.lsu.nextTransactionId + 1 }
      tohost := he.memoryData },
    { pipe with dmemReq := pipe.dmemReq.write (storeRequest he state.lsu.nextTransactionId) })

/-- Append a register behind the free list. -/
def push (fl : RenameFreeListState) (preg : Nat) : Option RenameFreeListState := do
  let busyTable ← writeCell intPhysRegs fl.busyTable preg false
  let freeList ← writeCell intPhysRegs fl.freeList fl.tail preg
  if fl.count < intPhysRegs then
    some { fl with
      busyTable := busyTable, freeList := freeList
      tail := (fl.tail + 1) % intPhysRegs, count := fl.count + 1 }
  else none

def commitDst (ren : RenameState) (uop : MicroOp) : Option RenameState :=
  if uop.rename.pdst ≠ 0 then do
    let committed ← writeCell logicalRegCount ren.intMapTable.committedMapTable uop.rename.ldst
      uop.rename.pdst
    let intFreeList ←
      if uop.rename.stalePdst ≠ 0 ∧ uop.rename.stalePdst < intPhysRegs ∧
          ren.intFreeList.count < intPhysRegs then
        push ren.intFreeList uop.rename.stalePdst
      else some ren.intFreeList
    some { ren with
      intMapTable := { ren.intMapTable with committedMapTable := committed }
      intFreeList := intFreeList }
  else some ren

/-- The record of a retirement. The register file is read only for a destination. -/
def commitRecord (state : BoomCoreState) (he : RobEntry) : Option CommitEntry := do
  let rdValue ←
    if he.uop.rdValid then readCell intPhysRegs state.intRf he.uop.rename.pdst else some 0
  some
    { valid := true, pc := he.uop.debugPc, inst := he.uop.inst
      rdValid := he.uop.rdValid, rd := he.uop.rename.ldst, priv := state.csr.priv
      exception := false, branchMispredict := false, rdValue := rdValue
      memoryValid := he.memoryValid, isStore := he.isStore
      memoryAddress := he.memoryAddress, memoryData := he.memoryData, memoryMask := he.memoryMask
      storeAddr := he.memoryAddress, storeData := he.memoryData, storeMask := he.memoryMask }

def retire (state : BoomCoreState) (pipe : PipeSignals) (he : RobEntry) :
    Option (BoomCoreState × PipeSignals) := do
  let ce ← commitRecord state he
  let rename ← commitDst state.rename he.uop
  let rob ← popHead state.rob
  some ({ state with
      csr := { state.csr with instret := state.csr.instret + 1 }
      rename := rename
      rob := { rob with lastCommit := ce, commitValid := true } },
    { pipe with
      commitTrace :=
        if pipe.commitTrace.full then pipe.commitTrace else pipe.commitTrace.write ce })

def commitHead (state : BoomCoreState) (pipe : PipeSignals) (he : RobEntry) :
    Option (BoomCoreState × PipeSignals) :=
  if (he.uop.ctrl.isLoad || he.isLoad) && !he.memoryCompleted then some (state, pipe)
  else if he.uop.ctrl.isSta || he.isStore then
    if !he.memoryValid then some (state, pipe)
    else if !he.memoryRequestSent then
      if pipe.dmemReq.full then some (state, pipe)
      else do
        let sent ← sendStore state pipe he
        retire sent.1 sent.2 { he with memoryRequestSent := true, memoryCompleted := true }
    else retire state pipe he
  else retire state pipe he

/-- The part after the completion loop. The head entry is read only when the buffer is not empty. -/
def commitStage (state : BoomCoreState) (pipe : PipeSignals) :
    Option (BoomCoreState × PipeSignals) :=
  if !state.rob.isEmpty then do
    let he ← readCell robDepth state.rob.entries state.rob.head
    if he.valid && !he.busy then
      if he.exception then
        let next ← commitException state he
        some (next, pipe)
      else commitHead state pipe he
    else some (state, pipe)
  else some (state, pipe)

def robCommitModule (state : BoomCoreState) (pipe : PipeSignals) :
    Option (BoomCoreState × PipeSignals) :=
  let rob := { state.rob with commitValid := false }
  if state.brupdate.valid && state.brupdate.mispredict then
    some ({ state with rob := rob.flush, globalFlush := true }, pipe)
  else do
    let marked ← markComplete rob state.execute.aluResult
    commitStage { state with rob := marked } pipe

/-! ### `boom_core_step` -/

def boomCoreStep (state : BoomCoreState) (pipe : PipeSignals) :
    Option (BoomCoreState × PipeSignals) := do
  let memory ← lsuModule (branchModule (csrModule (clearStep state))) pipe
  let fetched := frontendModule memory.1 memory.2
  let renamed ← renameModule (decodeModule fetched.1)
  let allocated ← robAllocate renamed
  let issued ← issueModule allocated
  let executed ← executeModule issued.1 issued.2
  robCommitModule executed fetched.2

end Checked

end BoomCore
