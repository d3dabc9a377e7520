import BoomCore.Model.State
import Mathlib.Algebra.Group.Nat.Defs

/-!
# The load/store unit

`src/lsu.cpp`. In one step the unit takes at most one response, records the memory operation that
was executed in the previous step in the reorder buffer and in its queue, and sends at most one
load: loads are tried in the order of the reorder buffer, one load is outstanding at a time, and a
load waits for every older store.
-/

set_option autoImplicit false
set_option relaxedAutoImplicit false

namespace BoomCore

/-! ### Byte lanes -/

def bytesForSize (size : Nat) : Nat := 2 ^ (size % 4)

def signExtendValue (value : BitVec 64) (bits : Nat) : BitVec 64 :=
  if 64 ≤ bits then value
  else
    let mask := 1#64 <<< (bits - 1)
    (value ^^^ mask) - mask

def loadValue (data address : BitVec 64) (size : Nat) (signedLoad : Bool) : BitVec 64 :=
  let shift := (address &&& 7#64).toNat * 8
  let bits := bytesForSize size * 8
  let mask := if 64 ≤ bits then ~~~0#64 else (1#64 <<< bits) - 1
  let value := (data >>> shift) &&& mask
  if signedLoad then signExtendValue value bits else value

/-! ### The age scan -/

/-- The loop of `older_store_in_rob`: `fuel` entries from `idx` on are looked at, up to the entry
`robIdx`. -/
def olderStoreFrom (entries : CArray RobEntry) (robIdx : Nat) : Nat → Nat → Bool
  | 0, _ => false
  | fuel + 1, idx =>
    if idx = robIdx then false
    else if (entries idx).valid && (entries idx).uop.ctrl.isSta then true
    else olderStoreFrom entries robIdx fuel ((idx + 1) % robDepth)

def olderStoreInRob (rob : RobInternalState) (robIdx : Nat) : Bool :=
  olderStoreFrom rob.entries robIdx robDepth rob.head

/-! ### Queues -/

def LsuState.clearQueues (lsu : LsuState) : LsuState :=
  { nextTransactionId := lsu.nextTransactionId }

namespace RobEntry

/-- The fields that `enqueue_store` writes. -/
def asStore (entry : RobEntry) (result : AluResult) : RobEntry :=
  { entry with
    memoryValid := true, isStore := true, isLoad := false, memoryCompleted := true
    memoryAddress := result.memoryAddress, memoryData := result.storeData
    memoryMask := result.memoryMask, memorySize := result.memorySize, busy := false }

/-- The fields that `enqueue_load` writes. -/
def asLoad (entry : RobEntry) (result : AluResult) : RobEntry :=
  { entry with
    memoryValid := true, isLoad := true, isStore := false, signedLoad := result.signedLoad
    memoryAddress := result.memoryAddress
    memoryMask := result.memoryMask, memorySize := result.memorySize }

/-- The entry accepts a response: `entry.valid && entry.is_load && entry.memory_request_sent`. -/
def awaitsResponse (entry : RobEntry) : Bool :=
  entry.valid && entry.isLoad && entry.memoryRequestSent

/-- The value that a response without exception delivers to the entry. -/
def responseValue (entry : RobEntry) (resp : DmemResponse) : BitVec 64 :=
  loadValue (if resp.readData ≠ 0 then resp.readData else resp.data) entry.memoryAddress
    entry.memorySize entry.signedLoad

/-- The entry after the response. -/
def complete (entry : RobEntry) (resp : DmemResponse) : RobEntry :=
  if resp.exception then
    { entry with
      exception := true
      uop := { entry.uop with
        exception := true
        excCause := if resp.exceptionCause ≠ 0 then resp.exceptionCause else resp.excCause }
      memoryCompleted := true, busy := false }
  else
    { entry with
      memoryData := entry.responseValue resp, memoryCompleted := true, busy := false }

/-- The entry after its load request went out. -/
def sent (entry : RobEntry) (tx : BitVec 32) : RobEntry :=
  { entry with memoryRequestSent := true, memoryTransactionId := tx }

end RobEntry

def LsuState.pushStore (lsu : LsuState) (result : AluResult) : LsuState :=
  if lsu.stqCount < stqDepth then
    { lsu with
      stq := Function.update lsu.stq lsu.stqTail
        { valid := true, addressValid := true, dataValid := true
          robIdx := result.uop.queue.robIdx, address := result.memoryAddress
          data := result.storeData, mask := result.memoryMask, size := result.memorySize
          branchMask := result.uop.branch.brMask }
      stqTail := (lsu.stqTail + 1) % stqDepth
      stqCount := lsu.stqCount + 1 }
  else lsu

def LsuState.pushLoad (lsu : LsuState) (result : AluResult) : LsuState :=
  if lsu.ldqCount < ldqDepth then
    { lsu with
      ldq := Function.update lsu.ldq lsu.ldqTail
        { valid := true, robIdx := result.uop.queue.robIdx, address := result.memoryAddress
          size := result.memorySize, signedLoad := result.signedLoad
          branchMask := result.uop.branch.brMask }
      ldqTail := (lsu.ldqTail + 1) % ldqDepth
      ldqCount := lsu.ldqCount + 1 }
  else lsu

/-- Overwrite one entry of the reorder buffer. -/
def BoomCoreState.setEntry (state : BoomCoreState) (i : Nat) (entry : RobEntry) : BoomCoreState :=
  { state with rob := { state.rob with entries := Function.update state.rob.entries i entry } }

/-! ### The three blocks of `lsu_module` -/

/-- A matching response, for the entry it was sent for. -/
def completeLoad (state : BoomCoreState) (resp : DmemResponse) : BoomCoreState :=
  let i := state.lsu.pendingLoadRobIdx
  let entry := state.rob.entries i
  if entry.awaitsResponse then
    { state.setEntry i (entry.complete resp) with
      intRf :=
        if !resp.exception && decide (entry.uop.rename.pdst ≠ 0) then
          Function.update state.intRf entry.uop.rename.pdst (entry.responseValue resp)
        else state.intRf }
  else state

/-- The response carries the transaction of the outstanding load. -/
def LsuState.matchesPending (lsu : LsuState) (resp : DmemResponse) : Bool :=
  lsu.loadResponsePending && resp.transactionId == lsu.pendingLoadTransactionId

def handleResponse (state : BoomCoreState) (resp : DmemResponse) : BoomCoreState :=
  if state.lsu.matchesPending resp then
    let state := completeLoad state resp
    { state with
      lsu := { state.lsu with loadResponsePending := false, pendingLoadTransactionId := 0 } }
  else state

/-- The block under `!pipe.dmem_resp.empty()`. -/
def takeDmemResponse (state : BoomCoreState) (pipe : PipeSignals) : BoomCoreState × PipeSignals :=
  match pipe.dmemResp.read with
  | none => (state, pipe)
  | some (resp, rest) => (handleResponse state resp, { pipe with dmemResp := rest })

/-- `enqueue_store` or `enqueue_load` for the result of the previous step. -/
def enqueueResult (state : BoomCoreState) : BoomCoreState :=
  let result := state.execute.aluResult
  let i := result.uop.queue.robIdx
  let entry := state.rob.entries i
  if result.valid && result.memoryValid && decide (i < robDepth) && entry.valid then
    if result.isStore then
      { state.setEntry i (entry.asStore result) with lsu := state.lsu.pushStore result }
    else if result.isLoad then
      { state.setEntry i (entry.asLoad result) with lsu := state.lsu.pushLoad result }
    else state
  else state

def loadRequest (entry : RobEntry) (robIdx : Nat) (tx : BitVec 32) : DmemRequest :=
  { transactionId := tx, robIdx := robIdx, command := .load, isStore := false
    address := entry.memoryAddress, size := entry.memorySize, mask := entry.memoryMask
    signedLoad := entry.signedLoad, branchMask := entry.uop.branch.brMask }

/-- The two guards of `try_issue_load`. -/
def canIssueLoad (state : BoomCoreState) (pipe : PipeSignals) (robIdx : Nat) : Bool :=
  let entry := state.rob.entries robIdx
  entry.valid && entry.isLoad && entry.memoryValid && !entry.memoryRequestSent &&
    !state.lsu.loadResponsePending && !olderStoreInRob state.rob robIdx && !pipe.dmemReq.full

def tryIssueLoad (state : BoomCoreState) (pipe : PipeSignals) (robIdx : Nat) :
    BoomCoreState × PipeSignals :=
  if canIssueLoad state pipe robIdx then
    let entry := state.rob.entries robIdx
    let tx := state.lsu.nextTransactionId
    ({ state.setEntry robIdx (entry.sent tx) with
        lsu := { state.lsu with
          nextTransactionId := tx + 1, loadResponsePending := true
          pendingLoadTransactionId := tx, pendingLoadRobIdx := robIdx } },
      { pipe with dmemReq := pipe.dmemReq.write (loadRequest entry robIdx tx) })
  else (state, pipe)

/-- The issue loop from position `i` of the ring on, for `fuel` positions. It stops as soon as a
load is outstanding. -/
def issueLoadsFrom (state : BoomCoreState) (pipe : PipeSignals) :
    Nat → Nat → BoomCoreState × PipeSignals
  | 0, _ => (state, pipe)
  | fuel + 1, i =>
    let tried := tryIssueLoad state pipe ((state.rob.head + i) % robDepth)
    if tried.1.lsu.loadResponsePending then tried
    else issueLoadsFrom tried.1 tried.2 fuel (i + 1)

/-- `lsu_module`. -/
def lsuModule (state : BoomCoreState) (pipe : PipeSignals) : BoomCoreState × PipeSignals :=
  if state.globalFlush then ({ state with lsu := state.lsu.clearQueues }, pipe)
  else
    let taken := takeDmemResponse state pipe
    issueLoadsFrom (enqueueResult taken.1) taken.2 robDepth 0

end BoomCore
