import BoomCore.Model.State

/-!
# The frontend

`src/frontend.cpp`. One fetch is in flight at a time: the frontend sends a request, waits for the
response that carries the identifier of that request, and hands the instruction to the decoder in
the step that takes the response. The blocks of `frontend_module` are separate definitions, in the
order in which the source runs them.
-/

set_option autoImplicit false
set_option relaxedAutoImplicit false

namespace BoomCore

namespace FrontendState

/-- The block under `state.global_flush`. -/
def onGlobalFlush (fe : FrontendState) (globalFlush : Bool) : FrontendState :=
  if globalFlush then { fe with flush := true, requestSent := false, fetchPacketValid := false }
  else fe

/-- The block under `!fe.reset_done`. -/
def onReset (fe : FrontendState) : FrontendState :=
  if fe.resetDone then fe
  else { fe with pc := resetVector, fetchId := 0, resetDone := true, requestSent := false }

/-- Drop everything in flight and fetch from the redirect target, its two low bits cleared. -/
def redirect (fe : FrontendState) (target : BitVec 64) : FrontendState :=
  { fe with
    pc := target &&& ~~~3#64, requestSent := false, responseReceived := false
    fetchPacketValid := false, flush := false }

/-- The block under `brupdate.valid && brupdate.mispredict`. -/
def onRedirect (fe : FrontendState) (brupdate : BranchUpdate) : FrontendState :=
  if brupdate.valid && brupdate.mispredict then fe.redirect brupdate.jalrTarget else fe

/-- The block under `fe.flush`. -/
def onFlush (fe : FrontendState) (brupdate : BranchUpdate) : FrontendState :=
  if fe.flush then
    { fe with
      pc := if brupdate.valid then brupdate.jalrTarget &&& ~~~3#64 else fe.pc
      requestSent := false, responseReceived := false, fetchPacketValid := false, flush := false }
  else fe

/-- The packet handed over in the previous step is dropped before the next request is sent. -/
def dropPacket (fe : FrontendState) : FrontendState :=
  if !fe.requestSent && fe.fetchPacketValid then
    { fe with responseReceived := false, fetchPacketValid := false }
  else fe

/-- The request that `fe` would send. -/
def request (fe : FrontendState) : ImemRequest :=
  { address := fe.pc, fetchId := fe.fetchId, kill := false }

/-- The block under `!fe.request_sent`: send a request unless the stream is full. -/
def sendRequest (fe : FrontendState) (imemReq : Stream ImemRequest) :
    FrontendState × Stream ImemRequest :=
  if !fe.requestSent && !imemReq.full then
    ({ fe with
        pendingFetchId := fe.fetchId, fetchId := fe.fetchId + 1, requestSent := true },
      imemReq.write fe.request)
  else (fe, imemReq)

/-- A response is accepted when it carries the identifier of the request in flight, and dropped
otherwise. -/
def acceptResponse (fe : FrontendState) (resp : ImemResponse) : FrontendState :=
  if fe.requestSent && resp.fetchId == fe.pendingFetchId then
    { fe with
      respAddress := resp.address, respInstruction := resp.instruction
      respException := resp.exception, respExcCause := resp.excCause
      responseReceived := true, requestSent := false }
  else fe

/-- The block under `!pipe.imem_resp.empty()`. -/
def takeResponse (fe : FrontendState) (imemResp : Stream ImemResponse) :
    FrontendState × Stream ImemResponse :=
  match imemResp.read with
  | none => (fe, imemResp)
  | some (resp, rest) => (fe.acceptResponse resp, rest)

/-- The uop made from an accepted response. Its exception fields are those of `MicroOp()`. -/
def fetchedUop (fe : FrontendState) : MicroOp :=
  { debugPc := fe.respAddress, inst := fe.respInstruction, isRvc := false }

/-- The last block: hand the accepted instruction over and step the pc. -/
def deliver (fe : FrontendState) : FrontendState :=
  if fe.responseReceived && !fe.requestSent then
    { fe with
      fetchUop := fe.fetchedUop, fetchPacketValid := true
      pc := fe.respAddress + 4, responseReceived := false }
  else { fe with fetchPacketValid := false }

end FrontendState

/-- The part of `frontend_module` before the test of `rob.state`. -/
def frontendPrologue (state : BoomCoreState) : FrontendState :=
  ((state.frontend.onGlobalFlush state.globalFlush).onReset).onRedirect state.brupdate

/-- The part of `frontend_module` after the test of `rob.state`, on the frontend state that the
first part leaves. -/
def frontendFetch (fe : FrontendState) (brupdate : BranchUpdate) (pipe : PipeSignals) :
    FrontendState × PipeSignals :=
  let sent := ((fe.onFlush brupdate).dropPacket).sendRequest pipe.imemReq
  let taken := sent.1.takeResponse pipe.imemResp
  (taken.1.deliver, { pipe with imemReq := sent.2, imemResp := taken.2 })

/-- `frontend_module`. In `ROB_EXCEPTION` it returns before it sends or takes anything. -/
def frontendModule (state : BoomCoreState) (pipe : PipeSignals) : BoomCoreState × PipeSignals :=
  let fe := frontendPrologue state
  let redirected := state.brupdate.valid && state.brupdate.mispredict
  if state.rob.state = .exception then
    ({ state with
        frontend := { fe with fetchPacketValid := false }
        globalFlush := state.globalFlush && !redirected }, pipe)
  else
    let fetched := frontendFetch fe state.brupdate pipe
    ({ state with
        frontend := fetched.1
        globalFlush := state.globalFlush && !redirected && !fe.flush }, fetched.2)

end BoomCore
