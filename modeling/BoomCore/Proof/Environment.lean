import BoomCore.Proof.Retirement
import BoomCore.Run.Environment

/-!
# From arbitrary responses to a program

A step among arbitrary responses is a cycle of the system of `Run.System` with a program chosen for
that step, up to the fault fields that the frontend keeps of the last response and that nothing
reads. When no response is accepted, the instruction memory is silent in that cycle
(`next_of_not_accepted`). When one is, the program answers with its instruction, and the pc is the
address that the response gives (`next_of_accepted`). So what is proved of one cycle holds among
arbitrary responses as well.
-/

set_option autoImplicit false
set_option relaxedAutoImplicit false

namespace BoomCore

/-! ### What the modules do not look at -/

def BoomCoreState.withFrontend (s : BoomCoreState) (fe : FrontendState) : BoomCoreState :=
  { s with frontend := fe }

/-- A step of a module with another frontend and other fetch responses. -/
def withFetch (fe : FrontendState) (imemResp : Stream ImemResponse)
    (out : BoomCoreState × PipeSignals) : BoomCoreState × PipeSignals :=
  (out.1.withFrontend fe, { out.2 with imemResp := imemResp })

section Blind

variable (s : BoomCoreState) (pipe : PipeSignals) (fe : FrontendState)
  (imemResp : Stream ImemResponse)

theorem completeLoad_withFrontend (resp : DmemResponse) :
    completeLoad (s.withFrontend fe) resp = (completeLoad s resp).withFrontend fe := by
  unfold completeLoad
  rw [apply_ite (BoomCoreState.withFrontend · fe)]
  rfl

theorem handleResponse_withFrontend (resp : DmemResponse) :
    handleResponse (s.withFrontend fe) resp = (handleResponse s resp).withFrontend fe := by
  unfold handleResponse
  rw [completeLoad_withFrontend, apply_ite (BoomCoreState.withFrontend · fe)]
  rfl

theorem takeDmemResponse_withFetch :
    takeDmemResponse (s.withFrontend fe) { pipe with imemResp := imemResp } =
      withFetch fe imemResp (takeDmemResponse s pipe) := by
  unfold takeDmemResponse
  dsimp only
  cases pipe.dmemResp.read with
  | none => rfl
  | some front =>
    dsimp only
    rw [handleResponse_withFrontend]
    rfl

theorem enqueueResult_withFrontend :
    enqueueResult (s.withFrontend fe) = (enqueueResult s).withFrontend fe := by
  unfold enqueueResult
  rw [apply_ite (BoomCoreState.withFrontend · fe), apply_ite (BoomCoreState.withFrontend · fe),
    apply_ite (BoomCoreState.withFrontend · fe)]
  rfl

theorem tryIssueLoad_withFetch (i : ℕ) :
    tryIssueLoad (s.withFrontend fe) { pipe with imemResp := imemResp } i =
      withFetch fe imemResp (tryIssueLoad s pipe i) := by
  unfold tryIssueLoad
  rw [apply_ite (withFetch fe imemResp)]
  rfl

theorem issueLoadsFrom_withFetch (fuel i : ℕ) :
    issueLoadsFrom (s.withFrontend fe) { pipe with imemResp := imemResp } fuel i =
      withFetch fe imemResp (issueLoadsFrom s pipe fuel i) := by
  induction fuel generalizing s pipe i with
  | zero => rfl
  | succ fuel ih =>
    have htry := tryIssueLoad_withFetch s pipe fe imemResp ((s.rob.head + i) % robDepth)
    unfold issueLoadsFrom
    dsimp only
    rw [show (s.withFrontend fe).rob = s.rob from rfl, htry,
      apply_ite (withFetch fe imemResp), ← ih]
    rfl

/-- The load/store unit looks neither at the frontend nor at its responses. -/
theorem memoryPhase_withFetch :
    memoryPhase (s.withFrontend fe) { pipe with imemResp := imemResp } =
      withFetch fe imemResp (memoryPhase s pipe) := by
  have hresolved : resolved (s.withFrontend fe) = (resolved s).withFrontend fe := by
    unfold resolved branchModule
    rw [apply_ite (BoomCoreState.withFrontend · fe)]
    rfl
  show lsuModule (resolved (s.withFrontend fe)) _ = withFetch fe imemResp (lsuModule (resolved s) _)
  have hflush : ((resolved s).withFrontend fe).globalFlush = false := resolved_globalFlush s
  rw [hresolved]
  unfold lsuModule
  rw [hflush, resolved_globalFlush, if_neg Bool.false_ne_true, if_neg Bool.false_ne_true]
  dsimp only
  rw [takeDmemResponse_withFetch, ← issueLoadsFrom_withFetch, ← enqueueResult_withFrontend]
  rfl

/-- The dispatch path looks at the packet of the frontend only. -/
theorem dispatchPhase_withFrontend (hvalid : fe.fetchPacketValid = s.frontend.fetchPacketValid)
    (huop : fe.fetchUop = s.frontend.fetchUop) :
    dispatchPhase (s.withFrontend fe) = (dispatchPhase s).withFrontend fe := by
  have hdecode : decodeModule (s.withFrontend fe) = (decodeModule s).withFrontend fe := by
    unfold decodeModule BoomCoreState.withFrontend
    dsimp only
    rw [hvalid, huop]
  have hrename : ∀ s' : BoomCoreState,
      renameModule (s'.withFrontend fe) = (renameModule s').withFrontend fe := fun s' ↦ by
    unfold renameModule
    rw [apply_ite (BoomCoreState.withFrontend · fe), apply_ite (BoomCoreState.withFrontend · fe)]
    rfl
  have hallocate : ∀ s' : BoomCoreState,
      robAllocate (s'.withFrontend fe) = (robAllocate s').withFrontend fe := fun s' ↦ by
    unfold robAllocate
    rw [apply_ite (BoomCoreState.withFrontend · fe), apply_ite (BoomCoreState.withFrontend · fe),
      apply_ite (BoomCoreState.withFrontend · fe)]
    rfl
  have hissue : ∀ s' : BoomCoreState,
      issueModule (s'.withFrontend fe) = (issueModule s').withFrontend fe := fun s' ↦ by
    unfold issueModule
    rw [apply_ite (BoomCoreState.withFrontend · fe)]
    dsimp only [BoomCoreState.withFrontend]
    cases (s'.issue.aluIq.dispatch s'.rename).select <;> rfl
  have hexecute : ∀ s' : BoomCoreState,
      executeModule (s'.withFrontend fe) = (executeModule s').withFrontend fe := fun s' ↦ by
    unfold executeModule
    rw [apply_ite (BoomCoreState.withFrontend · fe)]
    rfl
  unfold dispatchPhase
  rw [hdecode, hrename, hallocate, hissue, hexecute]

theorem dispatchPhase_frontend : (dispatchPhase s).frontend = s.frontend := by
  have hself : dispatchPhase s = (dispatchPhase s).withFrontend s.frontend :=
    dispatchPhase_withFrontend s s.frontend rfl rfl
  have hfrontend := congrArg BoomCoreState.frontend hself
  exact hfrontend

theorem commitException_withFrontend (he : RobEntry) :
    commitException (s.withFrontend fe) he = (commitException s he).withFrontend fe := by
  unfold commitException
  rw [apply_ite (BoomCoreState.withFrontend · fe)]
  rfl

theorem commitHead_withFetch (he : RobEntry) :
    commitHead (s.withFrontend fe) { pipe with imemResp := imemResp } he =
      withFetch fe imemResp (commitHead s pipe he) := by
  unfold commitHead
  rw [apply_ite (withFetch fe imemResp), apply_ite (withFetch fe imemResp),
    apply_ite (withFetch fe imemResp), apply_ite (withFetch fe imemResp),
    apply_ite (withFetch fe imemResp)]
  rfl

theorem commitStage_withFetch :
    commitStage (s.withFrontend fe) { pipe with imemResp := imemResp } =
      withFetch fe imemResp (commitStage s pipe) := by
  unfold commitStage
  dsimp only
  rw [commitException_withFrontend, commitHead_withFetch, apply_ite (withFetch fe imemResp),
    apply_ite (withFetch fe imemResp)]
  rfl

/-- Commit looks neither at the frontend nor at its responses. -/
theorem robCommitModule_withFetch :
    robCommitModule (s.withFrontend fe) { pipe with imemResp := imemResp } =
      withFetch fe imemResp (robCommitModule s pipe) := by
  unfold robCommitModule
  dsimp only
  rw [apply_ite (withFetch fe imemResp), ← commitStage_withFetch]
  rfl

end Blind

/-! ### The system of a step -/

/-- The core with an instruction memory in which the request in flight waits. -/
def BoomCoreState.asSystem (s : BoomCoreState) : System :=
  { core := s
    imem :=
      if s.frontend.requestSent then
        [{ address := s.frontend.pc, fetchId := s.frontend.pendingFetchId }]
      else [] }

@[simp] theorem asSystem_core (s : BoomCoreState) : s.asSystem.core = s := rfl

/-- A system whose handshake is in order is the system of its core. -/
theorem FetchInv.eq_asSystem {sys : System} (h : FetchInv sys) : sys = sys.core.asSystem := by
  have hwaiting := h.waiting
  cases sys with
  | mk core imem => exact congrArg (System.mk core) hwaiting

/-- The cycle of the system with the data response and the room of a step. -/
def Inputs.tick (u : Inputs) (imemAnswer : Option ℕ) : Tick :=
  { imemAnswer := imemAnswer, dmemResp := u.dmemResp, imemReqRoom := u.imemReqRoom
    dmemReqRoom := u.dmemReqRoom, commitTraceRoom := u.commitTraceRoom }

/-- The state with the pc that an accepted response makes current. -/
def BoomCoreState.fetching (s : BoomCoreState) (resp : ImemResponse) : BoomCoreState :=
  s.withFrontend { s.frontend with pc := resp.address }

/-- The fault fields of the last response. -/
def FrontendState.withFault (fe : FrontendState) (resp : ImemResponse) : FrontendState :=
  { fe with respException := resp.exception, respExcCause := resp.excCause }

section Step

variable (s : BoomCoreState) (u : Inputs)

/-- The load/store unit does in the step what it does in a cycle of the system. -/
theorem afterMemory_asSystem (program : Program) (fe : FrontendState) (imemAnswer : Option ℕ) :
    (s.withFrontend fe).asSystem.afterMemory program (u.tick imemAnswer) =
      withFetch fe ((s.withFrontend fe).asSystem.ports program (u.tick imemAnswer)).imemResp
        (memoryPhase s u.ports) :=
  memoryPhase_withFetch s u.ports fe _

theorem memoryPhase_state : (memoryPhase s u.ports).1.rob.state = s.rob.state := by
  rw [memoryPhase_eq]
  show (resolved s).rob.state = s.rob.state
  rw [resolved_eq]

theorem memoryPhase_frontend :
    (memoryPhase s u.ports).1.withFrontend s.frontend = (memoryPhase s u.ports).1 := by
  rw [memoryPhase_eq]
  show _ = (resolved s).withMemory _ _ _
  rw [resolved_eq]
  rfl

theorem memoryPhase_imem :
    (memoryPhase s u.ports).2.imemReq = u.ports.imemReq ∧
      (memoryPhase s u.ports).2.imemResp = u.ports.imemResp := by
  rw [memoryPhase_pipe]
  exact ⟨rfl, rfl⟩

/-- A response that is dropped leaves nothing behind. -/
theorem frontendModule_of_dropped (state : BoomCoreState) (pipe : PipeSignals)
    (hdrop : ∀ resp rest, state.rob.state ≠ .exception → pipe.imemResp.read = some (resp, rest) →
      let sent := ((((frontendPrologue state).onFlush state.brupdate).dropPacket).sendRequest
        pipe.imemReq).1
      sent.acceptResponse resp = sent) :
    ∃ left, frontendModule state pipe =
      withFetch (frontendModule state { pipe with imemResp := {} }).1.frontend left
        (frontendModule state { pipe with imemResp := {} }) := by
  unfold frontendModule
  by_cases hstate : state.rob.state = .exception
  · refine ⟨pipe.imemResp, ?_⟩
    dsimp only
    rw [if_pos hstate, if_pos hstate]
    rfl
  · dsimp only
    rw [if_neg hstate, if_neg hstate]
    unfold frontendFetch FrontendState.takeResponse
    cases hread : pipe.imemResp.read with
    | none => exact ⟨pipe.imemResp, rfl⟩
    | some front =>
      refine ⟨front.2, ?_⟩
      have haccept := hdrop front.1 front.2 hstate hread
      dsimp only at haccept ⊢
      rw [haccept]
      rfl

/-- The frontend hands an accepted response over. -/
theorem frontendModule_of_accepted {state : BoomCoreState} (pipe : PipeSignals) {fe : FrontendState}
    {resp : ImemResponse} (rest : List ImemResponse) (hstate : state.rob.state ≠ .exception)
    (hglobal : state.globalFlush = false) (hfe : frontendPrologue state = fe)
    (hflush : fe.flush = false) (hsent : fe.requestSent = true)
    (hresp : pipe.imemResp.q = resp :: rest) (hid : resp.fetchId = fe.pendingFetchId) :
    frontendModule state pipe =
      withFetch
        { fe with
          respAddress := resp.address, respInstruction := resp.instruction
          respException := resp.exception, respExcCause := resp.excCause
          responseReceived := false, requestSent := false, fetchPacketValid := true
          fetchUop := { debugPc := resp.address, inst := resp.instruction }
          pc := resp.address + 4 }
        { pipe.imemResp with q := rest } (state, pipe) := by
  unfold frontendModule withFetch BoomCoreState.withFrontend
  dsimp only
  rw [if_neg hstate, hfe, FrontendState.fetch_accept _ hflush hsent hresp hid, hglobal]
  simp only [Bool.false_and]

/-- Assumes: the step accepts no response. It is a cycle in which the instruction memory is
silent, up to what is left on `imem_resp`. -/
theorem step_of_not_accepted (program : Program) (hacc : s.acceptedResponse u = none) :
    ∃ left, boomCoreStep s u.ports =
      withFetch (s.asSystem.coreStep program (u.tick none)).1.frontend left
        (s.asSystem.coreStep program (u.tick none)) := by
  have hfetch' : s.asSystem.afterFetch program (u.tick none) =
      frontendModule (memoryPhase s u.ports).1
        { (memoryPhase s u.ports).2 with imemResp := {} } := by
    unfold System.afterFetch
    rw [show s.asSystem = (s.withFrontend s.frontend).asSystem from rfl, afterMemory_asSystem]
    exact congrArg (frontendModule · _) (memoryPhase_frontend s u)
  obtain ⟨left, hfetch⟩ := frontendModule_of_dropped (memoryPhase s u.ports).1
    (memoryPhase s u.ports).2 fun resp rest hstate hread ↦ by
      rw [memoryPhase_state] at hstate
      rw [(memoryPhase_imem s u).2] at hread
      have hresp : u.imemResp = some resp := by
        unfold Inputs.ports Stream.read at hread
        cases himem : u.imemResp with
        | none => simp [himem] at hread
        | some resp' => exact congrArg some (by simpa [himem] using hread : resp' = resp ∧ _).1
      unfold BoomCoreState.acceptedResponse at hacc
      rw [if_neg hstate, hresp, Option.filter_eq_none_iff] at hacc
      have hnot := hacc resp rfl
      dsimp only
      unfold FrontendState.acceptResponse
      exact if_neg hnot
  have hfrontend : (s.asSystem.beforeCommit program (u.tick none)).frontend =
      (s.asSystem.afterFetch program (u.tick none)).1.frontend := dispatchPhase_frontend _
  refine ⟨left, ?_⟩
  unfold boomCoreStep
  dsimp only
  rw [hfetch, ← hfetch', System.coreStep_eq,
    (robCommitModule_frame (s.asSystem.beforeCommit program (u.tick none)) _).frontend, hfrontend]
  unfold withFetch
  dsimp only
  rw [dispatchPhase_withFrontend]
  · exact robCommitModule_withFetch _ _ _ left
  · rfl
  · rfl

/-- The requests of a step are what the frontend sends before it takes the response. -/
theorem fetchRequests_eq (hstate : s.rob.state ≠ .exception) :
    s.fetchRequests u =
      (((((frontendPrologue (memoryPhase s u.ports).1).onFlush
        (memoryPhase s u.ports).1.brupdate).dropPacket).sendRequest
          (memoryPhase s u.ports).2.imemReq)).2.q := by
  unfold BoomCoreState.fetchRequests boomCoreStep
  dsimp only
  rw [(robCommitModule_imem _ _).1]
  unfold frontendModule
  dsimp only
  rw [memoryPhase_state, if_neg hstate]
  rfl

end Step

/-- A frontend that waits for a response sends nothing. -/
theorem FrontendState.sendRequest_of_sent {fe : FrontendState} (hsent : fe.requestSent = true)
    (imemReq : Stream ImemRequest) : fe.dropPacket.sendRequest imemReq = (fe, imemReq) := by
  simp [dropPacket, sendRequest, hsent]

/-- A frontend that waits for no response sends the next request, or waits for room. -/
theorem FrontendState.sendRequest_of_not_sent {fe : FrontendState}
    (hsent : fe.requestSent = false) (imemReq : Stream ImemRequest) :
    (fe.dropPacket.sendRequest imemReq).1.requestSent = false ∨
      ((fe.dropPacket.sendRequest imemReq).1.pendingFetchId = fe.fetchId ∧
        (fe.dropPacket.sendRequest imemReq).2.q =
          imemReq.q ++ [{ address := fe.pc, fetchId := fe.fetchId }]) := by
  unfold sendRequest dropPacket
  by_cases hfull : imemReq.full = true
  · refine Or.inl ?_
    simp only [hfull, Bool.not_true, Bool.and_false, Bool.false_eq_true, if_false]
    split_ifs <;> exact hsent
  · refine Or.inr ?_
    by_cases hpacket : fe.fetchPacketValid = true <;>
      simp [hsent, hfull, hpacket, Stream.write, request]

section Accepted

variable {s : BoomCoreState} {u : Inputs} (h : StepInv s.asSystem)

include h

theorem StepInv.prologue_asSystem :
    frontendPrologue (memoryPhase s u.ports).1 = s.asSystem.redirected := by
  have hprologue : frontendPrologue (s.asSystem.afterMemory (fun _ ↦ 0) (u.tick none)).1 =
      s.asSystem.redirected := h.fetch.prologue_eq _
  rw [← hprologue,
    show s.asSystem = (s.withFrontend s.frontend).asSystem from rfl, afterMemory_asSystem]
  exact congrArg frontendPrologue (memoryPhase_frontend s u).symm

/-- Assumes: the accepted response carries the identifier of no request of its own step. It answers
the request that was in flight before the step, and no redirect is under way. -/
theorem StepInv.accepted_asSystem {resp : ImemResponse}
    (hacc : s.acceptedResponse u = some resp)
    (hlater : ∀ req ∈ s.fetchRequests u, resp.fetchId ≠ req.fetchId) :
    s.rob.state ≠ .exception ∧ u.imemResp = some resp ∧ s.frontend.requestSent = true ∧
      s.execute.aluResult.redirects = false ∧ resp.fetchId = s.frontend.pendingFetchId := by
  have hawaiting : s.awaiting u = (s.asSystem.redirected.dropPacket.sendRequest
      u.ports.imemReq).1 := by
    unfold BoomCoreState.awaiting
    dsimp only
    rw [h.prologue_asSystem, (memoryPhase_imem s u).1]
    unfold FrontendState.onFlush
    rw [h.fetch.redirected_flush, if_neg Bool.false_ne_true]
  unfold BoomCoreState.acceptedResponse at hacc
  split_ifs at hacc with hstate
  rw [Option.filter_eq_some_iff] at hacc
  obtain ⟨hresp, htest⟩ := hacc
  rw [Bool.and_eq_true, beq_iff_eq, hawaiting] at htest
  have hrequests := fetchRequests_eq s u hstate
  rw [h.prologue_asSystem, (memoryPhase_imem s u).1] at hrequests
  unfold FrontendState.onFlush at hrequests
  rw [h.fetch.redirected_flush, if_neg Bool.false_ne_true] at hrequests
  have hsent : s.asSystem.redirected.requestSent = true := by
    by_contra hnot
    rcases FrontendState.sendRequest_of_not_sent (by simpa using hnot) u.ports.imemReq with
      hidle | ⟨hid, hreq⟩
    · rw [hidle] at htest
      simp at htest
    · rw [hreq] at hrequests
      rw [hid] at htest
      refine hlater
        { address := s.asSystem.redirected.pc, fetchId := s.asSystem.redirected.fetchId } ?_ htest.2
      rw [hrequests]
      exact List.mem_append_right _ (List.mem_singleton.mpr rfl)
  rw [FrontendState.sendRequest_of_sent hsent] at htest
  have hquiet : s.execute.aluResult.redirects = false := by
    by_contra hredirects
    unfold System.redirected at hsent
    rw [if_pos (by simpa using hredirects)] at hsent
    simp [FrontendState.redirect] at hsent
  have hbase : s.asSystem.redirected = { s.frontend with resetDone := true } := by
    unfold System.redirected
    exact if_neg (by simpa using hquiet)
  rw [hbase] at hsent htest
  exact ⟨hstate, hresp, hsent, hquiet, htest.2⟩

/-- The handshake is in order with the pc of the response as well. -/
theorem StepInv.fetching (resp : ImemResponse) (hsent : s.frontend.requestSent = true) :
    StepInv (s.fetching resp).asSystem := by
  refine ⟨⟨h.fetch.flush, h.fetch.received, fun hdone ↦ ?_, rfl, h.fetch.executed⟩, h.queue⟩
  have hnot := (h.fetch.reset hdone).1
  rw [asSystem_core, hsent] at hnot
  simp at hnot

/-- Assumes: the accepted response carries the identifier of no request of its own step. The step
is a cycle of the program that holds the instruction of the response at its address, up to the fault
fields. -/
theorem StepInv.step_of_accepted {resp : ImemResponse}
    (hacc : s.acceptedResponse u = some resp)
    (hlater : ∀ req ∈ s.fetchRequests u, resp.fetchId ≠ req.fetchId) :
    ∃ left, boomCoreStep s u.ports =
      withFetch
        (((s.fetching resp).asSystem.coreStep (fun _ ↦ resp.instruction)
          (u.tick (some 0))).1.frontend.withFault resp) left
        ((s.fetching resp).asSystem.coreStep (fun _ ↦ resp.instruction) (u.tick (some 0))) := by
  obtain ⟨hstate, hresp, hsent, hquiet, hid⟩ := h.accepted_asSystem hacc hlater
  have h' := h.fetching resp hsent
  generalize hsys : (s.fetching resp).asSystem = sys at *
  have hresponse : sys.response (fun _ ↦ resp.instruction) (u.tick (some 0)) =
      some { address := resp.address, fetchId := s.frontend.pendingFetchId
             instruction := resp.instruction } := by
    rw [← hsys]
    unfold System.response BoomCoreState.asSystem
    rw [if_pos (show (s.fetching resp).frontend.requestSent = true from hsent)]
    rfl
  have hbase : s.asSystem.redirected = { s.frontend with resetDone := true } := by
    unfold System.redirected
    rw [asSystem_core, hquiet, if_neg Bool.false_ne_true]
  have hfetch : ∃ left, frontendModule (memoryPhase s u.ports).1 (memoryPhase s u.ports).2 =
      withFetch ((sys.afterFetch (fun _ ↦ resp.instruction) (u.tick (some 0))).1.frontend.withFault
        resp) left (sys.afterFetch (fun _ ↦ resp.instruction) (u.tick (some 0))) := by
    have hflush : (memoryPhase s u.ports).1.globalFlush = false := by
      rw [memoryPhase_eq]
      exact resolved_globalFlush s
    have hmem : sys.afterMemory (fun _ ↦ resp.instruction) (u.tick (some 0)) =
        withFetch (s.fetching resp).frontend
          (sys.ports (fun _ ↦ resp.instruction) (u.tick (some 0))).imemResp
          (memoryPhase s u.ports) := by
      rw [← hsys]
      exact afterMemory_asSystem s u _ _ _
    have hbase' : sys.redirected = { (s.fetching resp).frontend with resetDone := true } := by
      rw [← hsys]
      unfold System.redirected
      exact if_neg (by rw [asSystem_core]; exact Bool.eq_false_iff.mp hquiet)
    have hprologue : frontendPrologue
        (sys.afterMemory (fun _ ↦ resp.instruction) (u.tick (some 0))).1 = sys.redirected :=
      h'.fetch.prologue_eq _
    have hports : (withFetch (s.fetching resp).frontend
        (sys.ports (fun _ ↦ resp.instruction) (u.tick (some 0))).imemResp
          (memoryPhase s u.ports)).2.imemResp.q =
        { address := resp.address, fetchId := s.frontend.pendingFetchId
          instruction := resp.instruction } :: [] := by
      unfold withFetch System.ports
      rw [hresponse]
      rfl
    have hstate' : (memoryPhase s u.ports).1.rob.state ≠ .exception := by
      rw [memoryPhase_state]
      exact hstate
    have hopen := frontendModule_of_accepted (memoryPhase s u.ports).2 [] hstate' hflush
      (h.prologue_asSystem.trans hbase) h.fetch.flush hsent
      (by rw [(memoryPhase_imem s u).2]; unfold Inputs.ports; rw [hresp]; rfl) hid
    unfold System.afterFetch
    rw [hmem] at hprologue ⊢
    rw [hopen, frontendModule_of_accepted _ [] (by exact hstate') (by exact hflush)
      (hprologue.trans hbase') h.fetch.flush hsent hports rfl]
    exact ⟨_, rfl⟩
  obtain ⟨left, hfetch⟩ := hfetch
  refine ⟨left, ?_⟩
  unfold boomCoreStep
  dsimp only
  have hout : (sys.coreStep (fun _ ↦ resp.instruction) (u.tick (some 0))).1.frontend =
      (sys.afterFetch (fun _ ↦ resp.instruction) (u.tick (some 0))).1.frontend :=
    h'.cycle_frontend (u.tick (some 0))
  rw [hfetch, hout]
  unfold withFetch
  dsimp only
  rw [dispatchPhase_withFrontend]
  · exact robCommitModule_withFetch _ _ _ _
  · rfl
  · rfl

end Accepted

/-! ### The window among arbitrary responses -/

namespace BoomCoreState

variable (s : BoomCoreState) (u : Inputs)

/-- The instruction that a step dispatches and executes, as a window of its own. -/
def dispatched (n : ℕ) : List Inflight :=
  let result := (s.next u).execute.aluResult
  if result.valid then [{ born := n, result := result }] else []

/-- The window after a step, as `System.windowStep` has it. -/
def windowStep (n : ℕ) (w : List Inflight) : List Inflight :=
  if s.execute.aluResult.redirects then []
  else if (s.next u).rob.head = s.rob.head then w ++ s.dispatched u n
  else (w ++ s.dispatched u n).tail

end BoomCoreState

/-- The instructions in flight before step `n`. -/
def Core.window (input : ℕ → Inputs) : ℕ → List Inflight
  | 0 => []
  | n + 1 => (run input n).windowStep (input n) n (window input n)

/-- A step of the core is a cycle of `sys` under `program`, up to what the frontend keeps of the
last response. -/
structure Mirrors (s : BoomCoreState) (u : Inputs) (program : Program) (sys : System) (t : Tick) :
    Prop where
  core : ∃ fe, sys.core = s.withFrontend fe
  step : StepInv sys
  out : ∃ resp left, boomCoreStep s u.ports =
    withFetch ((sys.coreStep program t).1.frontend.withFault resp) left (sys.coreStep program t)

section Mirrors

variable {s : BoomCoreState} {u : Inputs} {program : Program} {sys : System} {t : Tick}
  {w : List Inflight}

theorem SysInv.withFrontend {fe : FrontendState} (h : SysInv s.asSystem w)
    (hstep : StepInv (s.withFrontend fe).asSystem) : SysInv (s.withFrontend fe).asSystem w :=
  ⟨hstep, ⟨h.window.rob, h.window.lsu.congr rfl rfl rfl⟩, ⟨h.handed.last, h.handed.settled⟩⟩

/-- The fault fields play no part in the invariants. -/
theorem StepInv.withFault (h : StepInv s.asSystem) (resp : ImemResponse) :
    StepInv (s.withFrontend (s.frontend.withFault resp)).asSystem :=
  ⟨⟨h.fetch.flush, h.fetch.received, h.fetch.reset, rfl, h.fetch.executed⟩, h.queue⟩

/-- The part of the state outside the frontend after the step. -/
theorem Mirrors.next (h : Mirrors s u program sys t) :
    ∃ resp, s.next u = (sys.cycle program t).core.withFrontend
      ((sys.cycle program t).core.frontend.withFault resp) := by
  obtain ⟨resp, left, hout⟩ := h.out
  exact ⟨resp, congrArg Prod.fst hout⟩

theorem Mirrors.fetchRequests (h : Mirrors s u program sys t) :
    s.fetchRequests u = (sys.afterFetch program t).2.imemReq.q := by
  obtain ⟨resp, left, hout⟩ := h.out
  rw [← (robCommitModule_imem (sys.beforeCommit program t) (sys.afterFetch program t).2).1]
  exact congrArg (fun out ↦ out.2.imemReq.q) hout

theorem Mirrors.sysInv (h : Mirrors s u program sys t) (hinv : SysInv s.asSystem w) :
    SysInv sys w := by
  obtain ⟨fe, hcore⟩ := h.core
  have hsys := h.step.fetch.eq_asSystem
  have hstep := h.step
  rw [hsys, hcore] at hstep ⊢
  exact hinv.withFrontend hstep

theorem Mirrors.windowStep (h : Mirrors s u program sys t) (n : ℕ) (w : List Inflight) :
    s.windowStep u n w = sys.windowStep program t n w ∧
      s.dispatched u n = sys.dispatched program t n := by
  obtain ⟨fe, hcore⟩ := h.core
  obtain ⟨resp, hnext⟩ := h.next
  unfold BoomCoreState.windowStep System.windowStep BoomCoreState.dispatched System.dispatched
  rw [hnext, hcore]
  exact ⟨rfl, rfl⟩

/-- The invariants of the system hold among arbitrary responses. -/
theorem Mirrors.sysInv_next (h : Mirrors s u program sys t) (hinv : SysInv s.asSystem w) (n : ℕ) :
    SysInv (s.next u).asSystem (s.windowStep u n w) := by
  have hcycle : SysInv (sys.cycle program t) (sys.windowStep program t n w) :=
    (h.sysInv hinv).cycle t n
  obtain ⟨resp, hnext⟩ := h.next
  rw [(h.windowStep n w).1, hnext]
  rw [hcycle.step.fetch.eq_asSystem] at hcycle
  exact hcycle.withFrontend (hcycle.step.withFault resp)

end Mirrors

/-- An accepted response was on the stream. -/
theorem imemResp_of_accepted {s : BoomCoreState} {u : Inputs} {resp : ImemResponse}
    (hacc : s.acceptedResponse u = some resp) : resp ∈ u.imemResp := by
  unfold BoomCoreState.acceptedResponse at hacc
  split_ifs at hacc
  exact (Option.filter_eq_some_iff.mp hacc).1

section Cases

variable {s : BoomCoreState} {u : Inputs} (h : StepInv s.asSystem)

include h

theorem StepInv.mirrors_of_none (program : Program) (hacc : s.acceptedResponse u = none) :
    Mirrors s u program s.asSystem (u.tick none) ∧
      s.asSystem.accepted program (u.tick none) = none := by
  refine ⟨⟨⟨s.frontend, rfl⟩, h, ?_⟩, ?_⟩
  · obtain ⟨left, hout⟩ := step_of_not_accepted s u program hacc
    generalize s.asSystem.coreStep program (u.tick none) = out at *
    exact ⟨{ exception := out.1.frontend.respException
             excCause := out.1.frontend.respExcCause }, left, hout⟩
  · exact ite_self _

theorem StepInv.mirrors_of_some {resp : ImemResponse} (hacc : s.acceptedResponse u = some resp)
    (hlater : ∀ req ∈ s.fetchRequests u, resp.fetchId ≠ req.fetchId) :
    Mirrors s u (fun _ ↦ resp.instruction) (s.fetching resp).asSystem (u.tick (some 0)) ∧
      (s.fetching resp).asSystem.accepted (fun _ ↦ resp.instruction) (u.tick (some 0)) =
        some { address := resp.address, fetchId := s.frontend.pendingFetchId
               instruction := resp.instruction } := by
  obtain ⟨hstate, -, hsent, -⟩ := h.accepted_asSystem hacc hlater
  refine ⟨⟨⟨_, rfl⟩, h.fetching _ hsent, ?_⟩, ?_⟩
  · obtain ⟨left, hout⟩ := h.step_of_accepted hacc hlater
    exact ⟨resp, left, hout⟩
  · unfold System.accepted System.response BoomCoreState.asSystem
    rw [if_neg (show (s.fetching resp).rob.state ≠ .exception from hstate),
      if_pos (show (s.fetching resp).frontend.requestSent = true from hsent)]
    rfl

/-- Assumes: the response of the step carries the identifier of no request of the step. The step is
a cycle of some system, which accepts the same instruction. -/
theorem StepInv.exists_mirrors
    (hlater : ∀ resp ∈ u.imemResp, ∀ req ∈ s.fetchRequests u, resp.fetchId ≠ req.fetchId) :
    ∃ program sys t, Mirrors s u program sys t ∧
      (sys.accepted program t).map (fun resp ↦ (resp.address, resp.instruction)) =
        (s.acceptedResponse u).map fun resp ↦ (resp.address, resp.instruction) := by
  cases hacc : s.acceptedResponse u with
  | none =>
    obtain ⟨hmirrors, hnone⟩ := h.mirrors_of_none (fun _ ↦ 0) hacc
    exact ⟨_, _, _, hmirrors, by rw [hnone]⟩
  | some resp =>
    obtain ⟨hmirrors, hsome⟩ := h.mirrors_of_some hacc (hlater resp (imemResp_of_accepted hacc))
    exact ⟨_, _, _, hmirrors, by rw [hsome]; rfl⟩

end Cases

theorem sysInv_asSystem_init : SysInv ({} : BoomCoreState).asSystem [] := sysInv_init

/-- Assumes: before step `n` no response carries the identifier of a request of its own step. The
reorder buffer holds the window of the run. -/
theorem sysInv_coreRun (input : ℕ → Inputs) (n : ℕ) (hlater : Core.AnsweredLater input n) :
    SysInv (Core.run input n).asSystem (Core.window input n) := by
  induction n with
  | zero => exact sysInv_asSystem_init
  | succ n ih =>
    have hinv := ih fun m hm ↦ hlater m (Nat.lt_succ_of_lt hm)
    obtain ⟨program, sys, t, hmirrors, -⟩ := hinv.step.exists_mirrors
      (hlater n (Nat.lt_succ_self n))
    exact hmirrors.sysInv_next hinv n

/-! ### The system among the environments -/

namespace System

variable (program : Program) (tick : ℕ → Tick)

/-- What the core of the system finds in cycle `n`. -/
def inputs (n : ℕ) : Inputs :=
  { imemResp := (run program tick n).response program (tick n), dmemResp := (tick n).dmemResp
    imemReqRoom := (tick n).imemReqRoom, dmemReqRoom := (tick n).dmemReqRoom
    commitTraceRoom := (tick n).commitTraceRoom }

theorem coreRun_inputs (n : ℕ) :
    Core.run (inputs program tick) n = (run program tick n).core := by
  induction n with
  | zero => rfl
  | succ n ih =>
    show (Core.run (inputs program tick) n).next (inputs program tick n) = _
    rw [ih]
    rfl

/-- The instruction memory of the system answers no request in the cycle that sends it. -/
theorem answeredLater_inputs (n : ℕ) : Core.AnsweredLater (inputs program tick) n := by
  intro m _ resp hresp req hreq
  have hfetch := (stepInv_run program tick m).fetch
  have hresponse : (run program tick m).response program (tick m) = some resp := hresp
  have himem := (robCommitModule_imem ((run program tick m).beforeCommit program (tick m))
    ((run program tick m).afterFetch program (tick m)).2).1
  unfold Core.fetchRequests at hreq
  rw [coreRun_inputs] at hreq
  have hmem : req ∈ ((run program tick m).coreStep program (tick m)).2.imemReq.q := hreq
  rw [coreStep_eq, himem] at hmem
  cases hacc : (run program tick m).accepted program (tick m) with
  | none =>
    rcases hfetch.afterFetch_of_none (tick m) hacc with ⟨-, hnone, -⟩ | ⟨-, hnone, -⟩
    · rw [hnone] at hmem
      simp at hmem
    · rw [hresponse] at hnone
      simp at hnone
  | some resp' =>
    rw [(hfetch.afterFetch_of_some (tick m) hacc).2.1] at hmem
    simp at hmem

end System

end BoomCore
