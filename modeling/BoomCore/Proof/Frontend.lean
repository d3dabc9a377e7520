import BoomCore.Proof.Frame
import BoomCore.Run.System

/-!
# The fetch handshake

Between two steps the frontend either waits for exactly one response, for the request with its own
pc, or no fetch request is in flight at all; and in the step after an instruction was executed no
request is in flight (`FetchInv`). So a redirect never meets an instruction that is handed over in
the same step, and the instruction that is handed over is the one the program holds at the pc of
the frontend.
-/

set_option autoImplicit false
set_option relaxedAutoImplicit false

namespace BoomCore

/-! ### The blocks of the frontend -/

namespace FrontendState

variable {fe : FrontendState}

/-- With a request in flight and no response, nothing but the packet flag changes. -/
theorem fetch_silent (brupdate : BranchUpdate) {pipe : PipeSignals} (hflush : fe.flush = false)
    (hreceived : fe.responseReceived = false) (hsent : fe.requestSent = true)
    (hresp : pipe.imemResp.q = []) :
    frontendFetch fe brupdate pipe = ({ fe with fetchPacketValid := false }, pipe) := by
  simp [frontendFetch, onFlush, dropPacket, sendRequest, takeResponse, deliver, Stream.read,
    hflush, hreceived, hsent, hresp]

/-- The response to the request in flight is handed over at once. -/
theorem fetch_accept (brupdate : BranchUpdate) {pipe : PipeSignals} {resp : ImemResponse}
    {rest : List ImemResponse} (hflush : fe.flush = false) (hsent : fe.requestSent = true)
    (hresp : pipe.imemResp.q = resp :: rest) (hid : resp.fetchId = fe.pendingFetchId) :
    frontendFetch fe brupdate pipe =
      ({ fe with
          respAddress := resp.address, respInstruction := resp.instruction
          respException := resp.exception, respExcCause := resp.excCause
          responseReceived := false, requestSent := false, fetchPacketValid := true
          fetchUop := { debugPc := resp.address, inst := resp.instruction }
          pc := resp.address + 4 },
        { pipe with imemResp := { pipe.imemResp with q := rest } }) := by
  simp [frontendFetch, onFlush, dropPacket, sendRequest, takeResponse, acceptResponse, deliver,
    fetchedUop, Stream.read, hflush, hsent, hresp, hid]

/-- With no request in flight and no response, the request for the pc is sent unless the stream is
full. -/
theorem fetch_send (brupdate : BranchUpdate) {pipe : PipeSignals} (hflush : fe.flush = false)
    (hreceived : fe.responseReceived = false) (hsent : fe.requestSent = false)
    (hresp : pipe.imemResp.q = []) :
    frontendFetch fe brupdate pipe =
      if pipe.imemReq.full then ({ fe with fetchPacketValid := false }, pipe)
      else
        ({ fe with
            pendingFetchId := fe.fetchId, fetchId := fe.fetchId + 1, requestSent := true
            fetchPacketValid := false },
          { pipe with imemReq := pipe.imemReq.write fe.request }) := by
  by_cases hfull : pipe.imemReq.full = true <;> by_cases hpacket : fe.fetchPacketValid = true <;>
    simp [frontendFetch, onFlush, dropPacket, sendRequest, takeResponse, deliver, Stream.read,
      request, hflush, hreceived, hsent, hresp, hfull, hpacket]

end FrontendState

/-! ### The invariant -/

/-- The handshake between the frontend and the instruction memory, between two steps. -/
structure FetchInv (sys : System) : Prop where
  flush : sys.core.frontend.flush = false
  received : sys.core.frontend.responseReceived = false
  reset : sys.core.frontend.resetDone = false →
    sys.core.frontend.requestSent = false ∧ sys.core.frontend.pc = resetVector ∧
      sys.core.frontend.fetchId = 0
  waiting : sys.imem =
    if sys.core.frontend.requestSent then
      [{ address := sys.core.frontend.pc, fetchId := sys.core.frontend.pendingFetchId }]
    else []
  executed : sys.core.execute.aluResult.valid = true → sys.core.frontend.requestSent = false

theorem fetchInv_init : FetchInv {} := by
  constructor <;> simp

section Handshake

variable {program : Program} {sys : System} (h : FetchInv sys) (t : Tick)

include h

/-- A response is the program's answer for the pc of the frontend. -/
theorem FetchInv.response_eq {resp : ImemResponse} (hresp : sys.response program t = some resp) :
    sys.core.frontend.requestSent = true ∧
      resp = { address := sys.core.frontend.pc, fetchId := sys.core.frontend.pendingFetchId
               instruction := program sys.core.frontend.pc } ∧
      t.imemAnswer = some 0 := by
  unfold System.response at hresp
  rw [h.waiting] at hresp
  cases hanswer : t.imemAnswer with
  | none => simp [hanswer] at hresp
  | some i =>
    by_cases hsent : sys.core.frontend.requestSent = true
    · cases i with
      | zero =>
        refine ⟨hsent, ?_, rfl⟩
        simpa [hanswer, hsent, Program.answer] using hresp.symm
      | succ i => simp [hanswer, hsent] at hresp
    · simp [hanswer, hsent] at hresp

/-- The frontend state that the redirect block finds. -/
theorem FetchInv.onReset_eq :
    sys.core.frontend.onReset = { sys.core.frontend with resetDone := true } := by
  unfold FrontendState.onReset
  by_cases hdone : sys.core.frontend.resetDone = true
  · rw [if_pos hdone, ← hdone]
  · obtain ⟨hsent, hpc, hid⟩ := h.reset (by simpa using hdone)
    rw [if_neg hdone, ← hsent, ← hpc, ← hid]

variable (program) in
/-- No response is on the stream in a step that redirects. -/
theorem FetchInv.response_of_redirects
    (hredirect : sys.core.execute.aluResult.redirects = true) :
    sys.response program t = none := by
  have hvalid : sys.core.execute.aluResult.valid = true := by
    unfold AluResult.redirects at hredirect
    simp only [Bool.and_eq_true] at hredirect
    exact hredirect.1.1
  cases hresp : sys.response program t with
  | none => rfl
  | some resp =>
    have hsent := (h.response_eq t hresp).1
    rw [h.executed hvalid] at hsent
    simp at hsent

end Handshake

/-! ### The frontend in one cycle -/

namespace System

variable (program : Program) (sys : System) (t : Tick)

theorem afterMemory_frontend :
    (sys.afterMemory program t).1.frontend = sys.core.frontend := by
  unfold afterMemory
  rw [memoryPhase_eq]
  show (resolved sys.core).frontend = sys.core.frontend
  rw [resolved_eq]

theorem afterMemory_robState :
    (sys.afterMemory program t).1.rob.state = sys.core.rob.state := by
  unfold afterMemory
  rw [memoryPhase_eq]
  show (resolved sys.core).rob.state = sys.core.rob.state
  rw [resolved_eq]

theorem afterMemory_globalFlush : (sys.afterMemory program t).1.globalFlush = false := by
  unfold afterMemory
  rw [memoryPhase_eq]
  exact congrArg BoomCoreState.globalFlush (resolved_eq sys.core)

theorem afterMemory_brupdate :
    (sys.afterMemory program t).1.brupdate = (resolved sys.core).brupdate := by
  unfold afterMemory
  rw [memoryPhase_eq]
  rfl

theorem afterMemory_redirects :
    ((sys.afterMemory program t).1.brupdate.valid &&
      (sys.afterMemory program t).1.brupdate.mispredict) =
        sys.core.execute.aluResult.redirects := by
  rw [afterMemory_brupdate]
  exact resolved_brupdate sys.core

theorem afterMemory_imem :
    (sys.afterMemory program t).2.imemReq = (sys.ports program t).imemReq ∧
      (sys.afterMemory program t).2.imemResp = (sys.ports program t).imemResp := by
  unfold afterMemory
  rw [memoryPhase_pipe]
  exact ⟨rfl, rfl⟩

/-- Only the frontend changes in the frontend. -/
theorem afterFetch_eq :
    (sys.afterFetch program t).1 =
      { (sys.afterMemory program t).1 with
        frontend := (sys.afterFetch program t).1.frontend } := by
  have hflush := afterMemory_globalFlush program sys t
  unfold afterFetch frontendModule
  dsimp only
  rw [hflush]
  split_ifs
  · rw [← hflush]
    simp [hflush]
  · rw [← hflush]
    simp [hflush]

end System

/-- The frontend state on which the fetch of a cycle works: the redirect of the previous result is
taken. -/
def System.redirected (sys : System) : FrontendState :=
  if sys.core.execute.aluResult.redirects then
    { sys.core.frontend with resetDone := true }.redirect sys.core.execute.aluResult.redirectPc
  else { sys.core.frontend with resetDone := true }

theorem System.redirected_resetDone (sys : System) : sys.redirected.resetDone = true := by
  unfold redirected
  split_ifs <;> rfl

theorem System.redirected_pc (sys : System) :
    sys.redirected.pc =
      if sys.core.execute.aluResult.redirects then
        sys.core.execute.aluResult.redirectPc &&& ~~~3#64
      else sys.core.frontend.pc := by
  unfold redirected
  split_ifs <;> rfl

/-- A redirect sends nothing and moves no identifier. -/
theorem System.redirected_ids (sys : System) :
    sys.redirected.fetchId = sys.core.frontend.fetchId ∧
      sys.redirected.pendingFetchId = sys.core.frontend.pendingFetchId ∧
      (sys.core.frontend.requestSent = false → sys.redirected.requestSent = false) := by
  unfold redirected
  split_ifs
  · exact ⟨rfl, rfl, fun _ ↦ rfl⟩
  · exact ⟨rfl, rfl, id⟩

section Cycle

variable {program : Program} {sys : System} (h : FetchInv sys) (t : Tick)

include h

theorem FetchInv.prologue_eq :
    frontendPrologue (sys.afterMemory program t).1 = sys.redirected := by
  unfold frontendPrologue FrontendState.onGlobalFlush FrontendState.onRedirect System.redirected
  rw [System.afterMemory_redirects, System.afterMemory_globalFlush, System.afterMemory_frontend,
    System.afterMemory_brupdate, if_neg Bool.false_ne_true, h.onReset_eq]
  by_cases hredirect : sys.core.execute.aluResult.redirects = true
  · rw [if_pos hredirect, if_pos hredirect, resolved_jalrTarget hredirect]
  · rw [if_neg hredirect, if_neg hredirect]

theorem FetchInv.redirected_flush : sys.redirected.flush = false := by
  unfold System.redirected
  split_ifs
  · rfl
  · exact h.flush

theorem FetchInv.redirected_received : sys.redirected.responseReceived = false := by
  unfold System.redirected
  split_ifs
  · rfl
  · exact h.received

/-- No redirect is under way while a request is in flight. -/
theorem FetchInv.redirected_sent (hsent : sys.core.frontend.requestSent = true) :
    sys.redirected.requestSent = true := by
  have hquiet : sys.core.execute.aluResult.redirects = false := by
    by_contra hredirects
    unfold AluResult.redirects at hredirects
    simp only [Bool.not_eq_false, Bool.and_eq_true] at hredirects
    rw [h.executed hredirects.1.1] at hsent
    simp at hsent
  unfold System.redirected
  rw [hquiet, if_neg Bool.false_ne_true]
  exact hsent

/-- An accepted response is the program's answer for the pc, and no redirect is under way. -/
theorem FetchInv.accepted_eq {resp : ImemResponse} (hacc : sys.accepted program t = some resp) :
    sys.core.rob.state ≠ .exception ∧ sys.core.frontend.requestSent = true ∧
      sys.core.execute.aluResult.redirects = false ∧
      resp = { address := sys.core.frontend.pc, fetchId := sys.core.frontend.pendingFetchId
               instruction := program sys.core.frontend.pc } ∧
      t.imemAnswer = some 0 := by
  unfold System.accepted at hacc
  split_ifs at hacc with hstate
  obtain ⟨hsent, hresp, hanswer⟩ := h.response_eq t hacc
  refine ⟨hstate, hsent, ?_, hresp, hanswer⟩
  by_contra hredirect
  have hnone := h.response_of_redirects program t (by simpa using hredirect)
  rw [hacc] at hnone
  simp at hnone

/-- The frontend takes a response: it hands the instruction over and moves to the next pc. -/
theorem FetchInv.afterFetch_of_some {resp : ImemResponse}
    (hacc : sys.accepted program t = some resp) :
    (sys.afterFetch program t).1.frontend =
        { sys.core.frontend with
          resetDone := true
          respAddress := resp.address, respInstruction := resp.instruction
          respException := resp.exception, respExcCause := resp.excCause
          responseReceived := false, requestSent := false, fetchPacketValid := true
          fetchUop := { debugPc := resp.address, inst := resp.instruction }
          pc := resp.address + 4 } ∧
      (sys.afterFetch program t).2.imemReq.q = [] ∧
      (sys.afterFetch program t).2.imemResp.q = [] := by
  obtain ⟨hstate, hsent, hredirect, hresp, -⟩ := h.accepted_eq t hacc
  have hbase : sys.redirected = { sys.core.frontend with resetDone := true } := by
    simp [System.redirected, hredirect]
  have hq : (sys.afterMemory program t).2.imemResp.q = resp :: [] := by
    have hresponse : sys.response program t = some resp := by
      simpa [System.accepted, hstate] using hacc
    rw [(System.afterMemory_imem program sys t).2]
    simp [System.ports, hresponse]
  unfold System.afterFetch frontendModule
  dsimp only
  rw [h.prologue_eq, System.afterMemory_robState, if_neg hstate,
    FrontendState.fetch_accept _ h.redirected_flush (by rw [hbase]; exact hsent) hq
      (by rw [hbase, hresp]), hbase, (System.afterMemory_imem program sys t).1]
  exact ⟨rfl, rfl, rfl⟩

/-- The frontend takes no response: it keeps what it has, or sends the next request. -/
theorem FetchInv.afterFetch_of_none (hacc : sys.accepted program t = none) :
    ((sys.afterFetch program t).1.frontend = { sys.redirected with fetchPacketValid := false } ∧
        (sys.afterFetch program t).2.imemReq.q = [] ∧
        (sys.afterFetch program t).2.imemResp.q = (sys.response program t).toList) ∨
      (sys.redirected.requestSent = false ∧ sys.response program t = none ∧
        (sys.afterFetch program t).1.frontend =
          { sys.redirected with
            pendingFetchId := sys.redirected.fetchId, fetchId := sys.redirected.fetchId + 1
            requestSent := true, fetchPacketValid := false } ∧
        (sys.afterFetch program t).2.imemReq.q = [sys.redirected.request] ∧
        (sys.afterFetch program t).2.imemResp.q = []) := by
  have hreq := (System.afterMemory_imem program sys t).1
  have hresp := (System.afterMemory_imem program sys t).2
  unfold System.afterFetch frontendModule
  dsimp only
  rw [h.prologue_eq, System.afterMemory_robState]
  by_cases hstate : sys.core.rob.state = .exception
  · rw [if_pos hstate]
    exact Or.inl ⟨rfl, by rw [hreq]; rfl, by rw [hresp]; rfl⟩
  · rw [if_neg hstate]
    have hnone : sys.response program t = none := by simpa [System.accepted, hstate] using hacc
    have hq : (sys.afterMemory program t).2.imemResp.q = [] := by
      rw [hresp]
      simp [System.ports, hnone]
    by_cases hsent : sys.redirected.requestSent = true
    · rw [FrontendState.fetch_silent _ h.redirected_flush h.redirected_received hsent hq]
      exact Or.inl ⟨rfl, by rw [hreq]; rfl, by rw [hq, hnone]; rfl⟩
    · have hsent' : sys.redirected.requestSent = false := by simpa using hsent
      rw [FrontendState.fetch_send _ h.redirected_flush h.redirected_received hsent' hq]
      split_ifs
      · exact Or.inl ⟨rfl, by rw [hreq]; rfl, by rw [hq, hnone]; rfl⟩
      · refine Or.inr ⟨hsent', hnone, rfl, ?_, hq⟩
        rw [hreq]
        rfl

end Cycle

end BoomCore
