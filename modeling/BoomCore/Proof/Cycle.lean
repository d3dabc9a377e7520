import BoomCore.Proof.Dispatch
import BoomCore.Proof.Frontend

/-!
# One cycle

`StepInv` is what every proof needs of the state between two cycles: the fetch handshake is in
order and the issue queue is empty. Under it a cycle has one of three shapes before commit. No
instruction is handed over (`beforeCommit_of_none`); an instruction is handed over while the reorder
buffer is full, and is dropped after it was renamed (`beforeCommit_of_full`); or it is renamed,
allocated and executed (`beforeCommit_of_some`).
-/

set_option autoImplicit false
set_option relaxedAutoImplicit false

namespace BoomCore

/-! ### The parts that commit finds -/

namespace System

variable (program : Program) (sys : System) (t : Tick)

theorem afterMemory_rename : (sys.afterMemory program t).1.rename = sys.core.rename := by
  unfold afterMemory
  rw [memoryPhase_eq]
  show (resolved sys.core).rename = sys.core.rename
  rw [resolved_eq]

theorem afterMemory_issue : (sys.afterMemory program t).1.issue = sys.core.issue := by
  unfold afterMemory
  rw [memoryPhase_eq]
  show (resolved sys.core).issue = sys.core.issue
  rw [resolved_eq]

/-- The load/store unit changes nothing of the reorder buffer but its entries. -/
theorem afterMemory_rob :
    (sys.afterMemory program t).1.rob =
      { sys.core.rob with entries := (sys.afterMemory program t).1.rob.entries } := by
  have hrob : (resolved sys.core).rob = sys.core.rob := by rw [resolved_eq]
  unfold afterMemory
  rw [memoryPhase_eq, ← hrob]
  rfl

theorem afterMemory_isFull : (sys.afterMemory program t).1.rob.isFull = sys.core.rob.isFull := by
  rw [afterMemory_rob]
  rfl

end System

/-! ### The invariant between two cycles -/

/-- The fetch handshake is in order and no uop waits in the issue queue. -/
structure StepInv (sys : System) : Prop where
  fetch : FetchInv sys
  queue : sys.core.issue.aluIq = {}

theorem stepInv_init : StepInv {} := ⟨fetchInv_init, rfl⟩

section Shapes

variable {program : Program} {sys : System} (h : StepInv sys) (t : Tick)

include h

/-- No instruction is handed over. -/
theorem StepInv.beforeCommit_of_none (hacc : sys.accepted program t = none) :
    sys.beforeCommit program t =
      { (sys.afterMemory program t).1 with
        frontend := (sys.afterFetch program t).1.frontend
        decode := { (sys.afterMemory program t).1.decode with decValid := false }
        rename :=
          { intMapTable :=
              if sys.core.execute.aluResult.redirects then sys.core.rename.intMapTable.restore
              else sys.core.rename.intMapTable
            intFreeList := sys.core.rename.intFreeList }
        rob := (sys.afterMemory program t).1.rob.wake, issue := {}, execute := {} } := by
  have hpacket : (sys.afterFetch program t).1.frontend.fetchPacketValid = false := by
    rcases h.fetch.afterFetch_of_none t hacc with ⟨hfrontend, -, -⟩ | ⟨-, -, hfrontend, -, -⟩ <;>
      rw [hfrontend]
  have hredirects := System.afterMemory_redirects program sys t
  unfold System.beforeCommit
  rw [System.afterFetch_eq, dispatchPhase_of_none]
  · dsimp only
    rw [hredirects, System.afterMemory_rename]
  · dsimp only
    rw [System.afterMemory_issue]
    exact h.queue
  · exact System.afterMemory_globalFlush program sys t
  · exact hpacket

section Accepted

variable {resp : ImemResponse} (hacc : sys.accepted program t = some resp)

include hacc

/-- What the dispatch path finds when an instruction is handed over. -/
theorem StepInv.dispatch_ready :
    (sys.afterFetch program t).1.issue.aluIq = {} ∧
      (sys.afterFetch program t).1.globalFlush = false ∧
      (sys.afterFetch program t).1.frontend.fetchPacketValid = true ∧
      ((sys.afterFetch program t).1.brupdate.valid &&
        (sys.afterFetch program t).1.brupdate.mispredict) = false ∧
      (sys.afterFetch program t).1.frontend.fetchUop.debugPc = sys.core.frontend.pc ∧
      (sys.afterFetch program t).1.frontend.fetchUop.inst = program sys.core.frontend.pc := by
  obtain ⟨-, -, hredirects, hresp, -⟩ := h.fetch.accepted_eq t hacc
  have hfrontend := (h.fetch.afterFetch_of_some t hacc).1
  have hissue : (sys.afterFetch program t).1.issue = sys.core.issue := by
    rw [System.afterFetch_eq]
    exact System.afterMemory_issue program sys t
  have hflush : (sys.afterFetch program t).1.globalFlush = false := by
    rw [System.afterFetch_eq]
    exact System.afterMemory_globalFlush program sys t
  have hbrupdate : ((sys.afterFetch program t).1.brupdate.valid &&
      (sys.afterFetch program t).1.brupdate.mispredict) = false := by
    rw [System.afterFetch_eq, ← hredirects]
    exact System.afterMemory_redirects program sys t
  refine ⟨?_, hflush, ?_, hbrupdate, ?_, ?_⟩
  · rw [hissue]
    exact h.queue
  · rw [hfrontend]
  · rw [hfrontend, hresp]
  · rw [hfrontend, hresp]

/-- The instruction is renamed and dropped, because the reorder buffer is full. -/
theorem StepInv.beforeCommit_of_full (hfull : sys.core.rob.isFull = true) :
    sys.beforeCommit program t =
      let pc := sys.core.frontend.pc
      let renamed := renamedInst sys.core pc (program pc)
      { (sys.afterMemory program t).1 with
        frontend := (sys.afterFetch program t).1.frontend
        decode := { decUop := decodeInst pc (program pc), decValid := true }
        rename :=
          { renamedUop := renamed.1, renamedValid := false
            intMapTable := renamed.2.1, intFreeList := renamed.2.2 }
        rob := (sys.afterMemory program t).1.rob.wake, issue := {}, execute := {} } := by
  obtain ⟨hqueue, hflush, hpacket, hredirect, hpc, hinst⟩ := h.dispatch_ready t hacc
  have hfull' : (sys.afterFetch program t).1.rob.isFull = true := by
    rw [System.afterFetch_eq]
    exact (System.afterMemory_isFull program sys t).trans hfull
  have hrenamed : renamedInst (sys.afterFetch program t).1 = renamedInst sys.core := by
    rw [System.afterFetch_eq]
    unfold renamedInst
    dsimp only
    rw [System.afterMemory_rename]
  unfold System.beforeCommit
  rw [dispatchPhase_of_full hqueue hflush hpacket hredirect hfull', hpc, hinst, hrenamed]
  dsimp only
  rw [System.afterFetch_eq]

/-- The instruction is renamed, allocated at the tail and executed on the register file that the
load/store unit leaves. -/
theorem StepInv.beforeCommit_of_some (hfull : sys.core.rob.isFull = false) :
    sys.beforeCommit program t =
      let pc := sys.core.frontend.pc
      let memory := (sys.afterMemory program t).1
      let result := dispatchedResult memory pc (program pc)
      { memory with
        frontend := (sys.afterFetch program t).1.frontend
        decode := { decUop := decodeInst pc (program pc), decValid := true }
        rename :=
          { renamedUop := result.uop, renamedValid := true
            intMapTable := (renamedInst sys.core pc (program pc)).2.1
            intFreeList := (renamedInst sys.core pc (program pc)).2.2 }
        rob := memory.rob.wake.allocate (renamedInst sys.core pc (program pc)).1
        issue := { aluIq := {}, issuedUop := result.uop, issuedValid := true }
        execute := { aluResult := result }
        intRf := writeBack memory.intRf result } := by
  obtain ⟨hqueue, hflush, hpacket, hredirect, hpc, hinst⟩ := h.dispatch_ready t hacc
  have hfull' : (sys.afterFetch program t).1.rob.isFull = false := by
    rw [System.afterFetch_eq]
    exact (System.afterMemory_isFull program sys t).trans hfull
  have hrename := System.afterMemory_rename program sys t
  unfold System.beforeCommit
  rw [dispatchPhase_of_uop hqueue hflush hpacket hredirect hfull', hpc, hinst]
  dsimp only
  rw [System.afterFetch_eq]
  unfold dispatchedResult dispatchedUop renamedInst
  dsimp only
  rw [hrename]
  rfl

end Accepted

end Shapes

/-! ### Preservation -/

namespace System

variable (program : Program) (sys : System) (t : Tick)

/-- Commit leaves the pipeline registers and the register file alone. -/
theorem cycle_frame :
    CommitFrame (sys.beforeCommit program t) (sys.cycle program t).core :=
  robCommitModule_frame _ _

theorem cycle_imem :
    (sys.cycle program t).imem = sys.waiting t (sys.afterFetch program t).2 := by
  obtain ⟨hreq, hresp⟩ :=
    robCommitModule_imem (sys.beforeCommit program t) (sys.afterFetch program t).2
  unfold cycle waiting
  dsimp only
  rw [coreStep_eq, hreq, hresp]

/-- The requests that wait after a cycle that took no response and sent no request. -/
theorem waiting_of_none {out : PipeSignals}
    (hresp : out.imemResp.q = (sys.response program t).toList) :
    sys.waiting t out = sys.imem ++ out.imemReq.q := by
  unfold waiting
  rw [hresp]
  cases hresponse : sys.response program t with
  | some resp => simp
  | none =>
    cases hanswer : t.imemAnswer with
    | none => simp
    | some i =>
      have hrange : sys.imem.length ≤ i := by
        simpa [response, hanswer] using hresponse
      simp [List.eraseIdx_of_length_le hrange]

end System

section Preserved

variable {program : Program} {sys : System} (h : StepInv sys) (t : Tick)

include h

/-- The frontend keeps its state, from the decoder to commit. -/
theorem StepInv.cycle_frontend :
    (sys.cycle program t).core.frontend = (sys.afterFetch program t).1.frontend := by
  rw [(System.cycle_frame program sys t).frontend]
  cases hacc : sys.accepted program t with
  | none => rw [h.beforeCommit_of_none t hacc]
  | some resp =>
    by_cases hfull : sys.core.rob.isFull = true
    · rw [h.beforeCommit_of_full t hacc hfull]
    · rw [h.beforeCommit_of_some t hacc (by simpa using hfull)]

theorem StepInv.cycle_queue : (sys.cycle program t).core.issue.aluIq = {} := by
  rw [(System.cycle_frame program sys t).issue]
  cases hacc : sys.accepted program t with
  | none => rw [h.beforeCommit_of_none t hacc]
  | some resp =>
    by_cases hfull : sys.core.rob.isFull = true
    · rw [h.beforeCommit_of_full t hacc hfull]
    · rw [h.beforeCommit_of_some t hacc (by simpa using hfull)]

/-- Without an instruction that is handed over nothing is executed. -/
theorem StepInv.cycle_execute_of_none (hacc : sys.accepted program t = none) :
    (sys.cycle program t).core.execute = {} := by
  rw [(System.cycle_frame program sys t).execute, h.beforeCommit_of_none t hacc]

/-- Nothing is in flight after a redirect. -/
theorem StepInv.imem_redirected :
    sys.imem =
      if sys.redirected.requestSent then
        [{ address := sys.redirected.pc, fetchId := sys.redirected.pendingFetchId }]
      else [] := by
  by_cases hredirect : sys.core.execute.aluResult.redirects = true
  · have hvalid : sys.core.execute.aluResult.valid = true := by
      unfold AluResult.redirects at hredirect
      simp only [Bool.and_eq_true] at hredirect
      exact hredirect.1.1
    rw [h.fetch.waiting, h.fetch.executed hvalid]
    simp [System.redirected, hredirect, FrontendState.redirect]
  · rw [h.fetch.waiting]
    simp [System.redirected, hredirect]

theorem StepInv.cycle_fetch : FetchInv (sys.cycle program t) := by
  cases hacc : sys.accepted program t with
  | none =>
    have hexecute := h.cycle_execute_of_none t hacc
    rcases h.fetch.afterFetch_of_none t hacc with
      ⟨hfrontend, hreq, hresp⟩ | ⟨hsent, hnone, hfrontend, hreq, hresp⟩
    · constructor
      · rw [h.cycle_frontend, hfrontend]
        exact h.fetch.redirected_flush
      · rw [h.cycle_frontend, hfrontend]
        exact h.fetch.redirected_received
      · rw [h.cycle_frontend, hfrontend]
        intro hdone
        exact absurd hdone (by simp [System.redirected_resetDone])
      · rw [h.cycle_frontend, hfrontend, System.cycle_imem, System.waiting_of_none _ _ t hresp,
          hreq, List.append_nil]
        exact h.imem_redirected
      · rw [hexecute]
        simp
    · constructor
      · rw [h.cycle_frontend, hfrontend]
        exact h.fetch.redirected_flush
      · rw [h.cycle_frontend, hfrontend]
        exact h.fetch.redirected_received
      · rw [h.cycle_frontend, hfrontend]
        intro hdone
        exact absurd hdone (by simp [System.redirected_resetDone])
      · rw [h.cycle_frontend, hfrontend, System.cycle_imem,
          System.waiting_of_none program sys t (by rw [hresp, hnone]; rfl), hreq,
          h.imem_redirected, hsent]
        rfl
      · rw [hexecute]
        simp
  | some resp =>
    obtain ⟨-, hsent, -, -, hanswer⟩ := h.fetch.accepted_eq t hacc
    obtain ⟨hfrontend, hreq, hresp⟩ := h.fetch.afterFetch_of_some t hacc
    constructor
    · rw [h.cycle_frontend, hfrontend]
      exact h.fetch.flush
    · rw [h.cycle_frontend, hfrontend]
    · rw [h.cycle_frontend, hfrontend]
      simp
    · rw [h.cycle_frontend, hfrontend, System.cycle_imem]
      unfold System.waiting
      rw [hreq, hresp, hanswer, h.fetch.waiting, hsent]
      rfl
    · rw [h.cycle_frontend, hfrontend]
      simp

theorem StepInv.cycle : StepInv (sys.cycle program t) :=
  ⟨h.cycle_fetch t, h.cycle_queue t⟩

end Preserved

/-- The invariant holds in every state of every run. -/
theorem stepInv_run (program : Program) (tick : ℕ → Tick) (n : ℕ) :
    StepInv (System.run program tick n) :=
  Run.invariant stepInv_init (fun _ t h ↦ h.cycle t) n

end BoomCore
