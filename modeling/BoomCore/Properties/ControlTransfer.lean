import BoomCore.Proof.Control
import BoomCore.Properties.FetchProtocol
import BoomCore.Properties.IntegerResult

/-!
# Where the control transfers go

For every `JAL`, `JALR` and conditional branch, at every pc and on all register contents, the link,
the decision and the target are those of the instruction set, and the next fetch request goes to the
next address. The frontend clears the two low bits of a target instead of raising an exception for a
target that is not aligned (`transfer_next_request`).
-/

set_option autoImplicit false
set_option relaxedAutoImplicit false

namespace BoomCore

open Rv64

/-! ### Statements -/

/-- The address that the core fetches behind the transfer `i` at `pc` on the registers `x`. -/
def fetchAddress (i : Transfer) (x : BitVec 5 → BitVec 64) (pc : BitVec 64) : BitVec 64 :=
  if i.taken x then i.target x pc &&& ~~~3#64 else pc + 4

namespace Core

variable (input : ℕ → Inputs)

/-- The registers that an instruction of step `n` is executed on. -/
def sources (n : ℕ) : BitVec 5 → BitVec 64 :=
  (memoryPhase (run input n) (input n).ports).1.readReg

/-- Step `m` sends `req`, the first fetch request after step `j`. -/
structure NextRequest (j m : ℕ) (req : ImemRequest) : Prop where
  lt : j < m
  sent : req ∈ fetchRequests input m
  first : ∀ k, j < k → k < m → fetchRequests input k = []

end Core

/-! ### Between a transfer and the next request -/

section Runs

open BoomCore.Core

variable {input : ℕ → Inputs}

/-- Assumes: no response comes in the step of its request. An accepted instruction that is not
dropped is executed on the registers that the load/store unit leaves. -/
theorem executed_of_accepted {j : ℕ} {resp : ImemResponse} (hlater : AnsweredLater input (j + 1))
    (hacc : accepted input j = some resp) (hvalid : (Core.executed input j).valid = true) :
    ∃ s : BoomCoreState, s.readReg = sources input j ∧
      Core.executed input j = dispatchedResult s resp.address resp.instruction := by
  have hinv := sysInv_coreRun input j fun m hm ↦ hlater m (Nat.lt_succ_of_lt hm)
  obtain ⟨hmirrors, hsome⟩ := hinv.step.mirrors_of_some hacc
    (hlater j (Nat.lt_succ_self j) resp (imemResp_of_accepted hacc))
  obtain ⟨resp', hnext⟩ := hmirrors.next
  have hexecute : Core.executed input j = (((run input j).fetching resp).asSystem.cycle
      (fun _ ↦ resp.instruction) ((input j).tick (some 0))).core.execute.aluResult :=
    (congrArg (fun s ↦ s.execute.aluResult) hnext :)
  have hmem := afterMemory_asSystem (run input j) (input j) (fun _ ↦ resp.instruction)
    { (run input j).frontend with pc := resp.address } (some 0)
  rw [System.cycle_execute] at hexecute
  cases hfull : (run input j).rob.isFull with
  | true =>
    rw [hexecute, (hmirrors.step.atCommit_idle _ (Or.inr hfull)).2.1] at hvalid
    simp at hvalid
  | false =>
    rw [(hmirrors.step.atCommit_some _ hsome hfull hinv.tail_lt).2.1] at hexecute
    refine ⟨_, ?_, hexecute⟩
    exact (congrArg (fun out : BoomCoreState × PipeSignals ↦ out.1.readReg) hmem :)

/-- Assumes: no response comes in the step of its request, and no request is sent between the steps
`j` and `m`. When the frontend is idle after step `j` it still is before step `m`, at the same
address. -/
theorem idle_until_request {j m : ℕ} (hjm : j < m) (hlater : AnsweredLater input m)
    (hquiet : ∀ k, j < k → k < m → fetchRequests input k = [])
    (hidle : (run input (j + 1)).asSystem.redirected.requestSent = false) :
    (run input m).asSystem.redirected.requestSent = false ∧
      (run input m).asSystem.redirected.pc = (run input (j + 1)).asSystem.redirected.pc := by
  induction m, hjm using Nat.le_induction with
  | base => exact ⟨hidle, rfl⟩
  | succ m hjm ih =>
    obtain ⟨hidle, hpc⟩ := ih (fun i hi ↦ hlater i (Nat.lt_succ_of_lt hi))
      fun k hjk hkm ↦ hquiet k hjk (Nat.lt_succ_of_lt hkm)
    have hinv := stepInv_coreRun input m fun i hi ↦ hlater i (Nat.lt_succ_of_lt hi)
    have hnone := hinv.accepted_none_of_idle (hlater m (Nat.lt_succ_self m)) hidle
    obtain ⟨hstill, hpc'⟩ := hinv.stays_of_none hnone (hquiet m hjm (Nat.lt_succ_self m))
    exact ⟨hstill hidle, hpc'.trans hpc⟩

/-- Assumes: no response comes in the step of its request. The first request after an accepted
instruction is for the address behind it. -/
theorem nextRequest_address {j m : ℕ} {resp : ImemResponse} {req : ImemRequest}
    (hlater : AnsweredLater input (m + 1)) (hacc : accepted input j = some resp)
    (hnext : NextRequest input j m req) :
    req.address = (Core.executed input j).nextAddress resp.address := by
  have hbefore : ∀ i ≤ m, AnsweredLater input i := fun i hi k hk ↦ hlater k (by omega)
  have hj := stepInv_coreRun input j (hbefore j hnext.lt.le)
  have hsys := sysInv_coreRun input j (hbefore j hnext.lt.le)
  obtain ⟨-, -, -, hidle, hpc, -⟩ := hj.fetch_of_some hsys.tail_lt hacc
    (hlater j (Nat.lt_succ_of_lt hnext.lt) resp (imemResp_of_accepted hacc))
  obtain ⟨hidle', hpc'⟩ := idle_until_request hnext.lt (hbefore m (Nat.le_refl m)) hnext.first hidle
  have hm := stepInv_coreRun input m (hbefore m (Nat.le_refl m))
  have hnone := hm.accepted_none_of_idle (hlater m (Nat.lt_succ_self m)) hidle'
  have hsent := hnext.sent
  obtain ⟨-, -, ⟨hreq, -⟩ | ⟨-, hreq, -⟩⟩ := hm.fetch_of_none hnone
  · rw [show fetchRequests input m = [] from hreq] at hsent
    simp at hsent
  · rw [show fetchRequests input m = [_] from hreq, List.mem_singleton] at hsent
    rw [hsent]
    exact hpc'.trans hpc

/-! ### Control transfers -/

theorem executedResult_transfersTo (s : BoomCoreState) (pc : BitVec 64) (i : Transfer) :
    TransfersTo i s.readReg pc (executedResult s pc i.encode) := by
  have hdispatched := transfersTo_dispatched s pc i
  rw [dispatchedResult_eq_executed] at hdispatched
  exact ⟨hdispatched.link, hdispatched.taken, hdispatched.target, hdispatched.exception⟩

/-- The link, the decision and the target are those of the instruction set, for every transfer, pc
and register contents. In a run in which no response comes in the step of its request, the first
request after an executed transfer goes to its next address; of the target of a taken transfer the
two low bits are cleared. No exception is raised. -/
theorem transfer_next_request (i : Transfer) :
    (∀ s pc, TransfersTo i s.readReg pc (executedResult s pc i.encode)) ∧
      ∀ (input : ℕ → Inputs) (j m : ℕ) (resp : ImemResponse) (req : ImemRequest),
        AnsweredLater input (m + 1) → accepted input j = some resp → resp.instruction = i.encode →
          (Core.executed input j).valid = true → NextRequest input j m req →
            req.address = fetchAddress i (sources input j) resp.address ∧
              TransfersTo i (sources input j) resp.address (Core.executed input j) := by
  refine ⟨fun s pc ↦ executedResult_transfersTo s pc i,
    fun input j m resp req hlater hacc hinst hvalid hnext ↦ ?_⟩
  have hlt : j < m := hnext.lt
  have hlater' : AnsweredLater input (j + 1) := fun k hk ↦ hlater k (by omega)
  obtain ⟨s, hsources, hexecuted⟩ := executed_of_accepted hlater' hacc hvalid
  have hspec : TransfersTo i (sources input j) resp.address (Core.executed input j) := by
    rw [hexecuted, hinst, ← hsources]
    exact transfersTo_dispatched s resp.address i
  refine ⟨?_, hspec⟩
  rw [nextRequest_address hlater hacc hnext]
  unfold AluResult.nextAddress fetchAddress
  rw [hspec.taken]
  split_ifs with htaken
  · rw [hspec.target htaken]
  · rfl

end Runs

/-! ### A jump to an address that is not aligned -/

/-- `JAL x0, 6` at the reset vector is answered. -/
def jumpToHalfword : ℕ → Inputs := fun m ↦
  { imemResp := if m = 1 then
      some { address := resetVector, fetchId := 0, instruction := (Transfer.jal 0 3).encode }
    else none }

theorem jumpToHalfword_request :
    Core.NextRequest jumpToHalfword 1 2 { address := resetVector + 4, fetchId := 1 } :=
  ⟨by decide, by decide +kernel, fun k hk hk' ↦ absurd hk' (by omega)⟩

/-- A transfer whose target is not aligned raises no exception; the core fetches another address. -/
theorem misaligned_target_fetched :
    ¬∀ (i : Transfer) (input : ℕ → Inputs) (j m : ℕ) (resp : ImemResponse) (req : ImemRequest),
      Core.AnsweredLater input (m + 1) → Core.accepted input j = some resp →
        resp.instruction = i.encode → (Core.executed input j).valid = true →
          Core.NextRequest input j m req →
            req.address = i.nextPc (Core.sources input j) resp.address ∨
              (i.nextPc (Core.sources input j) resp.address &&& 3#64 ≠ 0 ∧
                ((Core.executed input j).exception = true ∨
                  ∃ k ≤ m + 1, (Core.run input k).ioTrap = true)) := by
  intro hall
  have hjump := hall (.jal 0 3) jumpToHalfword 1 2 _ _ (by decide +kernel) rfl rfl
    (by decide +kernel) jumpToHalfword_request
  revert hjump
  decide +kernel

/-- `transfer_next_request` for this jump. -/
theorem transfer_next_request_jumpToHalfword :
    resetVector + 4 =
      fetchAddress (.jal 0 3) (Core.sources jumpToHalfword 1) resetVector :=
  ((transfer_next_request (.jal 0 3)).2 jumpToHalfword 1 2
    { address := resetVector, fetchId := 0, instruction := (Transfer.jal 0 3).encode }
    { address := resetVector + 4, fetchId := 1 } (by decide +kernel) (by decide +kernel) rfl
    (by decide +kernel) jumpToHalfword_request).1

end BoomCore
