import BoomCore.Proof.Environment
import BoomCore.Proof.Trap

/-!
# Commit follows the order of fetch

What retires was accepted by the frontend, in the same order, and every accepted response retires at
most once (`commits_in_fetch_order`). The window is the buffer between the two: an accepted response
joins it at the end or is dropped by a full reorder buffer, and an instruction leaves it at the
front by retiring or without a record, or with everything else in a redirect.
-/

set_option autoImplicit false
set_option relaxedAutoImplicit false

namespace BoomCore

/-! ### Statements -/

/-- The pc and the word of an instruction in flight. -/
def Inflight.key (d : Inflight) : BitVec 64 × BitVec 32 :=
  (d.result.uop.debugPc, d.result.uop.inst)

namespace Core

variable (input : ℕ → Inputs)

/-- The pc and the word of the instruction that step `n` retires. -/
def retired (n : ℕ) : List (BitVec 64 × BitVec 32) :=
  let rob := (run input (n + 1)).rob
  if rob.commitValid then [(rob.lastCommit.pc, rob.lastCommit.inst)] else []

/-- The address and the instruction of the response that step `n` accepts. -/
def fetched (n : ℕ) : List (BitVec 64 × BitVec 32) :=
  (accepted input n).toList.map fun resp ↦ (resp.address, resp.instruction)

end Core

/-! ### One cycle -/

/-- Commit counts a retirement, and nothing else. -/
theorem commitStage_instret {s : BoomCoreState} (pipe : PipeSignals)
    (hflag : s.rob.commitValid = false) :
    (commitStage s pipe).1.csr.instret =
      s.csr.instret + if (commitStage s pipe).1.rob.commitValid then 1 else 0 := by
  unfold commitStage commitException commitHead
  dsimp only
  split_ifs <;> simp_all [retire, sendStore, BoomCoreState.setEntry, RobInternalState.popHead]

/-- What a cycle retires. -/
def System.retiredKeys (program : Program) (sys : System) (t : Tick) :
    List (BitVec 64 × BitVec 32) :=
  let rob := (sys.cycle program t).core.rob
  if rob.commitValid then [(rob.lastCommit.pc, rob.lastCommit.inst)] else []

section Cycle

variable {program : Program} {sys : System} {w : List Inflight} (h : SysInv sys w) (t : Tick)
  (n : ℕ)

include h

/-- What retires is at the front of the window, and nothing that stays overtakes it. -/
theorem SysInv.keys_sublist :
    (sys.retiredKeys program t ++ (sys.windowStep program t n w).map Inflight.key).Sublist
      (w.map Inflight.key ++ (sys.dispatched program t n).map Inflight.key) := by
  rw [← List.map_append]
  unfold System.retiredKeys
  dsimp only
  cases hvalid : (sys.cycle program t).core.rob.commitValid with
  | true =>
    obtain ⟨d, w', hret⟩ := h.retires t n hvalid
    have hstage := hret.retirable.stage
    have hkey : ((sys.cycle program t).core.rob.lastCommit.pc,
        (sys.cycle program t).core.rob.lastCommit.inst) = d.key := by
      rw [hret.record]
      unfold commitRecord Inflight.key
      dsimp only
      rw [hstage.debugPc, hstage.inst]
    rw [if_pos rfl, hkey, hret.before, hret.after]
    exact List.Sublist.refl _
  | false =>
    obtain ⟨-, -, -, ⟨-, hnil⟩ | ⟨-, hstay | ⟨d, w', hw, hafter, -⟩⟩⟩ :=
      h.not_retired t n hvalid
    · rw [hnil]
      exact List.nil_sublist _
    · rw [hstay]
      exact List.Sublist.refl _
    · rw [hw, hafter]
      exact List.sublist_cons_self _ _

/-- An instruction that is dispatched was accepted. -/
theorem SysInv.dispatched_sublist :
    ((sys.dispatched program t n).map Inflight.key).Sublist
      ((sys.accepted program t).toList.map fun resp ↦ (resp.address, resp.instruction)) := by
  rcases System.idle_or_accepts program sys t with hidle | ⟨resp, hacc, hfull⟩
  · rw [h.step.dispatched_idle t n hidle]
    exact List.nil_sublist _
  · obtain ⟨-, -, -, hresp, -⟩ := h.step.fetch.accepted_eq t hacc
    have hkey : Inflight.key { born := n, result := sys.dispatchedResult program t } =
        (sys.core.frontend.pc, program sys.core.frontend.pc) := by
      unfold Inflight.key System.dispatchedResult
      rw [dispatchedResult_debugPc, dispatchedResult_inst]
    rw [h.step.dispatched_some t n hacc hfull h.tail_lt, hacc, hresp,
      List.map_singleton, hkey]
    exact List.Sublist.refl _

/-- A retirement is counted, and nothing else is. -/
theorem SysInv.cycle_instret :
    (sys.cycle program t).core.csr.instret =
      sys.core.csr.instret + BitVec.ofNat 64 (sys.retiredKeys program t).length := by
  have hcore : (sys.cycle program t).core = (sys.coreStep program t).1 := rfl
  have hat : (sys.atCommit program t).csr.instret = sys.core.csr.instret := by
    rw [h.step.atCommit_csr]
  have hflag := (h.step.atCommit_flags program t).1
  unfold System.retiredKeys
  dsimp only
  rw [hcore]
  cases hredirects : sys.core.execute.aluResult.redirects with
  | true =>
    rw [h.step.coreStep_of_redirects program t hredirects]
    exact hat.trans (BitVec.add_zero _).symm
  | false =>
    rw [h.step.coreStep_of_not_redirects program t hredirects, commitStage_instret _ hflag, hat]
    split_ifs <;> rfl

end Cycle

/-! ### Runs -/

section Runs

open BoomCore.Core

variable (input : ℕ → Inputs)

/-- Assumes: before step `n + 1` no response carries the identifier of a request of its own step.
One step of the run: what retires is at the front of the window, what is accepted joins it at the
end, and retirements are counted. -/
theorem retired_step (n : ℕ) (hlater : AnsweredLater input (n + 1)) :
    (retired input n ++ (window input (n + 1)).map Inflight.key).Sublist
        ((window input n).map Inflight.key ++ fetched input n) ∧
      (run input (n + 1)).csr.instret =
        (run input n).csr.instret + BitVec.ofNat 64 (retired input n).length := by
  have hinv := sysInv_coreRun input n fun m hm ↦ hlater m (Nat.lt_succ_of_lt hm)
  obtain ⟨program, sys, t, hmirrors, hacc⟩ :=
    hinv.step.exists_mirrors (hlater n (Nat.lt_succ_self n))
  have hsys := hmirrors.sysInv hinv
  obtain ⟨fe, hcore⟩ := hmirrors.core
  obtain ⟨resp, hnext⟩ := hmirrors.next
  have hrob : (run input (n + 1)).rob = (sys.cycle program t).core.rob :=
    (congrArg BoomCoreState.rob hnext :)
  have hretired : retired input n = sys.retiredKeys program t := by
    unfold retired System.retiredKeys
    rw [hrob]
  have hfetched : fetched input n = (sys.accepted program t).toList.map
      fun resp ↦ (resp.address, resp.instruction) := by
    unfold fetched
    rw [← Option.toList_map, ← Option.toList_map, hacc]
    rfl
  constructor
  · have hwindow : window input (n + 1) = sys.windowStep program t n (window input n) :=
      (hmirrors.windowStep n _).1
    rw [hretired, hfetched, hwindow]
    exact (hsys.keys_sublist t n).trans ((hsys.dispatched_sublist t n).append_left _)
  · have hcsr : (run input (n + 1)).csr = (sys.cycle program t).core.csr :=
      (congrArg BoomCoreState.csr hnext :)
    have hold : sys.core.csr = (run input n).csr := by
      rw [hcore]
      rfl
    rw [hcsr, hretired, hsys.cycle_instret, hold]

/-- Assumes: before step `n` no response carries the identifier of a request of its own step. What
has retired was accepted, in the same order, and is counted. -/
theorem commits_in_order (n : ℕ) (hlater : AnsweredLater input n) :
    (Run.outputs (retired input) n).Sublist (Run.outputs (fetched input) n) ∧
      (run input n).csr.instret = BitVec.ofNat 64 (Run.outputs (retired input) n).length := by
  have hstep : ∀ m < n, _ := fun m hm ↦
    retired_step input m fun j hj ↦ hlater j (Nat.lt_of_lt_of_le hj hm)
  constructor
  · refine List.Sublist.trans (List.sublist_append_left _ _) (Run.outputs_sublist
      (fun m ↦ (window input m).map Inflight.key) rfl n fun m hm ↦ (hstep m hm).1)
  · clear hlater
    induction n with
    | zero => rfl
    | succ n ih =>
      rw [(hstep n (Nat.lt_succ_self n)).2, ih fun m hm ↦ hstep m (Nat.lt_succ_of_lt hm),
        Run.outputs_succ, List.length_append, BitVec.ofNat_add]

end Runs

/-- For every program, all delays of its memory and all data responses: the retired instructions are
a subsequence of the accepted responses, and `instret` is their number. -/
theorem commits_in_fetch_order (program : Program) (tick : ℕ → Tick) (n : ℕ) :
    (Run.outputs (Core.retired (System.inputs program tick)) n).Sublist
        (Run.outputs (Core.fetched (System.inputs program tick)) n) ∧
      (System.run program tick n).core.csr.instret =
        BitVec.ofNat 64 (Run.outputs (Core.retired (System.inputs program tick)) n).length := by
  rw [← System.coreRun_inputs]
  exact commits_in_order _ n (System.answeredLater_inputs program tick n)

end BoomCore
