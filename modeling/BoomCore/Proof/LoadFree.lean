import BoomCore.Proof.Writeback

/-!
# Cycles without loads

With no load in the window and none outstanding, the load/store unit takes no response and sends no
request (`lsuModule_of_noLoads`): it only records a store that the previous cycle executed. So a
cycle changes the register file by the instruction that it dispatches and nothing else, and
`dmem_req` is empty when commit starts.
-/

set_option autoImplicit false
set_option relaxedAutoImplicit false

namespace BoomCore

open Ring

/-! ### The load/store unit -/

theorem enqueueResult_pending (s : BoomCoreState) :
    (enqueueResult s).lsu.loadResponsePending = s.lsu.loadResponsePending := by
  unfold enqueueResult LsuState.pushStore LsuState.pushLoad
  dsimp only
  split_ifs <;> rfl

/-- Without an outstanding load a response is dropped. -/
theorem afterResponse_of_not_pending {s : BoomCoreState}
    (hpending : s.lsu.loadResponsePending = false) (resp : Option DmemResponse) :
    s.afterResponse resp = s := by
  cases resp with
  | none => rfl
  | some resp =>
    show handleResponse s resp = s
    unfold handleResponse LsuState.matchesPending
    rw [hpending, Bool.false_and, if_neg Bool.false_ne_true]

theorem lsuModule_of_noLoads {s : BoomCoreState} {w : List Inflight} (h : WindowInv s w)
    (hhanded : Handed s w) (hflush : s.globalFlush = false)
    (hloads : ∀ d ∈ w, d.result.isLoad = false) (hpending : s.lsu.loadResponsePending = false)
    (pipe : PipeSignals) :
    lsuModule s pipe = (enqueueResult s, (takeDmemResponse s pipe).2) := by
  rw [lsuModule_eq hflush, afterResponse_of_not_pending hpending]
  rcases issueLoadsFrom_cases (enqueueResult s) (takeDmemResponse s pipe).2 robDepth 0 with
    heq | ⟨j, hj, hcan, -⟩
  · exact heq
  · obtain ⟨k, hk, -, hload, -⟩ := (h.enqueueResult hhanded).issued_load hj hcan
    rw [hloads _ (List.getElem_mem hk)] at hload
    simp at hload

/-! ### A cycle -/

section Cycle

variable {program : Program} {sys : System} {w : List Inflight} (h : SysInv sys w) (t : Tick)
  (hloads : ∀ d ∈ w, d.result.isLoad = false)
  (hpending : sys.core.lsu.loadResponsePending = false)

include h hloads hpending

variable (program) in
theorem SysInv.memory_of_noLoads :
    (sys.afterMemory program t).1.intRf = sys.core.intRf ∧
      (sys.afterMemory program t).1.lsu.loadResponsePending = false ∧
      (sys.commitPipe program t).dmemReq = { q := [], maxSize := t.dmemReqRoom } := by
  have hlsu : (resolved sys.core).lsu = sys.core.lsu := by rw [resolved_eq]
  have hrf : (resolved sys.core).intRf = sys.core.intRf := by rw [resolved_eq]
  have heq : sys.afterMemory program t = _ :=
    lsuModule_of_noLoads h.beforeMemory.1 h.beforeMemory.2 (resolved_globalFlush sys.core) hloads
      (by rw [hlsu]; exact hpending) (sys.ports program t)
  rw [System.commitPipe_dmemReq, heq]
  refine ⟨?_, ?_, ?_⟩
  · rw [enqueueResult_intRf, hrf]
  · rw [enqueueResult_pending, hlsu]
    exact hpending
  · rw [(takeDmemResponse_eq (resolved sys.core) (sys.ports program t)).2]
    rfl

/-- No load is outstanding after the cycle. -/
theorem SysInv.cycle_of_noLoads :
    (sys.cycle program t).core.lsu.loadResponsePending = false := by
  have hmem := (h.memory_of_noLoads program t hloads hpending).2.1
  have hat := h.atCommit_lsu program t
  show (sys.coreStep program t).1.lsu.loadResponsePending = false
  by_cases hredirects : sys.core.execute.aluResult.redirects = true
  · rw [h.step.coreStep_of_redirects program t hredirects]
    show (sys.atCommit program t).lsu.loadResponsePending = false
    rw [hat]
    exact hmem
  · rw [h.step.coreStep_of_not_redirects program t (by simpa using hredirects),
      (commitStage_pending _ _).1, hat]
    exact hmem

/-- A cycle that dispatches nothing leaves the register file alone. -/
theorem SysInv.cycle_intRf_of_none (hacc : sys.accepted program t = none) :
    (sys.cycle program t).core.intRf = sys.core.intRf := by
  rw [System.cycle_intRf, (h.step.atCommit_idle t (Or.inl hacc)).2.2.2]
  exact (h.memory_of_noLoads program t hloads hpending).1

end Cycle

end BoomCore
