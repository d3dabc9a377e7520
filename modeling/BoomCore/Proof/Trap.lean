import BoomCore.Proof.Pipeline

/-!
# Traps

An exception at the head of the reorder buffer, other than an `ECALL`, puts the core into
`ROB_EXCEPTION` (`System.TakesTrap`), and nothing else does (`SysInv.state_of_not_takesTrap`). From
then on the frontend hands nothing over, and in every later cycle the same entry is found at the
head again (`TrapHead`).
-/

set_option autoImplicit false
set_option relaxedAutoImplicit false

namespace BoomCore

/-! ### Taking a trap -/

namespace System

variable (program : Program) (sys : System) (t : Tick)

/-- Commit finds an exception other than an `ECALL` at the head, and stops the core. -/
structure TakesTrap : Prop where
  quiet : sys.core.execute.aluResult.redirects = false
  nonempty : (sys.atCommit program t).rob.isEmpty = false
  valid : ((sys.atCommit program t).rob.entries (sys.atCommit program t).rob.head).valid = true
  complete : ((sys.atCommit program t).rob.entries (sys.atCommit program t).rob.head).busy = false
  exception :
    ((sys.atCommit program t).rob.entries (sys.atCommit program t).rob.head).exception = true
  notEcall : ((sys.atCommit program t).rob.entries (sys.atCommit program t).rob.head).uop.uopc ≠
    .ecall

/-- The core stays trapped in a cycle: `io_trap` is raised, and nothing is committed, stored or
counted. -/
structure StaysTrapped : Prop where
  state : (sys.cycle program t).core.rob.state = .exception
  trap : (sys.cycle program t).core.ioTrap = true
  commitValid : (sys.cycle program t).core.rob.commitValid = false
  commitTrace : (sys.coreStep program t).2.commitTrace.q = []
  noStore : ∀ req ∈ (sys.coreStep program t).2.dmemReq.q, req.isStore = false
  instret : (sys.cycle program t).core.csr.instret = sys.core.csr.instret

/-- The instruction that is dispatched in a cycle is a control transfer that redirects. -/
def Transfers : Prop :=
  (sys.accepted program t).isSome = true ∧ sys.core.rob.isFull = false ∧
    (sys.dispatchedResult program t).redirects = true

end System

/-! ### A trapped core -/

/-- The step counts the cycle and leaves the other registers of `csr_module` alone. -/
theorem resolved_csr (s : BoomCoreState) :
    (resolved s).csr = { s.csr with cycle := s.csr.cycle + 1 } := by
  unfold resolved branchModule csrModule clearStep
  split_ifs <;> rfl

/-- Between `csr_module` and commit the counters do not change. -/
theorem StepInv.atCommit_csr {program : Program} {sys : System} (h : StepInv sys) (t : Tick) :
    (sys.atCommit program t).csr = { sys.core.csr with cycle := sys.core.csr.cycle + 1 } := by
  have hmem : (sys.afterMemory program t).1.csr = (resolved sys.core).csr := by
    unfold System.afterMemory
    rw [memoryPhase_eq]
    rfl
  rw [← resolved_csr, ← hmem]
  unfold System.atCommit
  dsimp only
  cases hacc : sys.accepted program t with
  | none => rw [h.beforeCommit_of_none t hacc]
  | some resp =>
    by_cases hfull : sys.core.rob.isFull = true
    · rw [h.beforeCommit_of_full t hacc hfull]
    · rw [h.beforeCommit_of_some t hacc (by simpa using hfull)]

/-- The privilege mode never changes. -/
theorem StepInv.cycle_priv {program : Program} {sys : System} (h : StepInv sys) (t : Tick) :
    (sys.cycle program t).core.csr.priv = sys.core.csr.priv := by
  have hcommit : ∀ (s : BoomCoreState) (pipe : PipeSignals),
      (commitStage s pipe).1.csr.priv = s.csr.priv := by
    intro s pipe
    unfold commitStage commitException commitHead
    dsimp only
    split_ifs <;> rfl
  have hat : (sys.atCommit program t).csr.priv = sys.core.csr.priv := by rw [h.atCommit_csr]
  show (sys.coreStep program t).1.csr.priv = _
  by_cases hredirects : sys.core.execute.aluResult.redirects = true
  · rw [h.coreStep_of_redirects program t hredirects]
    exact hat
  · rw [h.coreStep_of_not_redirects program t (by simpa using hredirects), hcommit, hat]

/-- Only commit enters `ROB_EXCEPTION`. -/
theorem SysInv.atCommit_state {program : Program} {sys : System} {w : List Inflight}
    (h : SysInv sys w) (t : Tick) :
    (sys.atCommit program t).rob.state = sys.core.rob.wake.state := by
  have hmem := System.afterMemory_robState program sys t
  rcases System.idle_or_accepts program sys t with hidle | ⟨resp, hacc, hfull⟩
  · rw [(h.step.atCommit_idle t hidle).1]
    unfold RobInternalState.wake
    dsimp only
    rw [hmem]
  · rw [(h.step.atCommit_some t hacc hfull h.tail_lt).1]
    unfold RobInternalState.wake
    dsimp only
    rw [hmem]

theorem SysInv.cycle_redirects_iff {program : Program} {sys : System} {w : List Inflight}
    (h : SysInv sys w) (t : Tick) :
    (sys.cycle program t).core.execute.aluResult.redirects = true ↔
      sys.Transfers program t := by
  unfold System.Transfers
  rw [System.cycle_execute]
  rcases System.idle_or_accepts program sys t with hidle | ⟨resp, hacc, hfull⟩
  · rw [(h.step.atCommit_idle t hidle).2.1]
    rcases hidle with hnone | hfull
    · simp [hnone, AluResult.redirects]
    · simp [hfull, AluResult.redirects]
  · rw [(h.step.atCommit_some t hacc hfull h.tail_lt).2.1]
    simp [hacc, hfull]

/-- The core has taken a trap: the exception is still at the head, and no redirect is under way. -/
structure TrapHead (sys : System) (w : List Inflight) : Prop where
  inv : SysInv sys w
  nonempty : w ≠ []
  state : sys.core.rob.state = .exception
  quiet : sys.core.execute.aluResult.redirects = false
  complete : (sys.core.rob.entries sys.core.rob.head).busy = false
  exception : (sys.core.rob.entries sys.core.rob.head).exception = true
  notEcall : (sys.core.rob.entries sys.core.rob.head).uop.uopc ≠ .ecall

section Trapped

variable {program : Program} {sys : System} {w : List Inflight} (t : Tick)

/-- The step of a core that takes a trap. -/
theorem SysInv.coreStep_of_takesTrap (h : SysInv sys w) (htrap : sys.TakesTrap program t) :
    sys.coreStep program t =
      ({ sys.atCommit program t with
          rob := { (sys.atCommit program t).rob with state := .exception }, ioTrap := true },
        sys.commitPipe program t) := by
  rw [h.step.coreStep_of_not_redirects program t htrap.quiet,
    commitStage_of_exception _ htrap.nonempty htrap.valid htrap.complete htrap.exception]
  unfold commitException
  rw [if_neg htrap.notEcall]

/-- Without a trap the core does not enter `ROB_EXCEPTION`. -/
theorem SysInv.state_of_not_takesTrap (h : SysInv sys w) (hnot : ¬ sys.TakesTrap program t)
    (hstate : sys.core.rob.state ≠ .exception) :
    (sys.cycle program t).core.rob.state ≠ .exception := by
  have hcore : (sys.cycle program t).core = (sys.coreStep program t).1 := rfl
  have hat : (sys.atCommit program t).rob.state ≠ .exception := by
    rw [h.atCommit_state]
    unfold RobInternalState.wake
    dsimp only
    split_ifs with hinit
    · exact fun hcontra ↦ nomatch hcontra
    · exact hstate
  by_cases hredirects : sys.core.execute.aluResult.redirects = true
  · rw [hcore, h.step.coreStep_of_redirects program t hredirects]
    exact fun hcontra ↦ nomatch hcontra
  · have hquiet : sys.core.execute.aluResult.redirects = false := by simpa using hredirects
    have hwin := (h.atCommit program t 0).1.rob
    generalize hout : sys.coreStep program t = out at hcore
    have houtcome := h.outcome program t 0 hquiet
    rw [hout] at houtcome
    rw [hcore]
    cases houtcome with
    | stall => exact hat
    | exception d w' hw hstage hbusy hexc =>
      have hecall : ((sys.atCommit program t).rob.entries
          (sys.atCommit program t).rob.head).uop.uopc = .ecall := by
        by_contra hcontra
        refine hnot ⟨hquiet, ?_, hstage.valid, hbusy, hexc, hcontra⟩
        rw [← Bool.not_eq_true, hwin.isEmpty_iff, hw]
        exact List.cons_ne_nil d w'
      unfold commitException
      rw [if_pos hecall]
      exact hat
    | store => exact hat
    | retire => exact hat

variable (program) in
/-- In a trapped core every cycle finds the trap at the head again. -/
theorem TrapHead.takesTrap (h : TrapHead sys w) : sys.TakesTrap program t := by
  have hnone : sys.accepted program t = none := by
    unfold System.accepted
    rw [if_pos h.state]
  obtain ⟨hrob, -⟩ := h.inv.step.atCommit_idle t (Or.inl hnone)
  have hwin := (h.inv.atCommit program t 0).1.rob
  rw [h.inv.step.dispatched_idle t 0 (Or.inl hnone), List.append_nil] at hwin
  have hentry : (sys.atCommit program t).rob.entries (sys.atCommit program t).rob.head =
      sys.core.rob.entries sys.core.rob.head := by
    rw [h.inv.atCommit_head program t, hrob]
    exact h.inv.memory_entry t h.complete
  have hvalid : ((sys.atCommit program t).rob.entries
      (sys.atCommit program t).rob.head).valid = true := by
    obtain ⟨d, w', rfl⟩ := List.exists_cons_of_ne_nil h.nonempty
    exact (hwin.entries.head_cell hwin.head_lt).stage.valid
  refine ⟨h.quiet, ?_, hvalid, ?_, ?_, ?_⟩
  · by_contra hcontra
    exact h.nonempty (hwin.isEmpty_iff.mp (by simpa using hcontra))
  · rw [hentry]
    exact h.complete
  · rw [hentry]
    exact h.exception
  · rw [hentry]
    exact h.notEcall

/-- A trap without a control transfer in its cycle leaves the core trapped. -/
theorem SysInv.trapHead_of_takesTrap (h : SysInv sys w) (htrap : sys.TakesTrap program t) (n : ℕ)
    (hquiet : ¬ sys.Transfers program t) :
    TrapHead (sys.cycle program t) (sys.windowStep program t n w) := by
  have hcore : (sys.cycle program t).core =
      { sys.atCommit program t with
        rob := { (sys.atCommit program t).rob with state := .exception }, ioTrap := true } := by
    show (sys.coreStep program t).1 = _
    rw [h.coreStep_of_takesTrap t htrap]
  have hstay := h.windowStep_of_stay t n htrap.quiet (by rw [hcore])
  have hwin := (h.atCommit program t n).1.rob
  refine ⟨h.cycle t n, ?_, ?_, ?_, ?_, ?_, ?_⟩
  · rw [hstay]
    intro hnil
    have hempty := hwin.isEmpty_iff.mpr hnil
    rw [htrap.nonempty] at hempty
    simp at hempty
  · rw [hcore]
  · by_contra hcontra
    exact hquiet ((h.cycle_redirects_iff t).mp (by simpa using hcontra))
  · rw [hcore]
    exact htrap.complete
  · rw [hcore]
    exact htrap.exception
  · rw [hcore]
    exact htrap.notEcall

theorem TrapHead.cycle (h : TrapHead sys w) (n : ℕ) :
    TrapHead (sys.cycle program t) (sys.windowStep program t n w) := by
  refine h.inv.trapHead_of_takesTrap t (h.takesTrap program t) n fun htransfer ↦ ?_
  have hnone : sys.accepted program t = none := by
    unfold System.accepted
    rw [if_pos h.state]
  simp [System.Transfers, hnone] at htransfer

theorem TrapHead.staysTrapped (h : TrapHead sys w) : sys.StaysTrapped program t := by
  have htrap := h.takesTrap program t
  have hnone : sys.accepted program t = none := by
    unfold System.accepted
    rw [if_pos h.state]
  have hstep := h.inv.coreStep_of_takesTrap t htrap
  have hcore : (sys.cycle program t).core = (sys.coreStep program t).1 := rfl
  have hrob := (h.inv.step.atCommit_idle t (Or.inl hnone)).1
  refine ⟨?_, ?_, ?_, ?_, ?_, ?_⟩
  · rw [hcore, hstep]
  · rw [hcore, hstep]
  · rw [hcore, hstep]
    dsimp only
    rw [hrob]
  · rw [hstep, System.commitPipe_commitTrace]
  · rw [hstep]
    intro req hreq
    rcases sys.commitPipe_requests program t with hpipe | ⟨entry, i, tx, hpipe⟩
    · simp [hpipe] at hreq
    · rw [hpipe, List.mem_singleton] at hreq
      rw [hreq]
      rfl
  · rw [hcore, hstep]
    show (sys.atCommit program t).csr.instret = _
    rw [h.inv.step.atCommit_csr]

end Trapped

end BoomCore
