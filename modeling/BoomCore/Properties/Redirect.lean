import BoomCore.Proof.Retirement

/-!
# What a redirect squashes

A redirect is processed in the cycle after the one that executed the control transfer, and it
invalidates every entry of the reorder buffer, whatever its age. Everything it can meet there is
older than the control transfer or is the control transfer itself, because the frontend hands
nothing over in that cycle. So a redirect is harmless exactly when the reorder buffer is empty; then
the control transfer has retired in the cycle that executed it (`SysInv.transfer_retired`).
-/

set_option autoImplicit false
set_option relaxedAutoImplicit false

namespace BoomCore

/-! ### Statements -/

/-- The record of the instruction with the result `r`, with the result as the destination value. -/
structure CommitEntry.RecordOf (ce : CommitEntry) (r : AluResult) : Prop where
  pc : ce.pc = r.uop.debugPc
  inst : ce.inst = r.uop.inst
  rd : ce.rd = r.uop.rename.ldst
  rdValid : ce.rdValid = r.uop.rdValid
  rdValue : r.uop.rdValid = true → ce.rdValue = r.result

/-- The memory state of an entry. -/
def RobEntry.memoryState (e : RobEntry) :
    Bool × Bool × Bool × Bool × Bool × BitVec 64 × BitVec 64 :=
  (e.memoryValid, e.isLoad, e.isStore, e.memoryRequestSent, e.memoryCompleted, e.memoryAddress,
    e.memoryData)

section Statements

variable (program : Program) (tick : ℕ → Tick)

/-- Cycle `m` commits the instruction in cell `i`, the head. -/
def CommitsCell (m i : ℕ) : Prop :=
  (System.run program tick m).core.rob.head = i ∧
    (System.run program tick (m + 1)).core.rob.commitValid = true

/-- The entry in cell `i` is still valid after cycle `n`, with its memory state unchanged. -/
def KeepsCell (n i : ℕ) : Prop :=
  ((System.run program tick (n + 1)).core.rob.entries i).valid = true ∧
    ((System.run program tick (n + 1)).core.rob.entries i).memoryState =
      ((System.run program tick n).core.rob.entries i).memoryState

/-- The redirect that is processed in cycle `n` squashes younger instructions only. `older`: every
other entry stays or commits. `own`: the control transfer has retired in the cycle that executed it,
or it stays and retires later; its record carries its result. -/
structure SquashesYoungerOnly (n : ℕ) : Prop where
  older : ∀ i < robDepth, ((System.run program tick n).core.rob.entries i).valid = true →
    i ≠ (System.run program tick n).core.execute.aluResult.uop.queue.robIdx →
      KeepsCell program tick n i ∨ CommitsCell program tick n i
  own : ∃ m, CommitsCell program tick m
      (System.run program tick n).core.execute.aluResult.uop.queue.robIdx ∧
    (System.run program tick (m + 1)).core.rob.lastCommit.RecordOf
      (System.run program tick n).core.execute.aluResult ∧
    (n = m + 1 ∨ (n ≤ m ∧ KeepsCell program tick n
      (System.run program tick n).core.execute.aluResult.uop.queue.robIdx))

end Statements

/-! ### The control transfer in an empty reorder buffer -/

/-- The record of an instruction that retires in the cycle of its dispatch. -/
theorem StepInv.recordOf_dispatched {program : Program} {sys : System} (h : StepInv sys) (t : Tick)
    {resp : ImemResponse} (hacc : sys.accepted program t = some resp)
    (hfull : sys.core.rob.isFull = false) (htail : sys.core.rob.tail < robDepth)
    (hload : (sys.dispatchedResult program t).isLoad = false) :
    (commitRecord (sys.atCommit program t) (sys.dispatchedResult program t).entry).RecordOf
      (sys.dispatchedResult program t) := by
  obtain ⟨-, -, -, hintRf⟩ := h.atCommit_some t hacc hfull htail
  refine ⟨rfl, rfl, rfl, rfl, fun hrd ↦ ?_⟩
  have hrd' := hrd
  unfold MicroOp.rdValid at hrd'
  show (if (sys.dispatchedResult program t).uop.rdValid then
    (sys.atCommit program t).intRf (sys.dispatchedResult program t).uop.rename.pdst else 0) = _
  rw [if_pos hrd, hintRf]
  unfold writeBack
  rw [hload, Bool.not_false, Bool.true_and, if_pos hrd', Function.update_self]

/-- Assumes: a control transfer that redirects is dispatched, and nothing is in flight after the
cycle. Then it has retired in the same cycle, with its result in its record. -/
theorem SysInv.transfer_retired {program : Program} {sys : System} {w : List Inflight}
    (h : SysInv sys w) (t : Tick) (n : ℕ)
    (hredirects : (sys.cycle program t).core.execute.aluResult.redirects = true)
    (hempty : sys.windowStep program t n w = []) :
    (sys.cycle program t).core.execute.aluResult.uop.queue.robIdx = sys.core.rob.head ∧
      (sys.cycle program t).core.rob.commitValid = true ∧
      (sys.cycle program t).core.rob.lastCommit.RecordOf
        (sys.cycle program t).core.execute.aluResult := by
  rcases System.idle_or_accepts program sys t with hidle | ⟨resp, hacc, hfull⟩
  · rw [System.cycle_execute, (h.step.atCommit_idle t hidle).2.1] at hredirects
    simp [AluResult.redirects] at hredirects
  · have hdispatched := h.step.dispatched_some t n hacc hfull h.tail_lt
    have hexecute : (sys.cycle program t).core.execute.aluResult =
        sys.dispatchedResult program t := by
      rw [System.cycle_execute, (h.step.atCommit_some t hacc hfull h.tail_lt).2.1]
    have hspec : DispatchedSpec (sys.dispatchedResult program t) := dispatchedResult_spec _ _ _
    rw [hexecute] at hredirects ⊢
    obtain ⟨hexc, hcompletes⟩ := hspec.control hredirects
    have hquiet : sys.core.execute.aluResult.redirects = false :=
      (h.step.fetch.accepted_eq t hacc).2.2.1
    by_cases hvalid : (sys.cycle program t).core.rob.commitValid = true
    · obtain ⟨d, w', hret⟩ := h.retires t n hvalid
      have hw' : w' = [] := by rw [← hret.after, hempty]
      have hd := hret.before
      rw [hw', hdispatched] at hd
      have hwnil : w = [] := by
        cases w with
        | nil => rfl
        | cons a w => simp at hd
      rw [hwnil, List.nil_append] at hd
      have hresult : d.result = sys.dispatchedResult program t := by
        rw [← (List.cons.inj hd).1]
      refine ⟨?_, hvalid, ?_⟩
      · rw [← hresult]
        exact hret.robIdx
      · rw [hret.record]
        have hretirable := hret.retirable
        rw [hresult] at hretirable
        have hflags := hspec.completes
        rw [hcompletes, eq_comm, Bool.not_eq_true', Bool.or_eq_false_iff] at hflags
        have hload : (sys.dispatchedResult program t).isLoad = false := by
          rw [hspec.load, hflags.1]
          rfl
        have hstore : (sys.dispatchedResult program t).isStore = false := by
          rw [hspec.store, hflags.2]
          rfl
        generalize (sys.atCommit program t).rob.entries (sys.atCommit program t).rob.head = e at *
        cases hretirable with
        | plain => exact h.step.recordOf_dispatched t hacc hfull h.tail_lt hload
        | load hisLoad =>
          rw [hload] at hisLoad
          simp at hisLoad
        | store hisStore =>
          rw [hstore] at hisStore
          simp at hisStore
    · obtain ⟨-, -, -, ⟨hcontra, -⟩ | ⟨-, hstay | ⟨d, w', hw, hafter, hecall⟩⟩⟩ :=
        h.not_retired t n (by simpa using hvalid)
      · rw [hquiet] at hcontra
        simp at hcontra
      · rw [hempty, hdispatched] at hstay
        simp at hstay
      · rw [hempty] at hafter
        rw [← hafter, hdispatched] at hw
        have hwnil : w = [] := by
          cases w with
          | nil => rfl
          | cons a w => simp at hw
        rw [hwnil, List.nil_append] at hw
        rw [← (List.cons.inj hw).1] at hecall
        rw [(hspec.ecall hecall).1] at hexc
        simp at hexc

/-! ### When a redirect is harmless -/

/-- A commit invalidates its cell. -/
theorem SysInv.not_valid_of_commits {program : Program} {sys : System} {w : List Inflight}
    (h : SysInv sys w) (t : Tick) (n : ℕ)
    (hvalid : (sys.cycle program t).core.rob.commitValid = true) :
    ((sys.cycle program t).core.rob.entries sys.core.rob.head).valid = false := by
  obtain ⟨d, w', hret⟩ := h.retires t n hvalid
  rw [← h.atCommit_head program t]
  exact hret.popped.gone

/-- The redirect cycle leaves no valid entry and commits nothing. -/
theorem SysInv.flushed (program : Program) {sys : System} {w : List Inflight}
    (h : SysInv sys w) (t : Tick) (hredirects : sys.core.execute.aluResult.redirects = true) :
    (∀ i < robDepth, ((sys.cycle program t).core.rob.entries i).valid = false) ∧
      (sys.cycle program t).core.rob.commitValid = false := by
  have hcore : (sys.cycle program t).core = (sys.coreStep program t).1 := rfl
  rw [hcore, h.step.coreStep_of_redirects program t hredirects]
  refine ⟨fun i hi ↦ ?_, rfl⟩
  exact (RobInv.flush _).outside i hi fun k hk ↦ absurd hk (Nat.not_lt_zero k)

/-- Assumes: cycle `n` processes a redirect. It squashes younger instructions only if and only if no
entry of the reorder buffer is valid. -/
theorem squashesYoungerOnly_iff (program : Program) (tick : ℕ → Tick) (n : ℕ)
    (hredirects : (System.run program tick n).core.execute.aluResult.redirects = true) :
    SquashesYoungerOnly program tick n ↔
      ∀ i < robDepth, ((System.run program tick n).core.rob.entries i).valid = false := by
  have hinv := sysInv_run program tick n
  obtain ⟨hgone, hnone⟩ := hinv.flushed program (tick n) hredirects
  constructor
  · intro hspares i hi
    by_contra hcontra
    have hvalid : ((System.run program tick n).core.rob.entries i).valid = true := by
      simpa using hcontra
    have hkeeps : ∀ j < robDepth, ¬ KeepsCell program tick n j := fun j hj hkeep ↦ by
      have hkept := hkeep.1
      rw [show System.run program tick (n + 1) =
        (System.run program tick n).cycle program (tick n) from rfl, hgone j hj] at hkept
      simp at hkept
    by_cases hown : i = (System.run program tick n).core.execute.aluResult.uop.queue.robIdx
    · obtain ⟨m, ⟨hhead, hcommit⟩, -, rfl | ⟨-, hkeep⟩⟩ := hspares.own
      · have hinvalid := (sysInv_run program tick m).not_valid_of_commits (tick m) m hcommit
        rw [hhead, ← hown] at hinvalid
        rw [show (System.run program tick (m + 1)) =
          (System.run program tick m).cycle program (tick m) from rfl, hinvalid] at hvalid
        simp at hvalid
      · rw [← hown] at hkeep
        exact hkeeps i hi hkeep
    · rcases hspares.older i hi hvalid hown with hkeep | ⟨-, hcommit⟩
      · exact hkeeps i hi hkeep
      · rw [show System.run program tick (n + 1) =
          (System.run program tick n).cycle program (tick n) from rfl, hnone] at hcommit
        simp at hcommit
  · intro hempty
    refine ⟨fun i hi hvalid ↦ ?_, ?_⟩
    · rw [hempty i hi] at hvalid
      simp at hvalid
    · have hwindow : System.window program tick n = [] := by
        by_contra hne
        obtain ⟨d, w', hw⟩ := List.exists_cons_of_ne_nil hne
        have hrob := hinv.window.rob
        rw [hw] at hrob
        have hvalid := (hrob.entries.head_cell hrob.head_lt).stage.valid
        rw [hempty _ hrob.head_lt] at hvalid
        simp at hvalid
      cases n with
      | zero => simp [System.run, AluResult.redirects] at hredirects
      | succ m =>
        obtain ⟨hidx, hcommit, hrecord⟩ :=
          (sysInv_run program tick m).transfer_retired (tick m) m hredirects hwindow
        exact ⟨m, ⟨hidx.symm, hcommit⟩, hrecord, Or.inl rfl⟩

/-! ### A load that is squashed -/

set_option maxRecDepth 100000 in
theorem loadThenJump_redirects :
    (System.run loadThenJump (fun _ ↦ .fetch) 4).core.execute.aluResult.redirects = true := by
  decide +kernel

set_option maxRecDepth 100000 in
/-- The load waits for its response when the redirect of the jump behind it is processed, and is
lost. -/
theorem loadThenJump_squashes_load :
    (System.run loadThenJump (fun _ ↦ .fetch) 4).core.execute.aluResult.redirects = true ∧
      ¬ SquashesYoungerOnly loadThenJump (fun _ ↦ .fetch) 4 := by
  refine ⟨loadThenJump_redirects, fun hspares ↦ ?_⟩
  rcases hspares.older 0 (by decide) (by decide +kernel) (by decide +kernel) with
    ⟨hkept, -⟩ | ⟨-, hcommit⟩
  · revert hkept
    decide +kernel
  · revert hcommit
    decide +kernel

/-- `squashesYoungerOnly_iff` at this redirect. -/
theorem squashesYoungerOnly_iff_loadThenJump :
    (System.run loadThenJump (fun _ ↦ .fetch) 4).core.execute.aluResult.redirects = true ∧
      (SquashesYoungerOnly loadThenJump (fun _ ↦ .fetch) 4 ↔
        ∀ i < robDepth,
          ((System.run loadThenJump (fun _ ↦ .fetch) 4).core.rob.entries i).valid = false) :=
  ⟨loadThenJump_redirects,
    squashesYoungerOnly_iff loadThenJump (fun _ ↦ .fetch) 4 loadThenJump_redirects⟩

end BoomCore
