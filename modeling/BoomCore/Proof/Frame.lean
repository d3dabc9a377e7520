import BoomCore.Model.Step
import Mathlib.Tactic.Common

/-!
# What the modules leave alone

The load/store unit writes the entries of the reorder buffer, the register file, its own state and
the data streams, and nothing else (`lsuModule_memoryOnly`, `lsuModule_dataOnly`). Commit writes
neither the pipeline registers nor the register file (`CommitFrame`). `memoryPhase_eq` gives the
state that the frontend finds.
-/

set_option autoImplicit false
set_option relaxedAutoImplicit false

namespace BoomCore

/-! ### The load/store unit -/

/-- A state with the parts that the load/store unit writes replaced. -/
def BoomCoreState.withMemory (s : BoomCoreState) (entries : CArray RobEntry)
    (intRf : CArray (BitVec 64)) (lsu : LsuState) : BoomCoreState :=
  { s with rob := { s.rob with entries := entries }, intRf := intRf, lsu := lsu }

/-- Only the parts that the load/store unit writes differ. -/
def MemoryOnly (s s' : BoomCoreState) : Prop :=
  s' = s.withMemory s'.rob.entries s'.intRf s'.lsu

theorem MemoryOnly.refl (s : BoomCoreState) : MemoryOnly s s := rfl

theorem MemoryOnly.trans {s s' s'' : BoomCoreState} (h : MemoryOnly s s')
    (h' : MemoryOnly s' s'') : MemoryOnly s s'' := by
  unfold MemoryOnly at *
  rw [h', h]
  rfl

theorem completeLoad_memoryOnly (s : BoomCoreState) (resp : DmemResponse) :
    MemoryOnly s (completeLoad s resp) := by
  unfold completeLoad
  dsimp only
  split_ifs <;> rfl

theorem handleResponse_memoryOnly (s : BoomCoreState) (resp : DmemResponse) :
    MemoryOnly s (handleResponse s resp) := by
  unfold handleResponse
  split_ifs
  · exact (completeLoad_memoryOnly s resp).trans rfl
  · rfl

theorem takeDmemResponse_memoryOnly (s : BoomCoreState) (pipe : PipeSignals) :
    MemoryOnly s (takeDmemResponse s pipe).1 := by
  unfold takeDmemResponse
  split
  · rfl
  · exact handleResponse_memoryOnly s _

theorem enqueueResult_memoryOnly (s : BoomCoreState) : MemoryOnly s (enqueueResult s) := by
  unfold enqueueResult
  dsimp only
  split_ifs <;> rfl

theorem tryIssueLoad_memoryOnly (s : BoomCoreState) (pipe : PipeSignals) (i : ℕ) :
    MemoryOnly s (tryIssueLoad s pipe i).1 := by
  unfold tryIssueLoad
  split_ifs <;> rfl

theorem issueLoadsFrom_memoryOnly (s : BoomCoreState) (pipe : PipeSignals) (fuel i : ℕ) :
    MemoryOnly s (issueLoadsFrom s pipe fuel i).1 := by
  induction fuel generalizing s pipe i with
  | zero => rfl
  | succ fuel ih =>
    unfold issueLoadsFrom
    dsimp only
    split_ifs
    · exact tryIssueLoad_memoryOnly s pipe _
    · exact (tryIssueLoad_memoryOnly s pipe _).trans (ih _ _ _)

theorem lsuModule_memoryOnly (s : BoomCoreState) (pipe : PipeSignals) :
    MemoryOnly s (lsuModule s pipe).1 := by
  unfold lsuModule
  split_ifs
  · rfl
  · exact ((takeDmemResponse_memoryOnly s pipe).trans (enqueueResult_memoryOnly _)).trans
      (issueLoadsFrom_memoryOnly _ _ _ _)

/-- Only the data streams differ. -/
def DataOnly (pipe pipe' : PipeSignals) : Prop :=
  pipe' = { pipe with dmemReq := pipe'.dmemReq, dmemResp := pipe'.dmemResp }

theorem DataOnly.trans {pipe pipe' pipe'' : PipeSignals} (h : DataOnly pipe pipe')
    (h' : DataOnly pipe' pipe'') : DataOnly pipe pipe'' := by
  unfold DataOnly at *
  rw [h', h]

theorem tryIssueLoad_dataOnly (s : BoomCoreState) (pipe : PipeSignals) (i : ℕ) :
    DataOnly pipe (tryIssueLoad s pipe i).2 := by
  unfold tryIssueLoad
  split_ifs <;> rfl

theorem issueLoadsFrom_dataOnly (s : BoomCoreState) (pipe : PipeSignals) (fuel i : ℕ) :
    DataOnly pipe (issueLoadsFrom s pipe fuel i).2 := by
  induction fuel generalizing s pipe i with
  | zero => rfl
  | succ fuel ih =>
    unfold issueLoadsFrom
    dsimp only
    split_ifs
    · exact tryIssueLoad_dataOnly s pipe _
    · exact (tryIssueLoad_dataOnly s pipe _).trans (ih _ _ _)

theorem takeDmemResponse_dataOnly (s : BoomCoreState) (pipe : PipeSignals) :
    DataOnly pipe (takeDmemResponse s pipe).2 := by
  unfold takeDmemResponse
  split <;> rfl

theorem lsuModule_dataOnly (s : BoomCoreState) (pipe : PipeSignals) :
    DataOnly pipe (lsuModule s pipe).2 := by
  unfold lsuModule
  split_ifs
  · rfl
  · exact (takeDmemResponse_dataOnly s pipe).trans (issueLoadsFrom_dataOnly _ _ _ _)

/-! ### The state that the frontend finds -/

/-- The state before the load/store unit: the flags of the step are clear, the cycle counter has
moved, and a redirecting result of the previous step is in `brupdate`. -/
def resolved (s : BoomCoreState) : BoomCoreState := branchModule (csrModule (clearStep s))

theorem resolved_brupdate (s : BoomCoreState) :
    ((resolved s).brupdate.valid && (resolved s).brupdate.mispredict) =
      s.execute.aluResult.redirects := by
  unfold resolved branchModule
  by_cases h : s.execute.aluResult.redirects = true
  · simp [csrModule, clearStep, h]
  · simp [csrModule, clearStep, h]

/-- The target that the frontend redirects to. -/
theorem resolved_jalrTarget {s : BoomCoreState} (h : s.execute.aluResult.redirects = true) :
    (resolved s).brupdate.jalrTarget = s.execute.aluResult.redirectPc := by
  simp [resolved, branchModule, csrModule, clearStep, h]

/-- Everything but `brupdate`, the flags of the step and the cycle counter is as before. -/
theorem resolved_eq (s : BoomCoreState) :
    resolved s =
      { s with
        csr := (resolved s).csr, brupdate := (resolved s).brupdate
        globalFlush := false, ioSuccess := false, ioTrap := false } := by
  unfold resolved branchModule
  split_ifs <;> rfl

theorem resolved_globalFlush (s : BoomCoreState) : (resolved s).globalFlush = false := by
  rw [resolved_eq]

theorem memoryPhase_eq (s : BoomCoreState) (pipe : PipeSignals) :
    (memoryPhase s pipe).1 =
      (resolved s).withMemory (memoryPhase s pipe).1.rob.entries (memoryPhase s pipe).1.intRf
        (memoryPhase s pipe).1.lsu :=
  lsuModule_memoryOnly _ _

theorem memoryPhase_pipe (s : BoomCoreState) (pipe : PipeSignals) :
    (memoryPhase s pipe).2 =
      { pipe with
        dmemReq := (memoryPhase s pipe).2.dmemReq, dmemResp := (memoryPhase s pipe).2.dmemResp } :=
  lsuModule_dataOnly _ _

/-! ### Commit -/

/-- What `rob_commit_module` leaves alone. -/
structure CommitFrame (s s' : BoomCoreState) : Prop where
  frontend : s'.frontend = s.frontend
  decode : s'.decode = s.decode
  issue : s'.issue = s.issue
  execute : s'.execute = s.execute
  intRf : s'.intRf = s.intRf

theorem commitException_frame (s : BoomCoreState) (he : RobEntry) :
    CommitFrame s (commitException s he) := by
  unfold commitException
  dsimp only
  split_ifs <;> constructor <;> rfl

theorem commitHead_frame (s : BoomCoreState) (pipe : PipeSignals) (he : RobEntry) :
    CommitFrame s (commitHead s pipe he).1 := by
  unfold commitHead
  dsimp only
  split_ifs <;> constructor <;> rfl

theorem commitStage_frame (s : BoomCoreState) (pipe : PipeSignals) :
    CommitFrame s (commitStage s pipe).1 := by
  unfold commitStage
  dsimp only
  split_ifs
  · exact commitException_frame s _
  · exact commitHead_frame s pipe _
  · constructor <;> rfl

theorem robCommitModule_frame (s : BoomCoreState) (pipe : PipeSignals) :
    CommitFrame s (robCommitModule s pipe).1 := by
  unfold robCommitModule
  dsimp only
  split_ifs
  · constructor <;> rfl
  · obtain ⟨hfrontend, hdecode, hissue, hexecute, hintRf⟩ := commitStage_frame
      { s with
        rob :=
          ({ s.rob with commitValid := false } : RobInternalState).markComplete
            s.execute.aluResult } pipe
    exact ⟨hfrontend, hdecode, hissue, hexecute, hintRf⟩

/-- Commit leaves the instruction streams alone. -/
theorem robCommitModule_imem (s : BoomCoreState) (pipe : PipeSignals) :
    (robCommitModule s pipe).2.imemReq = pipe.imemReq ∧
      (robCommitModule s pipe).2.imemResp = pipe.imemResp := by
  unfold robCommitModule commitStage commitHead
  dsimp only
  split_ifs <;> exact ⟨rfl, rfl⟩

end BoomCore
