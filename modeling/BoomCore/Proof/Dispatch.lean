import BoomCore.Model.Step
import BoomCore.Proof.Decode

/-!
# The dispatch path

In every state between steps the issue queue is empty: a renamed uop never waits for an operand,
because both of its busy bits are false, so `issue_module` grants it in the step in which it is
dispatched (`issueModule_of_renamed`). A step therefore takes an instruction from the frontend
through rename, allocation and execution at once. `dispatchPhase_of_none`, `dispatchPhase_of_full`
and `dispatchPhase_of_uop` say what the path from the decoder to `execute_module` does to the state
when no instruction is handed over, when the reorder buffer is full, and when the instruction is
allocated.
-/

set_option autoImplicit false
set_option relaxedAutoImplicit false

namespace BoomCore

/-! ### The issue queue -/

theorem range_issueQueueAluDepth : List.range issueQueueAluDepth = [0, 1, 2, 3, 4, 5, 6, 7] := by
  decide

/-- Dispatching into the empty queue fills slot zero. -/
theorem dispatch_empty {ren : RenameState} (hvalid : ren.renamedValid = true)
    (hiq : ren.renamedUop.iqType ≠ .fpu) :
    IssueQueueState.dispatch {} ren =
      { entries := Function.update (fun _ ↦ {}) 0 (dispatchSlot ren.renamedUop)
        head := 0, tail := 1, count := 1 } := by
  have htype : ren.renamedUop.iqType = .alu ∨ ren.renamedUop.iqType = .mem := by
    cases h : ren.renamedUop.iqType
    · exact Or.inr rfl
    · exact Or.inl rfl
    · exact absurd h hiq
  simp [IssueQueueState.dispatch, hvalid, htype]

/-- A uop whose busy bits are false is granted in the step that dispatches it, and the queue is
empty again. -/
theorem issueModule_of_renamed {s : BoomCoreState} (hqueue : s.issue.aluIq = {})
    (hflush : s.globalFlush = false) (hvalid : s.rename.renamedValid = true)
    (hiq : s.rename.renamedUop.iqType ≠ .fpu)
    (hprs1 : s.rename.renamedUop.rename.prs1Busy = false)
    (hprs2 : s.rename.renamedUop.rename.prs2Busy = false) :
    issueModule s =
      { s with
        issue := { aluIq := {}, issuedUop := s.rename.renamedUop, issuedValid := true } } := by
  unfold issueModule
  rw [hqueue, dispatch_empty hvalid hiq]
  simp [hflush, IssueQueueState.select, range_issueQueueAluDepth, IssueSlotEntry.ready,
    dispatchSlot, hprs1, hprs2, IssueQueueState.grant, IssueQueueState.compact,
    IssueQueueState.remaining]

/-- Without a renamed uop the empty queue stays empty and nothing is issued. -/
theorem issueModule_of_not_renamed {s : BoomCoreState} (hqueue : s.issue.aluIq = {})
    (hflush : s.globalFlush = false) (hvalid : s.rename.renamedValid = false) :
    issueModule s = { s with issue := {} } := by
  unfold issueModule
  rw [hqueue]
  simp [hflush, hvalid, IssueQueueState.dispatch, IssueQueueState.select,
    range_issueQueueAluDepth, IssueSlotEntry.ready, IssueQueueState.compact,
    IssueQueueState.remaining]

/-! ### The uop of an instruction -/

/-- The uop and the rename tables after an instruction is renamed. -/
def renamedInst (s : BoomCoreState) (pc : BitVec 64) (inst : BitVec 32) :
    MicroOp × RenameMapTableState × RenameFreeListState :=
  renameUop (decodeInst pc inst) s.rename.intMapTable s.rename.intFreeList

/-- The uop that enters the reorder buffer for an instruction. -/
def dispatchedUop (s : BoomCoreState) (pc : BitVec 64) (inst : BitVec 32) : MicroOp :=
  (renamedInst s pc inst).1.atRob s.rob.tail

/-- The result of executing the instruction in the step that dispatches it. -/
def dispatchedResult (s : BoomCoreState) (pc : BitVec 64) (inst : BitVec 32) : AluResult :=
  let uop := dispatchedUop s pc inst
  executeUop uop (readOperand s.intRf uop.rename.prs1) (readOperand s.intRf uop.rename.prs2)

/-- Renaming changes nothing but the rename fields. -/
theorem renameUop_eq (uop : MicroOp) (mt : RenameMapTableState) (fl : RenameFreeListState) :
    (renameUop uop mt fl).1 = { uop with rename := (renameUop uop mt fl).1.rename } := by
  unfold renameUop
  dsimp only
  split_ifs <;> rfl

/-- What renaming an instruction does. Both source lookups and the stale destination come from the
map table, neither source is busy, and the destination is the register at the front of the free
list when the instruction writes an integer register and the list is not empty. -/
structure RenameSpec (base uop : MicroOp) (mt mt' : RenameMapTableState)
    (fl fl' : RenameFreeListState) : Prop where
  prs1 : uop.rename.prs1 = mt.mapTable base.rename.lrs1
  prs2 : uop.rename.prs2 = mt.mapTable base.rename.lrs2
  stalePdst : uop.rename.stalePdst = mt.mapTable base.rename.ldst
  prs1Busy : uop.rename.prs1Busy = false
  prs2Busy : uop.rename.prs2Busy = false
  dstRtype : uop.rename.dstRtype = base.rename.dstRtype
  lrs1 : uop.rename.lrs1 = base.rename.lrs1
  lrs2 : uop.rename.lrs2 = base.rename.lrs2
  committed : mt'.committedMapTable = mt.committedMapTable
  noDst : base.writesInt = false →
    uop.rename.pdst = 0 ∧ uop.rename.ldst = 0 ∧ mt' = mt ∧ fl' = fl
  dst : base.writesInt = true →
    uop.rename.ldst = base.rename.ldst ∧
      (0 < fl.count → uop.rename.pdst = fl.front ∧
        mt'.mapTable = Function.update mt.mapTable base.rename.ldst fl.front ∧ fl' = fl.pop) ∧
      (fl.count = 0 → uop.rename.pdst = base.rename.pdst ∧ mt' = mt ∧ fl' = fl)

theorem renameUop_spec (uop : MicroOp) (mt : RenameMapTableState) (fl : RenameFreeListState) :
    RenameSpec uop (renameUop uop mt fl).1 mt (renameUop uop mt fl).2.1 fl
      (renameUop uop mt fl).2.2 := by
  have hwrites : (uop.renameSources mt.mapTable).writesInt = uop.writesInt := rfl
  unfold renameUop
  dsimp only
  rw [hwrites]
  by_cases hdst : uop.writesInt = true
  · by_cases hcount : 0 < fl.count
    · rw [if_pos hdst, if_pos hcount]
      constructor <;> simp_all [MicroOp.renameSources]
      omega
    · rw [if_pos hdst, if_neg hcount]
      constructor <;> simp_all [MicroOp.renameSources]
  · rw [if_neg hdst]
    constructor <;> simp_all [MicroOp.renameSources]

/-- The rename fields of a decoded uop are the register fields of the word. -/
theorem decodeInst_rename (pc : BitVec 64) (inst : BitVec 32) :
    (decodeInst pc inst).rename =
      { lrs1 := rs1Of inst, lrs2 := rs2Of inst, ldst := rdOf inst
        dstRtype := (decodeInst pc inst).rename.dstRtype } :=
  (decodeInst_spec pc inst).rename

theorem renamedInst_spec (s : BoomCoreState) (pc : BitVec 64) (inst : BitVec 32) :
    RenameSpec (decodeInst pc inst) (renamedInst s pc inst).1 s.rename.intMapTable
      (renamedInst s pc inst).2.1 s.rename.intFreeList (renamedInst s pc inst).2.2 :=
  renameUop_spec _ _ _

theorem renamedInst_uop (s : BoomCoreState) (pc : BitVec 64) (inst : BitVec 32) :
    (renamedInst s pc inst).1 =
      { decodeInst pc inst with rename := (renamedInst s pc inst).1.rename } :=
  renameUop_eq _ _ _

/-! ### The path as a whole -/

@[simp] theorem wake_entries (rob : RobInternalState) : rob.wake.entries = rob.entries := rfl
@[simp] theorem wake_head (rob : RobInternalState) : rob.wake.head = rob.head := rfl
@[simp] theorem wake_tail (rob : RobInternalState) : rob.wake.tail = rob.tail := rfl
@[simp] theorem wake_maybeFull (rob : RobInternalState) : rob.wake.maybeFull = rob.maybeFull := rfl
@[simp] theorem wake_isFull (rob : RobInternalState) : rob.wake.isFull = rob.isFull := rfl

section Path

variable {s : BoomCoreState}

/-- The frontend hands nothing over: the map table is restored after a redirect, and nothing is
allocated or executed. -/
theorem dispatchPhase_of_none (hqueue : s.issue.aluIq = {}) (hflush : s.globalFlush = false)
    (hpacket : s.frontend.fetchPacketValid = false) :
    dispatchPhase s =
      { s with
        decode := { s.decode with decValid := false }
        rename :=
          { intMapTable :=
              if s.brupdate.valid && s.brupdate.mispredict then s.rename.intMapTable.restore
              else s.rename.intMapTable
            intFreeList := s.rename.intFreeList }
        rob := s.rob.wake, issue := {}, execute := {} } := by
  have hdecode : decodeModule s = { s with decode := { s.decode with decValid := false } } := by
    simp [decodeModule, hpacket]
  unfold dispatchPhase
  rw [hdecode]
  simp only [renameModule, hflush, Bool.false_eq_true, if_false, robAllocate, Bool.not_false,
    Bool.or_true, if_true]
  rw [issueModule_of_not_renamed] <;> simp [executeModule, hqueue]

variable (hqueue : s.issue.aluIq = {}) (hflush : s.globalFlush = false)
  (hpacket : s.frontend.fetchPacketValid = true)
  (hredirect : (s.brupdate.valid && s.brupdate.mispredict) = false)

include hflush hpacket hredirect

/-- Decode and rename of an instruction that is handed over. -/
theorem renameModule_decodeModule_of_packet :
    renameModule (decodeModule s) =
      let renamed := renamedInst s s.frontend.fetchUop.debugPc s.frontend.fetchUop.inst
      { s with
        decode :=
          { decUop := decodeInst s.frontend.fetchUop.debugPc s.frontend.fetchUop.inst
            decValid := true }
        rename :=
          { renamedUop := renamed.1, renamedValid := true
            intMapTable := renamed.2.1, intFreeList := renamed.2.2 } } := by
  have hdecode : decodeModule s =
      { s with
        decode :=
          { decUop := decodeInst s.frontend.fetchUop.debugPc s.frontend.fetchUop.inst
            decValid := true } } := by
    simp [decodeModule, hpacket, hflush]
  rw [hdecode]
  simp [renameModule, hflush, hredirect, renamedInst]

include hqueue

/-- The reorder buffer is full: the instruction has been renamed, and is dropped. -/
theorem dispatchPhase_of_full (hfull : s.rob.isFull = true) :
    dispatchPhase s =
      let renamed := renamedInst s s.frontend.fetchUop.debugPc s.frontend.fetchUop.inst
      { s with
        decode :=
          { decUop := decodeInst s.frontend.fetchUop.debugPc s.frontend.fetchUop.inst
            decValid := true }
        rename :=
          { renamedUop := renamed.1, renamedValid := false
            intMapTable := renamed.2.1, intFreeList := renamed.2.2 }
        rob := s.rob.wake, issue := {}, execute := {} } := by
  unfold dispatchPhase
  rw [renameModule_decodeModule_of_packet hflush hpacket hredirect]
  simp only [robAllocate, hflush, Bool.not_true, Bool.or_self, Bool.false_eq_true, if_false,
    wake_isFull, hfull, if_true]
  rw [issueModule_of_not_renamed] <;> simp [executeModule, hqueue]

/-- The instruction is allocated at the tail, issued and executed in one step. -/
theorem dispatchPhase_of_uop (hfull : s.rob.isFull = false) :
    dispatchPhase s =
      let pc := s.frontend.fetchUop.debugPc
      let inst := s.frontend.fetchUop.inst
      { s with
        decode := { decUop := decodeInst pc inst, decValid := true }
        rename :=
          { renamedUop := dispatchedUop s pc inst, renamedValid := true
            intMapTable := (renamedInst s pc inst).2.1
            intFreeList := (renamedInst s pc inst).2.2 }
        rob := s.rob.wake.allocate (renamedInst s pc inst).1
        issue := { aluIq := {}, issuedUop := dispatchedUop s pc inst, issuedValid := true }
        execute := { aluResult := dispatchedResult s pc inst }
        intRf := writeBack s.intRf (dispatchedResult s pc inst) } := by
  have hspec := decodeInst_spec s.frontend.fetchUop.debugPc s.frontend.fetchUop.inst
  have hren := renamedInst_spec s s.frontend.fetchUop.debugPc s.frontend.fetchUop.inst
  have huop := renamedInst_uop s s.frontend.fetchUop.debugPc s.frontend.fetchUop.inst
  have hnop : (renamedInst s s.frontend.fetchUop.debugPc s.frontend.fetchUop.inst).1.uopc ≠
      .nop := by
    rw [huop]
    exact hspec.uopc
  have hiq : (renamedInst s s.frontend.fetchUop.debugPc s.frontend.fetchUop.inst).1.iqType ≠
      .fpu := by
    rw [huop]
    exact hspec.iqType
  unfold dispatchPhase
  rw [renameModule_decodeModule_of_packet hflush hpacket hredirect]
  simp only [robAllocate, hflush, Bool.not_true, Bool.or_self, Bool.false_eq_true, if_false,
    wake_isFull, hfull, hnop]
  rw [issueModule_of_renamed]
  · rfl
  · exact hqueue
  · rfl
  · rfl
  · exact hiq
  · exact hren.prs1Busy
  · exact hren.prs2Busy

end Path

end BoomCore
