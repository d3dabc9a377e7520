import BoomCore.Proof.Departure
import BoomCore.Proof.Integer

/-!
# The results of the control transfers

What `execute_module` computes for `JAL`, `JALR` and the conditional branches, on any state
(`transfersTo_dispatched`), and which state and register contents an accepted instruction is
executed on (`executed_of_accepted`).
-/

set_option autoImplicit false
set_option relaxedAutoImplicit false

namespace BoomCore

open Rv64 SignExtension

/-! ### One instruction -/

/-- The result `r` of the transfer `i` at `pc` on the registers `x`. A transfer raises no exception,
wherever it goes. -/
structure TransfersTo (i : Transfer) (x : BitVec 5 → BitVec 64) (pc : BitVec 64) (r : AluResult) :
    Prop where
  link : i.links = true → r.result = pc + 4
  taken : r.redirects = i.taken x
  target : i.taken x = true → r.redirectPc = i.target x pc
  exception : r.exception = false

section

variable (s : BoomCoreState) (pc : BitVec 64) (rd rs1 rs2 : BitVec 5)

theorem decodeInst_jal (imm : BitVec 20) :
    decodeInst pc (Transfer.jal rd imm).encode =
      (decodeFields pc (Transfer.jal rd imm).encode).decodeJal := by
  have hop : opcodeOf (decodeFields pc (Transfer.jal rd imm).encode).inst = 0x6F :=
    opcodeOf_uType _ _ _
  rw [decodeInst_eq_switch]
  unfold decodeSwitch
  rw [hop]
  rfl

theorem decodeInst_jalr (imm : BitVec 12) :
    decodeInst pc (Transfer.jalr rd rs1 imm).encode =
      (decodeFields pc (Transfer.jalr rd rs1 imm).encode).decodeJalr := by
  have hop : opcodeOf (decodeFields pc (Transfer.jalr rd rs1 imm).encode).inst = 0x67 :=
    opcodeOf_iType _ _ _ _ _
  rw [decodeInst_eq_switch]
  unfold decodeSwitch
  rw [hop]
  rfl

theorem decodeInst_branch (f : BranchOp) (imm : BitVec 12) :
    decodeInst pc (Transfer.branch f rs1 rs2 imm).encode =
      (decodeFields pc (Transfer.branch f rs1 rs2 imm).encode).decodeBranch := by
  have hop : opcodeOf (decodeFields pc (Transfer.branch f rs1 rs2 imm).encode).inst = 0x63 :=
    opcodeOf_iType _ _ _ _ _
  rw [decodeInst_eq_switch]
  unfold decodeSwitch
  rw [hop]
  rfl

theorem jal_transfersTo (imm : BitVec 20) :
    TransfersTo (.jal rd imm) s.readReg pc
      (dispatchedResult s pc (Transfer.jal rd imm).encode) := by
  have himm : extractImmJ (Transfer.jal rd imm).encode = (imm ++ 0#1).signExtend 32 :=
    extractImmJ_jType imm rd _
  have hredirects := dispatchedResult_redirects s pc (Transfer.jal rd imm).encode
  rw [dispatchedResult_eq_switch, decodeInst_jal] at *
  refine ⟨fun _ ↦ rfl, hredirects, fun _ ↦ ?_, rfl⟩
  show pc + (extractImmJ (Transfer.jal rd imm).encode).signExtend 64 = pc + Transfer.offset imm
  rw [himm, signExtend_signExtend _ (by decide) (by decide)]
  rfl

theorem jalr_transfersTo (imm : BitVec 12) :
    TransfersTo (.jalr rd rs1 imm) s.readReg pc
      (dispatchedResult s pc (Transfer.jalr rd rs1 imm).encode) := by
  have himm : extractImmI (Transfer.jalr rd rs1 imm).encode = imm.signExtend 32 :=
    extractImmI_iType _ _ _ _ _
  have hrs1 : rs1Of (Transfer.jalr rd rs1 imm).encode = rs1.toNat := rs1Of_iType _ _ _ _ _
  have hredirects := dispatchedResult_redirects s pc (Transfer.jalr rd rs1 imm).encode
  rw [dispatchedResult_eq_switch, decodeInst_jalr] at *
  refine ⟨fun _ ↦ rfl, hredirects, fun _ ↦ ?_, rfl⟩
  show (readOperand s.intRf (s.rename.intMapTable.mapTable
    (rs1Of (Transfer.jalr rd rs1 imm).encode)) +
      (extractImmI (Transfer.jalr rd rs1 imm).encode).signExtend 64) &&& ~~~1#64 = _
  rw [himm, hrs1, signExtend_signExtend _ (by decide) (by decide)]
  rfl

/-- The uop code of a conditional branch. -/
def branchUopc : BranchOp → Uopc
  | .beq => .beq
  | .bne => .bne
  | .blt => .blt
  | .bge => .bge
  | .bltu => .bltu
  | .bgeu => .bgeu

theorem decodeBranch_of_funct3 (uop : MicroOp) {f : BranchOp}
    (hf3 : funct3Of uop.inst = f.funct3.toNat) :
    uop.decodeBranch.uopc = branchUopc f ∧ uop.decodeBranch.debugPc = uop.debugPc ∧
      uop.decodeBranch.immPacked = extractImmB uop.inst ∧
      uop.decodeBranch.exception = uop.exception := by
  unfold MicroOp.decodeBranch
  rw [hf3]
  cases f <;> exact ⟨rfl, rfl, rfl, rfl⟩

/-- The six comparisons are those of the instruction set. -/
theorem executeSwitch_branch {uop : MicroOp} {f : BranchOp} (huopc : uop.uopc = branchUopc f)
    (a b : BitVec 64) : uop.executeSwitch a b = uop.branchResult (f.holds a b) := by
  unfold MicroOp.executeSwitch
  rw [huopc]
  cases f with
  | beq => rfl
  | bne => exact congrArg uop.branchResult (decide_not.trans rfl)
  | blt => rfl
  | bge => exact congrArg uop.branchResult BitVec.sle_eq_not_slt.symm
  | bltu => rfl
  | bgeu => exact congrArg uop.branchResult (BitVec.ule_eq_not_ult b a).symm

theorem branch_transfersTo (f : BranchOp) (imm : BitVec 12) :
    TransfersTo (.branch f rs1 rs2 imm) s.readReg pc
      (dispatchedResult s pc (Transfer.branch f rs1 rs2 imm).encode) := by
  have hf3 : funct3Of (decodeFields pc (Transfer.branch f rs1 rs2 imm).encode).inst =
      f.funct3.toNat := funct3Of_iType _ _ _ _ _
  have hrs1 : rs1Of (Transfer.branch f rs1 rs2 imm).encode = rs1.toNat := rs1Of_iType _ _ _ _ _
  have hlt := rs2.isLt
  have hrs2 : rs2Of (Transfer.branch f rs1 rs2 imm).encode = rs2.toNat := by
    refine (rs2Of_iType _ _ _ _ _).trans ?_
    rw [toNat_append]
    omega
  have himm : extractImmB (decodeFields pc (Transfer.branch f rs1 rs2 imm).encode).inst =
      (imm ++ 0#1).signExtend 32 := extractImmB_bType _ _ _ _ _
  have hredirects := dispatchedResult_redirects s pc (Transfer.branch f rs1 rs2 imm).encode
  obtain ⟨huopc, hpc, hpacked, hexc⟩ := decodeBranch_of_funct3 _ hf3
  rw [dispatchedResult_eq_switch, decodeInst_branch, executeSwitch_branch huopc, hrs1, hrs2] at *
  refine ⟨fun hlink ↦ absurd hlink Bool.false_ne_true, hredirects, fun _ ↦ ?_, hexc⟩
  show _ + (MicroOp.immPacked _).signExtend 64 = pc + Transfer.offset imm
  rw [hpc, hpacked, himm, signExtend_signExtend _ (by decide) (by decide)]
  rfl

/-- Every control transfer computes the link, the decision and the target of the instruction set. -/
theorem transfersTo_dispatched (i : Transfer) :
    TransfersTo i s.readReg pc (dispatchedResult s pc i.encode) := by
  cases i with
  | jal rd imm => exact jal_transfersTo s pc rd imm
  | jalr rd rs1 imm => exact jalr_transfersTo s pc rd rs1 imm
  | branch f rs1 rs2 imm => exact branch_transfersTo s pc rs1 rs2 f imm

end

end BoomCore
