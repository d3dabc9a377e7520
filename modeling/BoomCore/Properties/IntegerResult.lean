import BoomCore.Proof.Integer

/-!
# When an integer instruction computes the result of the instruction set

The result that `execute_module` leaves for an encoded instruction against the value that the
instruction set gives its destination. Of the 22 instructions 17 always compute it. `SLTIU` compares
with the second source register in place of the immediate, `SRLI` by more than 31 is decoded as
`SRAI`, `LUI` and `AUIPC` extend their immediate by zeros, and `MUL` multiplies lower halves.
-/

set_option autoImplicit false
set_option relaxedAutoImplicit false

namespace BoomCore

open Rv64 SignExtension

/-! ### Decoding and executing a word -/

/-- The state `s` with the word `inst` from `pc` handed over by the frontend. -/
def BoomCoreState.withPacket (s : BoomCoreState) (pc : BitVec 64) (inst : BitVec 32) :
    BoomCoreState :=
  { s with
    globalFlush := false
    frontend := { s.frontend with
      fetchPacketValid := true, fetchUop := { debugPc := pc, inst := inst } } }

theorem decUop_withPacket (s : BoomCoreState) (pc : BitVec 64) (inst : BitVec 32) :
    (decodeModule (s.withPacket pc inst)).decode.decUop = decodeInst pc inst := by
  unfold decodeModule BoomCoreState.withPacket
  rw [if_neg (by simp)]

/-- `decode_module` for a word, the renaming of its uop against the tables of `s`, and
`execute_module` for the renamed uop on the registers of `s`. -/
def executedResult (s : BoomCoreState) (pc : BitVec 64) (inst : BitVec 32) : AluResult :=
  let decoded := decodeModule (s.withPacket pc inst)
  let renamed := renameUop decoded.decode.decUop s.rename.intMapTable s.rename.intFreeList
  (executeModule { decoded with
    issue := { decoded.issue with issuedUop := renamed.1, issuedValid := true } }).execute.aluResult

/-- The index in the reorder buffer matters for nothing but the uop of the result. -/
theorem executeUop_atRob (uop : MicroOp) (i : ℕ) (rs1 rs2 : BitVec 64) :
    executeUop (uop.atRob i) rs1 rs2 = { executeUop uop rs1 rs2 with uop := uop.atRob i } := rfl

theorem executedResult_eq (s : BoomCoreState) (pc : BitVec 64) (inst : BitVec 32) :
    executedResult s pc inst =
      executeUop (renamedInst s pc inst).1
        (readOperand s.intRf (renamedInst s pc inst).1.rename.prs1)
        (readOperand s.intRf (renamedInst s pc inst).1.rename.prs2) := by
  have hregisters : (decodeModule (s.withPacket pc inst)).intRf = s.intRf := rfl
  unfold executedResult executeModule renamedInst
  dsimp only
  rw [if_pos rfl, decUop_withPacket, hregisters]

/-- The result is the one of the step that takes the instruction, but for the index in the reorder
buffer. -/
theorem dispatchedResult_eq_executed (s : BoomCoreState) (pc : BitVec 64) (inst : BitVec 32) :
    dispatchedResult s pc inst =
      { executedResult s pc inst with uop := (renamedInst s pc inst).1.atRob s.rob.tail } := by
  unfold dispatchedResult dispatchedUop
  dsimp only
  rw [executeUop_atRob, executedResult_eq]
  rfl

theorem executedResult_result (s : BoomCoreState) (pc : BitVec 64) (inst : BitVec 32) :
    (executedResult s pc inst).result = (dispatchedResult s pc inst).result := by
  rw [dispatchedResult_eq_executed]

/-! ### The operands without a defect -/

/-- The operands, in the registers `x` or the instruction, on which the core computes what the
instruction set says: for `MUL` the cross terms of the upper halves vanish, for `SLTIU` the source
is below both the register that the immediate names and the extended immediate or below neither, a
source of `SRLI` by more than 31 is not negative, and neither is an upper immediate. -/
def OperandsExact (x : BitVec 5 → BitVec 64) : Instr → Prop
  | .op .mul _ rs1 rs2 =>
    upperRest (w := 32) (x rs1) * (x rs2).setWidth 32 +
      (x rs1).setWidth 32 * upperRest (w := 32) (x rs2) = 0
  | .opImm .sltiu _ rs1 imm => x rs1 < x (imm.setWidth 5) ↔ x rs1 < imm.signExtend 64
  | .opShift .srli _ rs1 shamt => 32 ≤ shamt.toNat → (x rs1).msb = false
  | .lui _ imm | .auipc _ imm => imm.msb = false
  | _ => True

section

variable (s : BoomCoreState) (pc : BitVec 64) (rd rs1 rs2 : BitVec 5)

theorem result_op_iff (f : RegOp) :
    (dispatchedResult s pc (Instr.op f rd rs1 rs2).encode).result =
        f.value (s.readReg rs1) (s.readReg rs2) ↔
      OperandsExact s.readReg (.op f rd rs1 rs2) := by
  rw [result_op]
  cases f with
  | mul =>
    rw [if_pos rfl]
    exact mul_signedLower_iff (w := 32) _ _
  | _ => exact iff_of_true (if_neg (by decide)) trivial

theorem result_opImm_iff (f : ImmOp) (imm : BitVec 12) :
    (dispatchedResult s pc (Instr.opImm f rd rs1 imm).encode).result =
        f.value (s.readReg rs1) imm ↔
      OperandsExact s.readReg (.opImm f rd rs1 imm) := by
  rw [result_opImm]
  cases f with
  | sltiu =>
    rw [if_pos rfl]
    show (_ = if (s.readReg rs1).ult (imm.signExtend 64) then 1 else 0) ↔
      (s.readReg rs1 < s.readReg (imm.setWidth 5) ↔ s.readReg rs1 < imm.signExtend 64)
    simp only [BitVec.ult_iff_lt]
    by_cases hreg : s.readReg rs1 < s.readReg (imm.setWidth 5) <;>
      by_cases himm : s.readReg rs1 < imm.signExtend 64 <;> simp [hreg, himm]
  | _ => exact iff_of_true (if_neg (by decide)) trivial

theorem result_opShift_iff (f : ShiftOp) (shamt : BitVec 6) :
    (dispatchedResult s pc (Instr.opShift f rd rs1 shamt).encode).result =
        f.value (s.readReg rs1) shamt ↔
      OperandsExact s.readReg (.opShift f rd rs1 shamt) := by
  rw [result_opShift]
  cases f with
  | srli =>
    show _ ↔ (32 ≤ shamt.toNat → (s.readReg rs1).msb = false)
    by_cases hshamt : shamt.toNat < 32
    · rw [if_neg fun hcontra ↦ hcontra.2 hshamt]
      exact iff_of_true rfl fun hle ↦ absurd hshamt (Nat.not_lt_of_le hle)
    · have hle : 32 ≤ shamt.toNat := Nat.le_of_not_lt hshamt
      rw [if_pos ⟨rfl, hshamt⟩]
      exact (sshiftRight_eq_ushiftRight_iff _ (by omega)).trans ⟨fun h _ ↦ h, fun h ↦ h hle⟩
  | _ => exact iff_of_true (if_neg fun hcontra ↦ absurd hcontra.1 (by decide)) trivial

/-- The two extensions of an upper immediate agree without sign bit. -/
theorem upperImm_extend_iff (imm : BitVec 20) :
    (Instr.upperImm imm).setWidth 64 = (Instr.upperImm imm).signExtend 64 ↔ imm.msb = false := by
  have hmsb : (Instr.upperImm imm).msb = imm.msb := by
    unfold Instr.upperImm
    rw [BitVec.msb_append]
    simp
  rw [eq_comm, signExtend_eq_setWidth_iff _ (by decide), hmsb]

/-- The core computes the result of the instruction set exactly on the operands for which no
extension, width or operand is mistaken. -/
theorem result_eq_value_iff (i : Instr) :
    (executedResult s pc i.encode).result = i.value s.readReg pc ↔ OperandsExact s.readReg i := by
  rw [executedResult_result]
  cases i with
  | op f rd rs1 rs2 => exact result_op_iff s pc rd rs1 rs2 f
  | opImm f rd rs1 imm => exact result_opImm_iff s pc rd rs1 f imm
  | opShift f rd rs1 shamt => exact result_opShift_iff s pc rd rs1 f shamt
  | lui rd imm =>
    rw [result_lui]
    exact upperImm_extend_iff imm
  | auipc rd imm =>
    rw [result_auipc]
    exact add_right_inj pc |>.trans (upperImm_extend_iff imm)

end

/-- `lui x1, 0x80000` leaves the upper half of its destination clear. -/
theorem lui_not_signExtended :
    ¬∀ (s : BoomCoreState) (pc : BitVec 64) (i : Instr),
      (executedResult s pc i.encode).result = i.value s.readReg pc := by
  intro hall
  have hlui := hall {} resetVector (.lui 1 0x80000)
  rw [executedResult_result, result_lui] at hlui
  exact absurd hlui (by decide)

end BoomCore
