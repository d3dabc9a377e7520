import BoomCore.Proof.Dispatch
import BoomCore.Proof.Encoding

/-!
# The results of the integer instructions

For every integer instruction of RV64 that is encoded in a word, the uop that `decode_module` makes
of the word (`decodeInst_op` and its siblings) and the result that `execute_module` computes from it
(`result_op` and its siblings). The results are those of the instruction set with four exceptions,
for which they are stated as the code computes them.
-/

set_option autoImplicit false
set_option relaxedAutoImplicit false

namespace BoomCore

open Rv64 SignExtension

/-! ### Operands -/

/-- The value of an architectural register, read through the rename map. -/
def BoomCoreState.readReg (s : BoomCoreState) (r : BitVec 5) : BitVec 64 :=
  readOperand s.intRf (s.rename.intMapTable.mapTable r.toNat)

/-- An instruction is executed as its decoded uop on the registers that the two source fields of the
word name. -/
theorem dispatchedResult_eq_switch (s : BoomCoreState) (pc : BitVec 64) (inst : BitVec 32) :
    dispatchedResult s pc inst =
      { (decodeInst pc inst).executeSwitch
          (readOperand s.intRf (s.rename.intMapTable.mapTable (rs1Of inst)))
          (readOperand s.intRf (s.rename.intMapTable.mapTable (rs2Of inst))) with
        valid := true, uop := dispatchedUop s pc inst
        exception := (decodeInst pc inst).exception
        excCause :=
          if (decodeInst pc inst).exception then (decodeInst pc inst).excCause else 0 } := by
  have hspec := renamedInst_spec s pc inst
  have hsources := decodeInst_rename pc inst
  have hprs1 : (dispatchedUop s pc inst).rename.prs1 =
      s.rename.intMapTable.mapTable (rs1Of inst) := by
    show (renamedInst s pc inst).1.rename.prs1 = _
    rw [hspec.prs1, hsources]
  have hprs2 : (dispatchedUop s pc inst).rename.prs2 =
      s.rename.intMapTable.mapTable (rs2Of inst) := by
    show (renamedInst s pc inst).1.rename.prs2 = _
    rw [hspec.prs2, hsources]
  unfold dispatchedResult executeUop
  dsimp only
  rw [hprs1, hprs2]
  unfold dispatchedUop MicroOp.atRob
  rw [renamedInst_uop]
  rfl

theorem dispatchedResult_result (s : BoomCoreState) (pc : BitVec 64) (inst : BitVec 32) :
    (dispatchedResult s pc inst).result =
      ((decodeInst pc inst).executeSwitch
        (readOperand s.intRf (s.rename.intMapTable.mapTable (rs1Of inst)))
        (readOperand s.intRf (s.rename.intMapTable.mapTable (rs2Of inst)))).result := by
  rw [dispatchedResult_eq_switch]

/-- The six low bits of a word as a shift amount. -/
theorem toNat_and_shamt (v : BitVec 64) : (v &&& 0x3F#64).toNat = (v.setWidth 6).toNat := by
  rw [BitVec.toNat_and, BitVec.toNat_setWidth, ← Nat.and_two_pow_sub_one_eq_mod]
  rfl

section Instr

variable (s : BoomCoreState) (pc : BitVec 64) (rd rs1 rs2 : BitVec 5)

/-! ### Operations on two registers -/

section RegOp

/-- The uop code of a register operation. -/
def regUopc : RegOp → Uopc
  | .add => .add
  | .sub => .sub
  | .sll => .sll
  | .slt => .slt
  | .sltu => .sltu
  | .xor => .xor
  | .srl => .srl
  | .sra => .sra
  | .or => .or
  | .and => .and
  | .mul => .mul

theorem decodeOp_of_fields (uop : MicroOp) {f : RegOp} (hf3 : funct3Of uop.inst = f.funct3.toNat)
    (hf7 : funct7Of uop.inst = f.funct7.toNat) :
    uop.decodeOp.uopc = regUopc f ∧ uop.decodeOp.ctrl.op1Sel = .rs1 ∧
      uop.decodeOp.ctrl.op2Sel = .rs2 := by
  unfold MicroOp.decodeOp
  rw [hf7, hf3]
  cases f <;> exact ⟨rfl, rfl, rfl⟩

variable (f : RegOp)

theorem decodeInst_op :
    decodeInst pc (Instr.op f rd rs1 rs2).encode =
      (decodeFields pc (Instr.op f rd rs1 rs2).encode).decodeOp := by
  have hop : opcodeOf (decodeFields pc (Instr.op f rd rs1 rs2).encode).inst = 0x33 :=
    opcodeOf_iType _ _ _ _ _
  rw [decodeInst_eq_switch]
  unfold decodeSwitch
  rw [hop]
  rfl

/-- The result of a register operation is that of the instruction set, except that `MUL` multiplies
the signed lower halves of its sources. -/
theorem result_op :
    (dispatchedResult s pc (Instr.op f rd rs1 rs2).encode).result =
      if f = .mul then signedLower (w := 32) (s.readReg rs1) * signedLower (w := 32) (s.readReg rs2)
      else f.value (s.readReg rs1) (s.readReg rs2) := by
  have hf3 : funct3Of (Instr.op f rd rs1 rs2).encode = f.funct3.toNat := funct3Of_iType _ _ _ _ _
  have hrs1 : rs1Of (Instr.op f rd rs1 rs2).encode = rs1.toNat := rs1Of_iType _ _ _ _ _
  have hlt := rs2.isLt
  have hrs2 : rs2Of (Instr.op f rd rs1 rs2).encode = rs2.toNat := by
    refine (rs2Of_iType _ _ _ _ _).trans ?_
    rw [toNat_append]
    omega
  have hf7 : funct7Of (Instr.op f rd rs1 rs2).encode = f.funct7.toNat := by
    refine (funct7Of_iType _ _ _ _ _).trans ?_
    rw [toNat_append]
    omega
  obtain ⟨huopc, hop1, hop2⟩ :=
    decodeOp_of_fields (decodeFields pc (Instr.op f rd rs1 rs2).encode) hf3 hf7
  rw [dispatchedResult_result, hrs1, hrs2, decodeInst_op]
  unfold MicroOp.executeSwitch MicroOp.shamt6 MicroOp.op1 MicroOp.op2
  rw [huopc, hop1, hop2, toNat_and_shamt]
  cases f <;> rfl

end RegOp

/-! ### Operations on an immediate -/

section ImmOp

/-- The uop code of an immediate operation. -/
def immUopc : ImmOp → Uopc
  | .addi => .addi
  | .slti => .slti
  | .sltiu => .sltiu
  | .xori => .xori
  | .ori => .ori
  | .andi => .andi

theorem decodeOpImm_of_fields (uop : MicroOp) {f : ImmOp}
    (hf3 : funct3Of uop.inst = f.funct3.toNat) :
    uop.decodeOpImm.uopc = immUopc f ∧ uop.decodeOpImm.ctrl.op1Sel = .rs1 ∧
      uop.decodeOpImm.ctrl.op2Sel = .imm ∧ uop.decodeOpImm.immPacked = extractImmI uop.inst := by
  unfold MicroOp.decodeOpImm
  rw [hf3]
  cases f <;> exact ⟨rfl, rfl, rfl, rfl⟩

/-- Every word of the immediate format with this opcode goes to one arm of the switch. The second
source is the register that the low bits of the immediate name. -/
theorem result_iType (imm : BitVec 12) (funct3 : BitVec 3) :
    (dispatchedResult s pc (iType imm rs1 funct3 rd 0b0010011#7)).result =
      ((decodeFields pc (iType imm rs1 funct3 rd 0b0010011#7)).decodeOpImm.executeSwitch
        (s.readReg rs1) (s.readReg (imm.setWidth 5))).result := by
  have hop : opcodeOf (decodeFields pc (iType imm rs1 funct3 rd 0b0010011#7)).inst = 0x13 :=
    opcodeOf_iType _ _ _ _ _
  have hrs2 : rs2Of (iType imm rs1 funct3 rd 0b0010011#7) = (imm.setWidth 5).toNat :=
    (rs2Of_iType _ _ _ _ _).trans (BitVec.toNat_setWidth 5 imm).symm
  rw [dispatchedResult_result, rs1Of_iType, hrs2, decodeInst_eq_switch]
  unfold decodeSwitch
  rw [hop]
  rfl

/-- The result of an immediate operation is that of the instruction set, except that `SLTIU`
compares with the register that the low bits of the immediate name. -/
theorem result_opImm (f : ImmOp) (imm : BitVec 12) :
    (dispatchedResult s pc (Instr.opImm f rd rs1 imm).encode).result =
      if f = .sltiu then
        if (s.readReg rs1).ult (s.readReg (imm.setWidth 5)) then 1 else 0
      else f.value (s.readReg rs1) imm := by
  obtain ⟨huopc, hop1, hop2, hpacked⟩ :=
    decodeOpImm_of_fields (decodeFields pc (iType imm rs1 f.funct3 rd 0b0010011#7))
      (funct3Of_iType _ _ _ _ _)
  have himm : extractImmI (decodeFields pc (iType imm rs1 f.funct3 rd 0b0010011#7)).inst =
      imm.signExtend 32 := extractImmI_iType _ _ _ _ _
  unfold Instr.encode
  rw [result_iType]
  unfold MicroOp.executeSwitch MicroOp.op1 MicroOp.op2 MicroOp.immSext
  rw [huopc, hop1, hop2, hpacked, himm, signExtend_signExtend _ (by decide) (by decide)]
  cases f <;> rfl

end ImmOp

/-! ### Shifts by an immediate amount -/

section ShiftOp

/-- The uop code of a shift. `SRLI` is told from `SRAI` by seven bits of the word, of which the last
is the highest one of the amount. -/
def shiftUopc (shamt : BitVec 6) : ShiftOp → Uopc
  | .slli => .slli
  | .srli => if shamt.toNat < 32 then .srli else .srai
  | .srai => .srai

theorem decodeOpImm_of_shift (uop : MicroOp) {f : ShiftOp} {shamt : BitVec 6}
    (hf3 : funct3Of uop.inst = f.funct3.toNat)
    (hf7 : funct7Of uop.inst = f.funct6.toNat * 2 + shamt.toNat / 32) :
    uop.decodeOpImm.uopc = shiftUopc shamt f ∧ uop.decodeOpImm.ctrl.op1Sel = .rs1 ∧
      uop.decodeOpImm.ctrl.op2Sel = .imm ∧ uop.decodeOpImm.immPacked = extractImmI uop.inst := by
  unfold MicroOp.decodeOpImm shiftUopc
  rw [hf3, hf7]
  cases f with
  | slli => exact ⟨rfl, rfl, rfl, rfl⟩
  | srli =>
    refine ⟨?_, rfl, rfl, rfl⟩
    show (if 0 * 2 + shamt.toNat / 32 = 0 then Uopc.srli else Uopc.srai) = _
    by_cases hshamt : shamt.toNat < 32
    · rw [if_pos (by omega)]
      exact (if_pos hshamt).symm
    · rw [if_neg (by omega)]
      exact (if_neg hshamt).symm
  | srai =>
    refine ⟨?_, rfl, rfl, rfl⟩
    show (if 16 * 2 + shamt.toNat / 32 = 0 then Uopc.srli else Uopc.srai) = _
    rw [if_neg (by omega)]

/-- The amount of a shift, as `execute_module` takes it from the packed immediate. -/
theorem toNat_packed_shamt (funct6 shamt : BitVec 6) :
    ((((funct6 ++ shamt : BitVec 12).signExtend 32).signExtend 64).setWidth 6).toNat =
      shamt.toNat := by
  rw [signExtend_signExtend _ (by decide) (by decide),
    setWidth_signExtend _ (by decide) (by decide), BitVec.setWidth_append_eq_right]

/-- The result of a shift is that of the instruction set, except that `SRLI` by more than 31 shifts
arithmetically. -/
theorem result_opShift (f : ShiftOp) (shamt : BitVec 6) :
    (dispatchedResult s pc (Instr.opShift f rd rs1 shamt).encode).result =
      if f = .srli ∧ ¬shamt.toNat < 32 then (s.readReg rs1).sshiftRight shamt.toNat
      else f.value (s.readReg rs1) shamt := by
  have hlt := shamt.isLt
  have hf7 : funct7Of (iType (f.funct6 ++ shamt) rs1 f.funct3 rd 0b0010011#7) =
      f.funct6.toNat * 2 + shamt.toNat / 32 := by
    rw [funct7Of_iType, toNat_append]
    omega
  obtain ⟨huopc, hop1, hop2, hpacked⟩ :=
    decodeOpImm_of_shift (decodeFields pc (iType (f.funct6 ++ shamt) rs1 f.funct3 rd 0b0010011#7))
      (funct3Of_iType _ _ _ _ _) hf7
  have himm : extractImmI
      (decodeFields pc (iType (f.funct6 ++ shamt) rs1 f.funct3 rd 0b0010011#7)).inst =
      (f.funct6 ++ shamt : BitVec 12).signExtend 32 := extractImmI_iType _ _ _ _ _
  unfold Instr.encode
  rw [result_iType]
  unfold MicroOp.executeSwitch MicroOp.shamt6 MicroOp.op1 MicroOp.op2 MicroOp.immSext
  rw [huopc, hop1, hop2, hpacked, himm]
  dsimp only
  rw [toNat_and_shamt, toNat_packed_shamt]
  unfold shiftUopc
  cases f with
  | slli => rfl
  | srli =>
    by_cases hshamt : shamt.toNat < 32
    · simp only [hshamt, if_true, not_true, and_false, if_false]
      rfl
    · simp only [hshamt, if_false, not_false_eq_true, and_self, if_true]
  | srai => rfl

end ShiftOp

/-! ### Upper immediates -/

theorem result_lui (imm : BitVec 20) :
    (dispatchedResult s pc (Instr.lui rd imm).encode).result =
      (Instr.upperImm imm).setWidth 64 := by
  have hinst : (decodeFields pc (Instr.lui rd imm).encode).inst = uType imm rd 0b0110111#7 := rfl
  have hop : opcodeOf (uType imm rd 0b0110111#7) = 0x37 := opcodeOf_uType _ _ _
  rw [dispatchedResult_result, decodeInst_eq_switch]
  unfold decodeSwitch
  rw [hinst, hop]
  show (extractImmU _).setWidth 64 = _
  rw [hinst, extractImmU_uType]

theorem result_auipc (imm : BitVec 20) :
    (dispatchedResult s pc (Instr.auipc rd imm).encode).result =
      pc + (Instr.upperImm imm).setWidth 64 := by
  have hinst : (decodeFields pc (Instr.auipc rd imm).encode).inst = uType imm rd 0b0010111#7 := rfl
  have hop : opcodeOf (uType imm rd 0b0010111#7) = 0x17 := opcodeOf_uType _ _ _
  rw [dispatchedResult_result, decodeInst_eq_switch]
  unfold decodeSwitch
  rw [hinst, hop]
  show pc + (extractImmU _).setWidth 64 = _
  rw [hinst, extractImmU_uType]

end Instr

end BoomCore
