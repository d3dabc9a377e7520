import BoomCore.Proof.Integer

/-!
# The results of the instructions on words

What `execute_module` computes for the uops that `decode_module` makes of the 32-bit instructions.
The arms that the register forms share with the immediate forms take the second operand from the
packed immediate, which the decoder leaves zero for a register form, and the logical right shifts
have no arm at all.
-/

set_option autoImplicit false
set_option relaxedAutoImplicit false

namespace BoomCore

open Rv64 SignExtension

section

variable (s : BoomCoreState) (pc : BitVec 64) (rd rs1 rs2 : BitVec 5)

/-! ### Operations on two registers -/

/-- The uop code of an operation on two words. -/
def wordUopc : WordOp → Uopc
  | .addw => .addw
  | .subw => .subw
  | .sllw => .sllw
  | .srlw => .srlw
  | .sraw => .sraw

theorem decodeOp32_of_fields (uop : MicroOp) {f : WordOp} (hf3 : funct3Of uop.inst = f.funct3.toNat)
    (hf7 : funct7Of uop.inst = f.funct7.toNat) :
    uop.decodeOp32.uopc = wordUopc f ∧ uop.decodeOp32.immPacked = uop.immPacked := by
  unfold MicroOp.decodeOp32
  rw [hf7, hf3]
  cases f <;> exact ⟨rfl, rfl⟩

theorem decodeInst_wordOp (f : WordOp) :
    decodeInst pc (WordInstr.op f rd rs1 rs2).encode =
      (decodeFields pc (WordInstr.op f rd rs1 rs2).encode).decodeOp32 := by
  have hop : opcodeOf (decodeFields pc (WordInstr.op f rd rs1 rs2).encode).inst = 0x3B :=
    opcodeOf_iType _ _ _ _ _
  rw [decodeInst_eq_switch]
  unfold decodeSwitch
  rw [hop]
  rfl

/-- What the core computes in place of `f` from the low words of two registers. -/
def computedWordOp (a b : BitVec 32) : WordOp → BitVec 32
  | .subw => a - b
  | .srlw => 0
  | .addw | .sllw | .sraw => a

/-- The result of an operation on two words. Only `SUBW` reads its second source. -/
theorem result_wordOp (f : WordOp) :
    (dispatchedResult s pc (WordInstr.op f rd rs1 rs2).encode).result =
      sext32 (computedWordOp (low32 (s.readReg rs1)) (low32 (s.readReg rs2)) f) := by
  have hf3 : funct3Of (WordInstr.op f rd rs1 rs2).encode = f.funct3.toNat :=
    funct3Of_iType _ _ _ _ _
  have hrs1 : rs1Of (WordInstr.op f rd rs1 rs2).encode = rs1.toNat := rs1Of_iType _ _ _ _ _
  have hlt := rs2.isLt
  have hrs2 : rs2Of (WordInstr.op f rd rs1 rs2).encode = rs2.toNat := by
    refine (rs2Of_iType _ _ _ _ _).trans ?_
    rw [toNat_append]
    omega
  have hf7 : funct7Of (WordInstr.op f rd rs1 rs2).encode = f.funct7.toNat := by
    refine (funct7Of_iType _ _ _ _ _).trans ?_
    rw [toNat_append]
    omega
  obtain ⟨huopc, hpacked⟩ :=
    decodeOp32_of_fields (decodeFields pc (WordInstr.op f rd rs1 rs2).encode) hf3 hf7
  have hzero : (decodeFields pc (WordInstr.op f rd rs1 rs2).encode).immPacked = 0 := rfl
  rw [dispatchedResult_result, hrs1, hrs2, decodeInst_wordOp]
  unfold MicroOp.executeSwitch MicroOp.shamt5
  rw [huopc, hpacked, hzero]
  cases f with
  | addw => exact congrArg sext32 (BitVec.add_zero _)
  | subw => rfl
  | sllw => exact congrArg sext32 (BitVec.shiftLeft_zero _)
  | srlw => rfl
  | sraw => exact congrArg sext32 (BitVec.sshiftRight_zero)

/-! ### Operations on an immediate -/

/-- The uop code of a shift of a word by an immediate amount. -/
def wordShiftUopc : WordShift → Uopc
  | .slliw => .slliw
  | .srliw => .srliw
  | .sraiw => .sraiw

theorem decodeOpImm32_of_shift (uop : MicroOp) {f : WordShift}
    (hf3 : funct3Of uop.inst = f.funct3.toNat) (hf7 : funct7Of uop.inst = f.funct7.toNat) :
    uop.decodeOpImm32.uopc = wordShiftUopc f ∧
      uop.decodeOpImm32.immPacked = extractImmI uop.inst := by
  unfold MicroOp.decodeOpImm32
  rw [hf7, hf3]
  cases f <;> exact ⟨rfl, rfl⟩

/-- Every word of the immediate format with this opcode goes to one arm of the switch. -/
theorem result_wordImm (imm : BitVec 12) (funct3 : BitVec 3) :
    (dispatchedResult s pc (iType imm rs1 funct3 rd 0b0011011#7)).result =
      ((decodeFields pc (iType imm rs1 funct3 rd 0b0011011#7)).decodeOpImm32.executeSwitch
        (s.readReg rs1) (s.readReg (imm.setWidth 5))).result := by
  have hop : opcodeOf (decodeFields pc (iType imm rs1 funct3 rd 0b0011011#7)).inst = 0x1B :=
    opcodeOf_iType _ _ _ _ _
  have hrs2 : rs2Of (iType imm rs1 funct3 rd 0b0011011#7) = (imm.setWidth 5).toNat :=
    (rs2Of_iType _ _ _ _ _).trans (BitVec.toNat_setWidth 5 imm).symm
  rw [dispatchedResult_result, rs1Of_iType, hrs2, decodeInst_eq_switch]
  unfold decodeSwitch
  rw [hop]
  rfl

theorem result_addiw (imm : BitVec 12) :
    (dispatchedResult s pc (WordInstr.addiw rd rs1 imm).encode).result =
      sext32 (low32 (s.readReg rs1) + imm.signExtend 32) := by
  have hf3 : funct3Of (decodeFields pc (iType imm rs1 0#3 rd 0b0011011#7)).inst = 0 :=
    funct3Of_iType _ _ _ _ _
  have himm : extractImmI (decodeFields pc (iType imm rs1 0#3 rd 0b0011011#7)).inst =
      imm.signExtend 32 := extractImmI_iType _ _ _ _ _
  unfold WordInstr.encode
  rw [result_wordImm]
  unfold MicroOp.decodeOpImm32
  rw [hf3, himm]
  rfl

/-- The five low bits of a word as a shift amount. -/
theorem toNat_packed_shamt5 (funct7 : BitVec 7) (shamt : BitVec 5) :
    ((funct7 ++ shamt : BitVec 12).signExtend 32 &&& 0x1F#32).toNat = shamt.toNat := by
  have hmask : ∀ v : BitVec 32, (v &&& 0x1F#32).toNat = (v.setWidth 5).toNat := by
    intro v
    rw [BitVec.toNat_and, BitVec.toNat_setWidth, ← Nat.and_two_pow_sub_one_eq_mod]
    rfl
  rw [hmask, setWidth_signExtend _ (by decide) (by decide), BitVec.setWidth_append_eq_right]

/-- What the core computes in place of `f` from the low word of a register. -/
def computedWordShift (a : BitVec 32) (shamt : BitVec 5) : WordShift → BitVec 32
  | .srliw => 0
  | f => f.value a shamt

/-- The result of a shift of a word is that of the instruction set, except for `SRLIW`. -/
theorem result_wordShift (f : WordShift) (shamt : BitVec 5) :
    (dispatchedResult s pc (WordInstr.shift f rd rs1 shamt).encode).result =
      sext32 (computedWordShift (low32 (s.readReg rs1)) shamt f) := by
  have hlt := shamt.isLt
  have hf7 : funct7Of (iType (f.funct7 ++ shamt) rs1 f.funct3 rd 0b0011011#7) = f.funct7.toNat := by
    rw [funct7Of_iType, toNat_append]
    omega
  obtain ⟨huopc, hpacked⟩ :=
    decodeOpImm32_of_shift
      (decodeFields pc (iType (f.funct7 ++ shamt) rs1 f.funct3 rd 0b0011011#7))
      (funct3Of_iType _ _ _ _ _) hf7
  have himm : extractImmI
      (decodeFields pc (iType (f.funct7 ++ shamt) rs1 f.funct3 rd 0b0011011#7)).inst =
      (f.funct7 ++ shamt : BitVec 12).signExtend 32 := extractImmI_iType _ _ _ _ _
  have hencode : (WordInstr.shift f rd rs1 shamt).encode =
      iType (f.funct7 ++ shamt) rs1 f.funct3 rd 0b0011011#7 := rfl
  rw [hencode, result_wordImm]
  unfold MicroOp.executeSwitch MicroOp.shamt5
  rw [huopc, hpacked, himm, toNat_packed_shamt5]
  cases f <;> rfl

end

end BoomCore
