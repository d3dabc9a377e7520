import BoomCore.Library.Rv64
import BoomCore.Library.SignExtension
import BoomCore.Model.Decode
import Mathlib.Tactic.IntervalCases

/-!
# The fields of an encoded instruction

The masks and shifts of `decode_module` recover the fields from which a word of the instruction set
is put together.
-/

set_option autoImplicit false
set_option relaxedAutoImplicit false

namespace BoomCore

open Rv64 SignExtension

/-! ### Fields as numbers -/

/-- Assumes: the mask has `n` ones. It selects `n` bits from position `k` on. -/
theorem toNat_field (inst : BitVec 32) (k n : ℕ) {mask : BitVec 32}
    (hmask : mask.toNat = 2 ^ n - 1) :
    ((inst >>> k) &&& mask).toNat = inst.toNat / 2 ^ k % 2 ^ n := by
  rw [BitVec.toNat_and, BitVec.toNat_ushiftRight, hmask, Nat.shiftRight_eq_div_pow,
    Nat.and_two_pow_sub_one_eq_mod]

theorem opcodeOf_eq (inst : BitVec 32) : opcodeOf inst = inst.toNat % 2 ^ 7 := by
  have h := toNat_field inst 0 7 (show (0x7F#32).toNat = 2 ^ 7 - 1 from rfl)
  rwa [BitVec.ushiftRight_zero, Nat.pow_zero, Nat.div_one] at h

theorem funct3Of_eq (inst : BitVec 32) : funct3Of inst = inst.toNat / 2 ^ 12 % 2 ^ 3 :=
  toNat_field inst 12 3 rfl

theorem rs1Of_eq (inst : BitVec 32) : rs1Of inst = inst.toNat / 2 ^ 15 % 2 ^ 5 :=
  toNat_field inst 15 5 rfl

theorem rs2Of_eq (inst : BitVec 32) : rs2Of inst = inst.toNat / 2 ^ 20 % 2 ^ 5 :=
  toNat_field inst 20 5 rfl

theorem funct7Of_eq (inst : BitVec 32) : funct7Of inst = inst.toNat / 2 ^ 25 % 2 ^ 7 :=
  toNat_field inst 25 7 rfl

/-! ### The immediate format -/

section Immediate

variable (imm : BitVec 12) (rs1 : BitVec 5) (funct3 : BitVec 3) (rd : BitVec 5) (opcode : BitVec 7)

theorem opcodeOf_iType : opcodeOf (iType imm rs1 funct3 rd opcode) = opcode.toNat := by
  have hop := opcode.isLt
  rw [opcodeOf_eq, toNat_iType]
  omega

theorem funct3Of_iType : funct3Of (iType imm rs1 funct3 rd opcode) = funct3.toNat := by
  have hop := opcode.isLt
  have hrd := rd.isLt
  have hf3 := funct3.isLt
  rw [funct3Of_eq, toNat_iType]
  omega

theorem rs1Of_iType : rs1Of (iType imm rs1 funct3 rd opcode) = rs1.toNat := by
  have hop := opcode.isLt
  have hrd := rd.isLt
  have hf3 := funct3.isLt
  have hrs1 := rs1.isLt
  rw [rs1Of_eq, toNat_iType]
  omega

/-- The second source field is the low part of the immediate. -/
theorem rs2Of_iType : rs2Of (iType imm rs1 funct3 rd opcode) = imm.toNat % 2 ^ 5 := by
  have hop := opcode.isLt
  have hrd := rd.isLt
  have hf3 := funct3.isLt
  have hrs1 := rs1.isLt
  rw [rs2Of_eq, toNat_iType]
  omega

theorem funct7Of_iType : funct7Of (iType imm rs1 funct3 rd opcode) = imm.toNat / 2 ^ 5 := by
  have hop := opcode.isLt
  have hrd := rd.isLt
  have hf3 := funct3.isLt
  have hrs1 := rs1.isLt
  have himm := imm.isLt
  rw [funct7Of_eq, toNat_iType]
  omega

theorem extractImmI_iType : extractImmI (iType imm rs1 funct3 rd opcode) = imm.signExtend 32 := by
  have hop := opcode.isLt
  have hrd := rd.isLt
  have hf3 := funct3.isLt
  have hrs1 := rs1.isLt
  apply BitVec.eq_of_toInt_eq
  unfold extractImmI
  rw [BitVec.toInt_sshiftRight, BitVec.toInt_signExtend_of_le (by decide),
    BitVec.toInt_eq_toNat_cond, BitVec.toInt_eq_toNat_cond, toNat_iType,
    Int.shiftRight_eq_div_pow]
  split_ifs <;> omega

end Immediate

/-! ### The upper-immediate format -/

section Upper

variable (imm : BitVec 20) (rd : BitVec 5) (opcode : BitVec 7)

theorem opcodeOf_uType : opcodeOf (uType imm rd opcode) = opcode.toNat := by
  have hop := opcode.isLt
  rw [opcodeOf_eq, toNat_uType]
  omega

/-- The mask clears the twelve low bits. -/
theorem toNat_extractImmU (inst : BitVec 32) :
    (extractImmU inst).toNat = inst.toNat / 2 ^ 12 * 2 ^ 12 := by
  have hmask : ∀ i < 32, (0xFFFFF000#32).getLsbD i = decide (12 ≤ i) := by decide
  have hshift : extractImmU inst = (inst >>> 12) <<< 12 := by
    apply BitVec.eq_of_getLsbD_eq
    intro i hi
    unfold extractImmU
    rw [BitVec.getLsbD_and, hmask i hi, BitVec.getLsbD_shiftLeft, BitVec.getLsbD_ushiftRight]
    by_cases hlow : i < 12
    · simp [hlow]
    · simp [hi, Nat.le_of_not_lt hlow, hlow]
  have hlt := inst.isLt
  rw [hshift, BitVec.toNat_shiftLeft, BitVec.toNat_ushiftRight, Nat.shiftLeft_eq,
    Nat.shiftRight_eq_div_pow]
  omega

theorem extractImmU_uType : extractImmU (uType imm rd opcode) = Instr.upperImm imm := by
  have hop := opcode.isLt
  have hrd := rd.isLt
  apply BitVec.eq_of_toNat_eq
  unfold Instr.upperImm
  rw [toNat_extractImmU, toNat_uType, toNat_append, BitVec.toNat_zero]
  omega

end Upper

/-! ### The offsets of the control transfers -/

/-- Assumes: the mask has `n` ones. The bits that it selects from position `k` on, moved to position
`b`. -/
theorem getLsbD_field (inst : BitVec 32) (k n b i : ℕ) {mask : BitVec 32}
    (hmask : mask.toNat = 2 ^ n - 1) (hi : i < 32) :
    (((inst >>> k) &&& mask) <<< b).getLsbD i =
      (decide (b ≤ i ∧ i < b + n) && inst.getLsbD (i - b + k)) := by
  have hbit : mask.getLsbD (i - b) = decide (i - b < n) := by
    rw [BitVec.getLsbD, hmask, Nat.testBit_two_pow_sub_one]
  rw [BitVec.getLsbD_shiftLeft, BitVec.getLsbD_and, BitVec.getLsbD_ushiftRight, hbit,
    Nat.add_comm k]
  by_cases hb : i < b
  · simp [hb, Nat.not_le_of_lt hb]
  · by_cases hn : i < b + n
    · simp [hi, hb, hn, Nat.le_of_not_lt hb, show i - b < n by omega]
    · simp [hn, show ¬i - b < n by omega]

/-- Assumes: `bit` is the sign bit, at position `k`, and `ones` are the bits above. Filling these in
sets them when the sign bit is set. -/
theorem getLsbD_fillSign {v bit ones : BitVec 32} {k : ℕ} (hk : k < 32)
    (hbit : bit = BitVec.twoPow 32 k) (hones : ∀ i < 32, ones.getLsbD i = decide (k < i))
    {i : ℕ} (hi : i < 32) :
    (if v &&& bit ≠ 0 then v ||| ones else v).getLsbD i =
      (v.getLsbD i || (v.getLsbD k && decide (k < i))) := by
  have htest : v &&& bit = if v.getLsbD k then BitVec.twoPow 32 k else 0 := by
    rw [hbit, BitVec.and_twoPow]
    rfl
  have hne : BitVec.twoPow 32 k ≠ 0 := by
    intro hcontra
    have hone := congrArg (fun w ↦ BitVec.getLsbD w k) hcontra
    simp [hk] at hone
  rw [htest]
  cases v.getLsbD k with
  | false => rw [if_neg (by simp), Bool.false_and, Bool.or_false]
  | true => rw [if_pos rfl, if_pos hne, BitVec.getLsbD_or, hones i hi, Bool.true_and]

/-- Every bit of a branch offset is the bit of the word that holds it, or the sign. -/
theorem getLsbD_extractImmB (inst : BitVec 32) {n : ℕ} (hn : n < 32) :
    (extractImmB inst).getLsbD n =
      if n = 0 then false else if n < 5 then inst.getLsbD (7 + n)
      else if n < 11 then inst.getLsbD (20 + n) else if n = 11 then inst.getLsbD 7
      else inst.getLsbD 31 := by
  refine (getLsbD_fillSign (k := 12) (by decide) rfl (by decide) hn).trans ?_
  rw [BitVec.getLsbD_or, BitVec.getLsbD_or, BitVec.getLsbD_or, getLsbD_field _ 8 4 1 n rfl hn,
    getLsbD_field _ 25 6 5 n rfl hn, getLsbD_field _ 7 1 11 n rfl hn,
    getLsbD_field _ 31 1 12 n rfl hn, BitVec.getLsbD_or, BitVec.getLsbD_or, BitVec.getLsbD_or,
    getLsbD_field _ 8 4 1 12 rfl (by decide), getLsbD_field _ 25 6 5 12 rfl (by decide),
    getLsbD_field _ 7 1 11 12 rfl (by decide), getLsbD_field _ 31 1 12 12 rfl (by decide)]
  interval_cases n <;> simp

/-- Every bit of a jump offset is the bit of the word that holds it, or the sign. -/
theorem getLsbD_extractImmJ (inst : BitVec 32) {n : ℕ} (hn : n < 32) :
    (extractImmJ inst).getLsbD n =
      if n = 0 then false else if n < 11 then inst.getLsbD (20 + n)
      else if n = 11 then inst.getLsbD 20 else if n < 20 then inst.getLsbD n
      else inst.getLsbD 31 := by
  refine (getLsbD_fillSign (k := 20) (by decide) rfl (by decide) hn).trans ?_
  rw [BitVec.getLsbD_or, BitVec.getLsbD_or, BitVec.getLsbD_or, getLsbD_field _ 21 10 1 n rfl hn,
    getLsbD_field _ 20 1 11 n rfl hn, getLsbD_field _ 12 8 12 n rfl hn,
    getLsbD_field _ 31 1 20 n rfl hn, BitVec.getLsbD_or, BitVec.getLsbD_or, BitVec.getLsbD_or,
    getLsbD_field _ 21 10 1 20 rfl (by decide), getLsbD_field _ 20 1 11 20 rfl (by decide),
    getLsbD_field _ 12 8 12 20 rfl (by decide), getLsbD_field _ 31 1 20 20 rfl (by decide)]
  interval_cases n <;> simp

theorem extractImmB_bType (imm : BitVec 12) (rs2 rs1 : BitVec 5) (funct3 : BitVec 3)
    (opcode : BitVec 7) :
    extractImmB (bType imm rs2 rs1 funct3 opcode) = (imm ++ 0#1).signExtend 32 := by
  apply BitVec.eq_of_getLsbD_eq
  intro i hi
  rw [getLsbD_extractImmB _ hi, BitVec.getLsbD_signExtend, BitVec.msb_eq_getLsbD_last]
  unfold bType rType
  simp only [BitVec.getLsbD_append, BitVec.getLsbD_extractLsb']
  interval_cases i <;> simp

theorem extractImmJ_jType (imm : BitVec 20) (rd : BitVec 5) (opcode : BitVec 7) :
    extractImmJ (jType imm rd opcode) = (imm ++ 0#1).signExtend 32 := by
  apply BitVec.eq_of_getLsbD_eq
  intro i hi
  rw [getLsbD_extractImmJ _ hi, BitVec.getLsbD_signExtend, BitVec.msb_eq_getLsbD_last]
  unfold jType uType
  simp only [BitVec.getLsbD_append, BitVec.getLsbD_extractLsb']
  interval_cases i <;> simp

end BoomCore
