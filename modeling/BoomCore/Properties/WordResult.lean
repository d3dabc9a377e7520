import BoomCore.Proof.Word
import BoomCore.Properties.IntegerResult

/-!
# When an instruction on words computes the result of the instruction set

`ADDIW`, `SLLIW`, `SRAIW` and `SUBW` always compute it. `ADDW`, `SLLW` and `SRAW` leave the low word
of their first source as it is, and both logical right shifts give zero, so that each of them is
right only on the operands for which the instruction set says the same.
-/

set_option autoImplicit false
set_option relaxedAutoImplicit false

namespace BoomCore

open Rv64 SignExtension

/-- The operands, in the registers `x` or the instruction, on which the core computes what the
instruction set says: `ADDW` of a zero word, the shifts `SLLW` and `SRAW` by nothing or of a word
that they do not change, and the logical right shifts of a word that is shifted out. -/
def WordOperandsExact (x : BitVec 5 → BitVec 64) : WordInstr → Prop
  | .op .addw _ _ rs2 => (x rs2).setWidth 32 = 0#32
  | .op .sllw _ rs1 rs2 => (x rs2).setWidth 5 = 0#5 ∨ (x rs1).setWidth 32 = 0#32
  | .op .srlw _ rs1 rs2 => ((x rs1).setWidth 32).toNat < 2 ^ ((x rs2).setWidth 5).toNat
  | .op .sraw _ rs1 rs2 =>
    (x rs2).setWidth 5 = 0#5 ∨ (x rs1).setWidth 32 = 0#32 ∨ (x rs1).setWidth 32 = BitVec.allOnes 32
  | .shift .srliw _ rs1 shamt => ((x rs1).setWidth 32).toNat < 2 ^ shamt.toNat
  | _ => True

instance (x : BitVec 5 → BitVec 64) (i : WordInstr) : Decidable (WordOperandsExact x i) := by
  unfold WordOperandsExact
  split <;> infer_instance

section

variable (s : BoomCoreState)

/-- The amount of a shift is zero, or the shift moves a bit. -/
theorem shamt_cases (b : BitVec 64) :
    (b.setWidth 5 = 0#5 ∧ ((b.setWidth 32).setWidth 5).toNat = 0) ∨
      (b.setWidth 5 ≠ 0#5 ∧ 0 < ((b.setWidth 32).setWidth 5).toNat) := by
  rw [BitVec.setWidth_setWidth_of_le _ (by decide)]
  by_cases hzero : b.setWidth 5 = 0#5
  · exact Or.inl ⟨hzero, by rw [hzero]; rfl⟩
  · refine Or.inr ⟨hzero, Nat.pos_of_ne_zero fun hcontra ↦ hzero ?_⟩
    apply BitVec.eq_of_toNat_eq
    rw [hcontra]
    rfl

theorem computedWordOp_iff (x : BitVec 5 → BitVec 64) (rd rs1 rs2 : BitVec 5) (f : WordOp) :
    computedWordOp ((x rs1).setWidth 32) ((x rs2).setWidth 32) f =
        f.value ((x rs1).setWidth 32) ((x rs2).setWidth 32) ↔
      WordOperandsExact x (.op f rd rs1 rs2) := by
  cases f with
  | addw => exact left_eq_add
  | subw => exact iff_of_true rfl trivial
  | sllw =>
    show (_ = (x rs1).setWidth 32 <<< _) ↔ _
    rcases shamt_cases (x rs2) with ⟨hzero, hamount⟩ | ⟨hne, hpos⟩
    · rw [hamount, BitVec.shiftLeft_zero]
      exact iff_of_true rfl (Or.inl hzero)
    · exact (eq_comm.trans (shiftLeft_eq_self_iff _ hpos)).trans (or_iff_right hne).symm
  | srlw =>
    show (_ = (x rs1).setWidth 32 >>> _) ↔ _
    rw [eq_comm, BitVec.setWidth_setWidth_of_le _ (by decide)]
    exact ushiftRight_eq_zero_iff _ _
  | sraw =>
    show (_ = ((x rs1).setWidth 32).sshiftRight _) ↔ _
    rcases shamt_cases (x rs2) with ⟨hzero, hamount⟩ | ⟨hne, hpos⟩
    · rw [hamount, BitVec.sshiftRight_zero]
      exact iff_of_true rfl (Or.inl hzero)
    · exact (eq_comm.trans (sshiftRight_eq_self_iff _ hpos)).trans (or_iff_right hne).symm

theorem computedWordShift_iff (x : BitVec 5 → BitVec 64) (rd rs1 shamt : BitVec 5)
    (f : WordShift) :
    computedWordShift ((x rs1).setWidth 32) shamt f = f.value ((x rs1).setWidth 32) shamt ↔
      WordOperandsExact x (.shift f rd rs1 shamt) := by
  cases f with
  | slliw => exact iff_of_true rfl trivial
  | srliw => exact eq_comm.trans (ushiftRight_eq_zero_iff _ _)
  | sraiw => exact iff_of_true rfl trivial

/-- The core computes the result of an instruction on words exactly on the operands on which the
missing operand, or the missing arm, makes no difference. -/
theorem result_eq_wordValue_iff (pc : BitVec 64) (i : WordInstr) :
    (executedResult s pc i.encode).result = i.value s.readReg ↔
      WordOperandsExact s.readReg i := by
  have hle : 32 ≤ 64 := by decide
  rw [executedResult_result]
  cases i with
  | op f rd rs1 rs2 =>
    rw [result_wordOp]
    exact (signExtend_inj hle).trans (computedWordOp_iff s.readReg rd rs1 rs2 f)
  | addiw rd rs1 imm =>
    rw [result_addiw]
    exact iff_of_true rfl trivial
  | shift f rd rs1 shamt =>
    rw [result_wordShift]
    exact (signExtend_inj hle).trans (computedWordShift_iff s.readReg rd rs1 shamt f)

end

/-- A state in which every architectural register has the physical one of its own number, and these
hold one. -/
def unitRegisters : BoomCoreState :=
  { rename := { intMapTable := { mapTable := fun r ↦ r } }, intRf := fun _ ↦ 1 }

/-- `addw x3, x1, x2` does not add when both sources hold one. -/
theorem addw_ignores_rs2 :
    ¬∀ (s : BoomCoreState) (pc : BitVec 64) (i : WordInstr),
      (executedResult s pc i.encode).result = i.value s.readReg := by
  intro hall
  have hadd := hall unitRegisters resetVector (.op .addw 3 1 2)
  rw [executedResult_result, result_wordOp] at hadd
  exact absurd hadd (by decide)

end BoomCore
