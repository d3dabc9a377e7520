import BoomCore.Library.ImmediateFormat
import BoomCore.Proof.Encoding

/-!
# The bits of the extracted immediates

Every `extract_imm_*` of the decoder takes each bit of its result from the bit of the word that the
format has there.
-/

set_option autoImplicit false
set_option relaxedAutoImplicit false

namespace BoomCore

open Rv64

/-- The function of the decoder for a format. -/
def extractImm : ImmFormat → BitVec 32 → BitVec 32
  | .i => extractImmI
  | .s => extractImmS
  | .b => extractImmB
  | .u => extractImmU
  | .j => extractImmJ

section Bits

variable (inst : BitVec 32) {n : ℕ}

theorem getLsbD_extractImmI (hn : n < 32) :
    (extractImmI inst).getLsbD n = if n < 11 then inst.getLsbD (20 + n) else inst.getLsbD 31 := by
  unfold extractImmI
  rw [BitVec.getLsbD_sshiftRight, BitVec.msb_eq_getLsbD_last]
  interval_cases n <;> simp

theorem getLsbD_extractImmS (hn : n < 32) :
    (extractImmS inst).getLsbD n =
      if n < 5 then inst.getLsbD (7 + n) else if n < 11 then inst.getLsbD (20 + n)
      else inst.getLsbD 31 := by
  refine (getLsbD_fillSign (k := 11) (by decide) rfl (by decide) hn).trans ?_
  simp only [BitVec.getLsbD_or, BitVec.getLsbD_and, BitVec.getLsbD_sshiftRight,
    BitVec.getLsbD_ushiftRight, BitVec.msb_eq_getLsbD_last]
  interval_cases n <;> simp

theorem getLsbD_extractImmU (hn : n < 32) :
    (extractImmU inst).getLsbD n = if n < 12 then false else inst.getLsbD n := by
  unfold extractImmU
  rw [BitVec.getLsbD_and]
  interval_cases n <;> simp

/-- Every bit of an extracted immediate is the bit of the word that the format names, or zero. -/
theorem getLsbD_extractImm (f : ImmFormat) (hn : n < 32) :
    (extractImm f inst).getLsbD n =
      match f.source n with
      | none => false
      | some k => inst.getLsbD k := by
  cases f with
  | i =>
    refine (getLsbD_extractImmI inst hn).trans ?_
    unfold ImmFormat.source
    split_ifs <;> rfl
  | s =>
    refine (getLsbD_extractImmS inst hn).trans ?_
    unfold ImmFormat.source
    split_ifs <;> rfl
  | b =>
    refine (getLsbD_extractImmB inst hn).trans ?_
    unfold ImmFormat.source
    split_ifs <;> rfl
  | u =>
    refine (getLsbD_extractImmU inst hn).trans ?_
    unfold ImmFormat.source
    split_ifs <;> rfl
  | j =>
    refine (getLsbD_extractImmJ inst hn).trans ?_
    unfold ImmFormat.source
    split_ifs <;> rfl

end Bits

end BoomCore
