import BoomCore.Proof.Decode
import BoomCore.Proof.Opcodes
import BoomCore.Properties.IntegerResult

/-!
# Which words the decoder decodes as the instruction set does

`decode_module` against the opcode table. The fields that an arm of the switch does not look at, and
the arms that raise the exception without its cause, are the only differences: `decodesRight_iff`
gives the words on which there is none.
-/

set_option autoImplicit false
set_option relaxedAutoImplicit false

namespace BoomCore

open Rv64

/-! ### Statements -/

/-- The uop code of an instruction. -/
def uopcOf : Mnemonic → Uopc
  | .lui => .lui
  | .auipc => .auipc
  | .jal => .jal
  | .jalr => .jalr
  | .beq => .beq
  | .bne => .bne
  | .blt => .blt
  | .bge => .bge
  | .bltu => .bltu
  | .bgeu => .bgeu
  | .lb => .lb
  | .lh => .lh
  | .lw => .lw
  | .ld => .ld
  | .lbu => .lbu
  | .lhu => .lhu
  | .lwu => .lwu
  | .sb => .sb
  | .sh => .sh
  | .sw => .sw
  | .sd => .sd
  | .addi => .addi
  | .slti => .slti
  | .sltiu => .sltiu
  | .xori => .xori
  | .ori => .ori
  | .andi => .andi
  | .slli => .slli
  | .srli => .srli
  | .srai => .srai
  | .add => .add
  | .sub => .sub
  | .sll => .sll
  | .slt => .slt
  | .sltu => .sltu
  | .xor => .xor
  | .srl => .srl
  | .sra => .sra
  | .or => .or
  | .and => .and
  | .mul => .mul
  | .addiw => .addiw
  | .slliw => .slliw
  | .srliw => .srliw
  | .sraiw => .sraiw
  | .addw => .addw
  | .subw => .subw
  | .sllw => .sllw
  | .srlw => .srlw
  | .sraw => .sraw
  | .fence => .fence
  | .ecall => .ecall
  | .ebreak => .ebreak
  | .mret => .mret
  | .wfi => .wfi
  | .csrrw => .csrrw
  | .csrrs => .csrrs
  | .csrrc => .csrrc
  | .csrrwi => .csrrwi
  | .csrrsi => .csrrsi
  | .csrrci => .csrrci

/-- The uop of an illegal instruction. -/
def MicroOp.IsIllegal (uop : MicroOp) : Prop :=
  uop.uopc = .illegal ∧ uop.exception = true ∧ uop.excCause = 2

/-- The uop that `decode_module` makes of a word. -/
def decodedUop (s : BoomCoreState) (pc : BitVec 64) (w : BitVec 32) : MicroOp :=
  (decodeModule (s.withPacket pc w)).decode.decUop

/-- The uop is illegal exactly when the word encodes no instruction, and otherwise has the code of
the instruction that the word encodes. -/
structure DecodesRight (uop : MicroOp) (w : BitVec 32) : Prop where
  illegal : uop.IsIllegal ↔ ¬∃ m, Encodes w m
  code : ∀ m, Encodes w m → uop.uopc = uopcOf m

/-- The function fields of the word are those that the arm of its opcode tells apart: `funct3` is
zero for `JALR` and `FENCE`; the upper bits of a shift by an immediate and `funct7` of an operation
on registers are those of an operation of that `funct3`, except that `SRLI` shifts by less than 32;
`funct3` is defined for the operations on words, `MUL` and the CSR instructions; and a system word
without `funct3` is that of `ECALL` or `MRET`. -/
def FieldsTold (w : BitVec 32) : Prop :=
  match opcodeOf w with
  | 0x67 | 0x0F => funct3Of w = 0
  | 0x13 =>
    (funct3Of w = 1 → funct7Of w / 2 = 0) ∧
      (funct3Of w = 5 → funct7Of w = 0 ∨ funct7Of w / 2 = 0x10)
  | 0x1B =>
    funct3Of w = 0 ∨ (funct3Of w = 1 ∧ funct7Of w = 0) ∨
      (funct3Of w = 5 ∧ (funct7Of w = 0 ∨ funct7Of w = 0x20))
  | 0x33 =>
    funct7Of w = 0 ∨ (funct7Of w = 0x20 ∧ (funct3Of w = 0 ∨ funct3Of w = 5)) ∨
      (funct7Of w = 1 ∧ funct3Of w = 0)
  | 0x3B =>
    (funct7Of w = 0 ∧ (funct3Of w = 0 ∨ funct3Of w = 1 ∨ funct3Of w = 5)) ∨
      (funct7Of w = 0x20 ∧ (funct3Of w = 0 ∨ funct3Of w = 5))
  | 0x73 => (funct3Of w = 0 → w = 0x00000073#32 ∨ w = 0x30200073#32) ∧ funct3Of w ≠ 4
  | _ => True

/-! ### The table against a uop -/

/-- The uop is the one that the entry of the table asks for. -/
def MicroOp.Fits (uop : MicroOp) : Option Mnemonic → Prop
  | some m => uop.uopc = uopcOf m
  | none => uop.IsIllegal

theorem uopcOf_ne_illegal (m : Mnemonic) : uopcOf m ≠ .illegal := by
  cases m <;> decide

theorem decodesRight_iff_fits (uop : MicroOp) (w : BitVec 32) :
    DecodesRight uop w ↔ uop.Fits (wordMnemonic w) := by
  cases hword : wordMnemonic w with
  | none =>
    have hnone : ∀ m, ¬Encodes w m := fun m h ↦ by
      rw [encodes_iff, hword] at h
      cases h
    refine ⟨fun h ↦ h.illegal.mpr fun ⟨m, hm⟩ ↦ hnone m hm, fun h ↦ ⟨?_, fun m hm ↦ ?_⟩⟩
    · exact iff_of_true h fun ⟨m, hm⟩ ↦ hnone m hm
    · exact absurd hm (hnone m)
  | some m =>
    have hm : Encodes w m := (encodes_iff w m).mpr hword
    refine ⟨fun h ↦ h.code m hm, fun h ↦ ⟨?_, fun m' hm' ↦ ?_⟩⟩
    · refine iff_of_false (fun hillegal ↦ uopcOf_ne_illegal m ?_) fun hcontra ↦ hcontra ⟨m, hm⟩
      rw [← hillegal.1]
      exact h.symm
    · rw [encodes_iff, hword] at hm'
      cases hm'
      exact h

attribute [local simp] MicroOp.Fits MicroOp.IsIllegal MicroOp.withUopc MicroOp.asIllegal
  MicroOp.withOperands MicroOp.withDst MicroOp.asCsr uopcOf

/-! ### The arms of the switch -/

section Arms

variable (u : MicroOp)

theorem decodeBranch_fits :
    u.decodeBranch.Fits (mnemonicOf 0x63 (funct3Of u.inst) (funct7Of u.inst)) := by
  have hlt := funct3Of_lt u.inst
  unfold MicroOp.decodeBranch mnemonicOf
  generalize funct3Of u.inst = f3 at *
  interval_cases f3 <;> first | rfl | exact ⟨rfl, rfl, rfl⟩

theorem decodeLoad_fits :
    u.decodeLoad.Fits (mnemonicOf 0x03 (funct3Of u.inst) (funct7Of u.inst)) := by
  have hlt := funct3Of_lt u.inst
  unfold MicroOp.decodeLoad mnemonicOf
  generalize funct3Of u.inst = f3 at *
  interval_cases f3 <;> first | rfl | exact ⟨rfl, rfl, rfl⟩

theorem decodeStore_fits :
    u.decodeStore.Fits (mnemonicOf 0x23 (funct3Of u.inst) (funct7Of u.inst)) := by
  have hlt := funct3Of_lt u.inst
  unfold MicroOp.decodeStore mnemonicOf
  generalize funct3Of u.inst = f3 at *
  interval_cases f3 <;> first | rfl | exact ⟨rfl, rfl, rfl⟩

theorem decodeOpImm_fits_iff :
    u.decodeOpImm.Fits (mnemonicOf 0x13 (funct3Of u.inst) (funct7Of u.inst)) ↔
      (funct3Of u.inst = 1 → funct7Of u.inst / 2 = 0) ∧
        (funct3Of u.inst = 5 → funct7Of u.inst = 0 ∨ funct7Of u.inst / 2 = 0x10) := by
  have hlt := funct3Of_lt u.inst
  unfold MicroOp.decodeOpImm mnemonicOf
  generalize funct3Of u.inst = f3 at *
  generalize funct7Of u.inst = f7 at *
  by_cases hzero : f7 = 0 <;> by_cases hlow : f7 / 2 = 0 <;> by_cases hhigh : f7 / 2 = 0x10 <;>
    interval_cases f3 <;> simp [hzero, hlow, hhigh]

/-- Assumes: the uop comes without a cause. The default arm raises the exception and leaves it
so. -/
theorem decodeOpImm32_fits_iff (hcause : u.excCause = 0) :
    u.decodeOpImm32.Fits (mnemonicOf 0x1B (funct3Of u.inst) (funct7Of u.inst)) ↔
      funct3Of u.inst = 0 ∨ (funct3Of u.inst = 1 ∧ funct7Of u.inst = 0) ∨
        (funct3Of u.inst = 5 ∧ (funct7Of u.inst = 0 ∨ funct7Of u.inst = 0x20)) := by
  have hlt := funct3Of_lt u.inst
  unfold MicroOp.decodeOpImm32 mnemonicOf
  generalize funct3Of u.inst = f3 at *
  generalize funct7Of u.inst = f7 at *
  by_cases hzero : f7 = 0 <;> by_cases hhigh : f7 = 0x20 <;>
    interval_cases f3 <;> simp [hzero, hhigh, hcause]

theorem decodeOp_fits_iff (hcause : u.excCause = 0) :
    u.decodeOp.Fits (mnemonicOf 0x33 (funct3Of u.inst) (funct7Of u.inst)) ↔
      funct7Of u.inst = 0 ∨
        (funct7Of u.inst = 0x20 ∧ (funct3Of u.inst = 0 ∨ funct3Of u.inst = 5)) ∨
          (funct7Of u.inst = 1 ∧ funct3Of u.inst = 0) := by
  have hlt := funct3Of_lt u.inst
  unfold MicroOp.decodeOp mnemonicOf
  generalize funct3Of u.inst = f3 at *
  generalize funct7Of u.inst = f7 at *
  by_cases hzero : f7 = 0 <;> by_cases hhigh : f7 = 0x20 <;> by_cases hone : f7 = 1 <;>
    interval_cases f3 <;> simp [hzero, hhigh, hone, hcause]

theorem decodeOp32_fits_iff (hcause : u.excCause = 0) :
    u.decodeOp32.Fits (mnemonicOf 0x3B (funct3Of u.inst) (funct7Of u.inst)) ↔
      (funct7Of u.inst = 0 ∧
          (funct3Of u.inst = 0 ∨ funct3Of u.inst = 1 ∨ funct3Of u.inst = 5)) ∨
        (funct7Of u.inst = 0x20 ∧ (funct3Of u.inst = 0 ∨ funct3Of u.inst = 5)) := by
  have hlt := funct3Of_lt u.inst
  unfold MicroOp.decodeOp32 mnemonicOf
  generalize funct3Of u.inst = f3 at *
  generalize funct7Of u.inst = f7 at *
  by_cases hzero : f7 = 0 <;> by_cases hhigh : f7 = 0x20 <;>
    interval_cases f3 <;> simp [hzero, hhigh, hcause]

/-- A system word with `funct3` is that of a CSR instruction, or of none. -/
theorem decodeSystem_fits_iff (hcause : u.excCause = 0) (hne : funct3Of u.inst ≠ 0) :
    u.decodeSystem.Fits (mnemonicOf 0x73 (funct3Of u.inst) (funct7Of u.inst)) ↔
      funct3Of u.inst ≠ 4 := by
  have hlt := funct3Of_lt u.inst
  unfold MicroOp.decodeSystem mnemonicOf
  generalize funct3Of u.inst = f3 at *
  interval_cases f3 <;> simp [hcause] at *

end Arms

/-! ### The decoder -/

/-- Assumes: the uop comes without a cause, and the word is not one of the system opcode without
`funct3`. -/
theorem decodeSwitch_fits_iff {u : MicroOp} (hcause : u.excCause = 0)
    (hsystem : opcodeOf u.inst = 0x73 → funct3Of u.inst ≠ 0) :
    (decodeSwitch u).Fits (mnemonicOf (opcodeOf u.inst) (funct3Of u.inst) (funct7Of u.inst)) ↔
      FieldsTold u.inst := by
  unfold decodeSwitch FieldsTold
  split
  next hop => rw [hop]; exact iff_of_true rfl trivial
  next hop => rw [hop]; exact iff_of_true rfl trivial
  next hop => rw [hop]; exact iff_of_true rfl trivial
  next hop =>
    rw [hop]
    unfold mnemonicOf
    by_cases hf3 : funct3Of u.inst = 0 <;> simp [hf3, MicroOp.decodeJalr]
  next hop => rw [hop]; exact iff_of_true (decodeBranch_fits u) trivial
  next hop => rw [hop]; exact iff_of_true (decodeLoad_fits u) trivial
  next hop => rw [hop]; exact iff_of_true (decodeStore_fits u) trivial
  next hop => rw [hop]; exact decodeOpImm_fits_iff u
  next hop => rw [hop]; exact decodeOpImm32_fits_iff u hcause
  next hop => rw [hop]; exact decodeOp_fits_iff u hcause
  next hop => rw [hop]; exact decodeOp32_fits_iff u hcause
  next hop =>
    rw [hop]
    unfold mnemonicOf
    by_cases hf3 : funct3Of u.inst = 0 <;> simp [hf3, MicroOp.decodeFence]
  next hop =>
    rw [hop]
    have hne := hsystem hop
    exact (decodeSystem_fits_iff u hcause hne).trans (and_iff_right fun h ↦ absurd h hne).symm
  next =>
    -- no other opcode is in the table
    have hnone : mnemonicOf (opcodeOf u.inst) (funct3Of u.inst) (funct7Of u.inst) = none := by
      unfold mnemonicOf
      split <;> first | contradiction | rfl
    rw [hnone]
    refine iff_of_true ⟨rfl, rfl, rfl⟩ ?_
    split <;> first | contradiction | trivial

/-- A system word without `funct3` is decoded as `ECALL` or `MRET`, whatever it encodes. -/
theorem decodeSystem_fits_iff_of_zero {u : MicroOp} (hop : opcodeOf u.inst = 0x73)
    (hf3 : funct3Of u.inst = 0) :
    u.decodeSystem.Fits (wordMnemonic u.inst) ↔
      u.inst = 0x00000073#32 ∨ u.inst = 0x30200073#32 := by
  have hcode : u.decodeSystem.uopc =
      if rdOf u.inst = 0 ∧ u.inst >>> 20 = 0#32 then .ecall else .mret := by
    unfold MicroOp.decodeSystem
    rw [if_pos hf3]
    split_ifs <;> rfl
  unfold wordMnemonic
  split_ifs with hecall hebreak hmret hwfi
  · rw [hecall] at hcode ⊢
    exact iff_of_true hcode (Or.inl rfl)
  · rw [hebreak] at hcode ⊢
    exact iff_of_false
      (fun h : _ = Uopc.ebreak ↦ absurd (hcode.symm.trans h) (by decide)) (by decide)
  · rw [hmret] at hcode ⊢
    exact iff_of_true hcode (Or.inr rfl)
  · rw [hwfi] at hcode ⊢
    exact iff_of_false (fun h : _ = Uopc.wfi ↦ absurd (hcode.symm.trans h) (by decide)) (by decide)
  · rw [hop, hf3]
    refine iff_of_false (fun h : MicroOp.IsIllegal _ ↦ ?_) fun h ↦ h.elim hecall hmret
    have hillegal := h.1
    rw [hcode] at hillegal
    split_ifs at hillegal

/-- `decode_module` decodes the word as the instruction set does exactly when the arm of its opcode
tells its function fields apart. -/
theorem decodesRight_iff (s : BoomCoreState) (pc : BitVec 64) (w : BitVec 32) :
    DecodesRight (decodedUop s pc w) w ↔ FieldsTold w := by
  have huop : decodedUop s pc w = decodeSwitch (decodeFields pc w) := by
    unfold decodedUop
    rw [decUop_withPacket, decodeInst_eq_switch]
  have hinst : (decodeFields pc w).inst = w := rfl
  rw [decodesRight_iff_fits, huop]
  by_cases hsystem : opcodeOf w = 0x73 ∧ funct3Of w = 0
  · obtain ⟨hop, hf3⟩ := hsystem
    have htold : FieldsTold w ↔ w = 0x00000073#32 ∨ w = 0x30200073#32 := by
      unfold FieldsTold
      rw [hop, hf3]
      simp
    rw [htold]
    unfold decodeSwitch
    rw [hinst, hop]
    exact decodeSystem_fits_iff_of_zero hop hf3
  · have hword : wordMnemonic w = mnemonicOf (opcodeOf w) (funct3Of w) (funct7Of w) := by
      have hne : ∀ v : BitVec 32, opcodeOf v = 0x73 → funct3Of v = 0 → w ≠ v := fun v hop hf3 hv ↦
        hsystem ⟨hv ▸ hop, hv ▸ hf3⟩
      unfold wordMnemonic
      rw [if_neg (hne _ rfl rfl), if_neg (hne _ rfl rfl), if_neg (hne _ rfl rfl),
        if_neg (hne _ rfl rfl)]
    rw [hword]
    exact decodeSwitch_fits_iff rfl fun hop hf3 ↦ hsystem ⟨hop, hf3⟩

instance (w : BitVec 32) : Decidable (FieldsTold w) := by
  unfold FieldsTold
  split <;> infer_instance

/-- `mulw x1, x2, x3` is decoded as `ADDW`. -/
theorem mulw_decoded_as_addw :
    ¬∀ (s : BoomCoreState) (pc : BitVec 64) (w : BitVec 32),
      DecodesRight (decodedUop s pc w) w := by
  intro hall
  have hmulw := hall {} resetVector 0x023100BB#32
  rw [decodesRight_iff] at hmulw
  revert hmulw
  decide

end BoomCore
