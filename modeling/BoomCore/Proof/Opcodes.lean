import BoomCore.Library.Opcodes
import BoomCore.Proof.Encoding
import Mathlib.Tactic.MkIffOfInductiveProp

/-!
# The opcode table read by fields

A word encodes an instruction exactly when the opcode and function fields that `decode_module`
extracts are those of the instruction (`encodes_iff_fields`), and these fields determine the
instruction (`encodes_iff`).
-/

set_option autoImplicit false
set_option relaxedAutoImplicit false

namespace BoomCore

open Rv64

/-! ### Masks over fields -/

/-- Assumes: the mask has its ones at the `n` positions from `k` on. -/
theorem toNat_and_mask (w : BitVec 32) {mask : BitVec 32} (k n : ℕ)
    (hmask : ∀ i < 32, mask.getLsbD i = decide (k ≤ i ∧ i < k + n)) (hkn : k + n ≤ 32) :
    (w &&& mask).toNat = w.toNat / 2 ^ k % 2 ^ n * 2 ^ k := by
  apply Nat.eq_of_testBit_eq
  intro i
  rw [BitVec.toNat_and, Nat.testBit_and, Nat.testBit_mul_two_pow, Nat.testBit_mod_two_pow,
    Nat.testBit_div_two_pow]
  by_cases hi : i < 32
  · have hbit : mask.toNat.testBit i = decide (k ≤ i ∧ i < k + n) := hmask i hi
    rw [hbit]
    by_cases hk : k ≤ i
    · rw [Nat.sub_add_cancel hk]
      by_cases hn : i < k + n
      · simp [hk, hn, show i - k < n by omega]
      · simp [hn, show ¬i - k < n by omega]
    · simp [hk]
  · have hw : w.toNat.testBit i = false :=
      Nat.testBit_lt_two_pow (w.isLt.trans_le (Nat.pow_le_pow_right (by decide) (by omega)))
    rw [hw, Bool.false_and, decide_eq_false (show ¬i - k < n by omega), Bool.false_and,
      Bool.and_false]

theorem and_mask_iff (w v : BitVec 32) {mask : BitVec 32} (k n : ℕ)
    (hmask : ∀ i < 32, mask.getLsbD i = decide (k ≤ i ∧ i < k + n)) (hkn : k + n ≤ 32) :
    w &&& mask = v &&& mask ↔ w.toNat / 2 ^ k % 2 ^ n = v.toNat / 2 ^ k % 2 ^ n := by
  rw [← BitVec.toNat_inj, toNat_and_mask w k n hmask hkn, toNat_and_mask v k n hmask hkn]
  exact Nat.mul_left_inj (Nat.two_pow_pos k).ne'

/-- A mask over whole fields: equal under the mask exactly when each field is. -/
theorem and_or_mask_iff (w v a b : BitVec 32) :
    w &&& (a ||| b) = v &&& (a ||| b) ↔ w &&& a = v &&& a ∧ w &&& b = v &&& b := by
  constructor
  · intro heq
    have hleft : ∀ x y z : BitVec 32, x &&& y = (x &&& (y ||| z)) &&& y := by
      intro x y z
      rw [BitVec.and_assoc, BitVec.and_comm (y ||| z), ← BitVec.and_assoc]
      ext i hi
      simp
      cases x[i] <;> cases y[i] <;> simp
    have hright : ∀ x : BitVec 32, x &&& b = (x &&& (a ||| b)) &&& b := fun x ↦ by
      rw [BitVec.or_comm]
      exact hleft x b a
    exact ⟨by rw [hleft w a b, hleft v a b, heq], by rw [hright w, hright v, heq]⟩
  · rintro ⟨ha, hb⟩
    rw [BitVec.and_or_distrib_left, BitVec.and_or_distrib_left, ha, hb]

section Shapes

variable (w v : BitVec 32)

theorem opcode_mask_iff : w &&& 0x7F#32 = v &&& 0x7F#32 ↔ opcodeOf w = opcodeOf v :=
  BitVec.toNat_inj.symm

theorem funct3_mask_iff :
    w &&& 0x707F#32 = v &&& 0x707F#32 ↔ opcodeOf w = opcodeOf v ∧ funct3Of w = funct3Of v := by
  have hsplit : (0x707F#32) = 0x7F#32 ||| 0x7000#32 := rfl
  rw [hsplit, and_or_mask_iff, opcode_mask_iff, funct3Of_eq, funct3Of_eq]
  exact and_congr_right fun _ ↦ and_mask_iff w v 12 3 (by decide) (by decide)

theorem funct7_mask_iff :
    w &&& 0xFE00707F#32 = v &&& 0xFE00707F#32 ↔
      (opcodeOf w = opcodeOf v ∧ funct3Of w = funct3Of v) ∧ funct7Of w = funct7Of v := by
  have hsplit : (0xFE00707F#32) = 0x707F#32 ||| 0xFE000000#32 := rfl
  rw [hsplit, and_or_mask_iff, funct3_mask_iff, funct7Of_eq, funct7Of_eq]
  exact and_congr_right fun _ ↦ and_mask_iff w v 25 7 (by decide) (by decide)

theorem funct6_mask_iff :
    w &&& 0xFC00707F#32 = v &&& 0xFC00707F#32 ↔
      (opcodeOf w = opcodeOf v ∧ funct3Of w = funct3Of v) ∧ funct7Of w / 2 = funct7Of v / 2 := by
  have hsplit : (0xFC00707F#32) = 0x707F#32 ||| 0xFC000000#32 := rfl
  have hhalf : ∀ x : BitVec 32, funct7Of x / 2 = x.toNat / 2 ^ 26 % 2 ^ 6 := by
    intro x
    rw [funct7Of_eq]
    omega
  rw [hsplit, and_or_mask_iff, funct3_mask_iff, hhalf, hhalf]
  exact and_congr_right fun _ ↦ and_mask_iff w v 26 6 (by decide) (by decide)

end Shapes

/-! ### The table by fields -/

/-- The instruction of a word with the given opcode and function fields, other than those with
`funct3` zero in the system opcode. -/
def mnemonicOf (op f3 f7 : ℕ) : Option Mnemonic :=
  match op with
  | 0x37 => some .lui
  | 0x17 => some .auipc
  | 0x6F => some .jal
  | 0x67 => if f3 = 0 then some .jalr else none
  | 0x63 =>
    match f3 with
    | 0 => some .beq
    | 1 => some .bne
    | 4 => some .blt
    | 5 => some .bge
    | 6 => some .bltu
    | 7 => some .bgeu
    | _ => none
  | 0x03 =>
    match f3 with
    | 0 => some .lb
    | 1 => some .lh
    | 2 => some .lw
    | 3 => some .ld
    | 4 => some .lbu
    | 5 => some .lhu
    | 6 => some .lwu
    | _ => none
  | 0x23 =>
    match f3 with
    | 0 => some .sb
    | 1 => some .sh
    | 2 => some .sw
    | 3 => some .sd
    | _ => none
  | 0x13 =>
    match f3 with
    | 0 => some .addi
    | 1 => if f7 / 2 = 0 then some .slli else none
    | 2 => some .slti
    | 3 => some .sltiu
    | 4 => some .xori
    | 5 => if f7 / 2 = 0 then some .srli else if f7 / 2 = 0x10 then some .srai else none
    | 6 => some .ori
    | 7 => some .andi
    | _ => none
  | 0x1B =>
    match f3 with
    | 0 => some .addiw
    | 1 => if f7 = 0 then some .slliw else none
    | 5 => if f7 = 0 then some .srliw else if f7 = 0x20 then some .sraiw else none
    | _ => none
  | 0x33 =>
    if f7 = 0 then
      match f3 with
      | 0 => some .add
      | 1 => some .sll
      | 2 => some .slt
      | 3 => some .sltu
      | 4 => some .xor
      | 5 => some .srl
      | 6 => some .or
      | 7 => some .and
      | _ => none
    else if f7 = 0x20 then if f3 = 0 then some .sub else if f3 = 5 then some .sra else none
    else if f7 = 1 then if f3 = 0 then some .mul else none
    else none
  | 0x3B =>
    if f7 = 0 then
      if f3 = 0 then some .addw else if f3 = 1 then some .sllw else if f3 = 5 then some .srlw
      else none
    else if f7 = 0x20 then if f3 = 0 then some .subw else if f3 = 5 then some .sraw else none
    else none
  | 0x0F => if f3 = 0 then some .fence else none
  | 0x73 =>
    match f3 with
    | 1 => some .csrrw
    | 2 => some .csrrs
    | 3 => some .csrrc
    | 5 => some .csrrwi
    | 6 => some .csrrsi
    | 7 => some .csrrci
    | _ => none
  | _ => none

/-- The fields that the mask of an instruction looks at have these values in its encoding. -/
@[mk_iff]
structure HasFields (m : Mnemonic) (op f3 f7 : ℕ) : Prop where
  opcode : opcodeOf m.value = op
  funct3 : m.mask ≠ 0x7F#32 → funct3Of m.value = f3
  funct6 : m.mask = 0xFC00707F#32 → funct7Of m.value / 2 = f7 / 2
  funct7 : m.mask = 0xFE00707F#32 → funct7Of m.value = f7

/-- The table has every instruction under its fields, the four fixed words apart. -/
theorem mnemonicOf_of_fields {m : Mnemonic} {op f3 f7 : ℕ} (hm : m.mask ≠ 0xFFFFFFFF#32)
    (h : HasFields m op f3 f7) : mnemonicOf op f3 f7 = some m := by
  obtain ⟨hop, h3, h6, h7⟩ := h
  rw [← hop]
  cases m with
  | lui | auipc | jal => rfl
  | slli | srli | srai =>
    rw [← h3 (by decide)]
    unfold mnemonicOf
    have hfunct6 := h6 rfl
    rw [← hfunct6]
    rfl
  | add | sub | sll | slt | sltu | xor | srl | sra | or | and | mul | slliw | srliw | sraiw
  | addw | subw | sllw | srlw | sraw =>
    rw [← h3 (by decide), ← h7 rfl]
    rfl
  | ecall | ebreak | mret | wfi => exact absurd rfl hm
  | _ =>
    rw [← h3 (by decide)]
    rfl

/-- What the table gives for a word has the fields that it was looked up by. -/
theorem hasFields_of_mnemonicOf {m : Mnemonic} {op f3 f7 : ℕ} (h : mnemonicOf op f3 f7 = some m) :
    HasFields m op f3 f7 ∧ m.mask ≠ 0xFFFFFFFF#32 := by
  unfold mnemonicOf at h
  repeat' split at h
  all_goals cases h
  all_goals refine ⟨⟨rfl, fun hmask ↦ ?_, fun hmask ↦ ?_, fun hmask ↦ ?_⟩, by decide⟩
  -- the field is the one of the arm, or the mask has other fields
  all_goals
    first
    | rfl
    | (symm; assumption)
    | exact absurd rfl hmask
    | exact absurd hmask (by decide)

theorem encodes_iff_fields {w : BitVec 32} {m : Mnemonic} (hm : m.mask ≠ 0xFFFFFFFF#32) :
    Encodes w m ↔ HasFields m (opcodeOf w) (funct3Of w) (funct7Of w) := by
  have hshape : m.mask = 0x7F#32 ∨ m.mask = 0x707F#32 ∨ m.mask = 0xFC00707F#32 ∨
      m.mask = 0xFE00707F#32 := by
    revert hm
    cases m <;> decide
  have hencodes : Encodes w m ↔ w &&& m.mask = m.value &&& m.mask := by
    unfold Encodes
    rw [m.value_and_mask]
  rw [hencodes, hasFields_iff]
  rcases hshape with hmask | hmask | hmask | hmask <;> rw [hmask]
  · rw [opcode_mask_iff]
    simp [eq_comm]
  · rw [funct3_mask_iff]
    simp [eq_comm]
  · rw [funct6_mask_iff]
    simp [eq_comm, and_assoc]
  · rw [funct7_mask_iff]
    simp [eq_comm, and_assoc]

/-- The instruction of a word: one of the four fixed words, or by its fields. -/
def wordMnemonic (w : BitVec 32) : Option Mnemonic :=
  if w = 0x00000073 then some .ecall
  else if w = 0x00100073 then some .ebreak
  else if w = 0x30200073 then some .mret
  else if w = 0x10500073 then some .wfi
  else mnemonicOf (opcodeOf w) (funct3Of w) (funct7Of w)

theorem encodes_iff (w : BitVec 32) (m : Mnemonic) : Encodes w m ↔ wordMnemonic w = some m := by
  unfold wordMnemonic
  by_cases hm : m.mask = 0xFFFFFFFF#32
  · have hnot : mnemonicOf (opcodeOf w) (funct3Of w) (funct7Of w) ≠ some m := fun h ↦
      (hasFields_of_mnemonicOf h).2 hm
    have hencodes : Encodes w m ↔ w = m.value := by
      unfold Encodes
      rw [hm]
      exact iff_of_eq (congrArg (· = m.value) (BitVec.and_allOnes))
    rw [hencodes]
    clear hencodes
    split_ifs <;> cases m <;> simp_all [Mnemonic.mask, Mnemonic.value]
  · rw [encodes_iff_fields hm]
    have hsystem : ∀ {m' : Mnemonic}, m'.mask = 0xFFFFFFFF#32 → w = m'.value →
        mnemonicOf (opcodeOf m'.value) (funct3Of m'.value) (funct7Of m'.value) = none →
        (HasFields m (opcodeOf w) (funct3Of w) (funct7Of w) ↔ some m' = some m) := by
      intro m' hm' hw hnone
      rw [← hw] at hnone
      refine iff_of_false (fun h ↦ ?_) fun h ↦ hm (Option.some.inj h ▸ hm')
      rw [mnemonicOf_of_fields hm h] at hnone
      cases hnone
    split_ifs with h1 h2 h3 h4
    · exact hsystem rfl h1 rfl
    · exact hsystem rfl h2 rfl
    · exact hsystem rfl h3 rfl
    · exact hsystem rfl h4 rfl
    · exact ⟨mnemonicOf_of_fields hm, fun h ↦ (hasFields_of_mnemonicOf h).1⟩

end BoomCore
