import BoomCore.Model.Decode
import BoomCore.Model.Execute
import BoomCore.Model.Rename
import Mathlib.Tactic.Common

/-!
# What the decoder can produce

`DecodeSpec` collects, for a uop that enters the switch of `decode_module` and the uop that leaves
it, everything the rest of the core relies on: which fields are passed on, that the issue queue
takes the uop, and how the flags for loads, stores and control transfers go with the uop code.
Every arm of the switch satisfies it, and so does every decoded instruction word
(`decodeInst_spec`).
-/

set_option autoImplicit false
set_option relaxedAutoImplicit false

namespace BoomCore

namespace Uopc

/-- The uop codes with the load arm of `execute_module`. -/
def isLoad : Uopc → Bool
  | lb | lh | lw | ld | lbu | lhu | lwu => true
  | _ => false

/-- The uop codes with the store arm of `execute_module`. -/
def isStore : Uopc → Bool
  | sb | sh | sw | sd => true
  | _ => false

/-- The uop codes whose arm of `execute_module` can raise `mispredict`. -/
def isControl : Uopc → Bool
  | jal | jalr | beq | bne | blt | bge | bltu | bgeu => true
  | _ => false

end Uopc

/-- A control transfer, as `branch_module` recognizes it. -/
def BranchInfo.isTransfer (branch : BranchInfo) : Bool :=
  branch.isBr || branch.isJal || branch.isJalr

/-- What an arm of the switch makes of the uop that the code before the switch prepared. -/
structure DecodeSpec (base uop : MicroOp) : Prop where
  inst : uop.inst = base.inst
  debugPc : uop.debugPc = base.debugPc
  queue : uop.queue = base.queue
  rename : uop.rename = { base.rename with dstRtype := uop.rename.dstRtype }
  iqType : uop.iqType ≠ .fpu
  uopc : uop.uopc ≠ .nop
  exception : uop.exception = true ↔ uop.uopc = .illegal ∨ uop.uopc = .ecall
  ecall : uop.uopc = .ecall → rdOf base.inst = 0
  loadFlag : uop.ctrl.isLoad = decide (opcodeOf base.inst = 0x03)
  storeFlag : uop.ctrl.isSta = decide (opcodeOf base.inst = 0x23)
  load : uop.uopc.isLoad = (uop.ctrl.isLoad && !uop.exception)
  store : uop.uopc.isStore = (uop.ctrl.isSta && !uop.exception)
  storeDst : uop.ctrl.isSta = true → uop.rename.dstRtype = .n
  storeLegal : uop.ctrl.isSta = true → (uop.exception = true ↔ 3 < funct3Of base.inst)
  control : uop.uopc.isControl = true → uop.branch.isTransfer = true
  loadSize : uop.uopc.isLoad = true → uop.mem.memSize = funct3Of base.inst % 4 ∧
    uop.mem.memSigned = decide (funct3Of base.inst < 4)

theorem funct3Of_lt (inst : BitVec 32) : funct3Of inst < 8 := by
  have h : (inst >>> 12 &&& 7#32).toNat ≤ (7#32).toNat := by
    rw [BitVec.toNat_and]
    exact Nat.and_le_right
  exact Nat.lt_succ_of_le h

/-- A register field of an instruction word has five bits. -/
theorem regField_lt (inst : BitVec 32) (k : ℕ) :
    ((inst >>> k) &&& 0x1F#32).toNat < logicalRegCount := by
  have h : (inst >>> k &&& 0x1F#32).toNat ≤ (0x1F#32).toNat := by
    rw [BitVec.toNat_and]
    exact Nat.and_le_right
  exact Nat.lt_succ_of_le h

namespace MicroOp

variable {uop : MicroOp}

/-- The uop that enters the switch: no exception, no flags, the selectors at their defaults. -/
structure Fresh (uop : MicroOp) : Prop where
  exception : uop.exception = false
  isLoad : uop.ctrl.isLoad = false
  isSta : uop.ctrl.isSta = false

-- The arms are small combinations of these.
attribute [local simp] asMemory asIllegalCause asIllegal asBranch asCsr withUopc withOperands
  withDst Uopc.isLoad Uopc.isStore Uopc.isControl BranchInfo.isTransfer

theorem decodeLui_spec (h : Fresh uop) (hop : opcodeOf uop.inst = 0x37) :
    DecodeSpec uop uop.decodeLui := by
  constructor <;> simp [decodeLui, h.exception, h.isLoad, h.isSta, hop]

theorem decodeAuipc_spec (h : Fresh uop) (hop : opcodeOf uop.inst = 0x17) :
    DecodeSpec uop uop.decodeAuipc := by
  constructor <;> simp [decodeAuipc, h.exception, h.isLoad, h.isSta, hop]

theorem decodeJal_spec (h : Fresh uop) (hop : opcodeOf uop.inst = 0x6F) :
    DecodeSpec uop uop.decodeJal := by
  constructor <;> simp [decodeJal, h.exception, h.isLoad, h.isSta, hop]

theorem decodeJalr_spec (h : Fresh uop) (hop : opcodeOf uop.inst = 0x67) :
    DecodeSpec uop uop.decodeJalr := by
  constructor <;> simp [decodeJalr, h.exception, h.isLoad, h.isSta, hop]

theorem decodeBranch_spec (h : Fresh uop) (hop : opcodeOf uop.inst = 0x63) :
    DecodeSpec uop uop.decodeBranch := by
  unfold decodeBranch
  dsimp only
  split <;> constructor <;> simp [h.exception, h.isLoad, h.isSta, hop]

theorem decodeLoad_spec (h : Fresh uop) (hop : opcodeOf uop.inst = 0x03) :
    DecodeSpec uop uop.decodeLoad := by
  unfold decodeLoad
  dsimp only
  split <;> constructor <;> simp [h.exception, *]

theorem decodeStore_spec (h : Fresh uop) (hop : opcodeOf uop.inst = 0x23) :
    DecodeSpec uop uop.decodeStore := by
  have hlt := funct3Of_lt uop.inst
  unfold decodeStore
  dsimp only
  split <;> constructor <;> simp_all [h.exception]
  omega

theorem decodeOpImm_spec (h : Fresh uop) (hop : opcodeOf uop.inst = 0x13) :
    DecodeSpec uop uop.decodeOpImm := by
  unfold decodeOpImm
  dsimp only
  split <;> try split_ifs
  all_goals
    constructor <;> simp [h.exception, h.isLoad, h.isSta, hop]

theorem decodeOpImm32_spec (h : Fresh uop) (hop : opcodeOf uop.inst = 0x1B) :
    DecodeSpec uop uop.decodeOpImm32 := by
  unfold decodeOpImm32
  dsimp only
  split <;> try split_ifs
  all_goals
    constructor <;> simp [h.exception, h.isLoad, h.isSta, hop]

theorem decodeOp_spec (h : Fresh uop) (hop : opcodeOf uop.inst = 0x33) :
    DecodeSpec uop uop.decodeOp := by
  unfold decodeOp
  dsimp only
  split_ifs <;> split
  all_goals
    constructor <;> simp [h.exception, h.isLoad, h.isSta, hop]

theorem decodeOp32_spec (h : Fresh uop) (hop : opcodeOf uop.inst = 0x3B) :
    DecodeSpec uop uop.decodeOp32 := by
  unfold decodeOp32
  dsimp only
  split <;> try split_ifs
  all_goals
    constructor <;> simp [h.exception, h.isLoad, h.isSta, hop]

theorem decodeFence_spec (h : Fresh uop) (hop : opcodeOf uop.inst = 0x0F) :
    DecodeSpec uop uop.decodeFence := by
  constructor <;> simp [decodeFence, h.exception, h.isLoad, h.isSta, hop]

theorem decodeSystem_spec (h : Fresh uop) (hop : opcodeOf uop.inst = 0x73) :
    DecodeSpec uop uop.decodeSystem := by
  unfold decodeSystem
  dsimp only
  split_ifs with hf3 hecall
  · constructor <;> simp [h.isLoad, h.isSta, hop, hecall.1]
  · constructor <;> simp [h.exception, h.isLoad, h.isSta, hop]
  · split <;> constructor <;> simp [h.exception, h.isLoad, h.isSta, hop]

theorem decodeDefault_spec (h : Fresh uop) (hload : opcodeOf uop.inst ≠ 0x03)
    (hstore : opcodeOf uop.inst ≠ 0x23) : DecodeSpec uop uop.decodeDefault := by
  constructor <;> simp [decodeDefault, h.isLoad, h.isSta, hload, hstore]

end MicroOp

/-! ### Decoded instruction words -/

/-- The uop before the switch is fresh. -/
theorem decodeFields_fresh (pc : BitVec 64) (inst : BitVec 32) :
    (decodeFields pc inst).Fresh := ⟨rfl, rfl, rfl⟩

theorem decodeSwitch_spec {uop : MicroOp} (h : uop.Fresh) : DecodeSpec uop (decodeSwitch uop) := by
  unfold decodeSwitch
  split
  · exact MicroOp.decodeLui_spec h ‹_›
  · exact MicroOp.decodeAuipc_spec h ‹_›
  · exact MicroOp.decodeJal_spec h ‹_›
  · exact MicroOp.decodeJalr_spec h ‹_›
  · exact MicroOp.decodeBranch_spec h ‹_›
  · exact MicroOp.decodeLoad_spec h ‹_›
  · exact MicroOp.decodeStore_spec h ‹_›
  · exact MicroOp.decodeOpImm_spec h ‹_›
  · exact MicroOp.decodeOpImm32_spec h ‹_›
  · exact MicroOp.decodeOp_spec h ‹_›
  · exact MicroOp.decodeOp32_spec h ‹_›
  · exact MicroOp.decodeFence_spec h ‹_›
  · exact MicroOp.decodeSystem_spec h ‹_›
  · exact MicroOp.decodeDefault_spec h (by assumption) (by assumption)

/-- Every arm that yields `UOPC_ILLEGAL` has already raised the exception, so the fix-up after the
switch does nothing. -/
theorem decodeInst_eq_switch (pc : BitVec 64) (inst : BitVec 32) :
    decodeInst pc inst = decodeSwitch (decodeFields pc inst) := by
  have hspec := decodeSwitch_spec (decodeFields_fresh pc inst)
  unfold decodeInst
  dsimp only
  rw [if_neg]
  rintro ⟨hillegal, hexc⟩
  rw [hspec.exception.mpr (Or.inl hillegal)] at hexc
  simp at hexc

theorem decodeInst_spec (pc : BitVec 64) (inst : BitVec 32) :
    DecodeSpec (decodeFields pc inst) (decodeInst pc inst) := by
  rw [decodeInst_eq_switch]
  exact decodeSwitch_spec (decodeFields_fresh pc inst)

/-- Only branches, `JAL` and `JALR` are control transfers. -/
theorem decodeInst_control {pc : BitVec 64} {inst : BitVec 32}
    (h : (decodeInst pc inst).uopc.isControl = true) :
    opcodeOf inst = 0x63 ∨ opcodeOf inst = 0x67 ∨ opcodeOf inst = 0x6F := by
  rw [decodeInst_eq_switch] at h
  change opcodeOf (decodeFields pc inst).inst = 0x63 ∨
    opcodeOf (decodeFields pc inst).inst = 0x67 ∨ opcodeOf (decodeFields pc inst).inst = 0x6F
  generalize decodeFields pc inst = uop at h ⊢
  unfold decodeSwitch at h
  split at h
  case h_3 hop => exact Or.inr (Or.inr hop)
  case h_4 hop => exact Or.inr (Or.inl hop)
  case h_5 hop => exact Or.inl hop
  all_goals
    exfalso
    revert h
    simp only [MicroOp.decodeLui, MicroOp.decodeAuipc, MicroOp.decodeLoad, MicroOp.decodeStore,
      MicroOp.decodeOpImm, MicroOp.decodeOpImm32, MicroOp.decodeOp, MicroOp.decodeOp32,
      MicroOp.decodeFence, MicroOp.decodeSystem, MicroOp.decodeDefault]
    repeat' split
    all_goals exact Bool.noConfusion

end BoomCore
