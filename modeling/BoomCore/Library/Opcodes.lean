import Mathlib.Data.BitVec
import Mathlib.Data.Nat.Notation

/-!
# The opcode table of RV64I, `MUL` and the system instructions

For every instruction the bits of a word that are fixed (`mask`) and their values (`value`). A word
encodes an instruction when its fixed bits have these values (`Encodes`); the others are operands.
-/

set_option autoImplicit false
set_option relaxedAutoImplicit false

namespace Rv64

inductive Mnemonic
  | lui | auipc | jal | jalr
  | beq | bne | blt | bge | bltu | bgeu
  | lb | lh | lw | ld | lbu | lhu | lwu
  | sb | sh | sw | sd
  | addi | slti | sltiu | xori | ori | andi | slli | srli | srai
  | add | sub | sll | slt | sltu | xor | srl | sra | or | and | mul
  | addiw | slliw | srliw | sraiw
  | addw | subw | sllw | srlw | sraw
  | fence | ecall | ebreak | mret | wfi
  | csrrw | csrrs | csrrc | csrrwi | csrrsi | csrrci
  deriving DecidableEq

namespace Mnemonic

def mask : Mnemonic → BitVec 32
  | lui | auipc | jal => 0x7F
  | slli | srli | srai => 0xFC00707F
  | add | sub | sll | slt | sltu | xor | srl | sra | or | and | mul
  | slliw | srliw | sraiw | addw | subw | sllw | srlw | sraw => 0xFE00707F
  | ecall | ebreak | mret | wfi => 0xFFFFFFFF
  | _ => 0x707F

def value : Mnemonic → BitVec 32
  | lui => 0x00000037
  | auipc => 0x00000017
  | jal => 0x0000006F
  | jalr => 0x00000067
  | beq => 0x00000063
  | bne => 0x00001063
  | blt => 0x00004063
  | bge => 0x00005063
  | bltu => 0x00006063
  | bgeu => 0x00007063
  | lb => 0x00000003
  | lh => 0x00001003
  | lw => 0x00002003
  | ld => 0x00003003
  | lbu => 0x00004003
  | lhu => 0x00005003
  | lwu => 0x00006003
  | sb => 0x00000023
  | sh => 0x00001023
  | sw => 0x00002023
  | sd => 0x00003023
  | addi => 0x00000013
  | slti => 0x00002013
  | sltiu => 0x00003013
  | xori => 0x00004013
  | ori => 0x00006013
  | andi => 0x00007013
  | slli => 0x00001013
  | srli => 0x00005013
  | srai => 0x40005013
  | add => 0x00000033
  | sub => 0x40000033
  | sll => 0x00001033
  | slt => 0x00002033
  | sltu => 0x00003033
  | xor => 0x00004033
  | srl => 0x00005033
  | sra => 0x40005033
  | or => 0x00006033
  | and => 0x00007033
  | mul => 0x02000033
  | addiw => 0x0000001B
  | slliw => 0x0000101B
  | srliw => 0x0000501B
  | sraiw => 0x4000501B
  | addw => 0x0000003B
  | subw => 0x4000003B
  | sllw => 0x0000103B
  | srlw => 0x0000503B
  | sraw => 0x4000503B
  | fence => 0x0000000F
  | ecall => 0x00000073
  | ebreak => 0x00100073
  | mret => 0x30200073
  | wfi => 0x10500073
  | csrrw => 0x00001073
  | csrrs => 0x00002073
  | csrrc => 0x00003073
  | csrrwi => 0x00005073
  | csrrsi => 0x00006073
  | csrrci => 0x00007073

end Mnemonic

/-- The fixed bits of the word are those of the instruction. -/
def Encodes (w : BitVec 32) (m : Mnemonic) : Prop := w &&& m.mask = m.value

instance (w : BitVec 32) (m : Mnemonic) : Decidable (Encodes w m) :=
  inferInstanceAs (Decidable (_ = _))

/-- Only the bits of the mask are fixed. -/
theorem Mnemonic.value_and_mask (m : Mnemonic) : m.value &&& m.mask = m.value := by
  cases m <;> rfl

end Rv64
