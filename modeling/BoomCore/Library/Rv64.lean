import Mathlib.Data.BitVec
import Mathlib.Data.Nat.Notation

/-!
# The instructions of RV64

The 64-bit computational instructions of the base integer set and `MUL`, those on 32-bit words, and
the control transfers: their operands, the words that encode them, the values that they write to
their destination, and the addresses that they go to. A word is put together from
its fields (`rType`, `iType`, `uType`), and `toNat_rType` and its siblings read it as a number, from
which a decoder's masks and shifts get the fields back.
-/

set_option autoImplicit false
set_option relaxedAutoImplicit false

namespace Rv64

/-! ### Instruction formats -/

def rType (funct7 : BitVec 7) (rs2 rs1 : BitVec 5) (funct3 : BitVec 3) (rd : BitVec 5)
    (opcode : BitVec 7) : BitVec 32 := funct7 ++ rs2 ++ rs1 ++ funct3 ++ rd ++ opcode

def iType (imm : BitVec 12) (rs1 : BitVec 5) (funct3 : BitVec 3) (rd : BitVec 5)
    (opcode : BitVec 7) : BitVec 32 := imm ++ rs1 ++ funct3 ++ rd ++ opcode

def uType (imm : BitVec 20) (rd : BitVec 5) (opcode : BitVec 7) : BitVec 32 :=
  imm ++ rd ++ opcode

/-- `imm` holds bits 12 to 1 of the offset. -/
def bType (imm : BitVec 12) (rs2 rs1 : BitVec 5) (funct3 : BitVec 3) (opcode : BitVec 7) :
    BitVec 32 :=
  rType (imm.extractLsb' 11 1 ++ imm.extractLsb' 4 6) rs2 rs1 funct3
    (imm.extractLsb' 0 4 ++ imm.extractLsb' 10 1) opcode

/-- `imm` holds bits 20 to 1 of the offset. -/
def jType (imm : BitVec 20) (rd : BitVec 5) (opcode : BitVec 7) : BitVec 32 :=
  uType (imm.extractLsb' 19 1 ++ imm.extractLsb' 0 10 ++ imm.extractLsb' 10 1 ++
    imm.extractLsb' 11 8) rd opcode

theorem toNat_append {m n : ℕ} (x : BitVec m) (y : BitVec n) :
    (x ++ y).toNat = x.toNat * 2 ^ n + y.toNat := by
  rw [BitVec.toNat_append, ← Nat.shiftLeft_add_eq_or_of_lt y.isLt, Nat.shiftLeft_eq]

theorem toNat_iType (imm : BitVec 12) (rs1 : BitVec 5) (funct3 : BitVec 3) (rd : BitVec 5)
    (opcode : BitVec 7) :
    (iType imm rs1 funct3 rd opcode).toNat =
      (((imm.toNat * 2 ^ 5 + rs1.toNat) * 2 ^ 3 + funct3.toNat) * 2 ^ 5 + rd.toNat) * 2 ^ 7 +
        opcode.toNat := by
  unfold iType
  simp only [toNat_append]

theorem toNat_uType (imm : BitVec 20) (rd : BitVec 5) (opcode : BitVec 7) :
    (uType imm rd opcode).toNat = (imm.toNat * 2 ^ 5 + rd.toNat) * 2 ^ 7 + opcode.toNat := by
  unfold uType
  simp only [toNat_append]

/-! ### Operations -/

/-- Operations on two registers. -/
inductive RegOp | add | sub | sll | slt | sltu | xor | srl | sra | or | and | mul
  deriving DecidableEq

/-- Operations on a register and a 12-bit immediate. -/
inductive ImmOp | addi | slti | sltiu | xori | ori | andi
  deriving DecidableEq

/-- Shifts by an immediate amount. -/
inductive ShiftOp | slli | srli | srai
  deriving DecidableEq

namespace RegOp

def funct7 : RegOp → BitVec 7
  | sub | sra => 0b0100000#7
  | mul => 0b0000001#7
  | _ => 0#7

def funct3 : RegOp → BitVec 3
  | add | sub | mul => 0#3
  | sll => 1#3
  | slt => 2#3
  | sltu => 3#3
  | xor => 4#3
  | srl | sra => 5#3
  | or => 6#3
  | and => 7#3

/-- The result for the source values `a` and `b`. A shift amount is the low six bits of `b`. -/
def value (a b : BitVec 64) : RegOp → BitVec 64
  | add => a + b
  | sub => a - b
  | sll => a <<< (b.setWidth 6).toNat
  | slt => if a.slt b then 1 else 0
  | sltu => if a.ult b then 1 else 0
  | xor => a ^^^ b
  | srl => a >>> (b.setWidth 6).toNat
  | sra => a.sshiftRight (b.setWidth 6).toNat
  | or => a ||| b
  | and => a &&& b
  | mul => a * b

end RegOp

namespace ImmOp

def funct3 : ImmOp → BitVec 3
  | addi => 0#3
  | slti => 2#3
  | sltiu => 3#3
  | xori => 4#3
  | ori => 6#3
  | andi => 7#3

/-- The result for the source value `a`. The immediate is sign extended, for the unsigned comparison
as well. -/
def value (a : BitVec 64) (imm : BitVec 12) : ImmOp → BitVec 64
  | addi => a + imm.signExtend 64
  | slti => if a.slt (imm.signExtend 64) then 1 else 0
  | sltiu => if a.ult (imm.signExtend 64) then 1 else 0
  | xori => a ^^^ imm.signExtend 64
  | ori => a ||| imm.signExtend 64
  | andi => a &&& imm.signExtend 64

end ImmOp

namespace ShiftOp

/-- The bits of the word above the shift amount. -/
def funct6 : ShiftOp → BitVec 6
  | srai => 0b010000#6
  | _ => 0#6

def funct3 : ShiftOp → BitVec 3
  | slli => 1#3
  | srli | srai => 5#3

def value (a : BitVec 64) (shamt : BitVec 6) : ShiftOp → BitVec 64
  | slli => a <<< shamt.toNat
  | srli => a >>> shamt.toNat
  | srai => a.sshiftRight shamt.toNat

end ShiftOp

/-! ### Instructions -/

inductive Instr
  | op (f : RegOp) (rd rs1 rs2 : BitVec 5)
  | opImm (f : ImmOp) (rd rs1 : BitVec 5) (imm : BitVec 12)
  | opShift (f : ShiftOp) (rd rs1 : BitVec 5) (shamt : BitVec 6)
  | lui (rd : BitVec 5) (imm : BitVec 20)
  | auipc (rd : BitVec 5) (imm : BitVec 20)
  deriving DecidableEq

namespace Instr

/-- The word of an instruction. -/
def encode : Instr → BitVec 32
  | op f rd rs1 rs2 => rType f.funct7 rs2 rs1 f.funct3 rd 0b0110011#7
  | opImm f rd rs1 imm => iType imm rs1 f.funct3 rd 0b0010011#7
  | opShift f rd rs1 shamt => iType (f.funct6 ++ shamt) rs1 f.funct3 rd 0b0010011#7
  | lui rd imm => uType imm rd 0b0110111#7
  | auipc rd imm => uType imm rd 0b0010111#7

/-- The immediate of the upper-immediate instructions. -/
def upperImm (imm : BitVec 20) : BitVec 32 := imm ++ 0#12

/-- What the instruction at `pc` writes to its destination, when the registers hold `x`. -/
def value (x : BitVec 5 → BitVec 64) (pc : BitVec 64) : Instr → BitVec 64
  | op f _ rs1 rs2 => f.value (x rs1) (x rs2)
  | opImm f _ rs1 imm => f.value (x rs1) imm
  | opShift f _ rs1 shamt => f.value (x rs1) shamt
  | lui _ imm => (upperImm imm).signExtend 64
  | auipc _ imm => pc + (upperImm imm).signExtend 64

end Instr

/-! ### Operations on words -/

/-- Operations on the low words of two registers. -/
inductive WordOp | addw | subw | sllw | srlw | sraw
  deriving DecidableEq

/-- Shifts of the low word by an immediate amount. -/
inductive WordShift | slliw | srliw | sraiw
  deriving DecidableEq

namespace WordOp

def funct7 : WordOp → BitVec 7
  | subw | sraw => 0b0100000#7
  | _ => 0#7

def funct3 : WordOp → BitVec 3
  | addw | subw => 0#3
  | sllw => 1#3
  | srlw | sraw => 5#3

/-- The 32-bit result for the low words `a` and `b`. A shift amount is the low five bits of `b`. -/
def value (a b : BitVec 32) : WordOp → BitVec 32
  | addw => a + b
  | subw => a - b
  | sllw => a <<< (b.setWidth 5).toNat
  | srlw => a >>> (b.setWidth 5).toNat
  | sraw => a.sshiftRight (b.setWidth 5).toNat

end WordOp

namespace WordShift

def funct7 : WordShift → BitVec 7
  | sraiw => 0b0100000#7
  | _ => 0#7

def funct3 : WordShift → BitVec 3
  | slliw => 1#3
  | srliw | sraiw => 5#3

def value (a : BitVec 32) (shamt : BitVec 5) : WordShift → BitVec 32
  | slliw => a <<< shamt.toNat
  | srliw => a >>> shamt.toNat
  | sraiw => a.sshiftRight shamt.toNat

end WordShift

inductive WordInstr
  | op (f : WordOp) (rd rs1 rs2 : BitVec 5)
  | addiw (rd rs1 : BitVec 5) (imm : BitVec 12)
  | shift (f : WordShift) (rd rs1 shamt : BitVec 5)
  deriving DecidableEq

namespace WordInstr

def encode : WordInstr → BitVec 32
  | op f rd rs1 rs2 => rType f.funct7 rs2 rs1 f.funct3 rd 0b0111011#7
  | addiw rd rs1 imm => iType imm rs1 0#3 rd 0b0011011#7
  | shift f rd rs1 shamt => rType f.funct7 shamt rs1 f.funct3 rd 0b0011011#7

/-- The 32-bit result when the registers hold `x`. -/
def word (x : BitVec 5 → BitVec 64) : WordInstr → BitVec 32
  | op f _ rs1 rs2 => f.value ((x rs1).setWidth 32) ((x rs2).setWidth 32)
  | addiw _ rs1 imm => (x rs1).setWidth 32 + imm.signExtend 32
  | shift f _ rs1 shamt => f.value ((x rs1).setWidth 32) shamt

/-- What the instruction writes to its destination: the 32-bit result, sign extended. -/
def value (x : BitVec 5 → BitVec 64) (i : WordInstr) : BitVec 64 := (i.word x).signExtend 64

end WordInstr

/-! ### Control transfers -/

/-- The comparisons of the conditional branches. -/
inductive BranchOp | beq | bne | blt | bge | bltu | bgeu
  deriving DecidableEq

namespace BranchOp

def funct3 : BranchOp → BitVec 3
  | beq => 0#3
  | bne => 1#3
  | blt => 4#3
  | bge => 5#3
  | bltu => 6#3
  | bgeu => 7#3

def holds (a b : BitVec 64) : BranchOp → Bool
  | beq => a == b
  | bne => a != b
  | blt => a.slt b
  | bge => b.sle a
  | bltu => a.ult b
  | bgeu => b.ule a

end BranchOp

inductive Transfer
  | jal (rd : BitVec 5) (imm : BitVec 20)
  | jalr (rd rs1 : BitVec 5) (imm : BitVec 12)
  | branch (f : BranchOp) (rs1 rs2 : BitVec 5) (imm : BitVec 12)
  deriving DecidableEq

namespace Transfer

def encode : Transfer → BitVec 32
  | jal rd imm => jType imm rd 0b1101111#7
  | jalr rd rs1 imm => iType imm rs1 0#3 rd 0b1100111#7
  | branch f rs1 rs2 imm => bType imm rs2 rs1 f.funct3 0b1100011#7

/-- The transfer writes the address behind it to its destination. -/
def links : Transfer → Bool
  | jal .. | jalr .. => true
  | branch .. => false

/-- The transfer does not go on to the next instruction, when the registers hold `x`. -/
def taken (x : BitVec 5 → BitVec 64) : Transfer → Bool
  | jal .. | jalr .. => true
  | branch f rs1 rs2 _ => f.holds (x rs1) (x rs2)

/-- The offset of a transfer in multiples of two, sign extended. -/
def offset {n : ℕ} (imm : BitVec n) : BitVec 64 := (imm ++ 0#1).signExtend 64

/-- Where a taken transfer at `pc` goes. -/
def target (x : BitVec 5 → BitVec 64) (pc : BitVec 64) : Transfer → BitVec 64
  | jal _ imm => pc + offset imm
  | jalr _ rs1 imm => (x rs1 + imm.signExtend 64) &&& ~~~1#64
  | branch _ _ _ imm => pc + offset imm

/-- The address of the instruction behind a transfer at `pc`. -/
def nextPc (x : BitVec 5 → BitVec 64) (pc : BitVec 64) (i : Transfer) : BitVec 64 :=
  if i.taken x then i.target x pc else pc + 4

end Transfer

end Rv64
