import BoomCore.Model.State
import Mathlib.Algebra.Group.Nat.Defs

/-!
# Execution and branch resolution

`src/execute.cpp` and `src/branch.cpp`. `executeUop` is the switch as a function of the two source
operands; `executeModule` reads the operands from the physical register file and writes the
result of everything but a load back in the same step.
-/

set_option autoImplicit false
set_option relaxedAutoImplicit false

namespace BoomCore

/-- `sext32`: the low word, sign extended. -/
def sext32 (v : BitVec 32) : BitVec 64 := v.signExtend 64

def maskForSize (size : Nat) : BitVec 8 :=
  if 3 ≤ size then 0xFF#8 else BitVec.ofNat 8 (2 ^ (2 ^ size) - 1)

/-- The low 32 bits of a register, `(int32_t)rs`. -/
def low32 (v : BitVec 64) : BitVec 32 := v.setWidth 32

namespace MicroOp

/-- `(int64_t)(int32_t)uop.imm_packed`. -/
def immSext (uop : MicroOp) : BitVec 64 := uop.immPacked.signExtend 64

def op1 (uop : MicroOp) (rs1 : BitVec 64) : BitVec 64 :=
  match uop.ctrl.op1Sel with
  | .pc => uop.debugPc
  | _ => rs1

def op2 (uop : MicroOp) (rs2 : BitVec 64) : BitVec 64 :=
  match uop.ctrl.op2Sel with
  | .imm | .imz => uop.immSext
  | .imu => uop.immPacked.setWidth 64
  | _ => rs2

/-- `uop.imm_packed & 0x1F`, the shift amount of the word shifts. -/
def shamt5 (uop : MicroOp) : Nat := (uop.immPacked &&& 0x1F#32).toNat

/-- Shift amount of the 64-bit shifts. -/
def shamt6 (uop : MicroOp) (rs2 : BitVec 64) : Nat := (uop.op2 rs2 &&& 0x3F#64).toNat

/-- A conditional branch: redirect to `pc + imm` when the comparison holds. -/
def branchResult (uop : MicroOp) (taken : Bool) : AluResult :=
  { mispredict := taken, redirectPc := uop.debugPc + uop.immSext }

/-- The load and store arms. -/
def memoryResult (uop : MicroOp) (rs1 : BitVec 64) : AluResult :=
  { memoryValid := true, memorySize := uop.mem.memSize
    memoryAddress := rs1 + uop.immSext, memoryMask := maskForSize uop.mem.memSize
    result := rs1 + uop.immSext }

/-- The switch over `uop.uopc`. Uops without an arm of their own, `SRLW`, `SRLIW` and the CSR
instructions among them, have the result zero. -/
def executeSwitch (uop : MicroOp) (rs1 rs2 : BitVec 64) : AluResult :=
  match uop.uopc with
  | .add | .addi => { result := uop.op1 rs1 + uop.op2 rs2 }
  | .sub => { result := uop.op1 rs1 - uop.op2 rs2 }
  | .sll | .slli => { result := uop.op1 rs1 <<< uop.shamt6 rs2 }
  | .slt | .slti => { result := if (uop.op1 rs1).slt (uop.op2 rs2) then 1 else 0 }
  | .sltu | .sltiu => { result := if rs1.ult rs2 then 1 else 0 }
  | .xor | .xori => { result := uop.op1 rs1 ^^^ uop.op2 rs2 }
  | .srl | .srli => { result := rs1 >>> uop.shamt6 rs2 }
  | .sra | .srai => { result := (uop.op1 rs1).sshiftRight (uop.shamt6 rs2) }
  | .or | .ori => { result := uop.op1 rs1 ||| uop.op2 rs2 }
  | .and | .andi => { result := uop.op1 rs1 &&& uop.op2 rs2 }
  | .addw | .addiw => { result := sext32 (low32 rs1 + uop.immPacked) }
  | .subw => { result := sext32 (low32 rs1 - low32 rs2) }
  | .sllw | .slliw => { result := sext32 (low32 rs1 <<< uop.shamt5) }
  | .sraw | .sraiw => { result := sext32 ((low32 rs1).sshiftRight uop.shamt5) }
  | .mul => { result := (low32 rs1).signExtend 64 * (low32 rs2).signExtend 64 }
  | .jal =>
    { result := uop.debugPc + 4, mispredict := true, redirectPc := uop.debugPc + uop.immSext }
  | .jalr =>
    { result := uop.debugPc + 4, mispredict := true
      redirectPc := (rs1 + uop.immSext) &&& ~~~1#64 }
  | .beq => uop.branchResult (decide (rs1 = rs2))
  | .bne => uop.branchResult (decide (rs1 ≠ rs2))
  | .blt => uop.branchResult (rs1.slt rs2)
  | .bge => uop.branchResult (!rs1.slt rs2)
  | .bltu => uop.branchResult (rs1.ult rs2)
  | .bgeu => uop.branchResult (!rs1.ult rs2)
  | .lui => { result := uop.immPacked.setWidth 64 }
  | .auipc => { result := uop.debugPc + uop.immPacked.setWidth 64 }
  | .lb | .lh | .lw | .ld | .lbu | .lhu | .lwu =>
    { uop.memoryResult rs1 with isLoad := true, signedLoad := uop.mem.memSigned }
  | .sb | .sh | .sw | .sd => { uop.memoryResult rs1 with isStore := true, storeData := rs2 }
  | _ => {}

end MicroOp

/-- The `AluResult` of a uop from the values of its two source operands. -/
def executeUop (uop : MicroOp) (rs1 rs2 : BitVec 64) : AluResult :=
  { uop.executeSwitch rs1 rs2 with
    valid := true, uop := uop
    exception := uop.exception
    excCause := if uop.exception then uop.excCause else 0 }

/-- The value of a source operand: physical register zero reads as zero. -/
def readOperand (intRf : CArray (BitVec 64)) (prs : Nat) : BitVec 64 :=
  if prs ≠ 0 then intRf prs else 0

/-- The write-back of `execute_module`. -/
def writeBack (intRf : CArray (BitVec 64)) (r : AluResult) : CArray (BitVec 64) :=
  if !r.isLoad && decide (r.uop.rename.dstRtype = .int) && decide (r.uop.rename.pdst ≠ 0) then
    Function.update intRf r.uop.rename.pdst r.result
  else intRf

/-- `execute_module`. -/
def executeModule (state : BoomCoreState) : BoomCoreState :=
  if state.issue.issuedValid then
    let uop := state.issue.issuedUop
    let r := executeUop uop (readOperand state.intRf uop.rename.prs1)
      (readOperand state.intRf uop.rename.prs2)
    { state with execute := { aluResult := r }, intRf := writeBack state.intRf r }
  else { state with execute := { aluResult := {} } }

/-- The result is of a conditional branch, `JAL` or `JALR` and redirects the frontend. -/
def AluResult.redirects (r : AluResult) : Bool :=
  r.valid && r.mispredict && (r.uop.branch.isBr || r.uop.branch.isJal || r.uop.branch.isJalr)

/-- `branch_module`. -/
def branchModule (state : BoomCoreState) : BoomCoreState :=
  if state.execute.aluResult.redirects then
    { state with
      brupdate :=
        { valid := true, mispredict := true
          jalrTarget := state.execute.aluResult.redirectPc, mispredictMask := 1 } }
  else state

/-- `csr_module`. -/
def csrModule (state : BoomCoreState) : BoomCoreState :=
  { state with csr := { state.csr with cycle := state.csr.cycle + 1 } }

end BoomCore
